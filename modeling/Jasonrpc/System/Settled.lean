import Jasonrpc.System

/-!
# No request and no reply is lost

A call waits only while its request or its reply is on the way (`OnTheWay`).  So when both ends of a
connection have read what the other end has written, and wait for more, every call that waits has its
reply (`settled`).  A call that waits has its whole frame on the wire, behind
whole frames (`Waits`), so that the server has dispatched it; and no frame was received before the
call that it answers was registered (`Matched`), so that the reply was not dropped.
-/

namespace Jasonrpc

open ByteString Machine Incremental
open Server (entriesOf payloadsOf mem_entriesOf exists_of_mem_payloadsOf)

variable {B : Backend} {C σ : Type}

theorem Call.exit_ne_waiting (call : Call) (r : Outcome) : call.exit r ≠ .waiting := by
  rw [exit]
  cases call.operation <;> exact fun h => by cases h

theorem Call.operation_of_released {call : Call} (h : call.released = .waiting) :
    call.operation = .roundTrip := by
  rw [released] at h
  cases hop : call.operation with
  | roundTrip => rfl
  | sendNotification =>
    rw [hop] at h
    cases h

namespace MultiplexTransport

variable {f : Framing} {s s' : MultiplexTransport} {a : Action} {c : ℕ}

/-! ## Calls that wait -/

theorem frame_of_step (h : Step B f s a s') {call : Call} (hcall : s.calls c = some call) :
    s'.frame f c = s.frame f c := by
  obtain ⟨call', hcall', hmessage⟩ := exists_call_of_step h hcall
  rw [frame_of_call hcall, frame_of_call hcall', message_of_call hcall, message_of_call hcall',
    hmessage]

/-- The frame of a call is on the wire, behind frames of calls. -/
def Sent (f : Framing) (s : MultiplexTransport) (c : ℕ) : Prop :=
  ∃ before : List ℕ, (∀ x ∈ before ++ [c], ∃ call, s.calls x = some call) ∧
    (before ++ [c]).flatMap (s.frame f) <+: s.wire

theorem Sent.step (h : s.Sent f c) (hstep : Step B f s a s') : s'.Sent f c := by
  obtain ⟨before, hcalls, hwire⟩ := h
  have hframes : (before ++ [c]).flatMap (s'.frame f) = (before ++ [c]).flatMap (s.frame f) := by
    apply List.flatMap_congr
    intro x hx
    obtain ⟨call, hcall⟩ := hcalls x hx
    exact frame_of_step hstep hcall
  refine ⟨before, fun x hx => ?_, ?_⟩
  · obtain ⟨call, hcall⟩ := hcalls x hx
    obtain ⟨call', hcall', -⟩ := exists_call_of_step hstep hcall
    exact ⟨call', hcall'⟩
  · rw [hframes]
    exact hwire.trans (wire_grows hstep)

theorem Framed.sent {done : List ℕ} (h : Framed f s done) {call : Call}
    (hcall : s.calls c = some call) (hphase : call.phase = .writing s.writeBuf.length) :
    s.Sent f c := by
  obtain ⟨hbuf, -, hwire⟩ := h.writing hcall hphase
  refine ⟨done, fun x hx => ?_, ?_⟩
  · rcases List.mem_append.1 hx with hx | hx
    · obtain ⟨callx, hcallx, -⟩ := h.settled hx
      exact ⟨callx, hcallx⟩
    · exact ⟨call, List.mem_singleton.1 hx ▸ hcall⟩
  · rw [List.flatMap_append, List.flatMap_singleton, frame_of_call hcall, message_of_call hcall,
      ← hbuf, hwire, List.take_length]

/-- A call that waits for a reply has sent its frame. -/
def Waits (f : Framing) (s : MultiplexTransport) : Prop :=
  ∀ c call, s.calls c = some call → call.phase = .waiting →
    call.operation = .roundTrip ∧ s.Sent f c

theorem Waits.step {done : List ℕ} (h : s.Waits f) (hframed : Framed f s done)
    (hstep : Step B f s a s') : s'.Waits f := by
  intro c call hcall hwaiting
  rcases hstep.call_cases hcall with
    ⟨-, _, _, -, rfl⟩ | ⟨call₀, ca, phase, hcall₀, rfl, hcallStep, rfl⟩ | ⟨hcall₀, -⟩
  · cases hwaiting
  · -- of the actions of a call only the flush lets it wait
    cases hcallStep with
    | flushed hphase =>
      rw [eq_of_calls_setPhase hcall] at hwaiting
      exact ⟨Call.operation_of_released hwaiting, (hframed.sent hcall₀ hphase).step hstep⟩
    | check =>
      rw [eq_of_calls_setPhase hcall] at hwaiting
      rcases s.afterCheck_cases (B := B) call₀ with ⟨-, h⟩ | h | ⟨_, h⟩ <;>
        cases h.symm.trans hwaiting
    | fail | cancel | cancelWriting =>
      rw [eq_of_calls_setPhase hcall] at hwaiting
      exact absurd hwaiting (call₀.exit_ne_waiting _)
    | insert | acquire | write | reply | closed | cancelReady | unguard =>
      rw [eq_of_calls_setPhase hcall] at hwaiting
      cases hwaiting
  · obtain ⟨hop, hsent⟩ := h c call hcall₀ hwaiting
    exact ⟨hop, hsent.step hstep⟩

/-! ## Frames and the registered calls -/

/-- No received frame carries the id of a registered call. -/
def Matched (B : Backend) (s : MultiplexTransport) : Prop :=
  ∀ id c frame, s.pending id = some c → frame ∈ s.received → parseId B frame ≠ some id

/-- A step keeps this, unless it registers a call under the id of a received frame. -/
theorem Matched.step (h : s.Matched B) (hstep : Step B f s a s')
    (hinsert : ∀ c call id, a = .call c .insert → s.calls c = some call → call.phase.early →
      call.id B = some id → ∀ frame ∈ s.received, parseId B frame ≠ some id) : s'.Matched B := by
  have hremoved {id₀ : Id} {received : List Bytes}
      (hreceived : ∀ frame ∈ received, frame ∈ s.received ∨ parseId B frame = some id₀) :
      ∀ id c frame, Function.update s.pending id₀ none id = some c → frame ∈ received →
        parseId B frame ≠ some id := by
    intro id c frame hpending hframe
    obtain ⟨hne, hpending⟩ := Table.of_remove hpending
    rcases hreceived frame hframe with hframe | hid
    · exact h id c frame hpending hframe
    · rw [hid]
      exact fun heq => hne (Option.some.inj heq).symm
  cases hstep with
  | start => exact h
  | call hcall hcallStep =>
    cases hcallStep with
    | @insert id₀ hphase hid =>
      intro id c' frame hpending hframe
      rcases Table.of_update hpending with ⟨rfl, rfl⟩ | ⟨-, hpending⟩
      · exact hinsert _ _ _ rfl hcall (by rw [hphase]; rfl) hid frame hframe
      · exact h id c' frame hpending hframe
    | unguard => exact hremoved fun frame hframe => .inl hframe
    | check | acquire | write | flushed | fail | reply | closed | cancelReady | cancel
    | cancelWriting => exact h
  | reader hreaderStep =>
    cases hreaderStep with
    | take _ hid =>
      refine hremoved fun frame hframe => ?_
      rcases List.mem_append.1 hframe with hframe | hframe
      · exact .inl hframe
      · exact .inr (List.mem_singleton.1 hframe ▸ hid)
    | stray _ hunknown =>
      intro id c' frame hpending hframe
      rcases List.mem_append.1 hframe with hframe | hframe
      · exact h id c' frame hpending hframe
      · obtain rfl := List.mem_singleton.1 hframe
        intro hid
        cases (hunknown id hid).symm.trans hpending
    | deliver | stop => exact h
    | clear =>
      intro id c' frame hpending
      cases hpending

end MultiplexTransport

/-- The calls of `round_trip` have ids. -/
def Client.Requests (s : Client) : Prop :=
  ∀ c call, s.transport.calls c = some call → call.operation = .roundTrip →
    ∃ id, s.idOf c = some id

theorem Client.Requests.step {f : Framing} {s s' : Client} {a : ClientAction B} (h : s.Requests)
    (hstep : s.step B f a = some s') : s'.Requests := by
  intro c call hcall hop
  -- a call that was there has kept its id
  have hold {call₀ : Call} (hcall₀ : s.transport.calls c = some call₀)
      (hop₀ : call₀.operation = .roundTrip) : ∃ id, s'.idOf c = some id := by
    obtain ⟨id, hid⟩ := h c call₀ hcall₀ hop₀
    obtain ⟨-, -, -, hidOf⟩ := exists_call_of_step hstep hcall₀
    exact ⟨id, hidOf.trans hid⟩
  have hmoved {ta : Action} {t : MultiplexTransport} (htransport : s'.transport = t)
      (hmove : s.transport.step B f ta = some t) (hstart : ∀ c operation message,
        ta ≠ .start c operation message) : ∃ id, s'.idOf c = some id := by
    rw [htransport] at hcall
    rcases (MultiplexTransport.Step.of_step hmove).call_cases hcall with
      ⟨-, _, _, heq, -⟩ | ⟨call₀, _, _, hcall₀, -, -, rfl⟩ | ⟨hcall₀, -⟩
    · exact absurd heq (hstart _ _ _)
    · exact hold hcall₀ hop
    · exact hold hcall₀ hop
  cases Step.of_step hstep with
  | failed => exact hold hcall hop
  | @call c₀ _ _ _ id _ _ hstarted =>
    by_cases hc : c = c₀
    · exact ⟨id, by rw [hc]; exact Function.update_self ..⟩
    · cases MultiplexTransport.Step.of_step hstarted with
      | start => exact hold ((Function.update_of_ne hc ..).symm.trans hcall) hop
  | skipped => exact hold hcall hop
  | notify hstarted =>
    cases MultiplexTransport.Step.of_step hstarted with
    | start =>
      rcases Table.of_update hcall with ⟨-, rfl⟩ | ⟨-, hcall₀⟩
      · cases hop
      · exact hold hcall₀ hop
  | poll hmove => exact hmoved rfl hmove fun _ _ _ h => by cases h
  | reader hmove => exact hmoved rfl hmove fun _ _ _ h => by cases h

namespace System

variable [Inhabited C] {router : Router B C σ} {f : Framing} {fits : Bytes → Prop}
  {w : World B C σ} {s s' : System B C σ} {a : SystemAction B} {k : ℕ} {peer : Peer}

/-! ## The clients of the system -/

/-- What holds of a client in every state, beside what `Sound` says. -/
structure Tracked (B : Backend) (f : Framing) (peer : Peer) : Prop where
  requests : peer.client.Requests
  waits : peer.client.transport.Waits f
  matched : peer.client.issued < 2 ^ 64 → peer.client.transport.Matched B

namespace Tracked

/-- The client takes a step. -/
theorem client (h : Tracked B f peer) (hsound : peer.Sound B f fits)
    (hnew : peer.client.issued < 2 ^ 64 → ∀ c call id, peer.client.transport.calls c = some call →
      call.phase.early → peer.client.idOf c = some id →
        ∀ frame ∈ peer.client.transport.received, parseId B frame ≠ some id)
    {ca : ClientAction B} {client : Client} (hok : peer.client.Allowed fits ca)
    (hstep : peer.client.step B f ca = some client) (inbox : FramedReader) :
    Tracked B f { client, inbox } := by
  have hissued (hfew : client.issued < 2 ^ 64) : peer.client.issued < 2 ^ 64 := by
    cases Client.Step.of_step hstep with
    | failed | call => exact Nat.lt_of_succ_lt hfew
    | skipped | notify | poll | reader => exact hfew
  constructor
  · exact h.requests.step hstep
  · show client.transport.Waits f
    rcases Client.transport_cases hok hstep with heq | ⟨ta, hmove, -, -, -⟩
    · rw [heq]
      exact h.waits
    · obtain ⟨done, hframed⟩ := hsound.framed
      exact h.waits.step hframed hmove
  · intro hfew
    have hfew := hissued hfew
    show client.transport.Matched B
    rcases Client.transport_cases hok hstep with heq | ⟨ta, hmove, -, -, -⟩
    · rw [heq]
      exact h.matched hfew
    · apply (h.matched hfew).step hmove
      intro c call id _ hcall hearly hid
      exact hnew hfew c call id hcall hearly ((hsound.client.numbered.id_eq hcall).symm.trans hid)

end Tracked

theorem Sound.parseId_ne (h : Sound router f fits w s) (law : B.Lawful) (hf : Lawful f.decode)
    (hcarries : ∀ p, fits p → Carries f.decode f.encode p) (hpeer : s.peers k = some peer)
    (hfew : peer.client.issued < 2 ^ 64) (c : ℕ) (call : Call) (id : Id)
    (hcall : peer.client.transport.calls c = some call) (hearly : call.phase.early)
    (hid : peer.client.idOf c = some id) :
    ∀ frame ∈ peer.client.transport.received, parseId B frame ≠ some id := by
  intro frame hframe hparse
  obtain ⟨c', call', id', hcall', hlate, hid', hparse'⟩ :=
    h.exists_call_of_received law hf hcarries hpeer hframe
  obtain rfl := Option.some.inj (hparse'.symm.trans hparse)
  obtain rfl := (h.peer hpeer).client.numbered.unique hfew.le hid' hid
  obtain rfl := Option.some.inj (hcall'.symm.trans hcall)
  rw [hlate] at hearly
  cases hearly

/-- Every client of the system is tracked. -/
theorem tracked_of_step (h : ∀ {k : ℕ} {peer : Peer}, s.peers k = some peer → Tracked B f peer)
    (hsound : Sound router f fits w s) (law : B.Lawful) (hf : Lawful f.decode)
    (hcarries : ∀ p, fits p → Carries f.decode f.encode p) (hok : s.Allowed router fits a)
    (hstep : s.step router f a = some s') {k : ℕ} {peer : Peer} (hpeer : s'.peers k = some peer) :
    Tracked B f peer := by
  cases Step.of_step hstep with
  | dial =>
    rcases Table.of_update hpeer with ⟨rfl, rfl⟩ | ⟨-, hpeer⟩
    · constructor
      · exact fun _ _ hcall => by cases hcall
      · exact fun _ _ hcall => by cases hcall
      · exact fun _ _ _ _ hpending => by cases hpending
    · exact h hpeer
  | @peer _ _ peer₀ _ hpeer₀ _ hdone =>
    rcases Table.of_update hpeer with ⟨rfl, rfl⟩ | ⟨-, hpeer⟩
    · have hok : peer₀.Allowed fits _ := hok peer₀ hpeer₀
      have hnew := hsound.parseId_ne law hf hcarries hpeer₀
      have htracked := h hpeer₀
      have hreader (ra : ReaderAction) := Client.allowed_reader (B := B) fits peer₀.client ra
      cases hdone with
      | client _ hmove => exact htracked.client (hsound.peer hpeer₀) hnew hok hmove _
      | again => exact ⟨htracked.requests, htracked.waits, htracked.matched⟩
      | take _ hmove | stop _ hmove =>
        exact htracked.client (hsound.peer hpeer₀) hnew (hreader _) hmove _
    · exact h hpeer
  | server => exact h hpeer

/-! ## Where a request or its reply is -/

/-- Where the request or the reply of a call that waits is. -/
inductive OnTheWay (router : Router B C σ) (f : Framing) (w : World B C σ) (s : System B C σ)
    (k c : ℕ) (peer : Peer) (call : Call) : Prop where
  /-- The request is written, and not dispatched. -/
  | request (sent : peer.client.transport.Sent f c)
    (undispatched : (k, call.message) ∉ s.server.log)
  /-- It is dispatched, and the client has not received the reply to it. -/
  | reply {before after : List (ℕ × Bytes)} {conn : ServeConn} {frame : Bytes}
    (log_eq : s.server.log = before ++ (k, call.message) :: after)
    (conn_eq : s.server.conns k = some conn) (replied : frame ∈ conn.replies)
    (payload_eq : (router.handleBytes call.message (router.handleAll before w).2).1.payload =
      some frame)
    (unreceived : frame ∉ peer.client.transport.received)
  /-- The client's reader is about to deliver the reply. -/
  | held {frame : Bytes} (reader_eq : peer.client.transport.reader = .holding c frame)
  /-- The reply is there for the call's next poll. -/
  | arrived {frame : Bytes} (reply_eq : peer.client.transport.replies c = some frame)
  /-- The client's reader has returned, and the connection is dead. -/
  | ended (reader_eq : peer.client.transport.reader = .returned)

/-- A call waits only while its request or its reply is on the way. -/
theorem Sound.onTheWay (h : Sound router f fits w s) (htracked : Tracked B f peer) (law : B.Lawful)
    (hpeer : s.peers k = some peer) (hfew : peer.client.issued < 2 ^ 64) {c : ℕ} {call : Call}
    (hcall : peer.client.transport.calls c = some call) (hwaiting : call.phase = .waiting) :
    s.OnTheWay router f w k c peer call := by
  have hclient := (h.peer hpeer).client
  obtain ⟨hop, hsent⟩ := htracked.waits c call hcall hwaiting
  obtain ⟨id, hid⟩ := htracked.requests c call hcall hop
  by_cases hmem : (k, call.message) ∈ s.server.log
  swap
  · exact .request hsent hmem
  -- the server has answered it
  obtain ⟨before, after, hlog⟩ := List.append_of_mem hmem
  obtain ⟨req, hreq, hreqId, -⟩ := (h.peer hpeer).encoded c call hcall
  obtain ⟨frame, hpayload, hparse⟩ :=
    exists_payload law router req (hreqId.trans hid) (router.handleAll before w).2
  rw [← hreq] at hpayload
  by_cases hreceived : frame ∈ peer.client.transport.received
  · -- so it is not registered any more
    cases hreply : peer.client.transport.replies c with
    | some frame => exact .arrived hreply
    | none =>
      by_cases hreturned : peer.client.transport.reader = .returned
      · exact .ended hreturned
      · rcases (hclient.kept hfew.le).registered hcall ((hclient.numbered.id_eq hcall).trans hid)
          (by rw [hwaiting]; rfl) hreply hreturned with hstored | ⟨frame', hholding⟩
        · exact absurd hparse (htracked.matched hfew id c frame hstored hreceived)
        · exact .held hholding
  · have hsends : frame ∈ payloadsOf router w k s.server.log := by
      rw [hlog]
      exact Server.mem_payloadsOf router w before after hpayload
    cases hconn : s.server.conns k with
    | none =>
      rw [(h.server.fresh hconn).2] at hsends
      cases hsends
    | some conn =>
      rw [← (h.server.conn hconn).replies_eq] at hsends
      exact .reply hlog hconn hsends hpayload hreceived

/-! ## Connections at rest -/

/-- Both ends of the connection have read what the other has written, and wait for more. -/
structure AtRest (f : Framing) (s : System B C σ) (k : ℕ) (peer : Peer) (conn : ServeConn) :
    Prop where
  asked : conn.reader.read = s.wireOf k
  serving : conn.phase = .receiving
  drained : f.decode conn.reader.core.readBuf = .ok none
  told : peer.inbox.read = s.writtenOf k
  receiving : peer.client.transport.reader = .receiving
  emptied : f.decode peer.inbox.core.readBuf = .ok none

instance (f : Framing) (s : System B C σ) (k : ℕ) (peer : Peer) (conn : ServeConn) :
    Decidable (s.AtRest f k peer conn) :=
  decidable_of_iff (conn.reader.read = s.wireOf k ∧ conn.phase = .receiving ∧
      f.decode conn.reader.core.readBuf = .ok none ∧ peer.inbox.read = s.writtenOf k ∧
        peer.client.transport.reader = .receiving ∧ f.decode peer.inbox.core.readBuf = .ok none)
    ⟨fun ⟨h₁, h₂, h₃, h₄, h₅, h₆⟩ => ⟨h₁, h₂, h₃, h₄, h₅, h₆⟩,
      fun ⟨h₁, h₂, h₃, h₄, h₅, h₆⟩ => ⟨h₁, h₂, h₃, h₄, h₅, h₆⟩⟩

namespace AtRest

variable {conn : ServeConn} {c : ℕ} {call : Call}

/-- What a call has sent is dispatched. -/
theorem mem_log (h : s.AtRest f k peer conn) (hsound : Sound router f fits w s)
    (hcarries : ∀ p, fits p → Carries f.decode f.encode p) (hpeer : s.peers k = some peer)
    (hconn : s.server.conns k = some conn) (hcall : peer.client.transport.calls c = some call)
    (hsent : peer.client.transport.Sent f c) : (k, call.message) ∈ s.server.log := by
  obtain ⟨before, hcalls, tail, hwire⟩ := hsent
  have hmessages : ∀ m ∈ (before ++ [c]).map peer.client.transport.message,
      Carries f.decode f.encode m := by
    intro m hm
    obtain ⟨x, hx, rfl⟩ := List.mem_map.1 hm
    obtain ⟨callx, hcallx⟩ := hcalls x hx
    obtain ⟨-, -, -, hfits⟩ := (hsound.peer hpeer).encoded x callx hcallx
    rw [MultiplexTransport.message_of_call hcallx]
    exact hcarries _ hfits
  have hframes : (before ++ [c]).flatMap (peer.client.transport.frame f) =
      ((before ++ [c]).map peer.client.transport.message).flatMap f.encode := by
    rw [List.flatMap_map]
    apply List.flatMap_congr
    intro x hx
    obtain ⟨callx, hcallx⟩ := hcalls x hx
    exact MultiplexTransport.frame_of_call hcallx
  have hsent := cuts_flatMap hmessages tail
  rw [← hframes, hwire, ← wireOf_of_peer hpeer, ← h.asked] at hsent
  have hheard := (hsound.server.conn hconn).heard (by rw [h.serving]; exact fun h => by cases h)
  rw [ServeConn.pending, h.serving, List.append_nil] at hheard
  have hstuck : Stuck f.decode conn.reader.core.readBuf := fun m n hframe => by
    rw [h.drained] at hframe
    cases hframe
  rw [← mem_entriesOf]
  apply (hsent.isPrefix hheard hstuck).subset
  rw [List.map_append, List.map_singleton, MultiplexTransport.message_of_call hcall]
  exact List.mem_append_right _ List.mem_cons_self

/-- All replies are received. -/
theorem received_eq (h : s.AtRest f k peer conn) (hsound : Sound router f fits w s)
    (hf : Lawful f.decode) (hcarries : ∀ p, fits p → Carries f.decode f.encode p)
    (hpeer : s.peers k = some peer) (hconn : s.server.conns k = some conn) :
    peer.client.transport.received = payloadsOf router w k s.server.log := by
  have hserve := hsound.server.conn hconn
  have htold := hserve.told
  rw [ServeConn.Told, h.serving] at htold
  have hreplies := cuts_flatMap (fun p hp => hcarries p (hsound.fit hconn p hp)) ([] : Bytes)
  rw [List.append_nil, ← htold, ← writtenOf_of_conn hconn, ← h.told] at hreplies
  have hheard := (hsound.peer hpeer).heard (by rw [h.receiving]; rfl)
  have hstuck : Stuck f.decode peer.inbox.core.readBuf := fun m n hframe => by
    rw [h.emptied] at hframe
    cases hframe
  rw [← hserve.replies_eq]
  exact (hheard.unique hstuck hreplies hf.stuck_nil).1

/-- A call that waits has its reply. -/
theorem exists_reply (h : s.AtRest f k peer conn) (hsound : Sound router f fits w s)
    (hf : Lawful f.decode) (hcarries : ∀ p, fits p → Carries f.decode f.encode p)
    (hpeer : s.peers k = some peer) (hconn : s.server.conns k = some conn)
    (hcall : peer.client.transport.calls c = some call)
    (hway : s.OnTheWay router f w k c peer call) :
    ∃ frame, peer.client.transport.replies c = some frame := by
  cases hway with
  | request hsent hnot =>
    exact absurd (h.mem_log hsound hcarries hpeer hconn hcall hsent) hnot
  | reply hlog _ _ hpayload hnot =>
    refine absurd ?_ hnot
    rw [h.received_eq hsound hf hcarries hpeer hconn, hlog]
    exact Server.mem_payloadsOf router w _ _ hpayload
  | held hreader => cases h.receiving.symm.trans hreader
  | arrived hreply => exact ⟨_, hreply⟩
  | ended hreader => cases h.receiving.symm.trans hreader

end AtRest

/-- A call that waits and has its reply returns it. -/
theorem exists_step_receive (hpeer : s.peers k = some peer) {c : ℕ} {call : Call} {frame : Bytes}
    (hcall : peer.client.transport.calls c = some call) (hwaiting : call.phase = .waiting)
    (hreply : peer.client.transport.replies c = some frame) :
    ∃ s', s.step router f (.peer k (.client (.poll c .receive))) = some s' ∧
      s'.reached k c = some (peer.client.issued, .done (.reply frame)) := by
  have hmove : peer.client.transport.step B f (.call c .receive) =
      some (peer.client.transport.setPhase c call (.done (.reply frame))) := by
    rw [MultiplexTransport.step, hcall, Option.bind_some, MultiplexTransport.callStep,
      if_pos hwaiting, hreply]
  let client : Client := { peer.client with
    transport := peer.client.transport.setPhase c call (.done (.reply frame)) }
  have hclient : peer.client.step B f (.poll c .receive) = some client := by
    rw [Client.step, hmove]
    rfl
  have hstep : peer.step B f (.client (.poll c .receive)) = some { peer with client } := by
    show (peer.client.step B f (.poll c .receive)).map _ = _
    rw [hclient]
    rfl
  have harrived : peer.Arrived (s.writtenOf k) (.client (B := B) (.poll c .receive)) := trivial
  refine ⟨s.setPeer k { peer with client }, ?_, ?_⟩
  · rw [System.step, hpeer, Option.bind_some, if_pos harrived, hstep]
    rfl
  · have hset : (s.setPeer k { peer with client }).peers k = some { peer with client } :=
      Function.update_self ..
    have hdone : client.transport.calls c = some { call with phase := .done (.reply frame) } :=
      Function.update_self ..
    rw [reached, hset, Option.bind_some, hdone]
    rfl

/-- No request and no reply is lost: in every run in which the messages fit and no call is abandoned
in the middle of its frame, a call waits only while its request or its reply is on the way; and once its
connection is at rest it returns its reply when it is polled. -/
theorem settled (law : B.Lawful) {codec : Codec}
    (hc : codec = .netstring ∨ codec = .contentLength) {width : ℕ} (hwidth : width ≤ 64)
    (router : Router B C σ) (w : World B C σ) (s : System B C σ)
    (hreach : Reach (System.step router (codec.framing width)) (Allowed router (codec.Fits width))
      (.new w) s) {k c : ℕ} {peer : Peer} {call : Call} (hpeer : s.peers k = some peer)
    (hfew : peer.client.issued < 2 ^ 64) (hcall : peer.client.transport.calls c = some call)
    (hwaiting : call.phase = .waiting) :
    s.OnTheWay router (codec.framing width) w k c peer call ∧
      ∀ conn, s.server.conns k = some conn → s.AtRest (codec.framing width) k peer conn →
        ∃ frame s', s.step router (codec.framing width)
            (.peer k (.client (.poll c .receive))) = some s' ∧
          s'.reached k c = some (peer.client.issued, .done (.reply frame)) := by
  have hf := Codec.lawful width codec
  have heof : (codec.framing width).takeOnEof = false := Codec.takeOnEof_eq hc
  have hcarries (p : Bytes) (hp : codec.Fits width p) := Codec.carries_of_fits hc hwidth hp
  let I (s : System B C σ) : Prop := Sound router (codec.framing width) (codec.Fits width) w s ∧
    ∀ k peer, s.peers k = some peer → Tracked B (codec.framing width) peer
  obtain ⟨hsound, htracked⟩ : I s := by
    apply hreach.invariant (I := I)
    · exact ⟨.new router _ _ w, fun _ _ h => by cases h⟩
    · rintro s a s' ⟨hsound, htracked⟩ hok hstep
      refine ⟨hsound.step law hf heof hok hstep, fun k peer hpeer => ?_⟩
      exact tracked_of_step (fun h => htracked _ _ h) hsound law hf hcarries hok hstep hpeer
  have hway := hsound.onTheWay (htracked k peer hpeer) law hpeer hfew hcall hwaiting
  refine ⟨hway, fun conn hconn hrest => ?_⟩
  obtain ⟨frame, hreply⟩ := hrest.exists_reply hsound hf hcarries hpeer hconn hcall hway
  exact ⟨frame, exists_step_receive hpeer hcall hwaiting hreply⟩

section Sample

open JsonText

/-- Both calls are answered, and the first client's has not returned yet. -/
def restRun : List (SystemAction backend) :=
  dialRun ++ .peer 0 (.client (.call 0 "get" (.ok backend.null))) :: replyRun.dropLast

/-- The connection `k`, with its call `c`, when it is at rest. -/
def restingAt (f : Framing) (s : System B C σ) (k c : ℕ) : Option (ℕ × Phase) :=
  (s.peers k).bind fun peer =>
    (s.server.conns k).bind fun conn =>
      if s.AtRest f k peer conn then
        (peer.client.transport.calls c).map fun call => (peer.client.issued, call.phase)
      else none

theorem settled_restRun : ∃ s, answerRun (.new ⟨(), []⟩) restRun = some s ∧
    (∃ peer call, s.OnTheWay answerRouter (Codec.netstring.framing 64) ⟨(), []⟩ 0 0 peer call) ∧
      ∃ frame s', s.step answerRouter (Codec.netstring.framing 64)
          (.peer 0 (.client (.poll 0 .receive))) = some s' ∧
        s'.reached 0 0 = some (1, .done (.reply frame)) := by
  have hrests : (answerRun (.new ⟨(), []⟩) restRun).map
      (fun s => s.restingAt (Codec.netstring.framing 64) 0 0) = some (some (1, .waiting)) := by
    decide +kernel
  obtain ⟨s, hrun, hresting⟩ := Option.map_eq_some_iff.1 hrests
  obtain ⟨peer, hpeer, hresting⟩ := Option.bind_eq_some_iff.1 hresting
  obtain ⟨conn, hconn, hresting⟩ := Option.bind_eq_some_iff.1 hresting
  rw [Option.ite_none_right_eq_some] at hresting
  obtain ⟨hrest, hresting⟩ := hresting
  obtain ⟨call, hcall, hphase⟩ := Option.map_eq_some_iff.1 hresting
  obtain ⟨hissued, hwaiting⟩ := Prod.mk.inj hphase
  obtain ⟨hway, hreturns⟩ := settled lawful (.inl (rfl : Codec.netstring = _)) le_rfl answerRouter
    ⟨(), []⟩ s (reach_of_run restRun hrun) hpeer (by rw [hissued]; decide) hcall hwaiting
  rw [hissued] at hreturns
  exact ⟨s, hrun, ⟨peer, call, hway⟩, hreturns conn hconn hrest⟩

end Sample

end System

end Jasonrpc
