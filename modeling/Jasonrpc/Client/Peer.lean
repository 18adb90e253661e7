import Jasonrpc.Client.Correlation
import Jasonrpc.Client.Wire
import Jasonrpc.Transport.Turn

/-!
# A client's end of a connection

A client over a multiplexed transport, with the read half that its reader task owns.  The frames that
the task takes are those that `recv` returns, so in every state they are cut from the bytes read, and
the bytes written are messages of different calls, framed (`Sound`).
-/

namespace Jasonrpc

open ByteString Machine Incremental

variable {B : Backend}

/-! ## The messages of the calls -/

theorem Phase.early_of_settled {phase : Phase} (h : phase.settled) : phase.early = false := by
  cases phase <;> first | rfl | cases h

/-- The reader receives, or holds a frame that it has received. -/
def ReaderTask.isOpen : ReaderTask → Bool
  | receiving | holding .. => true
  | flagged | returned => false

namespace MultiplexTransport

variable {f : Framing} {s s' : MultiplexTransport} {c : ℕ}

/-- The message of a call. -/
def message (s : MultiplexTransport) (c : ℕ) : Bytes := ((s.calls c).map Call.message).getD []

theorem Framed.new (f : Framing) : Framed f new [] where
  nodup := List.nodup_nil
  settled h := by cases h
  locked h := by cases h
  free _ := rfl
  held h := by cases h

theorem message_of_call {call : Call} (hcall : s.calls c = some call) :
    s.message c = call.message := by
  rw [message, hcall]
  rfl

theorem frame_of_call {call : Call} (hcall : s.calls c = some call) :
    s.frame f c = f.encode (s.message c) := by
  rw [frame, message, hcall]
  rfl

theorem wire_grows {a : Action} (h : Step B f s a s') : s.wire <+: s'.wire := by
  cases h with
  | start => exact List.prefix_rfl
  | call _ hstep =>
    cases hstep with
    | write => exact List.prefix_append _ _
    | check | insert | acquire | flushed | fail | reply | closed | cancelReady | cancel
    | cancelWriting | unguard => exact List.prefix_rfl
  | reader hstep => cases hstep <;> exact List.prefix_rfl

/-- The wire holds the messages of the calls `order`, framed, and then at most a part of one more. -/
structure Sends (f : Framing) (s : MultiplexTransport) (order : List ℕ) (tail : Bytes) : Prop where
  nodup : order.Nodup
  started {c : ℕ} : c ∈ order → ∃ call, s.calls c = some call ∧ call.phase.early = false
  wire_eq : s.wire = (order.map s.message).flatMap f.encode ++ tail
  torn : tail = [] ∨ ∃ c call, s.calls c = some call ∧ tail <+: f.encode call.message ∧
    tail ≠ f.encode call.message

theorem Framed.exists_sends {done : List ℕ} (h : Framed f s done) :
    ∃ order tail, Sends f s order tail := by
  have hdone : ∀ c ∈ done, ∃ call, s.calls c = some call ∧ call.phase.early = false := fun c hc => by
    obtain ⟨call, hcall, hsettled⟩ := h.settled hc
    exact ⟨call, hcall, Phase.early_of_settled hsettled⟩
  have hframes : done.flatMap (s.frame f) = (done.map s.message).flatMap f.encode := by
    rw [List.flatMap_map]
    apply List.flatMap_congr
    intro c hc
    obtain ⟨call, hcall, -⟩ := hdone c hc
    exact frame_of_call hcall
  cases hwriter : s.writer with
  | none =>
    refine ⟨done, [], h.nodup, hdone _, ?_, .inl rfl⟩
    rw [h.free hwriter, hframes, List.append_nil]
  | some c =>
    obtain ⟨call, sent, hcall, hphase, hbuf, hle, hwire⟩ := h.held hwriter
    rw [hframes, hbuf] at hwire
    by_cases hall : (f.encode call.message).take sent = f.encode call.message
    · refine ⟨done ++ [c], [], ?_, fun {x} hx => ?_, ?_, .inl rfl⟩
      · refine List.Nodup.append h.nodup (List.nodup_singleton c) (List.disjoint_singleton.2 ?_)
        exact h.notMem hcall (by rw [hphase]; rfl)
      · rcases List.mem_append.1 hx with hx | hx
        · exact hdone x hx
        · exact ⟨call, List.mem_singleton.1 hx ▸ hcall, by rw [hphase]; rfl⟩
      · rw [List.map_append, List.flatMap_append, List.map_singleton, List.flatMap_singleton,
          message_of_call hcall, hwire, hall, List.append_nil]
    · exact ⟨done, _, h.nodup, hdone _, hwire, .inr ⟨c, call, hcall, List.take_prefix _ _, hall⟩⟩

/-- Frames cut from the start of the wire are the first of the messages sent. -/
theorem Sends.isPrefix_of_cuts {order : List ℕ} {tail read rest : Bytes} {ks : List Bytes}
    (h : Sends f s order tail) (law : Lawful f.decode)
    (hcarries : ∀ c call, s.calls c = some call → Carries f.decode f.encode call.message)
    (hread : read <+: s.wire) (hcuts : Cuts f.decode read ks rest) : ks <+: order.map s.message := by
  have hmessages : ∀ m ∈ order.map s.message, Carries f.decode f.encode m := by
    intro m hm
    obtain ⟨c, hc, rfl⟩ := List.mem_map.1 hm
    obtain ⟨call, hcall, -⟩ := h.started hc
    rw [message_of_call hcall]
    exact hcarries c call hcall
  have hstuck : Stuck f.decode tail := by
    rcases h.torn with rfl | ⟨c, call, hcall, htail, hne⟩
    · exact law.stuck_nil
    · exact law.stuck_of_isPrefix (hcarries c call hcall) htail hne
  apply law.isPrefix_of_cuts hmessages hstuck hcuts
  rwa [← h.wire_eq]

/-- A call keeps its message. -/
theorem exists_call_of_step {a : Action} (h : Step B f s a s') {call : Call}
    (hcall : s.calls c = some call) :
    ∃ call', s'.calls c = some call' ∧ call'.message = call.message := by
  cases h with
  | start hfresh =>
    have hne : c ≠ _ := fun heq => by cases (heq ▸ hcall).symm.trans hfresh
    exact ⟨call, (Function.update_of_ne hne ..).trans hcall, rfl⟩
  | @call c₁ call₁ _ _ hcall₁ hstep =>
    obtain ⟨phase, hcalls⟩ := hstep.calls_eq
    rw [hcalls]
    by_cases hc : c = c₁
    · subst hc
      obtain rfl := Option.some.inj (hcall.symm.trans hcall₁)
      exact ⟨_, Function.update_self .., rfl⟩
    · exact ⟨call, (Function.update_of_ne hc ..).trans hcall, rfl⟩
  | reader hstep => exact ⟨call, by rwa [hstep.calls_eq], rfl⟩

theorem received_of_step {a : Action} (h : Step B f s a s') (hown : ∀ frame, a ≠ .reader (.take frame)) :
    s'.received = s.received ∧ (s'.reader.isOpen → s.reader.isOpen) := by
  cases h with
  | start => exact ⟨rfl, id⟩
  | call _ hstep =>
    obtain ⟨hreader, -, hreceived, -⟩ := hstep.reader_eq
    exact ⟨hreceived, fun h => hreader ▸ h⟩
  | reader hstep =>
    cases hstep with
    | take | stray => exact absurd rfl (hown _)
    | deliver hholding => exact ⟨rfl, fun _ => by rw [hholding]; rfl⟩
    | stop => exact ⟨rfl, fun h => by cases h⟩
    | clear => exact ⟨rfl, fun h => by cases h⟩

theorem received_of_take {frame : Bytes} (h : Step B f s (.reader (.take frame)) s') :
    s'.received = s.received ++ [frame] ∧ s.reader = .receiving := by
  cases h with
  | reader hstep => cases hstep <;> exact ⟨rfl, ‹_›⟩

theorem closed_of_stop (h : Step B f s (.reader .stop) s') : s'.reader.isOpen = false := by
  cases h with
  | reader hstep =>
    cases hstep
    rfl

end MultiplexTransport

namespace Client

variable {f : Framing} {fits : Bytes → Prop} {s s' : Client} {a : ClientAction B}

/-- The messages of the calls are requests with the ids that the calls were given, and fit. -/
def Encoded (B : Backend) (fits : Bytes → Prop) (s : Client) : Prop :=
  ∀ c call, s.transport.calls c = some call → ∃ req : Request B,
    call.message = B.get req.serialize ∧ req.id = s.idOf c ∧ fits call.message

/-- A message that a client encodes fits. -/
def FitsIf (fits : Bytes → Prop) : Except (ClientError B MultiplexError) Bytes → Prop
  | .ok bytes => fits bytes
  | .error _ => True

instance [DecidablePred fits] (encoded : Except (ClientError B MultiplexError) Bytes) :
    Decidable (FitsIf fits encoded) := by
  unfold FitsIf
  split <;> infer_instance

/-- A step encodes only messages that fit, and abandons none in the middle of its frame. -/
def Allowed (fits : Bytes → Prop) (s : Client) : ClientAction B → Prop
  | .call _ method params =>
    FitsIf fits ((encodeCall MultiplexError method (fun params => params) params
      s.ids.nextId.1).map Prod.fst)
  | .notify _ method params =>
    FitsIf fits (encodeNotification MultiplexError method (fun params => params) params)
  | .poll c a => s.transport.AbandonsWhole (.call c a)
  | .reader _ => True

instance [DecidablePred fits] (s : Client) (a : ClientAction B) : Decidable (s.Allowed fits a) := by
  unfold Allowed
  split <;> infer_instance

theorem exists_of_encodeNotification {E P : Type} {method : String} {ser : Serialize B P} {params : P}
    {bytes : Bytes} (h : encodeNotification E method ser params = .ok bytes) :
    ∃ req : Request B, bytes = B.get req.serialize ∧ req.id = none := by
  cases hparams : ser params with
  | error e =>
    rw [encodeNotification, Request.tryNotification, toRawValue, hparams] at h
    cases h
  | ok raw =>
    rw [encodeNotification, Request.tryNotification, toRawValue, hparams] at h
    obtain rfl := Except.ok.inj h
    exact ⟨_, rfl, rfl⟩

theorem exists_of_encodeCall {E P : Type} {method : String} {ser : Serialize B P} {params : P}
    {id id' : Id} {bytes : Bytes} (h : encodeCall E method ser params id = .ok (bytes, id')) :
    id' = id ∧ ∃ req : Request B, bytes = B.get req.serialize ∧ req.id = some id := by
  cases hparams : ser params with
  | error e =>
    rw [encodeCall, Request.tryCall, toRawValue, hparams] at h
    cases h
  | ok raw =>
    rw [encodeCall_eq_ok hparams] at h
    obtain ⟨rfl, rfl⟩ := Prod.mk.inj (Except.ok.inj h)
    exact ⟨rfl, _, rfl, rfl⟩

theorem allowed_reader (fits : Bytes → Prop) (s : Client) (a : ReaderAction) :
    Allowed (B := B) fits s (.reader a) := trivial

/-- A client acts on its transport, or leaves it alone. -/
theorem transport_cases (hok : s.Allowed fits a) (h : s.step B f a = some s') :
    s'.transport = s.transport ∨ ∃ ta, MultiplexTransport.Step B f s.transport ta s'.transport ∧
      s.transport.step B f ta = some s'.transport ∧ s.transport.AbandonsWhole ta ∧
        ∀ ra, ta = .reader ra → a = .reader ra := by
  have hcases {ta : Action} {t : MultiplexTransport} (hstep : s.transport.step B f ta = some t)
      (htransport : s'.transport = t) (hwhole : s.transport.AbandonsWhole ta)
      (hreader : ∀ ra, ta = .reader ra → a = .reader ra) : ∃ ta,
        MultiplexTransport.Step B f s.transport ta s'.transport ∧
          s.transport.step B f ta = some s'.transport ∧ s.transport.AbandonsWhole ta ∧
            ∀ ra, ta = .reader ra → a = .reader ra :=
    ⟨ta, htransport ▸ .of_step hstep, htransport ▸ hstep, hwhole, hreader⟩
  cases a with
  | call c method params =>
    rw [Client.step] at h
    dsimp only at h
    split at h
    · obtain rfl := Option.some.inj h
      exact .inl rfl
    · obtain ⟨t, hstart, rfl⟩ := Option.map_eq_some_iff.1 h
      exact .inr (hcases hstart rfl trivial fun _ h => by cases h)
  | notify c method params =>
    rw [Client.step] at h
    split at h
    · obtain rfl := Option.some.inj h
      exact .inl rfl
    · obtain ⟨t, hstart, rfl⟩ := Option.map_eq_some_iff.1 h
      exact .inr (hcases hstart rfl trivial fun _ h => by cases h)
  | poll c a =>
    obtain ⟨t, hstep, rfl⟩ := Option.map_eq_some_iff.1 h
    exact .inr (hcases hstep rfl hok fun _ h => by cases h)
  | reader a =>
    obtain ⟨t, hstep, rfl⟩ := Option.map_eq_some_iff.1 h
    exact .inr (hcases hstep rfl trivial fun _ h => by cases h; rfl)

theorem wire_grows (hok : s.Allowed fits a) (h : s.step B f a = some s') :
    s.transport.wire <+: s'.transport.wire := by
  rcases transport_cases hok h with heq | ⟨_, hstep, -, -, -⟩
  · rw [heq]
  · exact MultiplexTransport.wire_grows hstep

theorem Sound.exists_id_of_reply (h : s.Sound B) {c : ℕ} {call : Call} {frame : Bytes}
    (hcall : s.transport.calls c = some call) (hphase : call.phase = .done (.reply frame)) :
    (∃ id, s.idOf c = some id ∧ parseId B frame = some id) ∧ frame ∈ s.transport.received := by
  have hreply := h.registry.returned hcall hphase
  obtain ⟨call', hcall', -, id, hframe, hid⟩ := h.registry.answered hreply
  obtain rfl := Option.some.inj (hcall.symm.trans hcall')
  obtain ⟨n, hmem⟩ := h.history.answered hreply
  obtain ⟨frame', hreceived, hreply'⟩ := h.history.handed hmem
  obtain rfl := Option.some.inj (hreply.symm.trans hreply')
  exact ⟨⟨id, (h.numbered.id_eq hcall).symm.trans hid, hframe⟩, List.mem_of_getElem? hreceived⟩

/-- A call keeps its message and its id. -/
theorem exists_call_of_step (h : s.step B f a = some s') {c : ℕ} {call : Call}
    (hcall : s.transport.calls c = some call) : ∃ call', s'.transport.calls c = some call' ∧
      call'.message = call.message ∧ s'.idOf c = s.idOf c := by
  have hkept {ta : Action} {t : MultiplexTransport} (hstep : s.transport.step B f ta = some t) :=
    MultiplexTransport.exists_call_of_step (.of_step hstep) hcall
  cases Step.of_step h with
  | failed => exact ⟨call, hcall, rfl, rfl⟩
  | @call c₁ _ _ _ id t hencoded hstarted =>
    obtain ⟨call', hcall', hmessage⟩ := hkept hstarted
    have hne : c ≠ c₁ := by
      rintro rfl
      cases MultiplexTransport.Step.of_step hstarted with
      | start hfresh => cases hcall.symm.trans hfresh
    exact ⟨call', hcall', hmessage, Function.update_of_ne hne ..⟩
  | skipped => exact ⟨call, hcall, rfl, rfl⟩
  | notify hstarted =>
    obtain ⟨call', hcall', hmessage⟩ := hkept hstarted
    exact ⟨call', hcall', hmessage, rfl⟩
  | poll hstepped =>
    obtain ⟨call', hcall', hmessage⟩ := hkept hstepped
    exact ⟨call', hcall', hmessage, rfl⟩
  | reader hstepped =>
    obtain ⟨call', hcall', hmessage⟩ := hkept hstepped
    exact ⟨call', hcall', hmessage, rfl⟩

theorem step_call {c : ℕ} {method : String} {raw : B.Raw}
    (h : s.step B f (.call c method (.ok raw)) = some s') : s.transport.calls c = none ∧
      (∃ call, s'.transport.calls c = some call ∧ call.message =
        B.get { method, params := some raw, id := some s.ids.nextId.1 : Request B }.serialize) ∧
        s'.idOf c = some s.ids.nextId.1 := by
  rw [Client.step] at h
  dsimp only at h
  rw [encodeCall_eq_ok (s := fun params => params) rfl] at h
  obtain ⟨t, hstart, rfl⟩ := Option.map_eq_some_iff.1 h
  cases MultiplexTransport.Step.of_step hstart with
  | start hfresh =>
    exact ⟨hfresh, ⟨_, Function.update_self .., rfl⟩, Function.update_self ..⟩

namespace Encoded

theorem new (fits : Bytes → Prop) : Encoded B fits new := fun c call h => by cases h

theorem start (h : Encoded B fits s) {t : MultiplexTransport} {c : ℕ} {operation : Operation}
    {bytes : Bytes} (hstart : s.transport.step B f (.start c operation bytes) = some t)
    (s' : Client) (htransport : s'.transport = t) {req : Request B}
    (hbytes : bytes = B.get req.serialize) (hid : s'.idOf = Function.update s.idOf c req.id)
    (hfits : fits bytes) : Encoded B fits s' := by
  intro c' call hcall
  rw [htransport] at hcall
  rw [hid]
  cases MultiplexTransport.Step.of_step hstart with
  | start hfresh =>
    rcases Table.of_update hcall with ⟨rfl, rfl⟩ | ⟨hne, hcall⟩
    · exact ⟨req, hbytes, by rw [Function.update_self], hfits⟩
    · rw [Function.update_of_ne hne]
      exact h c' call hcall

theorem move (h : Encoded B fits s) {t : MultiplexTransport} {a : Action}
    (hstep : s.transport.step B f a = some t) (hstart : ∀ c operation bytes, a ≠ .start c operation bytes) :
    Encoded B fits { s with transport := t } := by
  intro c call hcall
  rcases (MultiplexTransport.Step.of_step hstep).call_cases hcall with
    ⟨-, _, _, heq, -⟩ | ⟨call₀, _, phase, hcall₀, -, -, rfl⟩ | ⟨hcall, -⟩
  · exact absurd heq (hstart _ _ _)
  · exact h c call₀ hcall₀
  · exact h c call hcall

theorem step (h : Encoded B fits s) (hnumbered : Numbered B s) (hok : s.Allowed fits a)
    (hstep : s.step B f a = some s') : Encoded B fits s' := by
  cases a with
  | call c method params =>
    rw [Client.step] at hstep
    dsimp only at hstep
    cases hencode : encodeCall MultiplexError method (fun params => params) params
        s.ids.nextId.1 with
    | error e =>
      rw [hencode] at hstep
      obtain rfl := Option.some.inj hstep
      exact h
    | ok encoded =>
      obtain ⟨bytes, id⟩ := encoded
      rw [hencode] at hstep
      obtain ⟨t, hstart, rfl⟩ := Option.map_eq_some_iff.1 hstep
      obtain ⟨rfl, req, hbytes, hid⟩ := exists_of_encodeCall hencode
      rw [Allowed, hencode] at hok
      refine h.start hstart _ rfl hbytes ?_ hok
      rw [hid]
  | notify c method params =>
    rw [Client.step] at hstep
    cases hencode : encodeNotification MultiplexError method (fun params => params) params with
    | error e =>
      rw [hencode] at hstep
      obtain rfl := Option.some.inj hstep
      exact h
    | ok bytes =>
      rw [hencode] at hstep
      obtain ⟨t, hstart, rfl⟩ := Option.map_eq_some_iff.1 hstep
      obtain ⟨req, hbytes, hid⟩ := exists_of_encodeNotification hencode
      rw [Allowed, hencode] at hok
      refine h.start hstart _ rfl hbytes ?_ hok
      cases MultiplexTransport.Step.of_step hstart with
      | start hfresh => rw [hid, ← hnumbered.fresh hfresh, Function.update_eq_self]
  | poll c a =>
    obtain ⟨t, hmove, rfl⟩ := Option.map_eq_some_iff.1 hstep
    exact h.move hmove fun _ _ _ h => by cases h
  | reader a =>
    obtain ⟨t, hmove, rfl⟩ := Option.map_eq_some_iff.1 hstep
    exact h.move hmove fun _ _ _ h => by cases h

end Encoded

end Client

/-! ## The end of a connection -/

/-- A client's end of a connection: the client, and the read half of its reader task. -/
structure Peer where
  client : Client := .new
  inbox : FramedReader := {}

/-- An atomic action at a client's end. -/
inductive PeerAction (B : Backend) where
  /-- An action of the client, its reader's `recv` apart. -/
  | client (a : ClientAction B)
  /-- A turn of the reader's `recv`. -/
  | recv (t : RecvTurn)

namespace Peer

variable (B) (f : Framing)

/-- One atomic action at a client's end. -/
def step (s : Peer) : PeerAction B → Option Peer
  | .client (.reader (.take _)) | .client (.reader .stop) => none
  | .client a => (s.client.step B f a).map fun client => { s with client }
  | .recv t =>
    if s.client.transport.reader = .receiving then
      (s.inbox.turn f t).bind fun (result, inbox) =>
        match result with
        | none => some { s with inbox }
        | some (.ok (some frame)) =>
          (s.client.step B f (.reader (.take frame))).map fun client => ⟨client, inbox⟩
        | some _ => (s.client.step B f (.reader .stop)).map fun client => ⟨client, inbox⟩
    else none

/-- What an action does. -/
inductive Step (s : Peer) : PeerAction B → Peer → Prop where
  | client {a : ClientAction B} {client : Client} (own : ∀ frame, a ≠ .reader (.take frame))
    (stepped : s.client.step B f a = some client) : Step s (.client a) { s with client }
  | again {t : RecvTurn} {inbox : FramedReader} (turned : s.inbox.turn f t = some (none, inbox)) :
    Step s (.recv t) { s with inbox }
  | take {t : RecvTurn} {frame : Bytes} {client : Client} {inbox : FramedReader}
    (turned : s.inbox.turn f t = some (some (.ok (some frame)), inbox))
    (stepped : s.client.step B f (.reader (.take frame)) = some client) :
    Step s (.recv t) ⟨client, inbox⟩
  | stop {t : RecvTurn} {result : RecvResult} {client : Client} {inbox : FramedReader}
    (turned : s.inbox.turn f t = some (some result, inbox))
    (stepped : s.client.step B f (.reader .stop) = some client) : Step s (.recv t) ⟨client, inbox⟩

variable {B f} {fits : Bytes → Prop} {s s' : Peer} {a : PeerAction B}

theorem Step.of_step (h : s.step B f a = some s') : Step B f s a s' := by
  cases a with
  | client a =>
    have hclient (hown : ∀ frame, a ≠ .reader (.take frame))
        (h : (s.client.step B f a).map (fun client => { s with client }) = some s') :
        Step B f s (.client a) s' := by
      obtain ⟨client, hstep, rfl⟩ := Option.map_eq_some_iff.1 h
      exact .client hown hstep
    cases a with
    | reader a =>
      cases a with
      | take frame => cases h
      | stop => cases h
      | deliver => exact hclient (fun _ h => by cases h) h
      | clear => exact hclient (fun _ h => by cases h) h
    | call => exact hclient (fun _ h => by cases h) h
    | notify => exact hclient (fun _ h => by cases h) h
    | poll => exact hclient (fun _ h => by cases h) h
  | recv t =>
    rw [step, Option.ite_none_right_eq_some] at h
    obtain ⟨-, h⟩ := h
    obtain ⟨⟨result, inbox⟩, hturn, h⟩ := Option.bind_eq_some_iff.1 h
    rcases result with _ | e | _ | frame
    · obtain rfl := Option.some.inj h
      exact .again hturn
    · obtain ⟨client, hstep, rfl⟩ := Option.map_eq_some_iff.1 h
      exact .stop hturn hstep
    · obtain ⟨client, hstep, rfl⟩ := Option.map_eq_some_iff.1 h
      exact .stop hturn hstep
    · obtain ⟨client, hstep, rfl⟩ := Option.map_eq_some_iff.1 h
      exact .take hturn hstep

/-- A step encodes only messages that fit, and abandons none in the middle of its frame. -/
def Allowed (fits : Bytes → Prop) (s : Peer) : PeerAction B → Prop
  | .client a => s.client.Allowed fits a
  | .recv _ => True

instance [DecidablePred fits] (s : Peer) (a : PeerAction B) : Decidable (s.Allowed fits a) := by
  unfold Allowed
  split <;> infer_instance

/-- What holds at a client's end in every state. -/
structure Sound (B : Backend) (f : Framing) (fits : Bytes → Prop) (s : Peer) : Prop where
  client : s.client.Sound B
  framed : ∃ done, s.client.transport.Framed f done
  encoded : s.client.Encoded B fits
  heard : s.client.transport.reader.isOpen → s.inbox.Heard f s.client.transport.received
  cut : ∃ rest, Cuts f.decode s.inbox.read s.client.transport.received rest

theorem wire_grows (hok : s.Allowed fits a) (h : Step B f s a s') :
    s.client.transport.wire <+: s'.client.transport.wire := by
  cases h with
  | client _ hstep => exact Client.wire_grows hok hstep
  | again => exact List.prefix_rfl
  | take _ hstep => exact Client.wire_grows (Client.allowed_reader fits _ _) hstep
  | stop _ hstep => exact Client.wire_grows (Client.allowed_reader fits _ _) hstep

namespace Sound

theorem new (law : B.Lawful) (f : Framing) (fits : Bytes → Prop) {core : ReadCore}
    (hcore : core.readBuf = []) : Sound B f fits { inbox := { core } } where
  client := .of_reach (f := f) law .refl
  framed := ⟨[], .new f⟩
  encoded := .new fits
  heard _ := FramedReader.heard_new f core hcore
  cut := ⟨[], .nil []⟩

theorem step_client (h : Sound B f fits s) (law : B.Lawful) {a : ClientAction B} {client : Client}
    (hok : s.client.Allowed fits a) (hstep : s.client.step B f a = some client) :
    client.Sound B ∧ (∃ done, client.transport.Framed f done) ∧ client.Encoded B fits := by
  refine ⟨h.client.step law hstep, ?_, h.encoded.step h.client.numbered hok hstep⟩
  obtain ⟨done, hframed⟩ := h.framed
  rcases Client.transport_cases hok hstep with heq | ⟨ta, -, hta, hwhole, -⟩
  · exact ⟨done, heq ▸ hframed⟩
  · exact hframed.step hwhole hta

theorem step (h : Sound B f fits s) (law : B.Lawful) (hf : Lawful f.decode)
    (heof : f.takeOnEof = false) (hok : s.Allowed fits a) (hstep : Step B f s a s') :
    Sound B f fits s' := by
  cases hstep with
  | @client a client hown hstep =>
    obtain ⟨hclient, hframed, hencoded⟩ := h.step_client law hok hstep
    have hreceived : client.transport.received = s.client.transport.received ∧
        (client.transport.reader.isOpen → s.client.transport.reader.isOpen) := by
      rcases Client.transport_cases hok hstep with heq | ⟨ta, hta, -, -, hreader⟩
      · rw [heq]
        exact ⟨rfl, id⟩
      · apply MultiplexTransport.received_of_step hta
        rintro frame rfl
        exact hown frame (hreader _ rfl)
    refine ⟨hclient, hframed, hencoded, fun hopen => ?_, ?_⟩
    · rw [hreceived.1]
      exact h.heard (hreceived.2 hopen)
    · rw [hreceived.1]
      exact h.cut
  | again hturn =>
    obtain ⟨rest, hcut⟩ := h.cut
    exact ⟨h.client, h.framed, h.encoded, fun hopen => (h.heard hopen).again hf heof hturn,
      FramedReader.exists_cuts_of_turn hf hcut hturn⟩
  | take hturn hstep =>
    obtain ⟨hclient, hframed, hencoded⟩ := h.step_client law (Client.allowed_reader fits _ _) hstep
    obtain ⟨t, htake, rfl⟩ := Option.map_eq_some_iff.1 hstep
    obtain ⟨hreceived, hreceiving⟩ := MultiplexTransport.received_of_take (.of_step htake)
    have hheard := (h.heard (by rw [hreceiving]; rfl)).frame heof hturn
    rw [← hreceived] at hheard
    exact ⟨hclient, hframed, hencoded, fun _ => hheard, ⟨_, hheard⟩⟩
  | stop hturn hstep =>
    obtain ⟨hclient, hframed, hencoded⟩ := h.step_client law (Client.allowed_reader fits _ _) hstep
    obtain ⟨t, hstop, rfl⟩ := Option.map_eq_some_iff.1 hstep
    have hstep := MultiplexTransport.Step.of_step hstop
    obtain ⟨hreceived, -⟩ := MultiplexTransport.received_of_step hstep fun _ h => by cases h
    obtain ⟨rest, hcut⟩ := h.cut
    refine ⟨hclient, hframed, hencoded, fun hopen => ?_, ?_⟩
    · rw [MultiplexTransport.closed_of_stop hstep] at hopen
      cases hopen
    · show ∃ rest, Cuts f.decode _ t.received rest
      rw [hreceived]
      exact FramedReader.exists_cuts_of_turn hf hcut hturn

end Sound

end Peer

end Jasonrpc
