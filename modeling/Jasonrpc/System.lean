import Jasonrpc.Client.Peer
import Jasonrpc.EndToEnd
import Jasonrpc.Server.Connections

/-!
# Clients and a server

The multiplexed clients of one server, each on a connection of its own: what one end reads are the
first bytes that the other end has written.  `step` is one atomic action of a client's call, of its
reader, of a connection of the server or of the accept loop.

The handlers run as in one sequential run over the log, in which every call stands at most once, and
a call returns what this run sends for its own entry (`linearized`).
-/

namespace Jasonrpc

open ByteString Machine Incremental
open Server (entriesOf payloadsOf entriesOf_append entriesOf_cons_self mem_entriesOf exists_of_mem_payloadsOf)

variable {B : Backend} {C σ : Type}

/-! ## Messages and payloads -/

theorem Router.exists_handleRequestWithContext_eq (router : Router B C σ) (req : Request B) (ctx : C)
    (w : World B C σ) : ∃ result,
      (router.handleRequestWithContext req ctx w).1 = req.id.map fun id => respond id result := by
  rw [handleRequestWithContext]
  cases hid : req.id with
  | none =>
    refine ⟨.error .methodNotFound, ?_⟩
    simp only [Request.isNotification, hid, Option.isNone_none, if_true, Option.map_none]
  | some id =>
    simp only [Request.isNotification, hid, Option.isNone_some, Bool.false_eq_true, if_false,
      Option.getD_some, Option.map_some]
    exact ⟨_, rfl⟩

section Law

variable (law : B.Lawful)
include law

theorem Request.id_eq_of_get_eq {req req' : Request B}
    (h : B.get req.serialize = B.get req'.serialize) : req.id = req'.id := by
  have hread (req : Request B) :
      fromSlice Request.deserialize (B.get req.serialize) = .ok req.readBack := by
    rw [fromSlice_get law, deserializeFrom, Request.deserialize_serialize law]
  have heq := hread req
  rw [h, hread req'] at heq
  have hreadBack : req.readBack = req'.readBack := (Except.ok.inj heq).symm
  have hid := congrArg (fun req : Request B => req.id) hreadBack
  exact hid

/-- A payload that is sent for a request carries its id. -/
theorem parseId_payload [Inhabited C] (router : Router B C σ) (req : Request B)
    (w : World B C σ) {reply : Bytes}
    (h : (router.handleBytes (B.get req.serialize) w).1.payload = some reply) :
    ∃ id, req.id = some id ∧ parseId B reply = some id := by
  obtain ⟨result, hresult⟩ :=
    router.exists_handleRequestWithContext_eq req.readBack default w
  have hid : req.readBack.id = req.id := rfl
  rw [handleBytes_request law, hresult, hid] at h
  cases hreq : req.id with
  | none =>
    rw [hreq] at h
    cases h
  | some id =>
    rw [hreq] at h
    obtain rfl := Option.some.inj h
    refine ⟨id, rfl, ?_⟩
    rw [parseId_response law, respond_id]

theorem exists_payload [Inhabited C] (router : Router B C σ) (req : Request B) {id : Id}
    (hid : req.id = some id) (w : World B C σ) :
    ∃ reply, (router.handleBytes (B.get req.serialize) w).1.payload = some reply ∧
      parseId B reply = some id := by
  obtain ⟨result, hresult⟩ :=
    router.exists_handleRequestWithContext_eq req.readBack default w
  have hreadBack : req.readBack.id = some id := hid
  refine ⟨B.get (respond id result).serialize, ?_, ?_⟩
  · rw [handleBytes_request law, hresult, hreadBack]
    rfl
  · rw [parseId_response law, respond_id]

end Law

/-! ## The system -/

/-- A server, and the clients that have dialled it, by the connection. -/
structure System (B : Backend) (C σ : Type) where
  server : Server B C σ
  peers : ℕ → Option Peer := fun _ => none

/-- An atomic action of one of the tasks. -/
inductive SystemAction (B : Backend) where
  /-- Dial a connection, with the read timeout and the frame-size cap of the client's reader. -/
  | dial (k : ℕ) (readTimeout : Option Duration) (maxFrameSize : ℕ)
  | peer (k : ℕ) (a : PeerAction B)
  | server (a : ServerAction)

/-- The stream has the bytes that a turn of the client's reader takes, of those sent to it. -/
def Peer.Arrived (s : Peer) (sent : Bytes) : PeerAction B → Prop
  | .recv t => s.inbox.read ++ t.bytes <+: sent
  | .client _ => True

instance (s : Peer) (sent : Bytes) : (a : PeerAction B) → Decidable (s.Arrived sent a)
  | .recv t => inferInstanceAs (Decidable (s.inbox.read ++ t.bytes <+: sent))
  | .client _ => inferInstanceAs (Decidable True)

/-- The stream has the bytes that a turn of a connection takes, of those sent on it. -/
def Server.Arrived (s : Server B C σ) (sent : ℕ → Bytes) : ServerAction → Prop
  | .conn k (.recv t) => ∀ conn ∈ s.conns k, conn.reader.read ++ t.bytes <+: sent k
  | _ => True

instance (s : Server B C σ) (sent : ℕ → Bytes) (a : ServerAction) :
    Decidable (s.Arrived sent a) := by
  unfold Server.Arrived
  split <;> infer_instance

namespace System

/-- A server without connections. -/
def new (w : World B C σ) : System B C σ := { server := .new w }

def setPeer (s : System B C σ) (k : ℕ) (peer : Peer) : System B C σ :=
  { s with peers := Function.update s.peers k (some peer) }

/-- The bytes that the client of the connection `k` has written. -/
def wireOf (s : System B C σ) (k : ℕ) : Bytes :=
  ((s.peers k).map fun peer => peer.client.transport.wire).getD []

/-- The bytes that the server has written on the connection `k`. -/
def writtenOf (s : System B C σ) (k : ℕ) : Bytes :=
  ((s.server.conns k).map ServeConn.written).getD []

section

variable {s : System B C σ} {k : ℕ}

theorem wireOf_of_peer {peer : Peer} (h : s.peers k = some peer) :
    s.wireOf k = peer.client.transport.wire := by
  rw [wireOf, h]
  rfl

theorem writtenOf_of_conn {conn : ServeConn} (h : s.server.conns k = some conn) :
    s.writtenOf k = conn.written := by
  rw [writtenOf, h]
  rfl

theorem wireOf_setPeer {j : ℕ} {peer' : Peer}
    (h : s.wireOf j <+: peer'.client.transport.wire) : s.wireOf k <+: (s.setPeer j peer').wireOf k := by
  by_cases hjk : k = j
  · subst hjk
    have hpeer : (s.setPeer k peer').peers k = some peer' := Function.update_self ..
    rw [wireOf_of_peer hpeer]
    exact h
  · have hpeer : (s.setPeer j peer').peers k = s.peers k := Function.update_of_ne hjk ..
    rw [wireOf, wireOf, hpeer]

/-- The number of ids that a client has allocated, and the point that its call `c` has reached. -/
def reached (s : System B C σ) (k c : ℕ) : Option (ℕ × Phase) :=
  (s.peers k).bind fun peer =>
    (peer.client.transport.calls c).map fun call => (peer.client.issued, call.phase)

theorem exists_of_reached {n c : ℕ} {phase : Phase} (h : s.reached k c = some (n, phase)) :
    ∃ peer call, s.peers k = some peer ∧ peer.client.issued = n ∧
      peer.client.transport.calls c = some call ∧ call.phase = phase := by
  obtain ⟨peer, hpeer, h⟩ := Option.bind_eq_some_iff.1 h
  obtain ⟨call, hcall, h⟩ := Option.map_eq_some_iff.1 h
  obtain ⟨hissued, hphase⟩ := Prod.mk.inj h
  exact ⟨peer, call, hpeer, hissued, hcall, hphase⟩

end

variable [Inhabited C] (router : Router B C σ) (f : Framing)

/-- One atomic action of the system. -/
def step (s : System B C σ) : SystemAction B → Option (System B C σ)
  | .dial k readTimeout maxFrameSize =>
    if (s.peers k).isNone then
      some (s.setPeer k { inbox := { core := { readTimeout, maxFrameSize } } })
    else none
  | .peer k a =>
    (s.peers k).bind fun peer =>
      if peer.Arrived (s.writtenOf k) a then (peer.step B f a).map fun peer => s.setPeer k peer
      else none
  | .server a =>
    if s.server.Arrived s.wireOf a then
      (s.server.step router f a).map fun server => { s with server }
    else none

/-- The messages and the replies that are encoded fit, and no call is abandoned in the middle of its
frame. -/
def Allowed (fits : Bytes → Prop) (s : System B C σ) : SystemAction B → Prop
  | .peer k a => ∀ peer ∈ s.peers k, peer.Allowed fits a
  | .server (.conn k .dispatch) => ∀ p ∈ s.server.answer router k, fits p
  | _ => True

instance {fits : Bytes → Prop} [DecidablePred fits] (s : System B C σ) (a : SystemAction B) :
    Decidable (s.Allowed router fits a) := by
  unfold Allowed
  split <;> infer_instance

/-- What an action does. -/
inductive Step (s : System B C σ) : SystemAction B → System B C σ → Prop where
  | dial {k : ℕ} {readTimeout : Option Duration} {maxFrameSize : ℕ} (fresh : s.peers k = none) :
    Step s (.dial k readTimeout maxFrameSize)
      (s.setPeer k { inbox := { core := { readTimeout, maxFrameSize } } })
  | peer {k : ℕ} {a : PeerAction B} {peer peer' : Peer} (peer_eq : s.peers k = some peer)
    (arrived : peer.Arrived (s.writtenOf k) a) (stepped : Peer.Step B f peer a peer') :
    Step s (.peer k a) (s.setPeer k peer')
  | server {a : ServerAction} {server : Server B C σ} (arrived : s.server.Arrived s.wireOf a)
    (stepped : s.server.step router f a = some server) : Step s (.server a) { s with server }

variable {router f} {fits : Bytes → Prop} {w : World B C σ} {s s' : System B C σ}
  {a : SystemAction B} {k : ℕ}

theorem Step.of_step (h : s.step router f a = some s') : Step router f s a s' := by
  cases a with
  | dial k readTimeout maxFrameSize =>
    rw [step, Option.ite_none_right_eq_some] at h
    obtain ⟨hfresh, h⟩ := h
    obtain rfl := Option.some.inj h
    exact .dial (Option.isNone_iff_eq_none.1 hfresh)
  | peer k a =>
    obtain ⟨peer, hpeer, h⟩ := Option.bind_eq_some_iff.1 h
    rw [Option.ite_none_right_eq_some] at h
    obtain ⟨harrived, h⟩ := h
    obtain ⟨peer', hstep, rfl⟩ := Option.map_eq_some_iff.1 h
    exact .peer hpeer harrived (.of_step hstep)
  | server a =>
    rw [step, Option.ite_none_right_eq_some] at h
    obtain ⟨harrived, h⟩ := h
    obtain ⟨server, hstep, rfl⟩ := Option.map_eq_some_iff.1 h
    exact .server harrived hstep

/-! ## What one end has read of the other -/

theorem writtenOf_of_step {a : ServerAction} {server : Server B C σ}
    (h : Server.Step router f s.server a server) :
    s.writtenOf k <+: ({ s with server } : System B C σ).writtenOf k := by
  cases hconn : s.server.conns k with
  | none =>
    rw [writtenOf, hconn]
    exact List.nil_prefix
  | some conn =>
    obtain ⟨conn', hconn'⟩ := h.exists_conn hconn
    rw [writtenOf_of_conn hconn, writtenOf_of_conn (s := { s with server }) hconn']
    rcases h.conn_cases hconn' with ⟨hnone, -⟩ | ⟨conn₁, hconn₁, hmoved⟩
    · cases hnone.symm.trans hconn
    · obtain rfl := Option.some.inj (hconn₁.symm.trans hconn)
      exact hmoved.written

/-- What holds in every state. -/
structure Sound (router : Router B C σ) (f : Framing) (fits : Bytes → Prop) (w : World B C σ)
    (s : System B C σ) : Prop where
  server : s.server.Sound router f w
  fit {k : ℕ} {conn : ServeConn} : s.server.conns k = some conn → ∀ p ∈ conn.replies, fits p
  asked {k : ℕ} {conn : ServeConn} : s.server.conns k = some conn → conn.reader.read <+: s.wireOf k
  peer {k : ℕ} {peer : Peer} : s.peers k = some peer → peer.Sound B f fits
  told {k : ℕ} {peer : Peer} : s.peers k = some peer → peer.inbox.read <+: s.writtenOf k

namespace Sound

theorem new (router : Router B C σ) (f : Framing) (fits : Bytes → Prop) (w : World B C σ) :
    Sound router f fits w (new w) where
  server := .new router f w
  fit h := by cases h
  asked h := by cases h
  peer h := by cases h
  told h := by cases h

theorem setPeer (h : Sound router f fits w s) {peer' : Peer} (hpeer' : peer'.Sound B f fits)
    (hwire : s.wireOf k <+: peer'.client.transport.wire)
    (htold : peer'.inbox.read <+: s.writtenOf k) : Sound router f fits w (s.setPeer k peer') where
  server := h.server
  fit := h.fit
  asked hconn := (h.asked hconn).trans (wireOf_setPeer hwire)
  peer hpeer := by
    rcases Table.of_update hpeer with ⟨-, rfl⟩ | ⟨-, hpeer⟩
    · exact hpeer'
    · exact h.peer hpeer
  told hpeer := by
    rcases Table.of_update hpeer with ⟨rfl, rfl⟩ | ⟨-, hpeer⟩
    · exact htold
    · exact h.told hpeer

/-- The server takes a step. -/
theorem step_server (h : Sound router f fits w s) (hf : Lawful f.decode) (heof : f.takeOnEof = false)
    {a : ServerAction} {server : Server B C σ} (hok : s.Allowed router fits (.server a))
    (harrived : s.server.Arrived s.wireOf a) (hstep : s.server.step router f a = some server) :
    Sound router f fits w { s with server } := by
  have hdone := Server.Step.of_step hstep
  constructor
  · exact h.server.step hf heof hstep
  · intro k conn' hconn' p hp
    rcases hdone.conn_cases hconn' with ⟨-, -, hreplies⟩ | ⟨conn, hconn, hmoved⟩
    · rw [hreplies] at hp
      cases hp
    · rcases hmoved.replies with hreplies | ⟨q, hanswer, rfl, hreplies⟩
      · exact h.fit hconn p (hreplies ▸ hp)
      · rw [hreplies] at hp
        rcases List.mem_append.1 hp with hp | hp
        · exact h.fit hconn p hp
        · obtain rfl := List.mem_singleton.1 hp
          exact hok _ hanswer
  · intro k conn' hconn'
    show conn'.reader.read <+: s.wireOf k
    rcases hdone.conn_cases hconn' with ⟨-, hread, -⟩ | ⟨conn, hconn, hmoved⟩
    · rw [hread]
      exact List.nil_prefix
    · rcases hmoved.read with hread | ⟨t, rfl, hread⟩
      · rw [hread]
        exact h.asked hconn
      · rw [hread]
        exact harrived conn hconn
  · exact h.peer
  · exact fun hpeer => (h.told hpeer).trans (writtenOf_of_step hdone)

theorem step (h : Sound router f fits w s) (law : B.Lawful) (hf : Lawful f.decode)
    (heof : f.takeOnEof = false) (hok : s.Allowed router fits a)
    (hstep : s.step router f a = some s') : Sound router f fits w s' := by
  cases Step.of_step hstep with
  | @dial k readTimeout maxFrameSize hfresh =>
    have hwire : s.wireOf k = [] := by
      rw [wireOf, hfresh]
      rfl
    apply h.setPeer (.new law f fits rfl)
    · rw [hwire]
      exact List.nil_prefix
    · exact List.nil_prefix
  | @peer k a peer peer' hpeer harrived hdone =>
    have hok : peer.Allowed fits a := hok peer hpeer
    apply h.setPeer ((h.peer hpeer).step law hf heof hok hdone)
    · rw [wireOf_of_peer hpeer]
      exact Peer.wire_grows hok hdone
    · have htold := h.told hpeer
      cases hdone with
      | client => exact htold
      | again hturn | take hturn | stop hturn =>
        rw [FramedReader.read_of_turn hturn]
        exact harrived
  | server harrived hserver => exact h.step_server hf heof hok harrived hserver

theorem of_reach (law : B.Lawful) (hf : Lawful f.decode) (heof : f.takeOnEof = false)
    (h : Reach (System.step router f) (Allowed router fits) (.new w) s) :
    Sound router f fits w s :=
  h.invariant (.new router f fits w) fun _ _ _ h hok hstep => h.step law hf heof hok hstep

end Sound

/-! ## The order of the calls -/

namespace Sound

variable {peer : Peer}

/-- What the server has dispatched of a client are the messages of different calls, in the order in
which the client has written them. -/
theorem exists_order (h : Sound router f fits w s) (hf : Lawful f.decode)
    (hcarries : ∀ p, fits p → Carries f.decode f.encode p) (hpeer : s.peers k = some peer) :
    ∃ order : List ℕ, order.Nodup ∧
      (∀ c ∈ order, ∃ call, peer.client.transport.calls c = some call ∧ call.phase.early = false) ∧
        entriesOf k s.server.log = order.map peer.client.transport.message := by
  have hsound := h.peer hpeer
  obtain ⟨done, hframed⟩ := hsound.framed
  obtain ⟨order, tail, hsends⟩ := hframed.exists_sends
  have hfirst : entriesOf k s.server.log <+: order.map peer.client.transport.message := by
    cases hconn : s.server.conns k with
    | none =>
      rw [(h.server.fresh hconn).1]
      exact List.nil_prefix
    | some conn =>
      obtain ⟨rest, hcuts⟩ := (h.server.conn hconn).cut
      have hmessages : ∀ c call, peer.client.transport.calls c = some call →
          Carries f.decode f.encode call.message := fun c call hcall => by
        obtain ⟨_, -, -, hfits⟩ := hsound.encoded c call hcall
        exact hcarries _ hfits
      have hread := h.asked hconn
      rw [wireOf_of_peer hpeer] at hread
      exact (List.prefix_append _ _).trans (hsends.isPrefix_of_cuts hf hmessages hread hcuts)
  refine ⟨order.take (entriesOf k s.server.log).length, ?_, ?_, ?_⟩
  · exact hsends.nodup.sublist (List.take_sublist _ _)
  · exact fun c hc => hsends.started (List.mem_of_mem_take hc)
  · rw [List.map_take]
    exact List.prefix_iff_eq_take.1 hfirst

theorem entriesOf_of_none (h : Sound router f fits w s) (hf : Lawful f.decode)
    (hpeer : s.peers k = none) : entriesOf k s.server.log = [] := by
  cases hconn : s.server.conns k with
  | none => exact (h.server.fresh hconn).1
  | some conn =>
    obtain ⟨rest, hcuts⟩ := (h.server.conn hconn).cut
    have hread := h.asked hconn
    rw [wireOf, hpeer] at hread
    have hnone : ∀ m ∈ ([] : List Bytes), Carries f.decode f.encode m := fun m hm => by cases hm
    have hfirst := hf.isPrefix_of_cuts hnone hf.stuck_nil hcuts hread
    exact (List.append_eq_nil_iff.1 (List.prefix_nil.1 hfirst)).1

/-- A client has received replies of its connection. -/
theorem received_isPrefix (h : Sound router f fits w s) (hf : Lawful f.decode)
    (hcarries : ∀ p, fits p → Carries f.decode f.encode p) (hpeer : s.peers k = some peer) :
    peer.client.transport.received <+: payloadsOf router w k s.server.log := by
  obtain ⟨rest, hcuts⟩ := (h.peer hpeer).cut
  have htold := h.told hpeer
  have hwritten : Transcript f (payloadsOf router w k s.server.log) (s.writtenOf k) ∧
      ∀ p ∈ payloadsOf router w k s.server.log, Carries f.decode f.encode p := by
    cases hconn : s.server.conns k with
    | none =>
      rw [(h.server.fresh hconn).2, writtenOf, hconn]
      exact ⟨.inl rfl, fun p hp => by cases hp⟩
    | some conn =>
      have hsound := h.server.conn hconn
      rw [writtenOf_of_conn hconn, ← hsound.replies_eq]
      exact ⟨hsound.told.transcript, fun p hp => hcarries p (h.fit hconn p hp)⟩
  exact hwritten.1.isPrefix_of_cuts hf hwritten.2 htold hcuts

end Sound

/-- The calls take effect one after another in a state. -/
structure Linearized (router : Router B C σ) (w : World B C σ) (s : System B C σ) : Prop where
  /-- The state that the handlers share is that of one sequential run over the log. -/
  world_eq : s.server.world = (router.handleAll s.server.log w).2
  /-- The entries of a client in the log are messages of its calls, each of a call of its own, in
  the order in which they are written. -/
  handled {k : ℕ} {peer : Peer} : s.peers k = some peer →
    ∃ order : List ℕ, order.Nodup ∧ (∀ c ∈ order, ∃ call, peer.client.transport.calls c = some call) ∧
      entriesOf k s.server.log = order.map peer.client.transport.message
  /-- There are no other entries. -/
  absent {k : ℕ} : s.peers k = none → entriesOf k s.server.log = []
  /-- A call that returns a frame has one entry, and the frame is what the run sends for it. -/
  replied {k c : ℕ} {peer : Peer} {call : Call} {frame : Bytes} : s.peers k = some peer →
    peer.client.issued < 2 ^ 64 → peer.client.transport.calls c = some call →
      call.phase = .done (.reply frame) → ∃ before after,
        s.server.log = before ++ (k, call.message) :: after ∧
          (k, call.message) ∉ before ∧ (k, call.message) ∉ after ∧
            (router.handleBytes call.message (router.handleAll before w).2).1.payload = some frame

namespace Sound

variable {peer : Peer}

theorem call_eq_of_message_eq (h : peer.Sound B f fits) (law : B.Lawful)
    (hfew : peer.client.issued < 2 ^ 64) {c c' : ℕ} {call call' : Call} {id : Id}
    (hcall : peer.client.transport.calls c = some call) (hid : peer.client.idOf c = some id)
    (hcall' : peer.client.transport.calls c' = some call') (hmessage : call'.message = call.message) :
    c' = c := by
  obtain ⟨req, hreq, hreqId, -⟩ := h.encoded c call hcall
  obtain ⟨req', hreq', hreqId', -⟩ := h.encoded c' call' hcall'
  rw [hreq, hreq'] at hmessage
  have hid' : peer.client.idOf c' = some id := by
    rw [← hreqId', req'.id_eq_of_get_eq law hmessage, hreqId, hid]
  exact h.client.numbered.unique hfew.le hid' hid

/-- A received frame carries the id of a call that has begun to send its message. -/
theorem exists_call_of_received (h : Sound router f fits w s) (law : B.Lawful) (hf : Lawful f.decode)
    (hcarries : ∀ p, fits p → Carries f.decode f.encode p) {frame : Bytes}
    (hpeer : s.peers k = some peer) (hreceived : frame ∈ peer.client.transport.received) :
    ∃ c call id, peer.client.transport.calls c = some call ∧ call.phase.early = false ∧
      peer.client.idOf c = some id ∧ parseId B frame = some id := by
  obtain ⟨before, message, after, hlog, hpayload⟩ :=
    exists_of_mem_payloadsOf ((h.received_isPrefix hf hcarries hpeer).subset hreceived)
  obtain ⟨order, -, hcalls, hentries⟩ := h.exists_order hf hcarries hpeer
  have hmem : message ∈ entriesOf k s.server.log := by
    rw [mem_entriesOf, hlog]
    exact List.mem_append_right _ List.mem_cons_self
  rw [hentries] at hmem
  obtain ⟨c, hc, rfl⟩ := List.mem_map.1 hmem
  obtain ⟨call, hcall, hlate⟩ := hcalls c hc
  obtain ⟨req, hreq, hreqId, -⟩ := (h.peer hpeer).encoded c call hcall
  rw [MultiplexTransport.message_of_call hcall, hreq] at hpayload
  obtain ⟨id, hid, hframe⟩ := parseId_payload law router req _ hpayload
  exact ⟨c, call, id, hcall, hlate, hreqId.symm.trans hid, hframe⟩

/-- The frame that a call returns is what the server sends for its one entry. -/
theorem replied (h : Sound router f fits w s) (law : B.Lawful) (hf : Lawful f.decode)
    (hcarries : ∀ p, fits p → Carries f.decode f.encode p) {c : ℕ} {call : Call} {frame : Bytes}
    (hpeer : s.peers k = some peer) (hfew : peer.client.issued < 2 ^ 64)
    (hcall : peer.client.transport.calls c = some call) (hphase : call.phase = .done (.reply frame)) :
    ∃ before after, s.server.log = before ++ (k, call.message) :: after ∧
      (k, call.message) ∉ before ∧ (k, call.message) ∉ after ∧
        (router.handleBytes call.message (router.handleAll before w).2).1.payload = some frame := by
  have hsound := h.peer hpeer
  obtain ⟨⟨id, hid, hframe⟩, hreceived⟩ := hsound.client.exists_id_of_reply hcall hphase
  -- the frame answers an entry of the log
  obtain ⟨before, message, after, hlog, hpayload⟩ :=
    exists_of_mem_payloadsOf ((h.received_isPrefix hf hcarries hpeer).subset hreceived)
  obtain ⟨order, hnodup, hcalls, hentries⟩ := h.exists_order hf hcarries hpeer
  have hsplit : entriesOf k s.server.log = entriesOf k before ++ message :: entriesOf k after := by
    rw [hlog, entriesOf_append, entriesOf_cons_self]
  rw [hentries] at hsplit
  obtain ⟨first, rest, rfl, hfirst, hrest⟩ := List.map_eq_append_iff.1 hsplit
  obtain ⟨c', last, rfl, rfl, hlast⟩ := List.map_eq_cons_iff.1 hrest
  have hmem : c' ∈ first ++ c' :: last := List.mem_append_right _ List.mem_cons_self
  -- its answer carries the id of the call, so it is the message of the call
  obtain ⟨call', hcall', -⟩ := hcalls c' hmem
  have hmessage' := MultiplexTransport.message_of_call hcall'
  obtain ⟨req, hreq, hreqId, -⟩ := hsound.encoded c' call' hcall'
  rw [hmessage', hreq] at hpayload
  obtain ⟨id', hid', hframe'⟩ := parseId_payload law router req _ hpayload
  obtain rfl := Option.some.inj (hframe'.symm.trans hframe)
  obtain rfl : c' = c := hsound.client.numbered.unique hfew.le (hreqId.symm.trans hid') hid
  obtain rfl := Option.some.inj (hcall'.symm.trans hcall)
  -- no other entry is
  have hother {x : ℕ} (hx : x ∈ first ++ c' :: last)
      (hmessage : peer.client.transport.message x = call'.message) : x = c' := by
    obtain ⟨callx, hcallx, -⟩ := hcalls x hx
    rw [MultiplexTransport.message_of_call hcallx] at hmessage
    exact call_eq_of_message_eq hsound law hfew hcall hid hcallx hmessage
  have hdisjoint := List.nodup_middle.1 hnodup
  rw [List.nodup_cons, List.mem_append] at hdisjoint
  rw [hmessage'] at hlog
  rw [← hreq] at hpayload
  refine ⟨before, after, hlog, fun hbefore => ?_, fun hafter => ?_, hpayload⟩
  · rw [← mem_entriesOf, ← hfirst] at hbefore
    obtain ⟨x, hx, hmessage⟩ := List.mem_map.1 hbefore
    obtain rfl := hother (List.mem_append_left _ hx) hmessage
    exact hdisjoint.1 (.inl hx)
  · rw [← mem_entriesOf, ← hlast] at hafter
    obtain ⟨x, hx, hmessage⟩ := List.mem_map.1 hafter
    obtain rfl := hother (List.mem_append_right _ (List.mem_cons_of_mem _ hx)) hmessage
    exact hdisjoint.1 (.inr hx)

end Sound

/-- The call `c` of the client `k` has the message `message` and the id `id`. -/
def Asks (s : System B C σ) (k c : ℕ) (message : Bytes) (id : Option Id) : Prop :=
  ∃ peer call, s.peers k = some peer ∧ peer.client.transport.calls c = some call ∧
    call.message = message ∧ peer.client.idOf c = id

theorem Asks.step {c : ℕ} {message : Bytes} {id : Option Id} (h : s.Asks k c message id)
    (hstep : s.step router f a = some s') : s'.Asks k c message id := by
  obtain ⟨peer, call, hpeer, hcall, hmessage, hid⟩ := h
  have hset {j : ℕ} {peer₁ peer₂ : Peer} (hpeer₁ : s.peers j = some peer₁)
      (hkept : ∀ {call}, peer₁.client.transport.calls c = some call →
        ∃ call', peer₂.client.transport.calls c = some call' ∧ call'.message = call.message ∧
          peer₂.client.idOf c = peer₁.client.idOf c) : (s.setPeer j peer₂).Asks k c message id := by
    by_cases hjk : k = j
    · subst hjk
      obtain rfl := Option.some.inj (hpeer₁.symm.trans hpeer)
      obtain ⟨call', hcall', hmessage', hid'⟩ := hkept hcall
      exact ⟨peer₂, call', Function.update_self .., hcall', hmessage'.trans hmessage,
        hid'.trans hid⟩
    · exact ⟨peer, call, (Function.update_of_ne hjk ..).trans hpeer, hcall, hmessage, hid⟩
  cases Step.of_step hstep with
  | @dial j _ _ hfresh =>
    have hjk : k ≠ j := fun heq => by cases (heq ▸ hpeer).symm.trans hfresh
    exact ⟨peer, call, (Function.update_of_ne hjk ..).trans hpeer, hcall, hmessage, hid⟩
  | peer hpeer₁ _ hdone =>
    apply hset hpeer₁
    intro call₁ hcall₁
    cases hdone with
    | again => exact ⟨call₁, hcall₁, rfl, rfl⟩
    | client _ hmove | take _ hmove | stop _ hmove => exact Client.exists_call_of_step hmove hcall₁
  | server => exact ⟨peer, call, hpeer, hcall, hmessage, hid⟩

theorem Asks.of_reach {ok : System B C σ → SystemAction B → Prop} {c : ℕ} {message : Bytes}
    {id : Option Id} (h : s.Asks k c message id) (hrun : Reach (System.step router f) ok s s') :
    s'.Asks k c message id :=
  hrun.invariant (I := fun t => t.Asks k c message id) h fun _ _ _ h _ hstep => h.step hstep

/-- A call is not in the log before it is made. -/
theorem Sound.notMem_log (h : Sound router f fits w s) (law : B.Lawful) (hf : Lawful f.decode)
    (hcarries : ∀ p, fits p → Carries f.decode f.encode p) {peer peer' : Peer} {c : ℕ} {call' : Call}
    {id : Id} (hpeer : s.peers k = some peer) (hfresh : peer.client.transport.calls c = none)
    (hrun : Reach (System.step router f) (Allowed router fits) s s')
    (hsound' : peer'.Sound B f fits) (hpeer' : s'.peers k = some peer')
    (hfew : peer'.client.issued < 2 ^ 64) (hcall' : peer'.client.transport.calls c = some call')
    (hid : peer'.client.idOf c = some id) : (k, call'.message) ∉ s.server.log := by
  intro hmem
  obtain ⟨order, -, hcalls, hentries⟩ := h.exists_order hf hcarries hpeer
  rw [← mem_entriesOf, hentries] at hmem
  obtain ⟨x, hx, hmessage⟩ := List.mem_map.1 hmem
  obtain ⟨callx, hcallx, -⟩ := hcalls x hx
  rw [MultiplexTransport.message_of_call hcallx] at hmessage
  -- the call that has the entry is still there
  have hasks : s.Asks k x call'.message (peer.client.idOf x) :=
    ⟨peer, callx, hpeer, hcallx, hmessage, rfl⟩
  obtain ⟨peer₁, call₁, hpeer₁, hcall₁, hmessage₁, -⟩ := hasks.of_reach hrun
  obtain rfl := Option.some.inj (hpeer₁.symm.trans hpeer')
  obtain rfl := Sound.call_eq_of_message_eq hsound' law hfew hcall' hid hcall₁ hmessage₁
  cases hfresh.symm.trans hcallx

theorem isPrefix_of_notMem {α : Type} {xs before after : List α} {x : α}
    (h : xs <+: before ++ x :: after) (hx : x ∉ xs) : xs <+: before := by
  rcases List.prefix_or_prefix_of_prefix h (List.prefix_append before (x :: after)) with
    hle | ⟨ys, rfl⟩
  · exact hle
  · rw [List.prefix_append_right_inj] at h
    cases ys with
    | nil =>
      rw [List.append_nil]
    | cons y ys =>
      obtain ⟨rfl, -⟩ := List.cons_prefix_cons.1 h
      exact absurd (List.mem_append_right _ List.mem_cons_self) hx

theorem log_of_step (h : s.step router f a = some s') : s.server.log <+: s'.server.log := by
  cases Step.of_step h with
  | dial | peer => exact List.prefix_rfl
  | server _ hserver => exact (Server.Step.of_step hserver).log_grows

theorem log_of_reach {ok : System B C σ → SystemAction B → Prop}
    (hrun : Reach (System.step router f) ok s s') : s.server.log <+: s'.server.log :=
  hrun.invariant (I := fun t => s.server.log <+: t.server.log) List.prefix_rfl
    fun _ _ _ h _ hstep => h.trans (log_of_step hstep)

theorem asks_of_call {c : ℕ} {method : String} {raw : B.Raw}
    (h : s.step router f (.peer k (.client (.call c method (.ok raw)))) = some s') :
    ∃ peer id, s.peers k = some peer ∧ peer.client.transport.calls c = none ∧ s'.Asks k c
      (B.get { method, params := some raw, id := some id : Request B }.serialize) (some id) := by
  cases Step.of_step h with
  | @peer _ _ peer peer' hpeer _ hdone =>
    cases hdone with
    | client _ hmove =>
      obtain ⟨hfresh, ⟨call, hcall, hmessage⟩, hid⟩ := Client.step_call hmove
      exact ⟨peer, _, hpeer, hfresh, _, call, Function.update_self .., hcall, hmessage, hid⟩

/-- A client's call of `method` with the params `raw` has taken effect at one point of the log, after
the handlers of `before`, and `frame` is what the client gets. -/
structure Effect (E : Type) (router : Router B C σ) (w : World B C σ) (k : ℕ) (method : String)
    (raw : B.Raw) (message : Bytes) (id : Id) (frame : Bytes) (before after : List (ℕ × Bytes)) :
    Prop extends
    CallEffect E router default (router.handleAll before w).2 method raw message id frame where
  /-- It stands there only. -/
  once : (k, message) ∉ before ∧ (k, message) ∉ after

/-- A call that has returned a frame has taken effect after it was made. -/
theorem takesEffect (law : B.Lawful) (E : Type) {codec : Codec}
    (hc : codec = .netstring ∨ codec = .contentLength) {width : ℕ} (hwidth : width ≤ 64)
    (router : Router B C σ) (w : World B C σ) {s₁ s₂ s : System B C σ} {k c : ℕ} {method : String}
    {raw : B.Raw} {peer : Peer} {call : Call} {frame : Bytes}
    (hreach : Reach (System.step router (codec.framing width))
      (Allowed router (codec.Fits width)) (.new w) s₁)
    (hallowed : s₁.Allowed router (codec.Fits width)
      (.peer k (.client (.call c method (.ok raw)))))
    (hmade : s₁.step router (codec.framing width)
      (.peer k (.client (.call c method (.ok raw)))) = some s₂)
    (hrun : Reach (System.step router (codec.framing width))
      (Allowed router (codec.Fits width)) s₂ s)
    (hpeer : s.peers k = some peer) (hfew : peer.client.issued < 2 ^ 64)
    (hcall : peer.client.transport.calls c = some call) (hdone : call.phase = .done (.reply frame)) :
    ∃ id before after, peer.client.idOf c = some id ∧
      s.server.log = before ++ (k, call.message) :: after ∧ s₁.server.log <+: before ∧
        Effect E router w k method raw call.message id frame before after := by
  have hf := Codec.lawful width codec
  have heof : (codec.framing width).takeOnEof = false := Codec.takeOnEof_eq hc
  have hcarries (p : Bytes) (hp : codec.Fits width p) := Codec.carries_of_fits hc hwidth hp
  have hfromCall := (Reach.single hallowed hmade).trans hrun
  have h₁ := Sound.of_reach law hf heof hreach
  have h := Sound.of_reach law hf heof (hreach.trans hfromCall)
  obtain ⟨before, after, hlog, hbefore, hafter, hpayload⟩ :=
    h.replied law hf hcarries hpeer hfew hcall hdone
  obtain ⟨peer₁, id, hpeer₁, hfresh, hasks⟩ := asks_of_call hmade
  obtain ⟨peer', call', hpeer', hcall', hmessage, hid⟩ := hasks.of_reach hrun
  obtain rfl := Option.some.inj (hpeer'.symm.trans hpeer)
  obtain rfl := Option.some.inj (hcall'.symm.trans hcall)
  have hnew : (k, call'.message) ∉ s₁.server.log :=
    h₁.notMem_log law hf hcarries hpeer₁ hfresh hfromCall (h.peer hpeer) hpeer hfew hcall hid
  have hfirst : s₁.server.log <+: before :=
    isPrefix_of_notMem (hlog ▸ log_of_reach hfromCall) hnew
  have heffect := callEffect_of_sent law E router method raw id _ hmessage
    (Output.toBytes_of_payload hpayload)
  exact ⟨id, before, after, hid, hlog, hfirst, heffect, hbefore, hafter⟩

/-! ## Two calls and their replies -/

section Sample

open JsonText

/-- A server whose method `get` answers 42. -/
def answerRouter : Router backend Unit Unit := fixedRouter (.ok (backend.int 42))

/-- The call of `get` as a netstring. -/
def getFrame : Chunk :=
  ⟨(Codec.netstring.framing 64).encode (backend.get getCall.serialize), by decide⟩

/-- The reply to it. -/
def answerReply : Bytes :=
  backend.get (respond (B := backend) (.number 1) (.ok (backend.int 42))).serialize

def answerFrame : Chunk := ⟨(Codec.netstring.framing 64).encode answerReply, by decide⟩

/-- The steps of two runs in turn. -/
def inTurn {α : Type} (l l' : List α) : List α := (l.zip l').flatMap fun (a, b) => [a, b]

/-- Two clients dial the server, and the second makes a call. -/
def dialRun : List (SystemAction backend) :=
  [.dial 0 none 100, .dial 1 none 100, .server (.accept 1 none 100), .server (.accept 0 none 100),
    .peer 1 (.client (.call 0 "get" (.ok backend.null)))]

/-- The call `c` of the client `k` is written, dispatched and answered, and it returns the answer. -/
def callRun (k c : ℕ) (frame reply : Chunk) : List (SystemAction backend) :=
  [.peer k (.client (.poll c .check)), .peer k (.client (.poll c .insert)),
    .peer k (.client (.poll c .acquire)), .peer k (.client (.poll c (.write frame.bytes.length))),
    .peer k (.client (.poll c .flushed)), .server (.conn k (.recv (.read (.ready frame)))),
    .server (.conn k (.recv .ready)), .server (.conn k .dispatch),
    .server (.conn k (.write reply.bytes.length)), .server (.conn k .flushed),
    .peer k (.recv (.read (.ready reply))), .peer k (.recv .ready),
    .peer k (.client (.reader .deliver)), .peer k (.client (.poll c .receive))]

/-- The calls of the two clients, in turn. -/
def replyRun : List (SystemAction backend) :=
  inTurn (callRun 1 0 getFrame answerFrame) (callRun 0 0 getFrame answerFrame)

def getRun : List (SystemAction backend) :=
  dialRun ++ .peer 0 (.client (.call 0 "get" (.ok backend.null))) :: replyRun

/-- A run of the system with that server. -/
def answerRun (s : System backend Unit Unit) (actions : List (SystemAction backend)) :
    Option (System backend Unit Unit) :=
  run (System.step answerRouter (Codec.netstring.framing 64))
    (Allowed answerRouter (Codec.netstring.Fits 64)) s actions

theorem reached_getRun : (answerRun (.new ⟨(), []⟩) getRun).map
      (fun s => (s.reached 0 0, s.reached 1 0, s.server.log.map Prod.fst)) =
    some (some (1, .done (.reply answerReply)), some (1, .done (.reply answerReply)), [1, 0]) := by
  decide +kernel

theorem takesEffect_getRun : ∃ s call id before after, answerRun (.new ⟨(), []⟩) getRun = some s ∧
    s.server.log.map Prod.fst = [1, 0] ∧ s.server.log = before ++ (0, call) :: after ∧
      Effect Unit answerRouter ⟨(), []⟩ 0 "get" backend.null call id answerReply before after := by
  have hdialled : (answerRun (.new ⟨(), []⟩) dialRun).isSome := by decide +kernel
  obtain ⟨s₁, hdial⟩ := Option.isSome_iff_exists.1 hdialled
  obtain ⟨s, hrun, hreached⟩ := Option.map_eq_some_iff.1 reached_getRun
  obtain ⟨hreached, hother⟩ := Prod.mk.inj hreached
  obtain ⟨-, horder⟩ := Prod.mk.inj hother
  obtain ⟨peer, call, hpeer, hissued, hcall, hphase⟩ := exists_of_reached hreached
  have hgoesOn := hrun
  rw [answerRun, getRun, run_append hdial, run, Option.ite_none_right_eq_some] at hgoesOn
  obtain ⟨hallowed, hgoesOn⟩ := hgoesOn
  obtain ⟨s₂, hmade, hreply⟩ := Option.bind_eq_some_iff.1 hgoesOn
  obtain ⟨id, before, after, -, hlog, -, heffect⟩ :=
    takesEffect lawful Unit (.inl (rfl : Codec.netstring = _)) le_rfl answerRouter ⟨(), []⟩
      (reach_of_run dialRun hdial) hallowed hmade (reach_of_run replyRun hreply) hpeer
      (by rw [hissued]; decide) hcall hphase
  exact ⟨s, call.message, id, before, after, hrun, horder, hlog, heffect⟩

end Sample

end System

end Jasonrpc
