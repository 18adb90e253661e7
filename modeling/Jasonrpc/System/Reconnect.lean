import Jasonrpc.Client.Replay
import Jasonrpc.System.Forward

/-!
# Clients that reconnect

The clients of a server that dial its socket again when their connection has died: a `Client` over a
`ReconnectingUds`, whose transports are those of the connections that it has dialled.  `step` is one
atomic action of a call of a client, of one of its connections, or of the server.

A client of the system runs as it does alone, and a connection of it runs as in a `System`; so what holds
of either goes on to hold.  A call has its effect at most once, whatever connections are dialled
(`neverTwice`), and one that returns has had it (`callTakesEffect`).
-/

namespace Jasonrpc

open ByteString Machine Incremental
open Server (entriesOf mem_entriesOf)

variable {B : Backend} {C σ : Type}

/-! ## Ids of an allocator -/

/-- An allocator has given out `issued` ids, and the calls have those that `idOf` says. -/
structure IdGen.Gave (ids : IdGen) (issued : ℕ) (idOf : ℕ → Option Id) : Prop where
  next_eq : ids.next = 1 + UInt64.ofNat issued
  given {n : ℕ} {id : Id} : idOf n = some id → ∃ m < issued, id = IdGen.nth m
  unique {n n' : ℕ} {id : Id} : issued ≤ 2 ^ 64 → idOf n = some id → idOf n' = some id → n = n'

namespace IdGen.Gave

variable {ids : IdGen} {issued : ℕ} {idOf : ℕ → Option Id}

theorem new : Gave {} 0 fun _ => none where
  next_eq := rfl
  given h := by cases h
  unique _ h := by cases h

theorem nextId_eq (h : Gave ids issued idOf) : ids.nextId.1 = nth issued := by
  rw [nextId, nth, h.next_eq]

theorem skip (h : Gave ids issued idOf) : Gave ids.nextId.2 (issued + 1) idOf where
  next_eq := by
    show ids.next + 1 = _
    rw [h.next_eq, UInt64.ofNat_add, ← UInt64.add_assoc]
    rfl
  given hid := by
    obtain ⟨m, hm, hnth⟩ := h.given hid
    exact ⟨m, Nat.lt_succ_of_lt hm, hnth⟩
  unique hfew := h.unique (Nat.le_of_succ_le hfew)

/-- A call gets the next id. -/
theorem allocate (h : Gave ids issued idOf) (n : ℕ) :
    Gave ids.nextId.2 (issued + 1) (Function.update idOf n (some ids.nextId.1)) := by
  have hskip := h.skip
  have hcases {n' : ℕ} {id : Id}
      (hid : Function.update idOf n (some ids.nextId.1) n' = some id) :
      n' = n ∧ id = IdGen.nth issued ∨ idOf n' = some id := by
    rcases Table.of_update hid with ⟨hn, heq⟩ | ⟨-, hid⟩
    · exact .inl ⟨hn, heq.trans h.nextId_eq⟩
    · exact .inr hid
  constructor
  · exact hskip.next_eq
  · intro n' id hid
    rcases hcases hid with ⟨-, hid⟩ | hid
    · exact ⟨issued, Nat.lt_succ_self _, hid⟩
    · exact hskip.given hid
  · intro n₁ n₂ id hfew hid₁ hid₂
    -- an older id is not the new one
    have hold {n' : ℕ} (hid : idOf n' = some id) : id ≠ nth issued := by
      rintro rfl
      obtain ⟨m, hm, hnth⟩ := h.given hid
      have heq := IdGen.nth_injective (by omega) (by omega) hnth
      omega
    rcases hcases hid₁ with ⟨rfl, hnew₁⟩ | hold₁ <;> rcases hcases hid₂ with ⟨rfl, hnew₂⟩ | hold₂
    · rfl
    · exact absurd hnew₁ (hold hold₂)
    · exact absurd hnew₂ (hold hold₁)
    · exact h.unique (Nat.le_of_succ_le hfew) hold₁ hold₂

end IdGen.Gave

/-! ## What a call of a client does to its transports -/

namespace ReconnectingUds

variable {f : Framing} {s s' : ReconnectingUds} {n : ℕ} {call : UdsCall} {a : UdsCallAction}

/-- A call is handed over to a transport, or it builds one, or it leaves the transports alone. -/
theorem UdsCallStep.transports_cases (h : UdsCallStep B f s n call a s') :
    (∃ t transport, (s'.calls n).map UdsCall.stage = some (.delegated t) ∧
        (s.transports t).step B f (.start n call.operation call.message) = some transport ∧
          s'.transports = Function.update s.transports t transport ∧ s'.built = s.built) ∨
      ((s'.calls n).map UdsCall.stage = some (.dialled s.built) ∧
        s'.transports = Function.update s.transports s.built .new ∧ s'.built = s.built + 1) ∨
      ((∀ t, (s'.calls n).map UdsCall.stage ≠ some (.delegated t)) ∧
        (∀ t, (s'.calls n).map UdsCall.stage ≠ some (.dialled t)) ∧
          s'.transports = s.transports ∧ s'.built = s.built) := by
  have hstage {s : ReconnectingUds} {call : UdsCall} {stage : Stage} :
      ((s.setStage n call stage).calls n).map UdsCall.stage = some stage := by
    rw [calls_setStage, Function.update_self]
    rfl
  have hstays {s₁ : ReconnectingUds} {call : UdsCall} {stage : Stage}
      (htransports : s₁.transports = s.transports) (hbuilt : s₁.built = s.built)
      (hdelegated : ∀ t, stage ≠ .delegated t) (hdialled : ∀ t, stage ≠ .dialled t) :
      (∀ t, ((s₁.setStage n call stage).calls n).map UdsCall.stage ≠ some (.delegated t)) ∧
        (∀ t, ((s₁.setStage n call stage).calls n).map UdsCall.stage ≠ some (.dialled t)) ∧
          (s₁.setStage n call stage).transports = s.transports ∧
            (s₁.setStage n call stage).built = s.built := by
    rw [hstage]
    exact ⟨fun t heq => hdelegated t (Option.some.inj heq),
      fun t heq => hdialled t (Option.some.inj heq), htransports, hbuilt⟩
  cases h with
  | reuse _ _ _ hstarted => exact .inl ⟨_, _, hstage, hstarted, rfl, rfl⟩
  | release _ hstarted => exact .inl ⟨_, _, hstage, hstarted, rfl, rfl⟩
  | connected => exact .inr (.inl ⟨hstage, rfl, rfl⟩)
  | snapshot | queue | acquire | resnapshot | share | redial | wake | panic | retry | giveUp | install
  | fail | cancel | cancelGated =>
    exact .inr (.inr (hstays rfl rfl (fun _ h => by cases h) fun _ h => by cases h))

end ReconnectingUds

/-! ## The system -/

/-- A `Client` over a `ReconnectingUds`. -/
structure UdsClient where
  uds : ReconnectingUds
  ids : IdGen := {}
  /-- The id that a call was given. -/
  idOf : ℕ → Option Id := fun _ => none
  /-- The number of ids allocated so far. -/
  issued : ℕ := 0

/-- The client of the transport `t` when the call `n` is started there. -/
def UdsClient.started (s : UdsClient) (t n : ℕ) (idOf : ℕ → Option Id) : Client where
  transport := s.uds.transports t
  ids := s.ids
  idOf := Function.update idOf n (s.idOf n)
  issued := s.issued

/-- A server, its connections, and the clients that have dialled them. -/
structure UdsSystem (B : Backend) (C σ : Type) where
  system : System B C σ
  clients : ℕ → Option UdsClient := fun _ => none

/-- An atomic action of one of the tasks. -/
inductive UdsSystemAction (B : Backend) where
  /-- `UdsClient::connect_with_policy`, with its first connection. -/
  | connect (i : ℕ) (policy : RetryPolicy)
  /-- `Client::call` up to its `round_trip`. -/
  | call (i n : ℕ) (method : String) (params : Except JsonError B.Raw)
  /-- `Client::notify` up to its `send_notification`. -/
  | notify (i n : ℕ) (method : String) (params : Except JsonError B.Raw)
  /-- A call goes on, until it is handed over to a transport. -/
  | poll (i n : ℕ) (a : UdsCallAction)
  /-- At the end of a connection of a client. -/
  | transport (i t : ℕ) (a : PeerAction B)
  | server (a : ServerAction)

namespace UdsSystem

/-- The connection of the transport `t` of the client `i`. -/
def connection (i t : ℕ) : ℕ := Nat.pair i t

def new (w : World B C σ) : UdsSystem B C σ := { system := .new w }

def setClient (s : UdsSystem B C σ) (i : ℕ) (client : UdsClient) : UdsSystem B C σ :=
  { s with clients := Function.update s.clients i (some client) }

variable [Inhabited C] (router : Router B C σ) (f : Framing)

/-- The client `i` dials the connection of its transport `t`. -/
def dial (s : UdsSystem B C σ) (i t : ℕ) (client : UdsClient) : Option (UdsSystem B C σ) :=
  (s.system.step router f (.dial (connection i t) none defaultMaxFrameSize)).map fun system =>
    { s with system }.setClient i client

/-- The call `n` of the client `i` has gone on: what this does to its connections. -/
def follow (s : UdsSystem B C σ) (i n : ℕ) (client : UdsClient) : Option (UdsSystem B C σ) :=
  match (client.uds.calls n).map UdsCall.stage with
  | some (.dialled t) => s.dial router f i t client
  | some (.delegated t) =>
    (s.system.peers (connection i t)).map fun peer =>
      { s with
        system := s.system.setPeer (connection i t)
          { peer with client := client.started t n peer.client.idOf } }.setClient i client
  | _ => some (s.setClient i client)

/-- One atomic action. -/
def step (s : UdsSystem B C σ) : UdsSystemAction B → Option (UdsSystem B C σ)
  | .connect i policy =>
    if (s.clients i).isNone then s.dial router f i 0 { uds := .connect policy } else none
  | .call i n method params =>
    (s.clients i).bind fun client =>
      let (id, ids) := client.ids.nextId
      match encodeCall MultiplexError method (fun params => params) params id with
      | .error _ => some (s.setClient i { client with ids, issued := client.issued + 1 })
      | .ok (bytes, id) =>
        (client.uds.step B f (.start n .roundTrip bytes)).map fun uds =>
          s.setClient i
            { uds, ids, idOf := Function.update client.idOf n (some id), issued := client.issued + 1 }
  | .notify i n method params =>
    (s.clients i).bind fun client =>
      match encodeNotification MultiplexError method (fun params => params) params with
      | .error _ => some s
      | .ok bytes =>
        (client.uds.step B f (.start n .sendNotification bytes)).map fun uds =>
          s.setClient i { client with uds }
  | .poll i n a =>
    (s.clients i).bind fun client =>
      (client.uds.step B f (.call n a)).bind fun uds => s.follow router f i n { client with uds }
  | .transport i t a =>
    (s.clients i).bind fun client =>
      if a.StartsNone then
        (s.system.step router f (.peer (connection i t) a)).bind fun system =>
          (system.peers (connection i t)).map fun peer =>
            { s with system }.setClient i { client with
              uds := { client.uds with
                transports :=
                  Function.update client.uds.transports t peer.client.transport } }
      else none
  | .server a => (s.system.step router f (.server a)).map fun system => { s with system }

/-- The messages and the replies that are encoded fit, and no call is abandoned in the middle of its
frame. -/
def Allowed (fits : Bytes → Prop) (s : UdsSystem B C σ) : UdsSystemAction B → Prop
  | .call i _ method params => ∀ client ∈ s.clients i,
    Client.FitsIf fits ((encodeCall MultiplexError method (fun params => params) params
      client.ids.nextId.1).map Prod.fst)
  | .notify _ _ method params =>
    Client.FitsIf fits (encodeNotification MultiplexError method (fun params => params) params)
  | .transport i t a => s.system.Allowed router fits (.peer (connection i t) a)
  | .server a => s.system.Allowed router fits (.server a)
  | _ => True

instance {fits : Bytes → Prop} [DecidablePred fits] (s : UdsSystem B C σ) (a : UdsSystemAction B) :
    Decidable (s.Allowed router fits a) := by
  unfold Allowed
  split <;> infer_instance

/-- What an action does. -/
inductive Step (s : UdsSystem B C σ) : UdsSystemAction B → UdsSystem B C σ → Prop where
  | connect {i : ℕ} {policy : RetryPolicy} {system : System B C σ} (fresh : s.clients i = none)
    (dialled : s.system.step router f (.dial (connection i 0) none defaultMaxFrameSize) = some system) :
    Step s (.connect i policy) ({ s with system }.setClient i { uds := .connect policy })
  | failed {i n : ℕ} {method : String} {params : Except JsonError B.Raw} {client : UdsClient}
    (client_eq : s.clients i = some client) :
    Step s (.call i n method params)
      (s.setClient i { client with ids := client.ids.nextId.2, issued := client.issued + 1 })
  | call {i n : ℕ} {method : String} {params : Except JsonError B.Raw} {client : UdsClient}
    {bytes : Bytes} {id : Id} {uds : ReconnectingUds} (client_eq : s.clients i = some client)
    (encoded : encodeCall MultiplexError method (fun params => params) params
      client.ids.nextId.1 = .ok (bytes, id))
    (started : client.uds.step B f (.start n .roundTrip bytes) = some uds) :
    Step s (.call i n method params)
      (s.setClient i
        { uds
          ids := client.ids.nextId.2
          idOf := Function.update client.idOf n (some id)
          issued := client.issued + 1 })
  | skipped {i n : ℕ} {method : String} {params : Except JsonError B.Raw} :
    Step s (.notify i n method params) s
  | notify {i n : ℕ} {method : String} {params : Except JsonError B.Raw} {client : UdsClient}
    {bytes : Bytes} {uds : ReconnectingUds} (client_eq : s.clients i = some client)
    (encoded : encodeNotification MultiplexError method (fun params => params) params = .ok bytes)
    (started : client.uds.step B f (.start n .sendNotification bytes) = some uds) :
    Step s (.notify i n method params) (s.setClient i { client with uds })
  | moved {i n : ℕ} {a : UdsCallAction} {client : UdsClient} {uds : ReconnectingUds}
    (client_eq : s.clients i = some client) (stepped : client.uds.step B f (.call n a) = some uds)
    (transports_eq : uds.transports = client.uds.transports)
    (built_eq : uds.built = client.uds.built) :
    Step s (.poll i n a) (s.setClient i { client with uds })
  | dialled {i n : ℕ} {a : UdsCallAction} {client : UdsClient} {uds : ReconnectingUds}
    {system : System B C σ} (client_eq : s.clients i = some client)
    (stepped : client.uds.step B f (.call n a) = some uds)
    (transports_eq : uds.transports =
      Function.update client.uds.transports client.uds.built .new)
    (built_eq : uds.built = client.uds.built + 1)
    (dialled : s.system.step router f
      (.dial (connection i client.uds.built) none defaultMaxFrameSize) = some system) :
    Step s (.poll i n a) ({ s with system }.setClient i { client with uds })
  | delegated {i n t : ℕ} {a : UdsCallAction} {client : UdsClient} {uds : ReconnectingUds} {peer : Peer}
    {call : UdsCall} {transport : MultiplexTransport} (client_eq : s.clients i = some client)
    (stepped : client.uds.step B f (.call n a) = some uds)
    (call_eq : client.uds.calls n = some call)
    (started : (client.uds.transports t).step B f (.start n call.operation call.message) =
      some transport)
    (transports_eq : uds.transports = Function.update client.uds.transports t transport)
    (built_eq : uds.built = client.uds.built) (peer_eq : s.system.peers (connection i t) = some peer) :
    Step s (.poll i n a)
      ({ s with
        system := s.system.setPeer (connection i t) { peer with
          client := ({ client with uds } : UdsClient).started t n peer.client.idOf } }.setClient i
            { client with uds })
  | transport {i t : ℕ} {a : PeerAction B} {client : UdsClient} {peer : Peer} {system : System B C σ}
    (client_eq : s.clients i = some client) (unstarted : a.StartsNone)
    (stepped : s.system.step router f (.peer (connection i t) a) = some system)
    (peer_eq : system.peers (connection i t) = some peer) :
    Step s (.transport i t a)
      ({ s with system }.setClient i { client with
        uds := { client.uds with
          transports := Function.update client.uds.transports t peer.client.transport } })
  | server {a : ServerAction} {system : System B C σ}
    (stepped : s.system.step router f (.server a) = some system) :
    Step s (.server a) { s with system }

variable {router f} {s s' : UdsSystem B C σ} {a : UdsSystemAction B} {fits : Bytes → Prop}
  {w : World B C σ}

theorem Step.of_step (h : s.step router f a = some s') : Step router f s a s' := by
  cases a with
  | connect i policy =>
    rw [step, Option.ite_none_right_eq_some] at h
    obtain ⟨hfresh, h⟩ := h
    obtain ⟨system, hdial, rfl⟩ := Option.map_eq_some_iff.1 h
    exact .connect (Option.isNone_iff_eq_none.1 hfresh) hdial
  | call i n method params =>
    obtain ⟨client, hclient, h⟩ := Option.bind_eq_some_iff.1 h
    dsimp only at h
    split at h
    · obtain rfl := Option.some.inj h
      exact .failed hclient
    · rename_i bytes id hencoded
      obtain ⟨uds, hstarted, rfl⟩ := Option.map_eq_some_iff.1 h
      exact .call hclient hencoded hstarted
  | notify i n method params =>
    obtain ⟨client, hclient, h⟩ := Option.bind_eq_some_iff.1 h
    split at h
    · obtain rfl := Option.some.inj h
      exact .skipped
    · rename_i bytes hencoded
      obtain ⟨uds, hstarted, rfl⟩ := Option.map_eq_some_iff.1 h
      exact .notify hclient hencoded hstarted
  | poll i n a =>
    obtain ⟨client, hclient, h⟩ := Option.bind_eq_some_iff.1 h
    obtain ⟨uds, hstep, h⟩ := Option.bind_eq_some_iff.1 h
    rw [follow] at h
    cases ReconnectingUds.UdsStep.of_step hstep with
    | call hcall hcallStep =>
      rcases hcallStep.transports_cases with ⟨t, transport, hstage, hstarted, htransports, hbuilt⟩ |
        ⟨hstage, htransports, hbuilt⟩ | ⟨hdelegated, hdialled, htransports, hbuilt⟩
      · rw [hstage] at h
        obtain ⟨peer, hpeer, rfl⟩ := Option.map_eq_some_iff.1 h
        exact .delegated hclient hstep hcall hstarted htransports hbuilt hpeer
      · rw [hstage] at h
        obtain ⟨system, hdial, rfl⟩ := Option.map_eq_some_iff.1 h
        exact .dialled hclient hstep htransports hbuilt hdial
      · split at h
        · rename_i t hstage
          exact absurd hstage (hdialled t)
        · rename_i t hstage
          exact absurd hstage (hdelegated t)
        · obtain rfl := Option.some.inj h
          exact .moved hclient hstep htransports hbuilt
  | transport i t a =>
    obtain ⟨client, hclient, h⟩ := Option.bind_eq_some_iff.1 h
    rw [Option.ite_none_right_eq_some] at h
    obtain ⟨hunstarted, h⟩ := h
    obtain ⟨system, hstep, h⟩ := Option.bind_eq_some_iff.1 h
    obtain ⟨peer, hpeer, rfl⟩ := Option.map_eq_some_iff.1 h
    exact .transport hclient hunstarted hstep hpeer
  | server a =>
    obtain ⟨system, hstep, rfl⟩ := Option.map_eq_some_iff.1 h
    exact .server hstep

/-! ## A client in the system -/

@[simp] theorem connection_inj {i i' t t' : ℕ} :
    connection i t = connection i' t' ↔ i = i' ∧ t = t' := Nat.pair_eq_pair

end UdsSystem

namespace ReconnectingUds

variable {f : Framing} {s s' : ReconnectingUds} {n : ℕ} {a : UdsCallAction}

theorem calls_of_step (h : s.step B f (.call n a) = some s') {n' : ℕ} {call' : UdsCall}
    (hcall' : s'.calls n' = some call') : ∃ call, s.calls n' = some call ∧
      call'.operation = call.operation ∧ call'.message = call.message := by
  cases UdsStep.of_step h with
  | @call _ call _ _ hcall hstep =>
    obtain ⟨observed, stage, hcalls⟩ := hstep.calls_eq
    rw [hcalls] at hcall'
    rcases Table.of_update hcall' with ⟨rfl, rfl⟩ | ⟨-, hcall'⟩
    · exact ⟨call, hcall, rfl, rfl⟩
    · exact ⟨call', hcall', rfl, rfl⟩

theorem calls_of_step_none (h : s.step B f (.call n a) = some s') {n' : ℕ}
    (hnone : s'.calls n' = none) : s.calls n' = none := by
  cases UdsStep.of_step h with
  | call _ hstep =>
    obtain ⟨observed, stage, hcalls⟩ := hstep.calls_eq
    rw [hcalls] at hnone
    exact (Table.of_update_none hnone).2

end ReconnectingUds

/-- What holds of a client, when `peers` are the ends of its connections. -/
structure UdsClient.Sound (B : Backend) (f : Framing) (fits : Bytes → Prop) (peers : ℕ → Option Peer)
    (s : UdsClient) : Prop where
  /-- It runs as it does alone. -/
  alone : ∃ policy, Reach (ReconnectingUds.step B f) always (.connect policy) s.uds
  gave : s.ids.Gave s.issued s.idOf
  fresh {n : ℕ} : s.uds.calls n = none → s.idOf n = none
  encoded {n : ℕ} {call : UdsCall} : s.uds.calls n = some call → ∃ req : Request B,
    call.message = B.get req.serialize ∧ req.id = s.idOf n ∧ fits call.message ∧
      ({ operation := call.operation, message := call.message : Call }).id B = s.idOf n
  peer {t : ℕ} {peer : Peer} : peers t = some peer →
    peer.client.transport = s.uds.transports t ∧ peer.client.issued ≤ s.issued
  idOf_eq {t c : ℕ} {peer : Peer} {call : Call} : peers t = some peer →
    peer.client.transport.calls c = some call → peer.client.idOf c = s.idOf c
  built {t : ℕ} : (peers t).isSome ↔ t < s.uds.built
  unbuilt {t : ℕ} : peers t = none → s.uds.transports t = .new

namespace UdsClient.Sound

variable {f : Framing} {fits : Bytes → Prop} {peers : ℕ → Option Peer} {s : UdsClient} {n t : ℕ}

theorem bound (h : s.Sound B f fits peers) : s.uds.Bound := by
  obtain ⟨policy, hreach⟩ := h.alone
  exact .of_reach hreach

theorem alone_step (h : s.Sound B f fits peers) {a : UdsAction} {uds : ReconnectingUds}
    (hstep : s.uds.step B f a = some uds) :
    ∃ policy, Reach (ReconnectingUds.step B f) always (.connect policy) uds := by
  obtain ⟨policy, hreach⟩ := h.alone
  exact ⟨policy, hreach.tail trivial hstep⟩

/-- A client that has just dialled. -/
theorem connect (policy : RetryPolicy) {peer : Peer} (hclient : peer.client = .new)
    (hpeer : peers 0 = some peer) (hpeers : ∀ t, t ≠ 0 → peers t = none) :
    Sound B f fits peers { uds := .connect policy } where
  alone := ⟨policy, .refl⟩
  gave := .new
  fresh _ := rfl
  encoded h := by cases h
  peer {t peer'} hpeer' := by
    by_cases ht : t = 0
    · subst ht
      obtain rfl := Option.some.inj (hpeer.symm.trans hpeer')
      rw [hclient]
      exact ⟨rfl, le_rfl⟩
    · cases (hpeers t ht).symm.trans hpeer'
  idOf_eq {t c peer' call} hpeer' hcall := by
    by_cases ht : t = 0
    · subst ht
      obtain rfl := Option.some.inj (hpeer.symm.trans hpeer')
      rw [hclient] at hcall
      cases hcall
    · cases (hpeers t ht).symm.trans hpeer'
  built {t} := by
    show (peers t).isSome ↔ t < 1
    by_cases ht : t = 0
    · subst ht
      simp [hpeer]
    · simp [hpeers t ht, ht]
  unbuilt _ := rfl

theorem failed (h : s.Sound B f fits peers) :
    Sound B f fits peers { s with ids := s.ids.nextId.2, issued := s.issued + 1 } where
  alone := h.alone
  gave := h.gave.skip
  fresh := h.fresh
  encoded := h.encoded
  peer hpeer := ⟨(h.peer hpeer).1, Nat.le_succ_of_le (h.peer hpeer).2⟩
  idOf_eq := h.idOf_eq
  built := h.built
  unbuilt := h.unbuilt

/-- A call is made. -/
theorem start (h : s.Sound B f fits peers) {operation : Operation} {bytes : Bytes}
    {uds : ReconnectingUds} (hstart : s.uds.step B f (.start n operation bytes) = some uds)
    {req : Request B} (hbytes : bytes = B.get req.serialize) (hfits : fits bytes)
    (hid : ({ operation, message := bytes : Call }).id B = req.id) {ids : IdGen} {issued : ℕ}
    (hissued : s.issued ≤ issued) (hgave : ids.Gave issued (Function.update s.idOf n req.id)) :
    Sound B f fits peers { uds, ids, idOf := Function.update s.idOf n req.id, issued } := by
  have halone := h.alone_step hstart
  cases ReconnectingUds.UdsStep.of_step hstart with
  | start hfresh =>
    constructor
    · exact halone
    · exact hgave
    · intro n' hnone
      obtain ⟨hne, hnone⟩ := Table.of_update_none hnone
      exact (Function.update_of_ne hne ..).trans (h.fresh hnone)
    · intro n' call hcall
      show ∃ req' : Request B, call.message = B.get req'.serialize ∧
        req'.id = Function.update s.idOf n req.id n' ∧ fits call.message ∧
          ({ operation := call.operation, message := call.message : Call }).id B =
            Function.update s.idOf n req.id n'
      rcases Table.of_update hcall with ⟨rfl, rfl⟩ | ⟨hne, hcall⟩
      · rw [Function.update_self]
        exact ⟨req, hbytes, rfl, hfits, hid⟩
      · rw [Function.update_of_ne hne]
        exact h.encoded hcall
    · exact fun hpeer => ⟨(h.peer hpeer).1, (h.peer hpeer).2.trans hissued⟩
    · intro t c peer call hpeer hcall
      -- a call of a transport is an older one
      obtain ⟨htransport, -⟩ := h.peer hpeer
      obtain ⟨before, hbefore, -⟩ := h.bound t c call (htransport ▸ hcall)
      have hne : c ≠ n := fun heq => by cases (heq ▸ hbefore).symm.trans hfresh
      exact (h.idOf_eq hpeer hcall).trans (Function.update_of_ne hne ..).symm
    · exact h.built
    · exact h.unbuilt

/-- A call goes on, and what the ends of the connections are is known. -/
theorem poll (h : s.Sound B f fits peers) {a : UdsCallAction} {uds : ReconnectingUds}
    (hstep : s.uds.step B f (.call n a) = some uds) {peers' : ℕ → Option Peer}
    (hpeer : ∀ {t peer}, peers' t = some peer →
      peer.client.transport = uds.transports t ∧ peer.client.issued ≤ s.issued)
    (hidOf : ∀ {t c peer call}, peers' t = some peer → peer.client.transport.calls c = some call →
      peer.client.idOf c = s.idOf c)
    (hbuilt : ∀ {t}, (peers' t).isSome ↔ t < uds.built)
    (hunbuilt : ∀ {t}, peers' t = none → uds.transports t = .new) :
    Sound B f fits peers' { s with uds } where
  alone := h.alone_step hstep
  gave := h.gave
  fresh hnone := h.fresh (ReconnectingUds.calls_of_step_none hstep hnone)
  encoded {n call'} hcall' := by
    obtain ⟨call, hcall, hoperation, hmessage⟩ := ReconnectingUds.calls_of_step hstep hcall'
    rw [hoperation, hmessage]
    exact h.encoded hcall
  peer := hpeer
  idOf_eq := hidOf
  built := hbuilt
  unbuilt := hunbuilt

theorem moved (h : s.Sound B f fits peers) {a : UdsCallAction} {uds : ReconnectingUds}
    (hstep : s.uds.step B f (.call n a) = some uds) (htransports : uds.transports = s.uds.transports)
    (hbuilt : uds.built = s.uds.built) : Sound B f fits peers { s with uds } := by
  apply h.poll hstep
  · rw [htransports]
    exact h.peer
  · exact h.idOf_eq
  · rw [hbuilt]
    exact h.built
  · rw [htransports]
    exact h.unbuilt

/-- A call has dialled. -/
theorem dialled (h : s.Sound B f fits peers) {a : UdsCallAction} {uds : ReconnectingUds}
    (hstep : s.uds.step B f (.call n a) = some uds)
    (htransports : uds.transports = Function.update s.uds.transports s.uds.built .new)
    (hbuilt : uds.built = s.uds.built + 1) {peer : Peer} (hclient : peer.client = .new) :
    Sound B f fits (Function.update peers s.uds.built (some peer)) { s with uds } := by
  apply h.poll hstep
  · intro t peer' hpeer'
    rcases Table.of_update hpeer' with ⟨rfl, rfl⟩ | ⟨hne, hpeer'⟩
    · rw [htransports, Function.update_self, hclient]
      exact ⟨rfl, Nat.zero_le _⟩
    · rw [htransports, Function.update_of_ne hne]
      exact h.peer hpeer'
  · intro t c peer' call hpeer' hcall
    rcases Table.of_update hpeer' with ⟨rfl, rfl⟩ | ⟨-, hpeer'⟩
    · rw [hclient] at hcall
      cases hcall
    · exact h.idOf_eq hpeer' hcall
  · intro t
    rw [hbuilt, Function.update_apply]
    split_ifs with ht
    · simp [ht]
    · rw [h.built]
      omega
  · intro t hnone
    obtain ⟨hne, hnone⟩ := Table.of_update_none hnone
    rw [htransports, Function.update_of_ne hne]
    exact h.unbuilt hnone

/-- A call is started on a transport, under the id that it has. -/
theorem numbered (h : s.Sound B f fits peers) {peer : Peer} (hpeer : peers t = some peer)
    (hpeerSound : peer.Sound B f fits) {call : UdsCall} {transport : MultiplexTransport}
    (hcall : s.uds.calls n = some call)
    (hstart : peer.client.transport.step B f (.start n call.operation call.message) =
      some transport) :
    Client.Numbered B
      { transport
        ids := s.ids
        idOf := Function.update peer.client.idOf n (s.idOf n)
        issued := s.issued } := by
  obtain ⟨-, hissued⟩ := h.peer hpeer
  obtain ⟨req, -, -, -, hid⟩ := h.encoded hcall
  apply hpeerSound.client.numbered.forward hstart hid h.gave.next_eq hissued
  · exact fun x hx => h.gave.given hx
  · -- the call of the transport with this id would be the same call
    intro hfew x hx c hc
    cases hinner : peer.client.transport.calls c with
    | none => cases (hpeerSound.client.numbered.fresh hinner).symm.trans hc
    | some inner =>
      obtain rfl := h.gave.unique hfew ((h.idOf_eq hpeer hinner).symm.trans hc) hx
      cases MultiplexTransport.Step.of_step hstart with
      | start hfresh => cases hinner.symm.trans hfresh

/-- A call is handed over to a transport. -/
theorem delegated (h : s.Sound B f fits peers) {a : UdsCallAction} {uds : ReconnectingUds}
    (hstep : s.uds.step B f (.call n a) = some uds) {call : UdsCall} {transport : MultiplexTransport}
    {peer : Peer} (hpeer : peers t = some peer)
    (hstart : peer.client.transport.step B f (.start n call.operation call.message) = some transport)
    (htransports : uds.transports = Function.update s.uds.transports t transport)
    (hbuilt : uds.built = s.uds.built) :
    Sound B f fits
      (Function.update peers t (some { peer with
        client := ({ s with uds } : UdsClient).started t n peer.client.idOf })) { s with uds } := by
  apply h.poll hstep
  · intro t' peer' hpeer'
    rcases Table.of_update hpeer' with ⟨rfl, rfl⟩ | ⟨hne, hpeer'⟩
    · exact ⟨rfl, le_rfl⟩
    · rw [htransports, Function.update_of_ne hne]
      exact h.peer hpeer'
  · intro t' c peer' inner hpeer' hinner
    rcases Table.of_update hpeer' with ⟨rfl, rfl⟩ | ⟨-, hpeer'⟩
    · show Function.update peer.client.idOf n (s.idOf n) c = s.idOf c
      have hinner : (uds.transports t').calls c = some inner := hinner
      rw [htransports, Function.update_self] at hinner
      cases MultiplexTransport.Step.of_step hstart with
      | start hfresh =>
        rcases Table.of_update hinner with ⟨rfl, -⟩ | ⟨hne, hinner⟩
        · exact Function.update_self ..
        · exact (Function.update_of_ne hne ..).trans (h.idOf_eq hpeer hinner)
    · exact h.idOf_eq hpeer' hinner
  · intro t'
    rw [hbuilt, Function.update_apply]
    split_ifs with ht
    · rw [ht, ← h.built, hpeer]
      simp
    · exact h.built
  · intro t' hnone
    obtain ⟨hne, hnone⟩ := Table.of_update_none hnone
    rw [htransports, Function.update_of_ne hne]
    exact h.unbuilt hnone

/-- At the end of a connection no call is started. -/
theorem transport (h : s.Sound B f fits peers) {peer peer' : Peer} (hpeer : peers t = some peer)
    {a : PeerAction B} (hstarts : a.StartsNone) (hstep : Peer.Step B f peer a peer') :
    Sound B f fits (Function.update peers t (some peer'))
      { s with uds := { s.uds with
        transports := Function.update s.uds.transports t peer'.client.transport } } := by
  obtain ⟨htransport, hissued⟩ := h.peer hpeer
  have hlt : t < s.uds.built := by
    rw [← h.built, hpeer]
    rfl
  have hgoes := hstep.goes hstarts
  constructor
  · rcases hstep.transport_cases hstarts with heq | ⟨ta, hunstarted, hstep⟩
    · rw [heq, htransport, Function.update_eq_self]
      exact h.alone
    · rw [htransport] at hstep
      apply h.alone_step (a := .transport t ta)
      rw [ReconnectingUds.step, if_pos hlt, hstep]
      · rfl
      · exact hunstarted
  · exact h.gave
  · exact h.fresh
  · exact h.encoded
  · intro t' peer'' hpeer''
    show peer''.client.transport =
      Function.update s.uds.transports t peer'.client.transport t' ∧ _
    rcases Table.of_update hpeer'' with ⟨rfl, rfl⟩ | ⟨hne, hpeer''⟩
    · rw [Function.update_self]
      exact ⟨rfl, hgoes.issued_eq.trans_le hissued⟩
    · rw [Function.update_of_ne hne]
      exact h.peer hpeer''
  · intro t' c peer'' call' hpeer'' hcall'
    rcases Table.of_update hpeer'' with ⟨rfl, rfl⟩ | ⟨-, hpeer''⟩
    · obtain ⟨call, hcall, -⟩ := hgoes.calls hcall'
      exact (congrFun hgoes.idOf_eq c).trans (h.idOf_eq hpeer hcall)
    · exact h.idOf_eq hpeer'' hcall'
  · intro t'
    rw [Function.update_apply]
    split_ifs with ht
    · simp [ht, hlt]
    · exact h.built
  · intro t' hnone
    obtain ⟨hne, hnone⟩ := Table.of_update_none hnone
    exact (Function.update_of_ne hne ..).trans (h.unbuilt hnone)

end UdsClient.Sound

/-! ## The system in every state -/

namespace UdsSystem

variable [Inhabited C] {router : Router B C σ} {f : Framing} {s s' : UdsSystem B C σ}
  {a : UdsSystemAction B} {fits : Bytes → Prop} {w : World B C σ}

/-- The ends of the connections of the client `i`. -/
def peersOf (system : System B C σ) (i t : ℕ) : Option Peer := system.peers (connection i t)

/-- What holds in every state. -/
structure Sound (router : Router B C σ) (f : Framing) (fits : Bytes → Prop) (w : World B C σ)
    (s : UdsSystem B C σ) : Prop where
  system : s.system.Sound router f fits w
  client {i : ℕ} {client : UdsClient} : s.clients i = some client →
    client.Sound B f fits (peersOf s.system i)
  absent {i : ℕ} : s.clients i = none → ∀ t, peersOf s.system i t = none

omit [Inhabited C] in
theorem peersOf_setPeer (system : System B C σ) (i t : ℕ) (peer : Peer) :
    peersOf (system.setPeer (connection i t) peer) i = Function.update (peersOf system i) t (some peer) ∧
      ∀ j, j ≠ i → peersOf (system.setPeer (connection i t) peer) j = peersOf system j := by
  constructor
  · funext t'
    show Function.update system.peers _ _ (connection i t') = _
    simp only [Function.update_apply, connection_inj, true_and]
    rfl
  · intro j hj
    funext t'
    have hne : connection j t' ≠ connection i t := fun heq => hj (connection_inj.1 heq).1
    exact Function.update_of_ne hne ..

namespace Sound

theorem new (router : Router B C σ) (f : Framing) (fits : Bytes → Prop) (w : World B C σ) :
    Sound router f fits w (new w) where
  system := .new router f fits w
  client h := by cases h
  absent _ _ := rfl

/-- A client and its connections take a step. -/
theorem setClient (h : Sound router f fits w s) {system : System B C σ} {i : ℕ} {client : UdsClient}
    (hsystem : system.Sound router f fits w) (hclient : client.Sound B f fits (peersOf system i))
    (hothers : ∀ j, j ≠ i → peersOf system j = peersOf s.system j) :
    Sound router f fits w ({ s with system }.setClient i client) where
  system := hsystem
  client {j client'} hclient' := by
    rcases Table.of_update hclient' with ⟨rfl, rfl⟩ | ⟨hne, hclient'⟩
    · exact hclient
    · show client'.Sound B f fits (peersOf system j)
      rw [hothers j hne]
      exact h.client hclient'
  absent {j} hnone t := by
    obtain ⟨hne, hnone⟩ := Table.of_update_none hnone
    show peersOf system j t = none
    rw [hothers j hne]
    exact h.absent hnone t

theorem setClient_alone (h : Sound router f fits w s) {i : ℕ} {client : UdsClient}
    (hclient : client.Sound B f fits (peersOf s.system i)) :
    Sound router f fits w (s.setClient i client) :=
  h.setClient h.system hclient fun _ _ => rfl

theorem dial (h : Sound router f fits w s) (law : B.Lawful) (hf : Lawful f.decode)
    (heof : f.takeOnEof = false) {system : System B C σ} {i t : ℕ} {client : UdsClient}
    (hdial : s.system.step router f (.dial (connection i t) none defaultMaxFrameSize) = some system)
    (hclient : ∀ peer : Peer, peer.client = .new →
      client.Sound B f fits (Function.update (peersOf s.system i) t (some peer))) :
    Sound router f fits w ({ s with system }.setClient i client) := by
  have hsystem := h.system.step law hf heof (a := .dial ..) trivial hdial
  cases System.Step.of_step hdial with
  | dial =>
    obtain ⟨hpeers, hothers⟩ := peersOf_setPeer s.system i t
      { inbox := { core := { readTimeout := none, maxFrameSize := defaultMaxFrameSize } } }
    apply h.setClient hsystem _ hothers
    rw [hpeers]
    exact hclient _ rfl

theorem step (h : Sound router f fits w s) (law : B.Lawful) (hf : Lawful f.decode)
    (heof : f.takeOnEof = false) (hok : s.Allowed router fits a)
    (hstep : s.step router f a = some s') : Sound router f fits w s' := by
  cases Step.of_step hstep with
  | @connect i policy system hfresh hdial =>
    apply h.dial law hf heof hdial
    intro peer hpeer
    apply UdsClient.Sound.connect policy hpeer (Function.update_self ..)
    intro t ht
    rw [Function.update_of_ne ht]
    exact h.absent hfresh t
  | failed hclient => exact h.setClient_alone (h.client hclient).failed
  | @call i n method params client bytes id uds hclient hencoded hstarted =>
    have hsound := h.client hclient
    obtain ⟨-, hparse⟩ := parseId_encodeCall law hencoded
    rw [Allowed] at hok
    have hfits := hok client hclient
    rw [hencoded] at hfits
    obtain ⟨rfl, req, hbytes, hid⟩ := Client.exists_of_encodeCall hencoded
    rw [← hid]
    apply h.setClient_alone
    apply hsound.start hstarted hbytes hfits _ (Nat.le_succ _)
    · rw [hid]
      exact hsound.gave.allocate n
    · rw [hid]
      exact hparse
  | skipped => exact h
  | @notify i n method params client bytes uds hclient hencoded hstarted =>
    have hsound := h.client hclient
    rw [Allowed, hencoded] at hok
    obtain ⟨req, hbytes, hid⟩ := Client.exists_of_encodeNotification hencoded
    have hidOf : Function.update client.idOf n req.id = client.idOf := by
      cases ReconnectingUds.UdsStep.of_step hstarted with
      | start hfresh => rw [hid, ← hsound.fresh hfresh, Function.update_eq_self]
    have hstart := hsound.start hstarted hbytes hok hid.symm le_rfl (hidOf ▸ hsound.gave)
    rw [hidOf] at hstart
    exact h.setClient_alone hstart
  | moved hclient hstepped htransports hbuilt =>
    exact h.setClient_alone ((h.client hclient).moved hstepped htransports hbuilt)
  | dialled hclient hstepped htransports hbuilt hdial =>
    apply h.dial law hf heof hdial
    exact fun peer hpeer => (h.client hclient).dialled hstepped htransports hbuilt hpeer
  | @delegated i n t a client uds peer call transport hclient hstepped hcall hstarted htransports hbuilt
      hpeer =>
    have hsound := h.client hclient
    have hpeerSound := h.system.peer hpeer
    have htold := h.system.told hpeer
    obtain ⟨htransport, hissued⟩ := hsound.peer hpeer
    rw [← htransport] at hstarted
    obtain ⟨req, hmessage, hid, hfits, -⟩ := hsound.encoded hcall
    have hnumbered := hsound.numbered hpeer hpeerSound hcall hstarted
    have hstarted' := hstarted
    rw [hmessage] at hstarted' hfits
    rw [← hid] at hnumbered
    have hforward := hpeerSound.forward hstarted' hissued hfits hnumbered
    have hstarts : ({ client with uds } : UdsClient).started t n peer.client.idOf =
        { transport, ids := client.ids, idOf := Function.update peer.client.idOf n req.id,
          issued := client.issued } := by
      rw [UdsClient.started, hid]
      dsimp only
      rw [htransports, Function.update_self]
    rw [← hstarts] at hforward
    obtain ⟨hpeers, hothers⟩ := peersOf_setPeer s.system i t
      { peer with client := ({ client with uds } : UdsClient).started t n peer.client.idOf }
    apply h.setClient _ _ hothers
    · apply h.system.setPeer hforward
      · rw [System.wireOf_of_peer hpeer, hstarts]
        exact MultiplexTransport.wire_grows (.of_step hstarted)
      · exact htold
    · rw [hpeers]
      exact hsound.delegated hstepped hpeer hstarted htransports hbuilt
  | @transport i t a client peer system hclient hunstarted hstepped hpeer =>
    have hsystem := h.system.step law hf heof (a := .peer (connection i t) a) hok hstepped
    cases System.Step.of_step hstepped with
    | @peer _ _ before after hbefore harrived hmoved =>
      have hafter : (s.system.setPeer (connection i t) after).peers (connection i t) = some after :=
        Function.update_self ..
      obtain rfl := Option.some.inj (hafter.symm.trans hpeer)
      obtain ⟨hpeers, hothers⟩ := peersOf_setPeer s.system i t after
      apply h.setClient hsystem _ hothers
      rw [hpeers]
      exact (h.client hclient).transport hbefore hunstarted hmoved
  | server hstepped =>
    have hsystem := h.system.step law hf heof (a := .server _) hok hstepped
    cases System.Step.of_step hstepped with
    | server => exact ⟨hsystem, h.client, h.absent⟩

theorem of_reach (law : B.Lawful) (hf : Lawful f.decode) (heof : f.takeOnEof = false)
    (h : Reach (UdsSystem.step router f) (Allowed router fits) (.new w) s) :
    Sound router f fits w s :=
  h.invariant (.new router f fits w) fun _ _ _ h hok hstep => h.step law hf heof hok hstep

end Sound

end UdsSystem

/-! ## One effect, whatever the connections -/

namespace ReconnectingUds

variable {f : Framing} {s s' : ReconnectingUds} {n : ℕ} {a : UdsAction}

/-- A call keeps its message. -/
theorem exists_call_of_step (h : s.step B f a = some s') {call : UdsCall}
    (hcall : s.calls n = some call) :
    ∃ call', s'.calls n = some call' ∧ call'.message = call.message := by
  cases UdsStep.of_step h with
  | start hfresh =>
    have hne : n ≠ _ := fun heq => by cases (heq ▸ hcall).symm.trans hfresh
    exact ⟨call, (Function.update_of_ne hne ..).trans hcall, rfl⟩
  | @call m callm _ _ hcallm hstep =>
    obtain ⟨observed, stage, hcalls⟩ := hstep.calls_eq
    rw [hcalls]
    by_cases hn : n = m
    · subst hn
      obtain rfl := Option.some.inj (hcall.symm.trans hcallm)
      exact ⟨_, Function.update_self .., rfl⟩
    · exact ⟨call, (Function.update_of_ne hn ..).trans hcall, rfl⟩
  | transport => exact ⟨call, hcall, rfl⟩

/-- No call ends with a reply before it is handed over. -/
def NoneReplies (s : ReconnectingUds) : Prop :=
  ∀ n call frame, s.calls n = some call → call.stage ≠ .done (.reply frame)

theorem NoneReplies.step (h : s.NoneReplies) (hstep : s.step B f a = some s') : s'.NoneReplies := by
  intro n call' frame hcall'
  cases UdsStep.of_step hstep with
  | start =>
    rcases Table.of_update hcall' with ⟨rfl, rfl⟩ | ⟨-, hcall'⟩
    · exact fun heq => by cases heq
    · exact h n call' frame hcall'
  | @call m call _ _ hcall hstep =>
    by_cases hn : n = m
    · subst hn
      cases hstep with
      | _ =>
        obtain rfl := eq_of_calls_setStage hcall'
        exact fun heq => by cases heq
    · obtain ⟨observed, stage, hcalls⟩ := hstep.calls_eq
      rw [hcalls, Function.update_of_ne hn] at hcall'
      exact h n call' frame hcall'
  | transport => exact h n call' frame hcall'

/-- A call that ends with a reply has been handed over, and its call of the transport has. -/
theorem exists_delegated_of_reply {policy : RetryPolicy} {frame : Bytes}
    (hreach : Reach (ReconnectingUds.step B f) always (connect policy) s)
    (h : s.outcome n = some (.reply frame)) : ∃ t inner, s.Delegated n t ∧
      (s.transports t).calls n = some inner ∧ inner.phase = .done (.reply frame) := by
  have hnone : s.NoneReplies :=
    hreach.invariant (fun n call frame hcall => by cases hcall) fun _ _ _ h _ hstep => h.step hstep
  rw [outcome] at h
  split at h
  · rename_i r hstage
    obtain ⟨call, hcall, hstage⟩ := Option.map_eq_some_iff.1 hstage
    obtain rfl := Option.some.inj h
    exact absurd hstage (hnone n call frame hcall)
  · rename_i t hstage
    obtain ⟨call, hcall, hstage⟩ := Option.map_eq_some_iff.1 hstage
    split at h
    · rename_i r hphase
      obtain ⟨inner, hinner, hphase⟩ := Option.map_eq_some_iff.1 hphase
      obtain rfl := Option.some.inj h
      exact ⟨t, inner, ⟨call, hcall, hstage⟩, hinner, hphase⟩
    · cases h
  · cases h

end ReconnectingUds

/-- The message of a call. -/
def UdsClient.message (s : UdsClient) (n : ℕ) : Bytes :=
  ((s.uds.calls n).map UdsCall.message).getD []

theorem UdsClient.message_of_call {s : UdsClient} {n : ℕ} {call : UdsCall}
    (h : s.uds.calls n = some call) : s.message n = call.message := by
  rw [message, h]
  rfl

theorem UdsClient.Sound.eq_of_message_eq {f : Framing} {fits : Bytes → Prop} {peers : ℕ → Option Peer}
    {s : UdsClient} (h : s.Sound B f fits peers) (law : B.Lawful) (hfew : s.issued < 2 ^ 64)
    {n n' : ℕ} {call call' : UdsCall} {id : Id} (hcall : s.uds.calls n = some call)
    (hid : s.idOf n = some id) (hcall' : s.uds.calls n' = some call')
    (hmessage : call'.message = call.message) : n' = n := by
  obtain ⟨req, hreq, hreqId, -⟩ := h.encoded hcall
  obtain ⟨req', hreq', hreqId', -⟩ := h.encoded hcall'
  rw [hreq, hreq'] at hmessage
  have hid' : s.idOf n' = some id := by
    rw [← hreqId', req'.id_eq_of_get_eq law hmessage, hreqId, hid]
  exact h.gave.unique hfew.le hid' hid

namespace UdsSystem

variable [Inhabited C] {router : Router B C σ} {f : Framing} {s s' : UdsSystem B C σ}
  {a : UdsSystemAction B} {fits : Bytes → Prop} {w : World B C σ}

/-- The message stands in the log once: on the connection of the transport `t`, after `before`; and on no
other connection of the client. -/
structure StandsOnce (log : List (ℕ × Bytes)) (i t : ℕ) (message : Bytes)
    (before after : List (ℕ × Bytes)) : Prop where
  log_eq : log = before ++ (connection i t, message) :: after
  notMem_before (t' : ℕ) : (connection i t', message) ∉ before
  notMem_after (t' : ℕ) : (connection i t', message) ∉ after

namespace Sound

variable {i n t : ℕ} {client : UdsClient} {call : UdsCall}

theorem exists_order (h : Sound router f fits w s) (hf : Lawful f.decode)
    (hcarries : ∀ p, fits p → Carries f.decode f.encode p) (hclient : s.clients i = some client)
    (t : ℕ) :
    ∃ order : List ℕ, order.Nodup ∧ (∀ n ∈ order, client.uds.Delegated n t) ∧
      entriesOf (connection i t) s.system.server.log = order.map client.message := by
  have hsound := h.client hclient
  cases hpeer : s.system.peers (connection i t) with
  | none =>
    refine ⟨[], List.nodup_nil, (fun n hn => by cases hn), ?_⟩
    exact h.system.entriesOf_of_none hf hpeer
  | some peer =>
    obtain ⟨htransport, -⟩ := hsound.peer hpeer
    obtain ⟨order, hnodup, hcalls, hentries⟩ := h.system.exists_order hf hcarries hpeer
    refine ⟨order, hnodup, fun n hn => ?_, ?_⟩
    · obtain ⟨inner, hinner, -⟩ := hcalls n hn
      rw [htransport] at hinner
      exact hsound.bound.delegated hinner
    · rw [hentries]
      apply List.map_congr_left
      intro n hn
      obtain ⟨inner, hinner, -⟩ := hcalls n hn
      rw [MultiplexTransport.message_of_call hinner]
      rw [htransport] at hinner
      obtain ⟨call, hcall, -, hmessage⟩ := hsound.bound t n inner hinner
      rw [hmessage, UdsClient.message_of_call hcall]

theorem delegated_of_mem (h : Sound router f fits w s) (law : B.Lawful) (hf : Lawful f.decode)
    (hcarries : ∀ p, fits p → Carries f.decode f.encode p) (hclient : s.clients i = some client)
    (hfew : client.issued < 2 ^ 64) {id : Id} (hcall : client.uds.calls n = some call)
    (hid : client.idOf n = some id) (hmem : (connection i t, call.message) ∈ s.system.server.log) :
    client.uds.Delegated n t := by
  obtain ⟨order, -, hdelegated, hentries⟩ := h.exists_order hf hcarries hclient t
  rw [← mem_entriesOf, hentries] at hmem
  obtain ⟨n', hn', hmessage⟩ := List.mem_map.1 hmem
  obtain ⟨call', hcall', hstage⟩ := hdelegated n' hn'
  rw [UdsClient.message_of_call hcall'] at hmessage
  obtain rfl := (h.client hclient).eq_of_message_eq law hfew hcall hid hcall' hmessage
  exact ⟨call', hcall', hstage⟩

/-- Such an entry is the only one. -/
theorem standsOnce (h : Sound router f fits w s) (law : B.Lawful) (hf : Lawful f.decode)
    (hcarries : ∀ p, fits p → Carries f.decode f.encode p) (hclient : s.clients i = some client)
    (hfew : client.issued < 2 ^ 64) {id : Id} (hcall : client.uds.calls n = some call)
    (hid : client.idOf n = some id) {before after : List (ℕ × Bytes)}
    (hlog : s.system.server.log = before ++ (connection i t, call.message) :: after) :
    StandsOnce s.system.server.log i t call.message before after := by
  have hmem : (connection i t, call.message) ∈ s.system.server.log := by
    rw [hlog]
    exact List.mem_append_right _ List.mem_cons_self
  have hdelegated := h.delegated_of_mem law hf hcarries hclient hfew hcall hid hmem
  -- any other entry is on the same connection, where the calls stand once
  have honly {t' : ℕ} (hmem' : (connection i t', call.message) ∈ s.system.server.log) : t' = t :=
    (h.delegated_of_mem law hf hcarries hclient hfew hcall hid hmem').unique hdelegated
  obtain ⟨order, hnodup, hcalls, hentries⟩ := h.exists_order hf hcarries hclient t
  have hsplit : entriesOf (connection i t) s.system.server.log =
      entriesOf (connection i t) before ++ call.message :: entriesOf (connection i t) after := by
    rw [hlog, Server.entriesOf_append, Server.entriesOf_cons_self]
  rw [hentries] at hsplit
  obtain ⟨first, rest, rfl, hfirst, hrest⟩ := List.map_eq_append_iff.1 hsplit
  obtain ⟨n', last, rfl, hmessage, hlast⟩ := List.map_eq_cons_iff.1 hrest
  have hown {x : ℕ} (hx : x ∈ first ++ n' :: last) (hmessage : client.message x = call.message) :
      x = n := by
    obtain ⟨callx, hcallx, -⟩ := hcalls x hx
    rw [UdsClient.message_of_call hcallx] at hmessage
    exact (h.client hclient).eq_of_message_eq law hfew hcall hid hcallx hmessage
  obtain rfl := hown (List.mem_append_right _ List.mem_cons_self) hmessage
  have hdisjoint := List.nodup_middle.1 hnodup
  rw [List.nodup_cons, List.mem_append] at hdisjoint
  refine ⟨hlog, fun t' hbefore => ?_, fun t' hafter => ?_⟩
  · obtain rfl := honly (hlog ▸ List.mem_append_left _ hbefore)
    rw [← mem_entriesOf, ← hfirst] at hbefore
    obtain ⟨x, hx, hmessage⟩ := List.mem_map.1 hbefore
    obtain rfl := hown (List.mem_append_left _ hx) hmessage
    exact hdisjoint.1 (.inl hx)
  · obtain rfl := honly (hlog ▸ List.mem_append_right _ (List.mem_cons_of_mem _ hafter))
    rw [← mem_entriesOf, ← hlast] at hafter
    obtain ⟨x, hx, hmessage⟩ := List.mem_map.1 hafter
    obtain rfl := hown (List.mem_append_right _ (List.mem_cons_of_mem _ hx)) hmessage
    exact hdisjoint.1 (.inr hx)

theorem replied (h : Sound router f fits w s) (law : B.Lawful) (hf : Lawful f.decode)
    (hcarries : ∀ p, fits p → Carries f.decode f.encode p) (hclient : s.clients i = some client)
    (hfew : client.issued < 2 ^ 64) (hcall : client.uds.calls n = some call) {frame : Bytes}
    (hreply : client.uds.outcome n = some (.reply frame)) : ∃ t id before after,
      client.uds.Delegated n t ∧ client.idOf n = some id ∧
        StandsOnce s.system.server.log i t call.message before after ∧
          (router.handleBytes call.message (router.handleAll before w).2).1.payload = some frame := by
  have hsound := h.client hclient
  obtain ⟨policy, hreach⟩ := hsound.alone
  obtain ⟨t, inner, hdelegated, hinner, hphase⟩ :=
    ReconnectingUds.exists_delegated_of_reply hreach hreply
  have hmessage : inner.message = call.message := by
    obtain ⟨call', hcall', -, hmessage⟩ := hsound.bound t n inner hinner
    obtain rfl := Option.some.inj (hcall'.symm.trans hcall)
    exact hmessage
  obtain ⟨peer, hpeer⟩ : ∃ peer, s.system.peers (connection i t) = some peer := by
    cases hpeer : s.system.peers (connection i t) with
    | some peer => exact ⟨peer, rfl⟩
    | none =>
      have hnew := hsound.unbuilt hpeer
      rw [hnew] at hinner
      cases hinner
  obtain ⟨htransport, hissued⟩ := hsound.peer hpeer
  rw [← htransport] at hinner
  have hfewPeer := hissued.trans_lt hfew
  obtain ⟨before, after, hlog, -, -, hpayload⟩ :=
    h.system.replied law hf hcarries hpeer hfewPeer hinner hphase
  obtain ⟨⟨id, hid, -⟩, -⟩ := (h.system.peer hpeer).client.exists_id_of_reply hinner hphase
  rw [hsound.idOf_eq hpeer hinner] at hid
  rw [hmessage] at hlog hpayload
  exact ⟨t, id, before, after, hdelegated, hid,
    h.standsOnce law hf hcarries hclient hfew hcall hid hlog, hpayload⟩

end Sound

section Sample

open JsonText

/-- The connections of two clients die, and the second client makes a call. -/
def diesRun : List (UdsSystemAction backend) :=
  [.connect 0 .default, .connect 1 .default, .server (.accept (connection 0 0) none 100),
    .server (.accept (connection 1 0) none 100),
    .transport 0 0 (.recv (.read (.failed "connection reset"))),
    .transport 1 0 (.recv (.read (.failed "connection reset"))),
    .transport 1 0 (.client (.reader .clear)), .transport 0 0 (.client (.reader .clear)),
    .call 1 0 "get" (.ok backend.null)]

/-- The call of the client `i` dials the server again. -/
def redialRun (i : ℕ) : List (UdsSystemAction backend) :=
  [.poll i 0 .snapshot, .poll i 0 .check, .poll i 0 .acquire, .poll i 0 .resnapshot,
    .poll i 0 .recheck, .poll i 0 .connected, .poll i 0 .install, .poll i 0 .release,
    .server (.accept (connection i 1) none 100)]

/-- It is written on the new connection, dispatched and answered. -/
def answeredRun (i : ℕ) : List (UdsSystemAction backend) :=
  [.transport i 1 (.client (.poll 0 .check)), .transport i 1 (.client (.poll 0 .insert)),
    .transport i 1 (.client (.poll 0 .acquire)), .transport i 1 (.client (.poll 0 (.write 57))),
    .transport i 1 (.client (.poll 0 .flushed)),
    .server (.conn (connection i 1) (.recv (.read (.ready System.getFrame)))),
    .server (.conn (connection i 1) (.recv .ready)), .server (.conn (connection i 1) .dispatch),
    .server (.conn (connection i 1) (.write 40)), .server (.conn (connection i 1) .flushed),
    .transport i 1 (.recv (.read (.ready System.answerFrame))), .transport i 1 (.recv .ready),
    .transport i 1 (.client (.reader .deliver)), .transport i 1 (.client (.poll 0 .receive))]

/-- The calls of the two clients, in turn. -/
def goesOnRun : List (UdsSystemAction backend) :=
  System.inTurn (redialRun 1 ++ answeredRun 1) (redialRun 0 ++ answeredRun 0)

/-- A run of the clients of the server whose method `get` answers 42. -/
def answerRun (s : UdsSystem backend Unit Unit) (actions : List (UdsSystemAction backend)) :
    Option (UdsSystem backend Unit Unit) :=
  run (UdsSystem.step System.answerRouter (Codec.netstring.framing 64))
    (Allowed System.answerRouter (Codec.netstring.Fits 64)) s actions

/-- The number of ids that the client `i` has allocated, and how its call `n` has ended. -/
def returned (s : UdsSystem B C σ) (i n : ℕ) : Option (ℕ × Outcome) :=
  (s.clients i).bind fun client =>
    (client.uds.calls n).bind fun _ =>
      (client.uds.outcome n).map fun outcome => (client.issued, outcome)

omit [Inhabited C] in
theorem exists_of_returned {s : UdsSystem B C σ} {i n m : ℕ} {outcome : Outcome}
    (h : s.returned i n = some (m, outcome)) : ∃ client call, s.clients i = some client ∧
      client.issued = m ∧ client.uds.calls n = some call ∧ client.uds.outcome n = some outcome := by
  obtain ⟨client, hclient, h⟩ := Option.bind_eq_some_iff.1 h
  obtain ⟨call, hcall, h⟩ := Option.bind_eq_some_iff.1 h
  obtain ⟨outcome', houtcome, heq⟩ := Option.map_eq_some_iff.1 h
  obtain ⟨hissued, rfl⟩ := Prod.mk.inj heq
  exact ⟨client, call, hclient, hissued, hcall, houtcome⟩

/-- The calls of both clients are made after their connections have died. -/
def redialledRun : List (UdsSystemAction backend) :=
  diesRun ++ .call 0 0 "get" (.ok backend.null) :: goesOnRun

theorem returned_redialledRun :
    (answerRun (.new ⟨(), []⟩) redialledRun).map
        (fun s => (s.returned 0 0, s.returned 1 0, s.system.server.log.map Prod.fst)) =
      some (some (1, .reply System.answerReply), some (1, .reply System.answerReply),
        [connection 1 1, connection 0 1]) := by
  decide +kernel

end Sample

/-! ## From a call to its reply -/

/-- The call `n` of the client `i` has the message `message` and the id `id`. -/
def Asks (s : UdsSystem B C σ) (i n : ℕ) (message : Bytes) (id : Option Id) : Prop :=
  ∃ client call, s.clients i = some client ∧ client.uds.calls n = some call ∧
    call.message = message ∧ client.idOf n = id

theorem Asks.step {i n : ℕ} {message : Bytes} {id : Option Id} (h : s.Asks i n message id)
    (hstep : s.step router f a = some s') : s'.Asks i n message id := by
  obtain ⟨client, call, hclient, hcall, hmessage, hid⟩ := h
  have hset {system : System B C σ} {j : ℕ} {client₁ client₂ : UdsClient}
      (hclient₁ : s.clients j = some client₁)
      (hkept : ∀ {call}, client₁.uds.calls n = some call → ∃ call', client₂.uds.calls n = some call' ∧
        call'.message = call.message ∧ client₂.idOf n = client₁.idOf n) :
      ({ s with system }.setClient j client₂).Asks i n message id := by
    by_cases hij : i = j
    · subst hij
      obtain rfl := Option.some.inj (hclient₁.symm.trans hclient)
      obtain ⟨call', hcall', hmessage', hid'⟩ := hkept hcall
      exact ⟨client₂, call', Function.update_self .., hcall', hmessage'.trans hmessage,
        hid'.trans hid⟩
    · exact ⟨client, call, (Function.update_of_ne hij ..).trans hclient, hcall, hmessage, hid⟩
  -- a step of a client alone keeps the message and the id
  have hkeeps {client₁ : UdsClient} {ua : UdsAction} {uds : ReconnectingUds}
      (hstep : client₁.uds.step B f ua = some uds) {call₁ : UdsCall}
      (hcall₁ : client₁.uds.calls n = some call₁) : ∃ call', uds.calls n = some call' ∧
        call'.message = call₁.message ∧ client₁.idOf n = client₁.idOf n := by
    obtain ⟨call', hcall', hmessage'⟩ := ReconnectingUds.exists_call_of_step hstep hcall₁
    exact ⟨call', hcall', hmessage', rfl⟩
  cases Step.of_step hstep with
  | @connect j _ _ hfresh =>
    have hij : i ≠ j := fun heq => by cases (heq ▸ hclient).symm.trans hfresh
    exact ⟨client, call, (Function.update_of_ne hij ..).trans hclient, hcall, hmessage, hid⟩
  | failed hclient₁ => exact hset hclient₁ fun hcall₁ => ⟨_, hcall₁, rfl, rfl⟩
  | @call j m _ _ client₁ bytes id₁ uds hclient₁ _ hstarted =>
    apply hset hclient₁
    intro call₁ hcall₁
    obtain ⟨call', hcall', hmessage'⟩ := ReconnectingUds.exists_call_of_step hstarted hcall₁
    have hne : n ≠ m := by
      rintro rfl
      cases ReconnectingUds.UdsStep.of_step hstarted with
      | start hfresh => cases hcall₁.symm.trans hfresh
    exact ⟨call', hcall', hmessage', Function.update_of_ne hne ..⟩
  | skipped => exact ⟨client, call, hclient, hcall, hmessage, hid⟩
  | notify hclient₁ _ hstarted => exact hset hclient₁ (hkeeps hstarted)
  | moved hclient₁ hstepped => exact hset hclient₁ (hkeeps hstepped)
  | dialled hclient₁ hstepped => exact hset hclient₁ (hkeeps hstepped)
  | delegated hclient₁ hstepped => exact hset hclient₁ (hkeeps hstepped)
  | transport hclient₁ => exact hset hclient₁ fun hcall₁ => ⟨_, hcall₁, rfl, rfl⟩
  | server => exact ⟨client, call, hclient, hcall, hmessage, hid⟩

theorem Asks.of_reach {ok : UdsSystem B C σ → UdsSystemAction B → Prop} {i n : ℕ} {message : Bytes}
    {id : Option Id} (h : s.Asks i n message id) (hrun : Reach (UdsSystem.step router f) ok s s') :
    s'.Asks i n message id :=
  hrun.invariant (I := fun t => t.Asks i n message id) h fun _ _ _ h _ hstep => h.step hstep

theorem log_of_step (h : s.step router f a = some s') :
    s.system.server.log <+: s'.system.server.log := by
  cases Step.of_step h with
  | connect _ hstep | dialled _ _ _ _ hstep | transport _ _ hstep | server hstep =>
    exact System.log_of_step hstep
  | failed | call | skipped | notify | moved | delegated => exact List.prefix_rfl

theorem log_of_reach {ok : UdsSystem B C σ → UdsSystemAction B → Prop}
    (hrun : Reach (UdsSystem.step router f) ok s s') :
    s.system.server.log <+: s'.system.server.log :=
  hrun.invariant (I := fun t => s.system.server.log <+: t.system.server.log) List.prefix_rfl
    fun _ _ _ h _ hstep => h.trans (log_of_step hstep)

theorem asks_of_call {i n : ℕ} {method : String} {raw : B.Raw}
    (h : s.step router f (.call i n method (.ok raw)) = some s') : ∃ client id,
      s.clients i = some client ∧ client.uds.calls n = none ∧ s'.Asks i n
        (B.get { method, params := some raw, id := some id : Request B }.serialize) (some id) := by
  obtain ⟨client, hclient, h⟩ := Option.bind_eq_some_iff.1 h
  dsimp only at h
  rw [encodeCall_eq_ok (s := fun params => params) rfl] at h
  obtain ⟨uds, hstart, rfl⟩ := Option.map_eq_some_iff.1 h
  cases ReconnectingUds.UdsStep.of_step hstart with
  | start hfresh =>
    exact ⟨client, _, hclient, hfresh, _, _, Function.update_self .., Function.update_self .., rfl,
      Function.update_self ..⟩

/-- A call is not in the log before it is made. -/
theorem Sound.notMem_log (h : Sound router f fits w s) (law : B.Lawful) (hf : Lawful f.decode)
    (hcarries : ∀ p, fits p → Carries f.decode f.encode p) (hsound' : Sound router f fits w s')
    (hrun : Reach (UdsSystem.step router f) (Allowed router fits) s s') {i n : ℕ}
    {client client' : UdsClient} (hclient : s.clients i = some client)
    (hfresh : client.uds.calls n = none) (hclient' : s'.clients i = some client')
    (hfew : client'.issued < 2 ^ 64) {call' : UdsCall} (hcall' : client'.uds.calls n = some call')
    {id : Id} (hid : client'.idOf n = some id) (t : ℕ) :
    (connection i t, call'.message) ∉ s.system.server.log := by
  intro hmem
  obtain ⟨order, -, hdelegated, hentries⟩ := h.exists_order hf hcarries hclient t
  rw [← mem_entriesOf, hentries] at hmem
  obtain ⟨x, hx, hmessage⟩ := List.mem_map.1 hmem
  obtain ⟨callx, hcallx, -⟩ := hdelegated x hx
  rw [UdsClient.message_of_call hcallx] at hmessage
  -- the call that has the entry is still there
  have hasks : s.Asks i x call'.message (client.idOf x) :=
    ⟨client, callx, hclient, hcallx, hmessage, rfl⟩
  obtain ⟨client₁, call₁, hclient₁, hcall₁, hmessage₁, -⟩ := hasks.of_reach hrun
  obtain rfl := Option.some.inj (hclient₁.symm.trans hclient')
  obtain rfl :=
    (hsound'.client hclient').eq_of_message_eq law hfew hcall' hid hcall₁ hmessage₁
  cases hfresh.symm.trans hcallx

/-- A call that has returned a frame has taken effect after it was made, at one point of the log. -/
theorem callTakesEffect (law : B.Lawful) (E : Type) {codec : Codec}
    (hc : codec = .netstring ∨ codec = .contentLength) {width : ℕ} (hwidth : width ≤ 64)
    (router : Router B C σ) (w : World B C σ) {s₁ s₂ s : UdsSystem B C σ} {i n : ℕ} {method : String}
    {raw : B.Raw} {client : UdsClient} {call : UdsCall} {frame : Bytes}
    (hreach : Reach (UdsSystem.step router (codec.framing width))
      (Allowed router (codec.Fits width)) (.new w) s₁)
    (hallowed : s₁.Allowed router (codec.Fits width) (.call i n method (.ok raw)))
    (hmade : s₁.step router (codec.framing width) (.call i n method (.ok raw)) = some s₂)
    (hrun : Reach (UdsSystem.step router (codec.framing width))
      (Allowed router (codec.Fits width)) s₂ s)
    (hclient : s.clients i = some client) (hfew : client.issued < 2 ^ 64)
    (hcall : client.uds.calls n = some call)
    (hreply : client.uds.outcome n = some (.reply frame)) :
    ∃ t id before after, client.uds.Delegated n t ∧ client.idOf n = some id ∧
      StandsOnce s.system.server.log i t call.message before after ∧
        s₁.system.server.log <+: before ∧ System.Effect E router w (connection i t) method raw
          call.message id frame before after := by
  have hf := Codec.lawful width codec
  have heof : (codec.framing width).takeOnEof = false := Codec.takeOnEof_eq hc
  have hcarries (p : Bytes) (hp : codec.Fits width p) := Codec.carries_of_fits hc hwidth hp
  have hfromCall := (Reach.single hallowed hmade).trans hrun
  have h₁ := Sound.of_reach law hf heof hreach
  have h := Sound.of_reach law hf heof (hreach.trans hfromCall)
  obtain ⟨t, id, before, after, hdelegated, hid, hstands, hpayload⟩ :=
    h.replied law hf hcarries hclient hfew hcall hreply
  obtain ⟨client₁, id', hclient₁, hfresh, hasks⟩ := asks_of_call hmade
  obtain ⟨client', call', hclient', hcall', hmessage, hid'⟩ := hasks.of_reach hrun
  obtain rfl := Option.some.inj (hclient'.symm.trans hclient)
  obtain rfl := Option.some.inj (hcall'.symm.trans hcall)
  obtain rfl := Option.some.inj (hid'.symm.trans hid)
  have hnew := h₁.notMem_log law hf hcarries h hfromCall hclient₁ hfresh hclient hfew hcall hid t
  have hfirst : s₁.system.server.log <+: before :=
    System.isPrefix_of_notMem (hstands.log_eq ▸ log_of_reach hfromCall) hnew
  have heffect := callEffect_of_sent law E router method raw _ _ hmessage
    (Output.toBytes_of_payload hpayload)
  exact ⟨t, _, before, after, hdelegated, hid, hstands, hfirst, heffect,
    hstands.notMem_before t, hstands.notMem_after t⟩

section Sample

open JsonText

theorem callTakesEffect_redialledRun : ∃ s t call id before after,
    answerRun (.new ⟨(), []⟩) redialledRun = some s ∧
      StandsOnce s.system.server.log 0 t call before after ∧
        System.Effect Unit System.answerRouter ⟨(), []⟩ (connection 0 t) "get" backend.null call id
          System.answerReply before after := by
  have hdead : (answerRun (.new ⟨(), []⟩) diesRun).isSome := by decide +kernel
  obtain ⟨s₁, hdies⟩ := Option.isSome_iff_exists.1 hdead
  obtain ⟨s, hrun, hreturned⟩ := Option.map_eq_some_iff.1 returned_redialledRun
  obtain ⟨hreturned, -⟩ := Prod.mk.inj hreturned
  obtain ⟨client, call, hclient, hissued, hcall, hreply⟩ := exists_of_returned hreturned
  have hgoesOn := hrun
  rw [answerRun, redialledRun, run_append hdies, run, Option.ite_none_right_eq_some] at hgoesOn
  obtain ⟨hallowed, hgoesOn⟩ := hgoesOn
  obtain ⟨s₂, hmade, hgoesOn⟩ := Option.bind_eq_some_iff.1 hgoesOn
  obtain ⟨t, id, before, after, hdelegated, -, hstands, -, heffect⟩ :=
    callTakesEffect lawful Unit (.inl (rfl : Codec.netstring = _)) le_rfl System.answerRouter ⟨(), []⟩
      (reach_of_run diesRun hdies) hallowed hmade (reach_of_run goesOnRun hgoesOn) hclient
      (by rw [hissued]; decide) hcall hreply
  exact ⟨s, t, call.message, id, before, after, hrun, hstands, heffect⟩

end Sample

end UdsSystem

end Jasonrpc
