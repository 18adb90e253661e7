import Jasonrpc.System

/-!
# Calls started on a connection

The connections of a `System` start the calls of their own clients.  A caller of another kind, which
allocates the ids itself, starts its calls on the transport of a connection in the same way: the client
there records the id, and what holds of it goes on to hold (`Peer.Sound.forward`).  A connection on which
nothing is started goes on with the calls that it has (`Client.Goes`).
-/

namespace Jasonrpc

open ByteString Machine Incremental

variable {B : Backend} {C σ : Type}

/-! ## Starting a call -/

namespace MultiplexTransport

variable {f : Framing} {s s' : MultiplexTransport} {a : Action} {c : ℕ}

theorem exists_call_of_kept (h : Step B f s a s')
    (hstart : ∀ c operation message, a ≠ .start c operation message) {call' : Call}
    (hcall' : s'.calls c = some call') :
    ∃ call, s.calls c = some call ∧ call'.message = call.message := by
  rcases h.call_cases hcall' with
    ⟨-, _, _, heq, -⟩ | ⟨call, _, phase, hcall, -, -, rfl⟩ | ⟨hcall, -⟩
  · exact absurd heq (hstart _ _ _)
  · exact ⟨call, hcall, rfl⟩
  · exact ⟨call', hcall, rfl⟩

/-- A call that has ended takes no step. -/
theorem done_of_step (h : Step B f s a s') {call : Call} {r : Outcome} (hcall : s.calls c = some call)
    (hphase : call.phase = .done r) : s'.calls c = some call := by
  cases h with
  | start hfresh =>
    have hne : c ≠ _ := fun heq => by cases (heq ▸ hcall).symm.trans hfresh
    exact (Function.update_of_ne hne ..).trans hcall
  | @call x callx _ _ hcallx hstep =>
    have hne : c ≠ x := by
      rintro rfl
      obtain rfl := Option.some.inj (hcall.symm.trans hcallx)
      cases hstep with
      | check h | insert h | acquire h | write h | flushed h | fail h | reply h | closed h
      | cancelReady h | cancelWriting h | unguard h => cases hphase.symm.trans h
      | cancel h => rcases h with h | h <;> cases hphase.symm.trans h
    obtain ⟨phase, hcalls⟩ := hstep.calls_eq
    rw [hcalls, Function.update_of_ne hne, hcall]
  | reader hstep => rwa [hstep.calls_eq]

end MultiplexTransport

namespace Client

variable {f : Framing} {fits : Bytes → Prop} {s : Client} {c : ℕ} {operation : Operation}
  {message : Bytes} {t : MultiplexTransport} {id : Option Id} {ids : IdGen} {issued : ℕ}

/-- A message is started under an id of an allocator that other clients may share. -/
theorem Numbered.forward (h : Numbered B s)
    (hstart : s.transport.step B f (.start c operation message) = some t)
    (hid : ({ operation, message : Call }).id B = id) (hnext : ids.next = 1 + UInt64.ofNat issued)
    (hissued : s.issued ≤ issued) (hnth : ∀ x ∈ id, ∃ n < issued, x = IdGen.nth n)
    (hnew : issued ≤ 2 ^ 64 → ∀ x ∈ id, ∀ c', s.idOf c' ≠ some x) :
    Numbered B { transport := t, ids, idOf := Function.update s.idOf c id, issued } := by
  cases MultiplexTransport.Step.of_step hstart with
  | start hfresh =>
    have hcases {c' : ℕ} {x : Id} (hx : Function.update s.idOf c id c' = some x) :
        c' = c ∧ x ∈ id ∨ c' ≠ c ∧ s.idOf c' = some x := by
      by_cases hc : c' = c
      · rw [hc, Function.update_self] at hx
        exact .inl ⟨hc, hx⟩
      · rw [Function.update_of_ne hc] at hx
        exact .inr ⟨hc, hx⟩
    constructor
    · exact hnext
    · intro c' call hcall
      show call.id B = Function.update s.idOf c id c'
      rcases Table.of_update hcall with ⟨rfl, rfl⟩ | ⟨hne, hcall⟩
      · rw [Function.update_self]
        exact hid
      · rw [Function.update_of_ne hne]
        exact h.id_eq hcall
    · intro c' hnone
      obtain ⟨hne, hnone⟩ := Table.of_update_none hnone
      exact (Function.update_of_ne hne ..).trans (h.fresh hnone)
    · intro c' x hx
      rcases hcases hx with ⟨-, hx⟩ | ⟨-, hx⟩
      · exact hnth x hx
      · obtain ⟨n, hn, hnth⟩ := h.nth hx
        exact ⟨n, hn.trans_le hissued, hnth⟩
    · intro c₁ c₂ x hle hx₁ hx₂
      rcases hcases hx₁ with ⟨rfl, hnew₁⟩ | ⟨-, hold₁⟩ <;>
        rcases hcases hx₂ with ⟨rfl, hnew₂⟩ | ⟨-, hold₂⟩
      · rfl
      · exact absurd hold₂ (hnew hle x hnew₁ c₂)
      · exact absurd hold₁ (hnew hle x hnew₂ c₁)
      · exact h.unique (hissued.trans hle) hold₁ hold₂

theorem Sound.forward (h : s.Sound B)
    (hstart : s.transport.step B f (.start c operation message) = some t) (hissued : s.issued ≤ issued)
    (hnumbered : Numbered B { transport := t, ids, idOf := Function.update s.idOf c id, issued }) :
    Sound B { transport := t, ids, idOf := Function.update s.idOf c id, issued } where
  numbered := hnumbered
  registry := h.registry.step hstart
  history := h.history.step h.registry hstart
  kept hfew :=
    (h.kept (hissued.trans hfew)).step (h.numbered.distinctIds (hissued.trans hfew)).exclusive
      (hnumbered.distinctIds hfew).exclusive hstart

end Client

theorem Peer.Sound.forward {f : Framing} {fits : Bytes → Prop} {peer : Peer} {c : ℕ}
    {operation : Operation} {req : Request B} {t : MultiplexTransport} {ids : IdGen} {issued : ℕ}
    (h : peer.Sound B f fits)
    (hstart : peer.client.transport.step B f (.start c operation (B.get req.serialize)) = some t)
    (hissued : peer.client.issued ≤ issued) (hfits : fits (B.get req.serialize))
    (hnumbered : Client.Numbered B
      { transport := t, ids, idOf := Function.update peer.client.idOf c req.id, issued }) :
    Peer.Sound B f fits { peer with
      client :=
        { transport := t, ids, idOf := Function.update peer.client.idOf c req.id, issued } } := by
  have hstep := MultiplexTransport.Step.of_step hstart
  obtain ⟨hreceived, hopen⟩ := MultiplexTransport.received_of_step hstep fun _ h => by cases h
  obtain ⟨done, hframed⟩ := h.framed
  have hwhole : peer.client.transport.AbandonsWhole (.start c operation (B.get req.serialize)) :=
    trivial
  constructor
  · exact h.client.forward hstart hissued hnumbered
  · exact hframed.step hwhole hstart
  · exact h.encoded.start hstart _ rfl rfl rfl hfits
  · intro hopen'
    show peer.inbox.Heard f t.received
    rw [hreceived]
    exact h.heard (hopen hopen')
  · show ∃ rest, Cuts f.decode peer.inbox.read t.received rest
    rw [hreceived]
    exact h.cut

/-! ## Steps that start no call -/

/-- A client goes on with the calls that it has. -/
structure Client.Goes (s s' : Client) : Prop where
  issued_eq : s'.issued = s.issued
  idOf_eq : s'.idOf = s.idOf
  calls {c : ℕ} {call' : Call} : s'.transport.calls c = some call' →
    ∃ call, s.transport.calls c = some call ∧ call'.message = call.message
  done {c : ℕ} {call : Call} {r : Outcome} : s.transport.calls c = some call →
    call.phase = .done r → s'.transport.calls c = some call

theorem Client.Goes.refl (s : Client) : s.Goes s :=
  ⟨rfl, rfl, fun hcall => ⟨_, hcall, rfl⟩, fun hcall _ => hcall⟩

theorem Client.goes_of_step {f : Framing} {s s' : Client} {a : ClientAction B}
    (h : s.step B f a = some s') (hcall : ∀ c method params, a ≠ .call c method params)
    (hnotify : ∀ c method params, a ≠ .notify c method params) : s.Goes s' := by
  have hgoes {ta : Action} {t : MultiplexTransport} (hstep : s.transport.step B f ta = some t)
      (hstart : ∀ c operation message, ta ≠ .start c operation message) :
      s.Goes { s with transport := t } := by
    have hstep := MultiplexTransport.Step.of_step hstep
    exact ⟨rfl, rfl, fun hcall => MultiplexTransport.exists_call_of_kept hstep hstart hcall,
      fun hcall hphase => MultiplexTransport.done_of_step hstep hcall hphase⟩
  cases Step.of_step h with
  | failed | call => exact absurd rfl (hcall _ _ _)
  | skipped | notify => exact absurd rfl (hnotify _ _ _)
  | poll hstep => exact hgoes hstep fun _ _ _ h => by cases h
  | reader hstep => exact hgoes hstep fun _ _ _ h => by cases h

/-- The action starts no call. -/
def PeerAction.StartsNone : PeerAction B → Prop
  | .client (.call ..) | .client (.notify ..) => False
  | _ => True

instance : (a : PeerAction B) → Decidable a.StartsNone
  | .client (.call ..) | .client (.notify ..) => isFalse id
  | .client (.poll ..) | .client (.reader _) | .recv _ => isTrue trivial

theorem PeerAction.StartsNone.client {a : ClientAction B} (h : (PeerAction.client a).StartsNone) :
    (∀ c method params, a ≠ .call c method params) ∧ ∀ c method params, a ≠ .notify c method params := by
  constructor
  · rintro c method params rfl
    exact h
  · rintro c method params rfl
    exact h

namespace Peer.Step

variable {f : Framing} {s s' : Peer} {a : PeerAction B}

/-- Where no call is started, the transport acts for a call or for the reader, or not at all. -/
theorem transport_cases (h : Step B f s a s') (hnone : a.StartsNone) :
    s'.client.transport = s.client.transport ∨ ∃ ta,
      (∀ c operation message, ta ≠ .start c operation message) ∧
        s.client.transport.step B f ta = some s'.client.transport := by
  have hcases {a : ClientAction B} {client : Client} (hstep : s.client.step B f a = some client)
      (hcall : ∀ c method params, a ≠ .call c method params)
      (hnotify : ∀ c method params, a ≠ .notify c method params) :
      ∃ ta, (∀ c operation message, ta ≠ .start c operation message) ∧
        s.client.transport.step B f ta = some client.transport := by
    cases Client.Step.of_step hstep with
    | failed | call => exact absurd rfl (hcall _ _ _)
    | skipped | notify => exact absurd rfl (hnotify _ _ _)
    | @poll c a _ htransport => exact ⟨.call c a, (fun _ _ _ h => by cases h), htransport⟩
    | @reader a _ htransport => exact ⟨.reader a, (fun _ _ _ h => by cases h), htransport⟩
  cases h with
  | client _ hstep => exact .inr (hcases hstep hnone.client.1 hnone.client.2)
  | again => exact .inl rfl
  | take _ hstep | stop _ hstep =>
    exact .inr (hcases hstep (fun _ _ _ h => by cases h) fun _ _ _ h => by cases h)

theorem goes (h : Step B f s a s') (hnone : a.StartsNone) : s.client.Goes s'.client := by
  cases h with
  | client _ hstep => exact Client.goes_of_step hstep hnone.client.1 hnone.client.2
  | again => exact .refl _
  | take _ hstep | stop _ hstep =>
    exact Client.goes_of_step hstep (fun _ _ _ h => by cases h) fun _ _ _ h => by cases h

end Peer.Step

/-- The connection on which a client starts a call of its own. -/
def SystemAction.startsOn : SystemAction B → Option ℕ
  | .peer k (.client (.call ..)) | .peer k (.client (.notify ..)) => some k
  | _ => none

/-- A connection stays, and goes on with its calls if no client starts one on it. -/
theorem System.exists_peer_of_step [Inhabited C] {router : Router B C σ} {f : Framing}
    {s s' : System B C σ} {a : SystemAction B} (h : s.step router f a = some s') {k : ℕ} {peer : Peer}
    (hpeer : s.peers k = some peer) (hforeign : k ∉ a.startsOn) :
    ∃ peer', s'.peers k = some peer' ∧ peer.client.Goes peer'.client := by
  cases System.Step.of_step h with
  | @dial j _ _ hfresh =>
    have hjk : k ≠ j := fun heq => by cases (heq ▸ hpeer).symm.trans hfresh
    exact ⟨peer, (Function.update_of_ne hjk ..).trans hpeer, .refl _⟩
  | @peer j a peer₁ peer' hpeer₁ _ hstep =>
    by_cases hjk : k = j
    · subst hjk
      obtain rfl := Option.some.inj (hpeer₁.symm.trans hpeer)
      refine ⟨peer', Function.update_self .., hstep.goes ?_⟩
      cases a with
      | client a => cases a <;> first | exact trivial | exact hforeign rfl
      | recv => exact trivial
    · exact ⟨peer, (Function.update_of_ne hjk ..).trans hpeer, .refl _⟩
  | server => exact ⟨peer, hpeer, .refl _⟩

end Jasonrpc
