import Jasonrpc.Client.Attempts
import Jasonrpc.Client.Ownership

/-!
# Requests are not replayed

A call of the client is handed over to one transport, and stays its call (`Bound`).  There it hands
its frame to the writer once.  So no frame is written to two connections, and a call that has been
registered on a connection that ends does nothing on a later one (`never_replayed`).
-/

namespace Jasonrpc

open ByteString Machine

/-- A call that has not handed its frame to the writer. -/
def Phase.unsent : Phase → Bool
  | ready | checked | locking => true
  | _ => false

/-! ## One transport -/

namespace MultiplexTransport

variable {B : Backend} {f : Framing} {s s' : MultiplexTransport} {c : ℕ} {call call' : Call}

/-- A call that has handed its frame to the writer does not do so again. -/
theorem CallStep.unsent {ca : CallAction} (h : CallStep B f s c call ca s')
    (hcall' : s'.calls c = some call') (hunsent : call'.phase.unsent) :
    call.phase.unsent ∧ ca ≠ .acquire := by
  have hexit (r : Outcome) : (call.exit r).unsent = false := by
    unfold Call.exit
    cases call.operation <;> rfl
  have hreleased : call.released.unsent = false := by
    unfold Call.released
    cases call.operation <;> rfl
  cases h with
  | check hphase | cancelReady hphase | insert hphase =>
    rw [hphase]
    exact ⟨rfl, nofun⟩
  | flushed =>
    rw [eq_of_calls_setPhase hcall'] at hunsent
    exact absurd hunsent (Bool.eq_false_iff.1 hreleased)
  | fail | cancel | cancelWriting =>
    rw [eq_of_calls_setPhase hcall'] at hunsent
    exact absurd hunsent (Bool.eq_false_iff.1 (hexit _))
  | acquire | write | reply | closed | unguard =>
    rw [eq_of_calls_setPhase hcall'] at hunsent
    cases hunsent

theorem Step.entry_cases {a : Action} (h : Step B f s a s') (hcall' : s'.calls c = some call') :
    (∃ operation message, a = .start c operation message ∧ call' = { operation, message }) ∨
      ∃ call, s.calls c = some call ∧ call'.message = call.message ∧
        (call'.phase.unsent → call.phase.unsent ∧ a ≠ .call c .acquire) := by
  rcases h.call_cases hcall' with ⟨-, hstarted⟩ | ⟨call, ca, phase, hcall, rfl, hstep, rfl⟩ |
    ⟨hbefore, hother⟩
  · exact .inl hstarted
  · refine .inr ⟨call, hcall, rfl, fun hunsent => ?_⟩
    obtain ⟨hbefore, hne⟩ := hstep.unsent hcall' hunsent
    exact ⟨hbefore, fun heq => hne (Action.call.inj heq).2⟩
  · exact .inr ⟨call', hbefore, rfl, fun hunsent => ⟨hunsent, hother _⟩⟩

end MultiplexTransport

namespace ReconnectingUds

variable {B : Backend} {f : Framing} {s s' : ReconnectingUds} {n t : ℕ} {call : UdsCall}
  {inner : Call} {a : UdsAction} {as : List UdsAction}

/-! ## One call, one transport -/

/-- The call `n` has been handed over to the transport `t`. -/
def Delegated (s : ReconnectingUds) (n t : ℕ) : Prop :=
  ∃ call, s.calls n = some call ∧ call.stage = .delegated t

theorem Delegated.unique {t' : ℕ} (h : s.Delegated n t) (h' : s.Delegated n t') : t = t' := by
  obtain ⟨call, hcall, hstage⟩ := h
  obtain ⟨call', hcall', hstage'⟩ := h'
  obtain rfl := Option.some.inj (hcall.symm.trans hcall')
  exact Stage.delegated.inj (hstage.symm.trans hstage')

theorem UdsCallStep.ne_delegated {ca : UdsCallAction} (h : UdsCallStep B f s n call ca s') (t : ℕ) :
    call.stage ≠ .delegated t := by
  intro hstage
  cases h with
  | cancel hstage' =>
    rw [hstage] at hstage'
    rcases hstage' with hstage' | hstage' <;> cases hstage'
  | cancelGated hgate =>
    rw [hstage] at hgate
    exact hgate
  | snapshot hstage' | reuse hstage' | queue hstage' | acquire hstage' | resnapshot hstage'
  | share hstage' | redial hstage' | wake hstage' | panic hstage' | retry hstage' | giveUp hstage'
  | connected hstage' | install hstage' | release hstage' | fail hstage' =>
    cases hstage.symm.trans hstage'

theorem UdsStep.calls_of_delegated (h : UdsStep B f s a s') (hcall : s.calls n = some call)
    (hstage : call.stage = .delegated t) : s'.calls n = some call := by
  apply h.calls_of_ne hcall
  rintro ca rfl
  cases h with
  | call hcall' hstep =>
    obtain rfl := Option.some.inj (hcall.symm.trans hcall')
    exact hstep.ne_delegated t hstage

theorem Delegated.step (h : s.Delegated n t) (hstep : UdsStep B f s a s') : s'.Delegated n t := by
  obtain ⟨call, hcall, hstage⟩ := h
  exact ⟨call, hstep.calls_of_delegated hcall hstage, hstage⟩

/-- A call of the transport `t` after the step of one of the transports has just started there, or
was there before. -/
theorem entry_cases_update {t₀ : ℕ} {ia : Action} {transport : MultiplexTransport}
    (hstepped : (s.transports t₀).step B f ia = some transport)
    (hinner : (Function.update s.transports t₀ transport t).calls n = some inner) :
    (t = t₀ ∧ ∃ operation, ia = .start n operation inner.message) ∨
      ∃ before, (s.transports t).calls n = some before ∧ inner.message = before.message ∧
        (inner.phase.unsent → before.phase.unsent ∧ (t = t₀ → ia ≠ .call n .acquire)) := by
  by_cases ht : t = t₀
  · subst ht
    rw [Function.update_self] at hinner
    rcases (MultiplexTransport.Step.of_step hstepped).entry_cases hinner with
      ⟨operation, message, heq, rfl⟩ | ⟨before, hbefore, hmessage, hunsent⟩
    · exact .inl ⟨rfl, operation, heq⟩
    · exact .inr ⟨before, hbefore, hmessage, fun h => ⟨(hunsent h).1, fun _ => (hunsent h).2⟩⟩
  · rw [Function.update_of_ne ht] at hinner
    exact .inr ⟨inner, hinner, rfl, fun h => ⟨h, fun heq => absurd heq ht⟩⟩

/-- A call of the transport `t` after a step has just been handed over to it, or was there
before. -/
theorem UdsStep.inner_cases (h : UdsStep B f s a s')
    (hinner : (s'.transports t).calls n = some inner) :
    (∃ call, s.calls n = some call ∧ (∀ t', call.stage ≠ .delegated t') ∧
        s'.calls n = some { call with stage := .delegated t } ∧ inner.message = call.message) ∨
      ∃ before, (s.transports t).calls n = some before ∧ inner.message = before.message ∧
        (inner.phase.unsent → before.phase.unsent ∧ a ≠ .transport t (.call n .acquire)) := by
  cases h with
  | start => exact .inr ⟨inner, hinner, rfl, fun hunsent => ⟨hunsent, nofun⟩⟩
  | @call m call ca _ hcall hstep =>
    have hdelegated := hstep.ne_delegated
    cases hstep with
    | reuse _ _ _ hstarted | release _ hstarted =>
      rcases entry_cases_update hstarted hinner with ⟨rfl, operation, heq⟩ |
        ⟨before, hbefore, hmessage, hunsent⟩
      · obtain ⟨rfl, -, hmessage⟩ := Action.start.inj heq
        exact .inl ⟨call, hcall, hdelegated, Function.update_self .., hmessage.symm⟩
      · exact .inr ⟨before, hbefore, hmessage, fun h => ⟨(hunsent h).1, nofun⟩⟩
    | connected =>
      have hinner : (Function.update s.transports s.built .new t).calls n = some inner := hinner
      by_cases ht : t = s.built
      · rw [ht, Function.update_self] at hinner
        cases hinner
      · rw [Function.update_of_ne ht] at hinner
        exact .inr ⟨inner, hinner, rfl, fun hunsent => ⟨hunsent, nofun⟩⟩
    | _ => exact .inr ⟨inner, hinner, rfl, fun hunsent => ⟨hunsent, nofun⟩⟩
  | @transport t₀ ia _ _ hunstarted hstepped =>
    rcases entry_cases_update hstepped hinner with ⟨-, operation, heq⟩ |
      ⟨before, hbefore, hmessage, hunsent⟩
    · exact absurd heq (hunstarted _ _ _)
    · refine .inr ⟨before, hbefore, hmessage, fun h => ⟨(hunsent h).1, fun heq => ?_⟩⟩
      obtain ⟨rfl, hia⟩ := UdsAction.transport.inj heq
      exact (hunsent h).2 rfl hia

/-- The calls of a transport are calls of the client that have been handed over to it, with their
messages. -/
def Bound (s : ReconnectingUds) : Prop :=
  ∀ t n inner, (s.transports t).calls n = some inner →
    ∃ call, s.calls n = some call ∧ call.stage = .delegated t ∧ inner.message = call.message

namespace Bound

theorem new (policy : RetryPolicy) : Bound (connect policy) := by
  intro t n inner hinner
  cases hinner

theorem step (h : Bound s) (hstep : UdsStep B f s a s') : Bound s' := by
  intro t n inner hinner
  rcases hstep.inner_cases hinner with ⟨call, -, -, hcall', hmessage⟩ |
    ⟨before, hbefore, hmessage, -⟩
  · exact ⟨_, hcall', rfl, hmessage⟩
  · obtain ⟨call, hcall, hstage, hsame⟩ := h t n before hbefore
    exact ⟨call, hstep.calls_of_delegated hcall hstage, hstage, hmessage.trans hsame⟩

theorem of_reach {policy : RetryPolicy}
    (h : Reach (ReconnectingUds.step B f) always (connect policy) s) : Bound s :=
  h.invariant (.new policy) fun _ _ _ hbound _ hstep => hbound.step (UdsStep.of_step hstep)

theorem delegated (h : Bound s) (hinner : (s.transports t).calls n = some inner) :
    s.Delegated n t := by
  obtain ⟨call, hcall, hstage, -⟩ := h t n inner hinner
  exact ⟨call, hcall, hstage⟩

theorem delegated_of_step (h : Bound s) {ca : CallAction}
    (hstep : UdsStep B f s (.transport t (.call n ca)) s') : s.Delegated n t := by
  cases hstep with
  | transport _ _ hstepped =>
    cases MultiplexTransport.Step.of_step hstepped with
    | call hcall => exact h.delegated hcall

theorem writeBuf_of_acquire (h : Bound s)
    (hstep : UdsStep B f s (.transport t (.call n .acquire)) s') :
    ∃ call, s.calls n = some call ∧ (s'.transports t).writeBuf = f.encodeInto call.message [] := by
  cases hstep with
  | transport _ _ hstepped =>
    cases MultiplexTransport.Step.of_step hstepped with
    | call hcall hcallStep =>
      obtain ⟨call, hcallOuter, -, hmessage⟩ := h t n _ hcall
      refine ⟨call, hcallOuter, ?_⟩
      cases hcallStep with
      | acquire =>
        dsimp only
        rw [Function.update_self, ← hmessage]
        rfl

end Bound

/-! ## Histories -/

/-- The transport to whose writer the call `n` hands its frame. -/
def handover (n : ℕ) : UdsAction → Option ℕ
  | .transport t (.call m .acquire) => if m = n then some t else none
  | _ => none

/-- The transports to whose writers the call `n` has handed its frame, in order. -/
def handovers (n : ℕ) (as : List UdsAction) : List ℕ := as.filterMap (handover n)

theorem handover_eq_some_iff : handover n a = some t ↔ a = .transport t (.call n .acquire) := by
  unfold handover
  split
  · rename_i t' m
    by_cases hm : m = n
    · simp [hm]
    · simp [hm]
  · rename_i hother
    constructor
    · rintro ⟨⟩
    · rintro rfl
      exact absurd rfl (hother t n)

/-- A call hands its frame over on the transport only that it has been handed over to, and once. -/
structure Sent (as : List UdsAction) (s : ReconnectingUds) : Prop where
  bound : Bound s
  undelegated {n : ℕ} : (∀ t, ¬ s.Delegated n t) → handovers n as = []
  unsent {n t : ℕ} {inner : Call} : (s.transports t).calls n = some inner → inner.phase.unsent →
    handovers n as = []
  delegated {n t : ℕ} : t ∈ handovers n as → s.Delegated n t
  length_le (n : ℕ) : (handovers n as).length ≤ 1

namespace Sent

theorem new (policy : RetryPolicy) : Sent [] (connect policy) where
  bound := .new policy
  undelegated _ := rfl
  unsent _ _ := rfl
  delegated h := by cases h
  length_le _ := Nat.zero_le 1

theorem handovers_eq_nil (h : Sent as s) (hstep : UdsStep B f s a s')
    (hhandover : handover n a = some t) : handovers n as = [] := by
  obtain rfl := handover_eq_some_iff.1 hhandover
  cases hstep with
  | transport _ _ hstepped =>
    cases MultiplexTransport.Step.of_step hstepped with
    | call hcall hcallStep =>
      cases hcallStep with
      | acquire hphase =>
        apply h.unsent hcall
        rw [hphase]
        rfl

theorem step (h : Sent as s) (hstep : UdsStep B f s a s') : Sent (as ++ [a]) s' := by
  have happend (n : ℕ) : handovers n (as ++ [a]) = handovers n as ++ (handover n a).toList := by
    unfold handovers
    rw [List.filterMap_append]
    cases hhandover : handover n a <;> simp [hhandover]
  have hdelegated {n t : ℕ} (hhandover : handover n a = some t) : s.Delegated n t := by
    obtain rfl := handover_eq_some_iff.1 hhandover
    exact h.bound.delegated_of_step hstep
  constructor
  · exact h.bound.step hstep
  · intro n hnone
    have hbefore (t : ℕ) : ¬ s.Delegated n t := fun hheld => hnone t (hheld.step hstep)
    cases hhandover : handover n a with
    | none => rw [happend, h.undelegated hbefore, hhandover]; rfl
    | some t => exact absurd (hdelegated hhandover) (hbefore t)
  · intro n t inner hinner hunsent
    have hnil (hbefore : handovers n as = []) (hnone : handover n a = none) :
        handovers n (as ++ [a]) = [] := by rw [happend, hbefore, hnone]; rfl
    rcases hstep.inner_cases hinner with ⟨call, hcall, hstage, -, -⟩ |
      ⟨before, hbefore, -, hkept⟩
    · have hfree (t : ℕ) : ¬ s.Delegated n t := by
        rintro ⟨call', hcall', hstage'⟩
        obtain rfl := Option.some.inj (hcall.symm.trans hcall')
        exact hstage t hstage'
      refine hnil (h.undelegated hfree) (Option.eq_none_iff_forall_not_mem.2 fun t' ht' => ?_)
      exact hfree t' (hdelegated ht')
    · obtain ⟨hearly, hne⟩ := hkept hunsent
      refine hnil (h.unsent hbefore hearly) (Option.eq_none_iff_forall_not_mem.2 fun t' ht' => ?_)
      obtain rfl := (hdelegated ht').unique (h.bound.delegated hbefore)
      exact hne (handover_eq_some_iff.1 ht')
  · intro n t ht
    rw [happend, List.mem_append, Option.mem_toList] at ht
    rcases ht with ht | ht
    · exact (h.delegated ht).step hstep
    · exact (hdelegated ht).step hstep
  · intro n
    rw [happend]
    cases hhandover : handover n a with
    | none => simpa using h.length_le n
    | some t => rw [h.handovers_eq_nil hstep hhandover]; simp

theorem of_run {policy : RetryPolicy}
    (h : run (ReconnectingUds.step B f) always (connect policy) as = some s) : Sent as s :=
  run_invariant (.new policy) (fun _ _ _ _ hsent _ hstep => hsent.step (UdsStep.of_step hstep)) h

end Sent

theorem eq_of_mem_run {bs : List UdsAction} (hbound : Bound s) (hdelegated : s.Delegated n t)
    (h : run (step B f) always s bs = some s') {t' : ℕ} {ca : CallAction}
    (hmem : .transport t' (.call n ca) ∈ bs) : t' = t := by
  have hrun := run_invariant (I := fun bs s => (Bound s ∧ s.Delegated n t) ∧
    ∀ t' ca, .transport t' (.call n ca) ∈ bs → t' = t) ⟨⟨hbound, hdelegated⟩, nofun⟩ ?_ h
  · exact hrun.2 _ _ hmem
  · rintro bs s a s' ⟨⟨hbound, hdelegated⟩, hacts⟩ - hstep
    have hdone := UdsStep.of_step hstep
    refine ⟨⟨hbound.step hdone, hdelegated.step hdone⟩, fun t' ca hmem => ?_⟩
    rcases List.mem_append.1 hmem with hmem | hmem
    · exact hacts t' ca hmem
    · obtain rfl := List.mem_singleton.1 hmem
      exact (hbound.delegated_of_step hdone).unique hdelegated

/-- The reader of a connection exits: it stores that the connection is dead, and then drops every
sender. -/
def Exits (r : ReaderAction) : Prop := r = .stop ∨ r = .clear

/-- A call hands its frame to one writer, and once; what it hands over is its own message; and a call
that is registered on a connection whose reader exits acts on no other connection later. -/
theorem never_replayed (B : Backend) (f : Framing) (policy : RetryPolicy) (as : List UdsAction)
    (s : ReconnectingUds) (h : run (step B f) always (connect policy) as = some s) :
    (∀ n, (handovers n as).length ≤ 1) ∧
    (∀ n t s', s.step B f (.transport t (.call n .acquire)) = some s' → ∃ call,
      s.calls n = some call ∧ (s'.transports t).writeBuf = f.encodeInto call.message []) ∧
    ∀ n t id r s₁ bs s', Exits r → s.step B f (.transport t (.reader r)) = some s₁ →
      (s.transports t).pending id = some n → run (step B f) always s₁ bs = some s' →
        ∀ t' ca, .transport t' (.call n ca) ∈ bs → t' = t := by
  have hsent := Sent.of_run h
  refine ⟨hsent.length_le, fun n t s' hstep => ?_,
    fun n t id r s₁ bs s' _ hstep hpending hrun t' ca hmem => ?_⟩
  · exact hsent.bound.writeBuf_of_acquire (UdsStep.of_step hstep)
  · have hregistry := MultiplexTransport.registry_of_reach (reach_transports (reach_of_run as h) t)
    obtain ⟨⟨inner, hinner, -⟩, -⟩ := hregistry.stored hpending
    have hdone := UdsStep.of_step hstep
    exact eq_of_mem_run (hsent.bound.step hdone) ((hsent.bound.delegated hinner).step hdone) hrun
      hmem

/-- A call sends its request over the first connection. -/
def sendsFirst : List UdsAction :=
  [.start 0 .roundTrip sampleRequest, .call 0 .snapshot, .call 0 .check,
    .transport 0 (.call 0 .check), .transport 0 (.call 0 .insert), .transport 0 (.call 0 .acquire),
    .transport 0 (.call 0 (.write 9)), .transport 0 (.call 0 .flushed)]

/-- Another call dials again and sends its request, and the first one ends. -/
def sendsAgain : List UdsAction :=
  queues 1 ++ retests 1 ++ [.call 1 .connected, .call 1 .install, .call 1 .release,
    .transport 1 (.call 1 .check), .transport 1 (.call 1 .insert), .transport 1 (.call 1 .acquire),
    .transport 0 (.reader .clear), .transport 0 (.call 0 .receive)]

/-- The first connection dies in between. -/
theorem never_replayed_sendsAgain : ∃ s s₁ s',
    run (step JsonText.backend Newline) always (connect .default) sendsFirst = some s ∧
      s.step JsonText.backend Newline (.transport 0 (.reader .stop)) = some s₁ ∧
      run (step JsonText.backend Newline) always s₁ sendsAgain = some s' ∧
      (handovers 0 sendsFirst).length ≤ 1 ∧
        ∀ t' ca, .transport t' (.call 0 ca) ∈ sendsAgain → t' = 0 := by
  have hrun : run (step JsonText.backend Newline) always (connect .default) sendsFirst = some _ :=
    rfl
  obtain ⟨hlength, -, hlater⟩ := never_replayed JsonText.backend Newline .default sendsFirst _ hrun
  exact ⟨_, _, _, rfl, rfl, rfl, hlength 0,
    hlater 0 0 (.number 1) .stop _ sendsAgain _ (.inl rfl) rfl rfl rfl⟩

end ReconnectingUds

end Jasonrpc
