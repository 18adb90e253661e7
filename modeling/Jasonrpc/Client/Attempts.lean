import Jasonrpc.Client.Reconnect
import Mathlib.Data.Finset.Basic

/-!
# How often calls dial

A call makes at most the attempts of the policy (`count_le`).  A policy cannot rule out the first of
them: a client dials again after the end of its first connection, whatever its policy, unless no
call gets to its second test (`none_stays_dead`).  Calls that wait on the gate share a connection
that one of them has made, and do not share its failure: each of them then dials in its turn, so
they keep to the attempts of one call only where they find a connection (`shared_dial`).
-/

namespace Jasonrpc

open ByteString Machine

namespace ReconnectingUds

variable {B : Backend} {f : Framing} {s s' : ReconnectingUds} {n t : ℕ} {call : UdsCall}
  {stage : Stage} {a : UdsAction}

theorem redialler_eq_some (h : s.redialler a = some n) :
    a = .call n .recheck ∧ ∃ call t, s.calls n = some call ∧ call.stage = .resnapped t ∧
      s.isConnected t = false := by
  unfold redialler at h
  split at h
  · rename_i m
    split at h
    · rename_i t hstage
      split_ifs at h with halive
      obtain rfl := Option.some.inj h
      obtain ⟨call, hcall, hstage⟩ := Option.map_eq_some_iff.1 hstage
      exact ⟨rfl, call, t, hcall, hstage, Bool.eq_false_iff.2 halive⟩
    · cases h
  · cases h

theorem dials_of_redialler (hstep : s.step B f a = some s') (h : s.redialler a = some n) :
    s'.dials = s.dials ++ [n] := by
  obtain ⟨rfl, call, t, hcall, hstage, hdead⟩ := redialler_eq_some h
  cases UdsStep.of_step hstep with
  | call hcall' hcallStep =>
    obtain rfl := Option.some.inj (hcall.symm.trans hcall')
    cases hcallStep with
    | share hstage' halive =>
      obtain rfl := Stage.resnapped.inj (hstage.symm.trans hstage')
      cases hdead.symm.trans halive
    | redial => rfl

/-- A call gets into the loop over the attempts at its second test only. -/
theorem redials_step (hstep : UdsStep B f s a s') (h : s'.Redials n) :
    s.Redials n ∨ s.redialler a = some n := by
  obtain ⟨call, hcall, hloop⟩ := h
  rcases hstep.call_cases hcall with ⟨-, hready, -⟩ | ⟨call₀, ca, hcall₀, rfl, hcallStep⟩ |
    ⟨hbefore, -⟩
  · rw [hready] at hloop
    exact hloop.elim
  · cases hcallStep with
    | redial hstage hdead =>
      refine .inr ?_
      rw [redialler_recheck hcall₀ hstage, hdead]
      rfl
    | wake hstage | retry hstage | connected hstage =>
      exact .inl ⟨call₀, hcall₀, by rw [hstage]; trivial⟩
    | _ =>
      rw [eq_of_calls_setStage hcall] at hloop
      exact hloop.elim
  · exact .inl ⟨call, hbefore, hloop⟩

/-! ## A policy without reconnection -/

/-- No call finds the transport dead at its second test. -/
def FindsAllAlive (s : ReconnectingUds) (a : UdsAction) : Prop := s.redialler a = none

instance (s : ReconnectingUds) (a : UdsAction) : Decidable (s.FindsAllAlive a) :=
  decidable_of_iff ((s.redialler a).isNone = true) Option.isNone_iff_eq_none

/-- No call has dialled. -/
structure Undialled (s : ReconnectingUds) : Prop where
  flight : SingleFlight s
  dials_eq : s.dials = []
  current_eq : s.current = 0
  not_redials (n : ℕ) : ¬ s.Redials n

namespace Undialled

theorem new (policy : RetryPolicy) : Undialled (connect policy) where
  flight := .new policy
  dials_eq := rfl
  current_eq := rfl
  not_redials n := by
    rintro ⟨call, hcall, -⟩
    cases hcall

theorem step (h : Undialled s) (hok : s.FindsAllAlive a) (hstep : s.step B f a = some s') :
    Undialled s' := by
  have hdone := UdsStep.of_step hstep
  have hnone (n : ℕ) : s.redialler a ≠ some n := by
    rw [show s.redialler a = none from hok]
    exact (Option.some_ne_none n).symm
  refine ⟨h.flight.step hstep, ?_, ?_, fun n hredials => ?_⟩
  · rcases hdone.dials_eq with heq | ⟨n, call, ca, -, hcall, -, hredials | ⟨redial, hstage⟩⟩
    · rw [heq, h.dials_eq]
    · exact absurd hredials (hnone n)
    · exact absurd ⟨call, hcall, by rw [hstage]; trivial⟩ (h.not_redials n)
  · rcases hdone.current_eq with heq | ⟨n, call, t, -, hcall, hstage, -⟩
    · rw [heq, h.current_eq]
    · exact absurd ⟨call, hcall, by rw [hstage]; trivial⟩ (h.not_redials n)
  · rcases redials_step hdone hredials with hbefore | hredials
    · exact h.not_redials n hbefore
    · exact hnone n hredials

theorem dead (h : Undialled s) (hstep : s.step B f a = some s') (hdead : s.isConnected 0 = false) :
    s'.isConnected 0 = false := by
  have hlt := h.flight.current_lt
  rw [h.current_eq] at hlt
  exact (UdsStep.of_step hstep).dead hlt hdead

end Undialled

/-- A call that started after the end of the only connection: it has not got past its second test. -/
def Stalled : Stage → Prop
  | .ready | .snapped | .queueing | .gated | .resnapped _ | .done .cancelled => True
  | _ => False

/-- The call `n`, if it has started, is stalled. -/
def StalledCall (n : ℕ) (s : ReconnectingUds) : Prop :=
  ∀ call, s.calls n = some call → (∀ t, call.observed = some t → t = 0) ∧ Stalled call.stage

theorem StalledCall.step (h : StalledCall n s) (hundialled : Undialled s)
    (hdead : s.isConnected 0 = false) (hok : s.FindsAllAlive a)
    (hstep : s.step B f a = some s') : StalledCall n s' := by
  intro call hcall
  have hdone := UdsStep.of_step hstep
  rcases hdone.call_cases hcall with ⟨-, hready, hobserved⟩ | ⟨call₀, ca, hcall₀, rfl, hcallStep⟩ |
    ⟨hbefore, -⟩
  · rw [hready, hobserved]
    exact ⟨fun t ht => (by cases ht), trivial⟩
  · obtain ⟨hobserved, hstalled⟩ := h call₀ hcall₀
    have hfits := hundialled.flight.fits hcall₀
    cases hcallStep with
    | snapshot =>
      rw [eq_of_calls_setStage hcall]
      refine ⟨fun t ht => ?_, trivial⟩
      rw [← Option.some.inj ht, hundialled.current_eq]
    | reuse _ hobserved' halive =>
      rw [hobserved _ hobserved'] at halive
      cases hdead.symm.trans halive
    | share hstage halive =>
      rw [hstage] at hfits
      obtain rfl : _ = s.current := hfits
      rw [hundialled.current_eq] at halive
      cases hdead.symm.trans halive
    | redial hstage hdead' =>
      rw [FindsAllAlive, redialler_recheck hcall₀ hstage, hdead'] at hok
      cases hok
    | queue | acquire | resnapshot | cancel | cancelGated =>
      rw [eq_of_calls_setStage hcall]
      exact ⟨hobserved, trivial⟩
    | wake hstage | panic hstage | retry hstage | giveUp hstage | connected hstage
      | install hstage | release hstage | fail hstage =>
      rw [hstage] at hstalled
      exact hstalled.elim
  · exact h call hbefore

theorem StalledCall.outcome_eq (h : StalledCall n s) {r : Outcome} (hr : s.outcome n = some r) :
    r = .cancelled := by
  unfold outcome at hr
  split at hr
  · rename_i r' hstage
    obtain ⟨call, hcall, hstage⟩ := Option.map_eq_some_iff.1 hstage
    have hstalled := (h call hcall).2
    obtain rfl := Option.some.inj hr
    rw [hstage] at hstalled
    cases r' with
    | cancelled => rfl
    | _ => exact hstalled.elim
  · rename_i t hstage
    obtain ⟨call, hcall, hstage⟩ := Option.map_eq_some_iff.1 hstage
    have hstalled := (h call hcall).2
    rw [hstage] at hstalled
    exact hstalled.elim
  · cases hr

/-- A call ends without a reply, and without a notification sent. -/
def Failed : Outcome → Prop
  | .error _ | .cancelled => True
  | .reply _ | .sent => False

/-- After the end of the first connection in the state `s`, nothing comes back: no call has dialled,
the transport is still the first one, and the calls started since then have failed if they have
ended. -/
structure StaysDead (s s' : ReconnectingUds) : Prop where
  dials_eq : s'.dials = []
  current_eq : s'.current = 0
  failed {n : ℕ} {r : Outcome} : s.calls n = none → s'.outcome n = some r → Failed r

/-- With the policy `none` the connection stays dead in a run as long as no call finds the transport
dead at its second test, and no longer. -/
theorem none_stays_dead (B : Backend) (f : Framing) (s s' : ReconnectingUds)
    (hreach : Reach (step B f) FindsAllAlive (connect .none) s) (hdead : s.isConnected 0 = false)
    (hlater : Reach (step B f) FindsAllAlive s s') :
    StaysDead s s' ∧ ∀ a s'', s'.step B f a = some s'' →
      (StaysDead s s'' ↔ s'.FindsAllAlive a) := by
  have hundialled : Undialled s :=
    hreach.invariant (.new .none) fun _ _ _ h hok hstep => h.step hok hstep
  have hstays {s' : ReconnectingUds} (hlater : Reach (step B f) FindsAllAlive s s') :
      StaysDead s s' := by
    have hinvariant : Undialled s' ∧ s'.isConnected 0 = false ∧
        ∀ n, s.calls n = none → StalledCall n s' := by
      refine hlater.invariant (I := fun s' => Undialled s' ∧ s'.isConnected 0 = false ∧
        ∀ n, s.calls n = none → StalledCall n s') ⟨hundialled, hdead, ?_⟩ ?_
      · intro n hfresh call hcall
        cases hfresh.symm.trans hcall
      · rintro s₁ a s₂ ⟨h, hdead₁, hstalled⟩ hok hstep
        exact ⟨h.step hok hstep, h.dead hstep hdead₁,
          fun n hfresh => (hstalled n hfresh).step h hdead₁ hok hstep⟩
    obtain ⟨hundialled', -, hstalled⟩ := hinvariant
    refine ⟨hundialled'.dials_eq, hundialled'.current_eq, fun {n r} hfresh hr => ?_⟩
    rw [(hstalled n hfresh).outcome_eq hr]
    trivial
  refine ⟨hstays hlater, fun a s'' hstep => ⟨fun h => ?_, fun hok => hstays (hlater.tail hok hstep)⟩⟩
  -- a call that finds the transport dead dials
  cases hredials : s'.redialler a with
  | none => exact hredials
  | some n =>
    have hdials := dials_of_redialler hstep hredials
    rw [h.dials_eq] at hdials
    exact absurd hdials.symm (List.append_ne_nil_of_right_ne_nil _ (List.cons_ne_nil n []))

/-- The first connection dies. -/
def dies : List UdsAction := [.transport 0 (.reader .stop)]

/-- A call that gets the gate after that is dropped there. -/
theorem none_stays_dead_dropped : ∃ s s',
    run (step JsonText.backend Newline) FindsAllAlive (connect .none) dies = some s ∧
      run (step JsonText.backend Newline) FindsAllAlive s
        (queues 0 ++ [.call 0 .acquire, .call 0 .cancel]) = some s' ∧ StaysDead s s' := by
  have hreach : Reach (step JsonText.backend Newline) FindsAllAlive (connect .none) _ :=
    reach_of_run dies rfl
  refine ⟨_, _, rfl, rfl, (none_stays_dead JsonText.backend Newline _ _ hreach rfl ?_).1⟩
  exact reach_of_run (queues 0 ++ [.call 0 .acquire, .call 0 .cancel]) rfl

/-- A call that is not dropped dials, and goes on with the new connection. -/
theorem not_staysDead_none : ¬ ∀ s s',
    Reach (step JsonText.backend Newline) always (connect .none) s → s.isConnected 0 = false →
      Reach (step JsonText.backend Newline) always s s' → StaysDead s s' := by
  intro h
  have hdead := h _ _ (reach_of_run dies rfl) rfl (reach_of_run (queues 0 ++ retests 0 ++
    [.call 0 .connected, .call 0 .install, .call 0 .release]) rfl)
  cases hdead.current_eq

/-! ## How often one call dials -/

/-- How often a call that has reached a point has dialled. -/
def Counts (policy : RetryPolicy) (k : ℕ) : Stage → Prop
  | .ready | .snapped | .queueing | .gated | .resnapped _ => k = 0
  | .sleeping redial => k = redial.attempt ∧ 0 < k ∧ k < policy.attempts
  | .dialling redial => k = redial.attempt + 1 ∧ k ≤ policy.attempts
  | .returning (.error _) | .done (.error _) => 0 < k ∧ k ≤ policy.attempts
  | _ => k ≤ policy.attempts

theorem Counts.le {policy : RetryPolicy} {k : ℕ} {stage : Stage} (h : Counts policy k stage) :
    k ≤ policy.attempts := by
  cases stage with
  | sleeping => exact h.2.2.le
  | dialling => exact h.2
  | ready | snapped | queueing | gated | resnapped => exact h.trans_le (Nat.zero_le _)
  | returning r =>
    cases r with
    | ok => exact h
    | error => exact h.2
  | done r =>
    cases r with
    | error => exact h.2
    | _ => exact h
  | _ => exact h

/-- Every call has dialled as often as the point that it has reached tells. -/
structure Counted (s : ReconnectingUds) : Prop where
  fresh {n : ℕ} : s.calls n = none → s.dials.count n = 0
  counts {n : ℕ} {call : UdsCall} : s.calls n = some call →
    Counts s.policy (s.dials.count n) call.stage

theorem count_of_ne (hstep : UdsStep B f s a s') (hne : ∀ ca, a ≠ .call n ca) :
    s'.dials.count n = s.dials.count n := by
  rcases hstep.dials_eq with heq | ⟨m, call, ca, rfl, -, heq, -⟩
  · rw [heq]
  · have hnm : m ≠ n := by
      rintro rfl
      exact hne ca rfl
    rw [heq, List.count_append, List.count_singleton]
    simp [hnm]

theorem UdsStep.policy_eq (h : UdsStep B f s a s') : s'.policy = s.policy := by
  cases h with
  | start | transport => rfl
  | call _ hstep =>
    cases hstep <;> rfl

namespace Counted

theorem new (policy : RetryPolicy) : Counted (connect policy) where
  fresh _ := rfl
  counts h := by cases h

theorem count_le (h : Counted s) (n : ℕ) : s.dials.count n ≤ s.policy.attempts := by
  cases hcall : s.calls n with
  | none => exact (h.fresh hcall).trans_le (Nat.zero_le _)
  | some call => exact (h.counts hcall).le

theorem callStep (h : Counted s) (hcall : s.calls n = some call) {ca : UdsCallAction}
    (hstep : UdsCallStep B f s n call ca s') {call' : UdsCall}
    (hcall' : s'.calls n = some call') :
    Counts s'.policy (s'.dials.count n) call'.stage := by
  have hcounts := h.counts hcall
  have hdialled : (s.dials ++ [n]).count n = s.dials.count n + 1 := by simp
  cases hstep with
  | snapshot hstage | queue hstage | acquire hstage | resnapshot hstage =>
    rw [eq_of_calls_setStage hcall']
    rw [hstage] at hcounts
    exact hcounts
  | redial hstage =>
    rw [eq_of_calls_setStage hcall']
    rw [hstage] at hcounts
    have hzero : s.dials.count n = 0 := hcounts
    refine ⟨?_, ?_⟩
    · show (s.dials ++ [n]).count n = 0 + 1
      rw [hdialled, hzero]
    · show (s.dials ++ [n]).count n ≤ s.policy.attempts
      rw [hdialled, hzero]
      exact attempts_pos s.policy
  | wake hstage =>
    rw [eq_of_calls_setStage hcall']
    rw [hstage] at hcounts
    refine ⟨?_, ?_⟩
    · exact hdialled.trans (congrArg (· + 1) hcounts.1)
    · show (s.dials ++ [n]).count n ≤ s.policy.attempts
      rw [hdialled]
      exact hcounts.2.2
  | retry hstage hlt =>
    rw [eq_of_calls_setStage hcall']
    rw [hstage] at hcounts
    refine ⟨hcounts.1, ?_, ?_⟩
    · show 0 < s.dials.count n
      rw [hcounts.1]
      exact Nat.succ_pos _
    · show s.dials.count n < s.policy.attempts
      rwa [hcounts.1]
  | giveUp hstage =>
    rw [eq_of_calls_setStage hcall']
    rw [hstage] at hcounts
    refine ⟨?_, hcounts.2⟩
    show 0 < s.dials.count n
    rw [hcounts.1]
    exact Nat.succ_pos _
  | fail hstage =>
    rw [eq_of_calls_setStage hcall']
    rw [hstage] at hcounts
    exact hcounts
  | reuse | share | panic | connected | install | release | cancel | cancelGated =>
    rw [eq_of_calls_setStage hcall']
    exact hcounts.le

theorem step (h : Counted s) (hstep : s.step B f a = some s') : Counted s' := by
  have hdone := UdsStep.of_step hstep
  have hzero {n : ℕ} (hfresh : s.calls n = none) : s'.dials.count n = 0 := by
    rw [count_of_ne hdone (hdone.ne_call hfresh), h.fresh hfresh]
  constructor
  · intro n hfresh
    exact hzero (hdone.fresh hfresh)
  · intro n call hcall
    rcases hdone.call_cases hcall with ⟨hfresh, hready, -⟩ | ⟨call₀, ca, hcall₀, rfl, hcallStep⟩ |
      ⟨hbefore, hother⟩
    · rw [hready]
      exact hzero hfresh
    · exact h.callStep hcall₀ hcallStep hcall
    · rw [count_of_ne hdone hother, hdone.policy_eq]
      exact h.counts hbefore

end Counted

/-! ## Calls that wait on the gate -/

/-- What holds of a call that has observed the transport `t`. -/
def Observes (s : ReconnectingUds) (t : ℕ) : Stage → Prop
  | .queueing | .gated | .resnapped _ => s.isConnected t = false
  | .returning (.ok t') => t < t'
  | _ => True

/-- A call observes a transport that has been current; it waits on the gate when it is dead, and
returns from `reconnect` with a later one. -/
structure Observed (s : ReconnectingUds) : Prop where
  flight : SingleFlight s
  le_current {n t : ℕ} {call : UdsCall} : s.calls n = some call → call.observed = some t →
    t ≤ s.current
  observes {n t : ℕ} {call : UdsCall} : s.calls n = some call → call.observed = some t →
    s.Observes t call.stage

theorem SingleFlight.current_le (h : SingleFlight s) (hstep : UdsStep B f s a s') :
    s.current ≤ s'.current := by
  rcases hstep.current_eq with heq | ⟨n, call, t, -, hcall, hstage, heq⟩
  · exact heq.ge
  · have hfits := h.fits hcall
    rw [hstage] at hfits
    rw [heq]
    exact hfits.1.le

theorem Observes.step (h : s.Observes t stage) (hlt : t < s.built) (hstep : UdsStep B f s a s') :
    s'.Observes t stage := by
  cases stage with
  | queueing | gated | resnapped => exact hstep.dead hlt h
  | returning r =>
    cases r with
    | ok => exact h
    | error => trivial
  | _ => trivial

namespace Observed

theorem new (policy : RetryPolicy) : Observed (connect policy) where
  flight := .new policy
  le_current h := by cases h
  observes h := by cases h

theorem callStep (h : Observed s) (hcall : s.calls n = some call) {ca : UdsCallAction}
    (hstep : UdsCallStep B f s n call ca s') {call' : UdsCall}
    (hcall' : s'.calls n = some call') (ht : call'.observed = some t) :
    t ≤ s'.current ∧ s'.Observes t call'.stage := by
  have hfits := h.flight.fits hcall
  cases hstep with
  | snapshot =>
    rw [eq_of_calls_setStage hcall'] at ht ⊢
    exact ⟨(Option.some.inj ht).ge, trivial⟩
  | queue _ hobserved hdead =>
    rw [eq_of_calls_setStage hcall'] at ht ⊢
    obtain rfl := Option.some.inj (hobserved.symm.trans ht)
    exact ⟨h.le_current hcall ht, hdead⟩
  | acquire hstage | resnapshot hstage =>
    rw [eq_of_calls_setStage hcall'] at ht ⊢
    have hobserves := h.observes hcall ht
    rw [hstage] at hobserves
    exact ⟨h.le_current hcall ht, hobserves⟩
  | @share t' hstage halive =>
    rw [eq_of_calls_setStage hcall'] at ht ⊢
    rw [hstage] at hfits
    obtain rfl : t' = s.current := hfits
    have hle := h.le_current hcall ht
    have hdead := h.observes hcall ht
    rw [hstage] at hdead
    -- the transport observed is dead, and the current one is not
    refine ⟨hle, lt_of_le_of_ne hle fun heq => ?_⟩
    rw [heq] at hdead
    cases halive.symm.trans hdead
  | install hstage =>
    rw [eq_of_calls_setStage hcall'] at ht ⊢
    rw [hstage] at hfits
    have hlt := (h.le_current hcall ht).trans_lt hfits.1
    exact ⟨hlt.le, hlt⟩
  | _ =>
    rw [eq_of_calls_setStage hcall'] at ht ⊢
    exact ⟨h.le_current hcall ht, trivial⟩

theorem step (h : Observed s) (hstep : s.step B f a = some s') : Observed s' := by
  have hdone := UdsStep.of_step hstep
  have hboth {n t : ℕ} {call : UdsCall} (hcall : s'.calls n = some call)
      (ht : call.observed = some t) : t ≤ s'.current ∧ s'.Observes t call.stage := by
    rcases hdone.call_cases hcall with ⟨-, -, hobserved⟩ | ⟨call₀, ca, hcall₀, rfl, hcallStep⟩ |
      ⟨hbefore, -⟩
    · cases hobserved.symm.trans ht
    · exact h.callStep hcall₀ hcallStep hcall ht
    · have hle := h.le_current hbefore ht
      exact ⟨hle.trans (h.flight.current_le hdone),
        (h.observes hbefore ht).step (hle.trans_lt h.flight.current_lt) hdone⟩
  exact ⟨h.flight.step hstep, fun hcall ht => (hboth hcall ht).1, fun hcall ht => (hboth hcall ht).2⟩

end Observed

/-! ## A burst of calls -/

/-- The calls of `C` have observed the transport `t`, and wait on the gate or have it. -/
def Waiting (C : Finset ℕ) (t : ℕ) (s : ReconnectingUds) : Prop :=
  ∀ n ∈ C, ∃ call, s.calls n = some call ∧ call.observed = some t ∧
    (call.stage = .queueing ∨ call.stage.HasGate)

/-- A call of `C` finds the transport dead at its second test only where none of them has dialled. -/
def DialsFirst (C : Finset ℕ) (s : ReconnectingUds) (a : UdsAction) : Prop :=
  ∀ n ∈ C, s.redialler a = some n → ∀ m ∈ C, m ∉ s.dials

instance (C : Finset ℕ) (s : ReconnectingUds) (a : UdsAction) : Decidable (DialsFirst C s a) :=
  inferInstanceAs (Decidable (∀ n ∈ C, _ → ∀ m ∈ C, _))

/-- What `reconnect` has returned to a call. -/
def result : Stage → Option (Except MultiplexError ℕ)
  | .returning r => some r
  | .delegated t => some (.ok t)
  | .done (.error e) => some (.error e)
  | _ => none

/-- The calls of `C`, which have observed the transport `t`, share one reconnection. -/
structure SharesDial (C : Finset ℕ) (t : ℕ) (s : ReconnectingUds) : Prop where
  /-- Together they have made at most the attempts of the policy. -/
  dials_le : s.dials.countP (· ∈ C) ≤ s.policy.attempts
  /-- At most one of them has dialled. -/
  one {n m : ℕ} : n ∈ C → m ∈ C → n ∈ s.dials → m ∈ s.dials → n = m
  /-- The others come back with a transport that has been dialled since. -/
  reused {n : ℕ} {call : UdsCall} {r : Except MultiplexError ℕ} : n ∈ C → n ∉ s.dials →
    s.calls n = some call → result call.stage = some r → ∃ t', t < t' ∧ r = .ok t'

/-- A call that has joined a burst which has observed the transport `t`. -/
def Joined (t : ℕ) : Stage → Prop
  | .ready | .snapped => False
  | .delegated t' => t < t'
  | _ => True

/-- What holds while the calls of `C` share one reconnection. -/
structure Burst (C : Finset ℕ) (t : ℕ) (s : ReconnectingUds) : Prop where
  counted : Counted s
  observed : Observed s
  joined {n : ℕ} : n ∈ C → ∃ call, s.calls n = some call ∧ call.observed = some t ∧
    Joined t call.stage
  one {n m : ℕ} : n ∈ C → m ∈ C → n ∈ s.dials → m ∈ s.dials → n = m

theorem Counted.not_mem (h : Counted s) (hcall : s.calls n = some call)
    (hbefore : call.stage = .queueing ∨ ∃ t, call.stage = .resnapped t) : n ∉ s.dials := by
  have hcounts := h.counts hcall
  rw [← List.count_eq_zero]
  rcases hbefore with hstage | ⟨t, hstage⟩ <;> rw [hstage] at hcounts <;> exact hcounts

namespace Burst

variable {C : Finset ℕ}

theorem of_waiting (hcounted : Counted s) (hobserved : Observed s) (h : Waiting C t s) :
    Burst C t s := by
  refine ⟨hcounted, hobserved, fun {n} hn => ?_, fun {n m} hn hm hdialled hdialled' => ?_⟩
  · obtain ⟨call, hcall, ht, hstage⟩ := h n hn
    refine ⟨call, hcall, ht, ?_⟩
    rcases hstage with hstage | hgate
    · rw [hstage]
      trivial
    · cases hs : call.stage <;> rw [hs] at hgate <;> trivial
  · have hgate {n : ℕ} (hn : n ∈ C) (hdialled : n ∈ s.dials) :
        ∃ call, s.calls n = some call ∧ call.stage.HasGate := by
      obtain ⟨call, hcall, -, hstage | hgate⟩ := h n hn
      · exact absurd hdialled (hcounted.not_mem hcall (.inl hstage))
      · exact ⟨call, hcall, hgate⟩
    obtain ⟨call, hcall, hgate₁⟩ := hgate hn hdialled
    obtain ⟨call', hcall', hgate₂⟩ := hgate hm hdialled'
    exact hobserved.flight.held.unique hcall hcall' hgate₁ hgate₂

theorem joined_callStep (h : Burst C t s) (hn : n ∈ C) (hcall : s.calls n = some call)
    {ca : UdsCallAction} (hstep : UdsCallStep B f s n call ca s') :
    ∃ call', s'.calls n = some call' ∧ call'.observed = some t ∧ Joined t call'.stage := by
  obtain ⟨call₀, hcall₀, ht, hjoined⟩ := h.joined hn
  obtain rfl := Option.some.inj (hcall.symm.trans hcall₀)
  have hobserves := h.observed.observes hcall ht
  cases hstep with
  | snapshot hstage | reuse hstage | queue hstage =>
    rw [hstage] at hjoined
    exact hjoined.elim
  | release hstage =>
    rw [hstage] at hobserves
    exact ⟨_, Function.update_self .., ht, hobserves⟩
  | _ => exact ⟨_, Function.update_self .., ht, trivial⟩

theorem step (h : Burst C t s) (hok : DialsFirst C s a) (hstep : s.step B f a = some s') :
    Burst C t s' := by
  have hdone := UdsStep.of_step hstep
  refine ⟨h.counted.step hstep, h.observed.step hstep, fun {n} hn => ?_, ?_⟩
  · obtain ⟨call, hcall, ht, hjoined⟩ := h.joined hn
    by_cases hacts : ∃ ca, a = .call n ca
    · obtain ⟨ca, rfl⟩ := hacts
      cases hdone with
      | call hcall' hcallStep => exact h.joined_callStep hn hcall' hcallStep
    · exact ⟨call, hdone.calls_of_ne hcall fun ca heq => hacts ⟨ca, heq⟩, ht, hjoined⟩
  · intro n m hn hm hdialled hdialled'
    rcases hdone.dials_eq with heq | ⟨k, callk, ca, -, hcallk, heq, hredials | ⟨redial, hstage⟩⟩
    · rw [heq] at hdialled hdialled'
      exact h.one hn hm hdialled hdialled'
    · -- the first of them to dial
      rw [heq, List.mem_append, List.mem_singleton] at hdialled hdialled'
      rcases hdialled with hdialled | rfl
      · rcases hdialled' with hdialled' | rfl
        · exact h.one hn hm hdialled hdialled'
        · exact absurd hdialled (hok m hm hredials n hn)
      · rcases hdialled' with hdialled' | rfl
        · exact absurd hdialled' (hok n hn hredials m hm)
        · rfl
    · -- one that has dialled before
      have hk : k ∈ s.dials := by
        have hcounts := h.counted.counts hcallk
        rw [hstage] at hcounts
        exact List.count_pos_iff.1 hcounts.2.1
      have hmem {x : ℕ} (hx : x ∈ s'.dials) : x ∈ s.dials := by
        rw [heq, List.mem_append, List.mem_singleton] at hx
        rcases hx with hx | rfl
        · exact hx
        · exact hk
      exact h.one hn hm (hmem hdialled) (hmem hdialled')

theorem sharesDial (h : Burst C t s) : SharesDial C t s := by
  refine ⟨?_, h.one, fun {n call r} hn hdialled hcall hresult => ?_⟩
  · by_cases hnone : ∃ n ∈ C, n ∈ s.dials
    · obtain ⟨n, hn, hdialled⟩ := hnone
      obtain ⟨call, hcall, -⟩ := h.joined hn
      refine le_trans ?_ (h.counted.counts hcall).le
      rw [List.count]
      refine List.countP_mono_left fun m hm hmC => ?_
      rw [h.one (of_decide_eq_true hmC) hn hm hdialled]
      exact BEq.rfl
    · rw [List.countP_eq_zero.2]
      · exact Nat.zero_le _
      · intro n hdialled hn
        exact hnone ⟨n, of_decide_eq_true hn, hdialled⟩
  · obtain ⟨call₀, hcall₀, ht, hjoined⟩ := h.joined hn
    obtain rfl := Option.some.inj (hcall.symm.trans hcall₀)
    have hobserves := h.observed.observes hcall ht
    have hcounts := h.counted.counts hcall
    rw [List.count_eq_zero.2 hdialled] at hcounts
    cases hs : call.stage <;> rw [hs] at hresult hobserves hcounts hjoined
    case delegated t' => exact ⟨t', hjoined, (Option.some.inj hresult).symm⟩
    case returning r' =>
      cases r' with
      | ok t' => exact ⟨t', hobserves, (Option.some.inj hresult).symm⟩
      | error e => exact absurd hcounts.1 (Nat.lt_irrefl 0)
    case done r' =>
      cases r' with
      | error e => exact absurd hcounts.1 (Nat.lt_irrefl 0)
      | _ => cases hresult
    all_goals cases hresult

end Burst

/-- Calls that wait on the gate share one reconnection in a run as long as only the first of them
finds the transport dead, and no longer. -/
theorem shared_dial (B : Backend) (f : Framing) (policy : RetryPolicy) (C : Finset ℕ) (t : ℕ)
    (s₀ s : ReconnectingUds) (hreach : Reach (step B f) always (connect policy) s₀)
    (hwaiting : Waiting C t s₀) (hlater : Reach (step B f) (DialsFirst C) s₀ s) :
    SharesDial C t s ∧ ∀ a s', s.step B f a = some s' →
      (SharesDial C t s' ↔ DialsFirst C s a) := by
  have hburst : Burst C t s := by
    have hinvariant : Counted s₀ ∧ Observed s₀ :=
      hreach.invariant (I := fun s => Counted s ∧ Observed s) ⟨.new policy, .new policy⟩
        fun _ _ _ h _ hstep => ⟨h.1.step hstep, h.2.step hstep⟩
    exact hlater.invariant (.of_waiting hinvariant.1 hinvariant.2 hwaiting)
      fun _ _ _ h hok hstep => h.step hok hstep
  refine ⟨hburst.sharesDial, fun a s' hstep => ⟨fun h n hn hredials m hm hdialled => ?_,
    fun hok => (hburst.step hok hstep).sharesDial⟩⟩
  -- a second call of the burst dials
  have hdials := dials_of_redialler hstep hredials
  have hself : n ∈ s'.dials := by
    rw [hdials]
    exact List.mem_append_right _ (List.mem_singleton_self n)
  have hother : m ∈ s'.dials := by
    rw [hdials]
    exact List.mem_append_left _ hdialled
  obtain rfl := h.one hn hm hself hother
  obtain ⟨-, call, t', hcall, hstage, -⟩ := redialler_eq_some hredials
  exact hburst.counted.not_mem hcall (.inr ⟨t', hstage⟩) hdialled

/-- The first connection dies, and two calls wait on the gate. -/
def bursts : List UdsAction := dies ++ queues 0 ++ queues 1

theorem waiting_bursts {s : ReconnectingUds}
    (h : run (step JsonText.backend Newline) always (connect .default) bursts = some s) :
    Waiting {0, 1} 0 s := by
  obtain rfl := Option.some.inj h
  intro n hn
  rcases Finset.mem_insert.1 hn with rfl | hn
  · exact ⟨_, rfl, rfl, .inl rfl⟩
  · obtain rfl := Finset.mem_singleton.1 hn
    exact ⟨_, rfl, rfl, .inl rfl⟩

/-- The one reconnects, the other finds the new connection alive. -/
theorem shared_dial_connected : ∃ s₀ s,
    run (step JsonText.backend Newline) always (connect .default) bursts = some s₀ ∧
      run (step JsonText.backend Newline) (DialsFirst {0, 1}) s₀ (retests 0 ++
        [.call 0 .connected, .call 0 .install, .call 0 .release] ++ retests 1) = some s ∧
        SharesDial {0, 1} 0 s := by
  have hreach : Reach (step JsonText.backend Newline) always (connect .default) _ :=
    reach_of_run bursts rfl
  refine ⟨_, _, rfl, rfl, (shared_dial JsonText.backend Newline .default _ 0 _ _ hreach
    (waiting_bursts rfl) ?_).1⟩
  exact reach_of_run (retests 0 ++ [.call 0 .connected, .call 0 .install, .call 0 .release] ++
    retests 1) rfl

/-- The dial fails, and the call waits for the next attempt. -/
def retries : List UdsAction := [.call 0 (.refused "connection refused"), .call 0 .wake]

/-- The one makes all its attempts and fails, and the other dials in its turn. -/
theorem not_sharesDial_refused : ¬ ∀ policy C t s₀ s,
    Reach (step JsonText.backend Newline) always (connect policy) s₀ → Waiting C t s₀ →
      Reach (step JsonText.backend Newline) always s₀ s → SharesDial C t s := by
  intro h
  have hshares := h .default _ 0 _ _ (reach_of_run bursts rfl) (waiting_bursts rfl)
    (reach_of_run (retests 0 ++ retries ++ retries ++ retries ++ retries ++
      [.call 0 (.refused "connection refused"), .call 0 .release] ++ retests 1) rfl)
  have hle : 6 ≤ 5 := hshares.dials_le
  omega

end ReconnectingUds

end Jasonrpc
