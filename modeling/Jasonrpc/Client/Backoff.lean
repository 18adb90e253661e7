import Jasonrpc.Client.Attempts

/-!
# What a reconnection waits

Before its second dial a call sleeps for the base of the policy, which is not clamped; before each
further one it sleeps twice as long as before, up to the maximum.  So the delays keep to the
schedule just when the base is at most the maximum, or the policy makes one attempt only
(`onSchedule_iff`).
-/

namespace Jasonrpc

open ByteString Machine

namespace RetryPolicy

/-- The delay before the attempt `j + 2`. -/
def backoff (policy : RetryPolicy) : ℕ → Duration
  | 0 => policy.baseBackoff
  | j + 1 => ⟨min (policy.baseBackoff.nanos * 2 ^ (j + 1)) policy.maxBackoff.nanos⟩

/-- The delay in seconds before the attempt `k + 1`, as the policy describes it: none before the
first one, then the base, doubled with each attempt, and at most the maximum. -/
def schedule (policy : RetryPolicy) : ℕ → Option ℚ≥0
  | 0 => .none
  | j + 1 => some (min (policy.baseBackoff.seconds * 2 ^ j) policy.maxBackoff.seconds)

theorem min_doubled {policy : RetryPolicy} {j : ℕ} {doubled : Duration}
    (h : (policy.backoff j).checkedMul 2 = some doubled) :
    doubled.min policy.maxBackoff = policy.backoff (j + 1) := by
  apply Duration.ext_nanos
  rw [Duration.nanos_min, Duration.nanos_of_checkedMul h]
  cases j with
  | zero => rw [backoff, backoff, pow_one]
  | succ j =>
    rw [backoff, backoff, pow_succ _ (j + 1), ← mul_assoc]
    dsimp only
    omega

theorem schedule_backoff {policy : RetryPolicy}
    (h : policy.baseBackoff.seconds ≤ policy.maxBackoff.seconds) (j : ℕ) :
    policy.schedule (j + 1) = some (policy.backoff j).seconds := by
  cases j with
  | zero => rw [schedule, backoff, pow_zero, mul_one, min_eq_left h]
  | succ j =>
    rw [schedule, backoff, Duration.seconds_mk_min]
    norm_cast

end RetryPolicy

namespace ReconnectingUds

variable {B : Backend} {f : Framing} {s s' : ReconnectingUds} {n : ℕ} {call : UdsCall}
  {a : UdsAction} {policy : RetryPolicy}

/-- The delay that the call `n` sleeps. -/
def delay (s : ReconnectingUds) (n : ℕ) : Option Duration :=
  match (s.calls n).map UdsCall.stage with
  | some (.sleeping redial) => some redial.backoff
  | _ => none

/-- No call dials more often than the policy says, a call dials when it has slept the delay of the
schedule, the first time without a delay, and no delay is longer than the maximum. -/
structure OnSchedule (B : Backend) (f : Framing) (policy : RetryPolicy) (s : ReconnectingUds) :
    Prop where
  count_le (n : ℕ) : s.dials.count n ≤ max 1 policy.maxAttempts.toNat
  dial {a : UdsAction} {s' : ReconnectingUds} {n : ℕ} (stepped : s.step B f a = some s')
    (dialled : s'.dials = s.dials ++ [n]) :
    (s.delay n).map Duration.seconds = policy.schedule (s.dials.count n)
  delay_le {n : ℕ} {d : Duration} (sleeps : s.delay n = some d) :
    d.seconds ≤ policy.maxBackoff.seconds

/-! ## The invariant -/

/-- The variable `backoff` at a point of the loop. -/
def Backs (policy : RetryPolicy) : Stage → Prop
  | .sleeping redial => ∃ j, redial.attempt = j + 1 ∧ redial.backoff = policy.backoff j
  | .dialling redial => redial.backoff = policy.backoff redial.attempt
  | _ => True

/-- The dials of the calls are counted, and their delays are those of the policy. -/
structure Paced (policy : RetryPolicy) (s : ReconnectingUds) : Prop where
  policy_eq : s.policy = policy
  counted : Counted s
  backs {n : ℕ} {call : UdsCall} : s.calls n = some call → Backs policy call.stage

namespace Paced

theorem new (policy : RetryPolicy) : Paced policy (connect policy) where
  policy_eq := rfl
  counted := .new policy
  backs h := by cases h

theorem callStep (h : Paced policy s) (hcall : s.calls n = some call) {ca : UdsCallAction}
    (hstep : UdsCallStep B f s n call ca s') {call' : UdsCall} (hcall' : s'.calls n = some call') :
    Backs policy call'.stage := by
  have hbacks := h.backs hcall
  cases hstep with
  | redial =>
    rw [eq_of_calls_setStage hcall']
    exact congrArg RetryPolicy.baseBackoff h.policy_eq
  | wake hstage hdoubled =>
    rw [eq_of_calls_setStage hcall']
    rw [hstage] at hbacks
    obtain ⟨j, hattempt, hbackoff⟩ := hbacks
    rw [hbackoff] at hdoubled
    show _ = policy.backoff _
    rw [hattempt, h.policy_eq]
    exact RetryPolicy.min_doubled hdoubled
  | retry hstage =>
    rw [eq_of_calls_setStage hcall']
    rw [hstage] at hbacks
    exact ⟨_, rfl, hbacks⟩
  | _ =>
    rw [eq_of_calls_setStage hcall']
    trivial

theorem step (h : Paced policy s) (hstep : s.step B f a = some s') : Paced policy s' := by
  have hdone := UdsStep.of_step hstep
  refine ⟨hdone.policy_eq.trans h.policy_eq, h.counted.step hstep, fun {n call} hcall => ?_⟩
  rcases hdone.call_cases hcall with ⟨-, hready, -⟩ | ⟨call₀, ca, hcall₀, rfl, hcallStep⟩ |
    ⟨hbefore, -⟩
  · rw [hready]
    trivial
  · exact h.callStep hcall₀ hcallStep hcall
  · exact h.backs hbefore

theorem of_reach (h : Reach (ReconnectingUds.step B f) always (connect policy) s) :
    Paced policy s :=
  h.invariant (.new policy) fun _ _ _ hpaced _ hstep => hpaced.step hstep

/-- A call that sleeps has failed as often as it has dialled, and sleeps the delay of its next
attempt. -/
theorem delay_eq (h : Paced policy s) {d : Duration} (hdelay : s.delay n = some d) :
    ∃ j, s.dials.count n = j + 1 ∧ j + 1 < policy.attempts ∧ d = policy.backoff j := by
  unfold delay at hdelay
  cases hcall : s.calls n with
  | none =>
    rw [hcall] at hdelay
    cases hdelay
  | some call =>
    have hcounts := h.counted.counts hcall
    have hbacks := h.backs hcall
    rw [hcall, Option.map_some] at hdelay
    cases hstage : call.stage with
    | sleeping redial =>
      rw [hstage] at hdelay hcounts hbacks
      obtain rfl := Option.some.inj hdelay
      obtain ⟨j, hattempt, hbackoff⟩ := hbacks
      obtain ⟨hcount, -, hlt⟩ := hcounts
      refine ⟨j, hcount.trans hattempt, ?_, hbackoff⟩
      rw [← hattempt, ← hcount, ← h.policy_eq]
      exact hlt
    | _ =>
      rw [hstage] at hdelay
      cases hdelay

/-- A call that dials for the first time does not sleep before, and a call that dials again does. -/
theorem delay_of_dial (h : Paced policy s) (hstep : s.step B f a = some s')
    (hdialled : s'.dials = s.dials ++ [n]) :
    s.dials.count n = 0 ∧ s.delay n = none ∨ ∃ d, s.delay n = some d := by
  rcases (UdsStep.of_step hstep).dials_eq with heq | ⟨m, call, ca, rfl, hcall, heq, hcause⟩
  · rw [hdialled] at heq
    exact absurd heq (by simp)
  · have hnm : n = m := by
      rw [hdialled] at heq
      simpa using heq
    subst hnm
    rcases hcause with hredials | ⟨redial, hstage⟩
    · obtain ⟨-, call', t, hcall', hstage, -⟩ := redialler_eq_some hredials
      have hcounts := h.counted.counts hcall'
      rw [hstage] at hcounts
      refine .inl ⟨hcounts, ?_⟩
      rw [delay, hcall', Option.map_some, hstage]
    · refine .inr ⟨redial.backoff, ?_⟩
      rw [delay, hcall, Option.map_some, hstage]

end Paced

/-! ## The schedule -/

/-- The first connection dies, and a call makes its second test. -/
def retested : List UdsAction := dies ++ queues 0 ++ [.call 0 .acquire, .call 0 .resnapshot]

/-- A call whose first dial fails sleeps for the base, where it has another attempt. -/
theorem exists_delay_of_refused {s₀ : ReconnectingUds} {t : ℕ}
    (hreach : Reach (step B f) always s₀ s) (hcall : s.calls n = some call)
    (hstage : call.stage = .resnapped t) (hdead : s.isConnected t = false)
    (hlt : 1 < s.policy.attempts) (e : IoError) :
    ∃ s', Reach (step B f) always s₀ s' ∧ s'.delay n = some s.policy.baseBackoff := by
  let redial : Redial := { backoff := s.policy.baseBackoff }
  let dialling : UdsCall := { call with stage := .dialling redial }
  have hdial : s.step B f (.call n .recheck) = some (s.dial n call redial) := by
    rw [ReconnectingUds.step, hcall, Option.bind_some, callStep, hstage]
    dsimp only
    rw [hdead, if_neg Bool.false_ne_true, attempt_zero s n call rfl]
  have hdialling : (s.dial n call redial).calls n = some dialling := Function.update_self ..
  rcases (s.dial n call redial).attempt_failed n dialling redial e with ⟨-, heq⟩ | ⟨hge, -⟩
  · have hrefused : (s.dial n call redial).step B f (.call n (.refused e)) =
        some ((s.dial n call redial).setStage n dialling (.sleeping (redial.failed e))) := by
      rw [ReconnectingUds.step, hdialling, Option.bind_some, callStep]
      dsimp only [dialling]
      rw [heq]
    refine ⟨_, (hreach.tail trivial hdial).tail trivial hrefused, ?_⟩
    rw [delay, calls_setStage, Function.update_self]
    rfl
  · exact absurd hge (not_le.2 hlt)

theorem exists_delay_base (B : Backend) (f : Framing) {policy : RetryPolicy}
    (hlt : 1 < policy.attempts) :
    ∃ s, Reach (step B f) always (connect policy) s ∧ s.delay 0 = some policy.baseBackoff := by
  have hreach : Reach (step B f) always (connect policy) _ := reach_of_run retested rfl
  exact exists_delay_of_refused (n := 0) (t := 0) hreach rfl rfl rfl hlt "connection refused"

/-- The reconnections keep to the schedule of a policy just when its base is at most its maximum, or
it makes one attempt only. -/
theorem onSchedule_iff (B : Backend) (f : Framing) (policy : RetryPolicy) :
    (∀ s, Reach (step B f) always (connect policy) s → OnSchedule B f policy s) ↔
      policy.baseBackoff.seconds ≤ policy.maxBackoff.seconds ∨ policy.maxAttempts.toNat ≤ 1 := by
  have hattempts : policy.attempts = max policy.maxAttempts.toNat 1 := rfl
  constructor
  · intro h
    by_contra hnot
    rw [not_or, not_le, not_le] at hnot
    obtain ⟨s, hreach, hdelay⟩ := exists_delay_base B f (show 1 < policy.attempts by omega)
    exact absurd ((h s hreach).delay_le hdelay) (not_le.2 hnot.1)
  · intro h s hreach
    have hpaced := Paced.of_reach hreach
    have hslept {n : ℕ} {d : Duration} (hdelay : s.delay n = some d) :
        policy.schedule (s.dials.count n) = some d.seconds := by
      obtain ⟨j, hcount, hlt, rfl⟩ := hpaced.delay_eq hdelay
      rw [hcount]
      apply RetryPolicy.schedule_backoff
      exact h.resolve_right (by omega)
    refine ⟨fun n => ?_, fun {a s' n} hstep hdialled => ?_, fun {n d} hdelay => ?_⟩
    · have hle := hpaced.counted.count_le n
      rw [hpaced.policy_eq] at hle
      omega
    · rcases hpaced.delay_of_dial hstep hdialled with ⟨hcount, hnone⟩ | ⟨d, hdelay⟩
      · rw [hcount, hnone]
        rfl
      · rw [hdelay, hslept hdelay]
        rfl
    · obtain ⟨j, hcount, -, -⟩ := hpaced.delay_eq hdelay
      have hschedule := hslept hdelay
      rw [hcount, RetryPolicy.schedule] at hschedule
      rw [← Option.some.inj hschedule]
      exact min_le_right _ _

/-- A policy whose base, two seconds, is above its maximum, one second. -/
def steep : RetryPolicy where
  maxAttempts := 2
  baseBackoff := .fromMillis 2000
  maxBackoff := .fromMillis 1000

/-- The second dial waits two seconds. -/
theorem not_onSchedule_steep : ¬ ∀ s,
    Reach (step JsonText.backend Newline) always (connect steep) s →
      OnSchedule JsonText.backend Newline steep s := by
  intro h
  obtain ⟨s, hreach, hdelay⟩ :=
    exists_delay_base JsonText.backend Newline (show 1 < steep.attempts by decide)
  have hle := Duration.seconds_le_seconds_iff.1 ((h s hreach).delay_le hdelay)
  exact absurd hle (by decide)

end ReconnectingUds

end Jasonrpc
