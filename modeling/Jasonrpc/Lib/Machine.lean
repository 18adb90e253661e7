import Mathlib.Data.Nat.Notation

/-!
# Runs of partial transition systems

A system is a partial step function `step : σ → α → Option σ`, which is `none` where the action
is not enabled.  `Reach step ok s₀ s` says that `s` is reached from `s₀` by steps that all meet the
condition `ok` on the state before the step and the action.  The rules are the invariant rule
(`Reach.invariant`), transitivity, weakening of the condition, the composition of runs (`run_append`),
and the invariant rule for runs with their histories (`run_invariant`).
-/

namespace Machine

variable {σ α : Type*} {step : σ → α → Option σ}

/-- The states reached from `s₀` by steps that meet the condition `ok`. -/
inductive Reach (step : σ → α → Option σ) (ok : σ → α → Prop) (s₀ : σ) : σ → Prop where
  | refl : Reach step ok s₀ s₀
  | tail {s s' : σ} {a : α} (reach : Reach step ok s₀ s) (allowed : ok s a)
      (stepped : step s a = some s') : Reach step ok s₀ s'

/-- The condition every step meets. -/
abbrev always : σ → α → Prop := fun _ _ => True

namespace Reach

variable {ok ok' : σ → α → Prop} {s₀ s₁ s₂ s : σ} {a : α}

theorem single (allowed : ok s₀ a) (stepped : step s₀ a = some s) : Reach step ok s₀ s :=
  refl.tail allowed stepped

theorem trans (h₁ : Reach step ok s₀ s₁) (h₂ : Reach step ok s₁ s₂) : Reach step ok s₀ s₂ := by
  induction h₂ with
  | refl => exact h₁
  | tail _ allowed stepped ih => exact ih.tail allowed stepped

theorem mono (hok : ∀ s a, ok s a → ok' s a) (h : Reach step ok s₀ s) : Reach step ok' s₀ s := by
  induction h with
  | refl => exact refl
  | tail _ allowed stepped ih => exact ih.tail (hok _ _ allowed) stepped

theorem invariant {I : σ → Prop} (init : I s₀)
    (keep : ∀ s a s', I s → ok s a → step s a = some s' → I s') (h : Reach step ok s₀ s) :
    I s := by
  induction h with
  | refl => exact init
  | tail _ allowed stepped ih => exact keep _ _ _ ih allowed stepped

end Reach

/-- Run a list of actions, as long as they meet the condition `ok`. -/
def run (step : σ → α → Option σ) (ok : σ → α → Prop) [∀ s a, Decidable (ok s a)] :
    σ → List α → Option σ
  | s, [] => some s
  | s, a :: as => if ok s a then (step s a).bind fun s' => run step ok s' as else none

theorem run_cons {ok : σ → α → Prop} [∀ s a, Decidable (ok s a)] {as : List α} {s s' : σ} {a : α}
    (allowed : ok s a) (stepped : step s a = some s') :
    run step ok s (a :: as) = run step ok s' as := by
  rw [run, if_pos allowed, stepped]
  rfl

/-- A run goes on where its first part has ended. -/
theorem run_append {ok : σ → α → Prop} [∀ s a, Decidable (ok s a)] {as bs : List α} {s s' : σ}
    (h : run step ok s as = some s') : run step ok s (as ++ bs) = run step ok s' bs := by
  induction as generalizing s with
  | nil =>
    obtain rfl := Option.some.inj h
    rfl
  | cons a as ih =>
    rw [run, Option.ite_none_right_eq_some] at h
    obtain ⟨hok, h⟩ := h
    obtain ⟨s₁, hstep, hrun⟩ := Option.bind_eq_some_iff.1 h
    rw [List.cons_append, run_cons hok hstep]
    exact ih hrun

theorem reach_of_run {ok : σ → α → Prop} [∀ s a, Decidable (ok s a)] (as : List α) {s s' : σ}
    (h : run step ok s as = some s') : Reach step ok s s' := by
  induction as generalizing s with
  | nil =>
    obtain rfl := Option.some.inj h
    exact .refl
  | cons a as ih =>
    rw [run, Option.ite_none_right_eq_some] at h
    obtain ⟨hok, h⟩ := h
    obtain ⟨s₁, hs, hr⟩ := Option.bind_eq_some_iff.1 h
    exact (Reach.single hok hs).trans (ih hr)

/-- Two systems run alike if a function takes the states of one to those of the other, and the steps of
one to the steps of the other. -/
theorem run_map {τ : Type*} {step' : τ → α → Option τ} {view : σ → τ} {I : σ → Prop}
    (keep : ∀ s a s', I s → step s a = some s' → I s')
    (simulates : ∀ s a, I s → (step s a).map view = step' (view s) a) {s₀ : σ} (init : I s₀)
    (as : List α) : (run step always s₀ as).map view = run step' always (view s₀) as := by
  induction as generalizing s₀ with
  | nil => rfl
  | cons a as ih =>
    rw [run, run, if_pos trivial, if_pos trivial, ← simulates s₀ a init]
    cases hstep : step s₀ a with
    | none => rfl
    | some s₁ => exact ih (keep _ _ _ init hstep)

/-- What holds of the empty history, and is kept when an allowed step is appended to it, holds of the
history of every run. -/
theorem run_invariant {ok : σ → α → Prop} [∀ s a, Decidable (ok s a)] {I : List α → σ → Prop}
    {s₀ s : σ} {as : List α} (init : I [] s₀)
    (keep : ∀ as s a s', I as s → ok s a → step s a = some s' → I (as ++ [a]) s')
    (h : run step ok s₀ as = some s) : I as s := by
  have key (as before : List α) (s₀ : σ) (hbefore : I before s₀)
      (h : run step ok s₀ as = some s) : I (before ++ as) s := by
    induction as generalizing before s₀ with
    | nil =>
      obtain rfl := Option.some.inj h
      rw [List.append_nil]
      exact hbefore
    | cons a as ih =>
      rw [run, Option.ite_none_right_eq_some] at h
      obtain ⟨hok, h⟩ := h
      obtain ⟨s₁, hstep, hrun⟩ := Option.bind_eq_some_iff.1 h
      have hnext := ih (before ++ [a]) s₁ (keep _ _ _ _ hbefore hok hstep) hrun
      rwa [List.append_assoc] at hnext
  exact key as [] s₀ init h

end Machine
