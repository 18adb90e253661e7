import Mathlib.Logic.Function.Basic

/-!
# Tables

A table is a function that has an entry, or none, under every key.
-/

namespace Table

variable {κ β : Type*} [DecidableEq κ] {table : κ → Option β} {k k' : κ} {v w : β}

theorem of_update (h : Function.update table k (some v) k' = some w) :
    (k' = k ∧ w = v) ∨ (k' ≠ k ∧ table k' = some w) := by
  by_cases heq : k' = k
  · rw [heq, Function.update_self] at h
    exact .inl ⟨heq, (Option.some.inj h).symm⟩
  · rw [Function.update_of_ne heq] at h
    exact .inr ⟨heq, h⟩

theorem of_remove (h : Function.update table k none k' = some w) : k' ≠ k ∧ table k' = some w := by
  by_cases heq : k' = k
  · rw [heq, Function.update_self] at h
    cases h
  · rw [Function.update_of_ne heq] at h
    exact ⟨heq, h⟩

theorem of_update_none (h : Function.update table k (some v) k' = none) :
    k' ≠ k ∧ table k' = none := by
  by_cases heq : k' = k
  · rw [heq, Function.update_self] at h
    cases h
  · rw [Function.update_of_ne heq] at h
    exact ⟨heq, h⟩

end Table
