import Mathlib.Data.List.Basic
import Mathlib.Tactic.Ring

/-!
# Programs on machine words

A program on `w`-bit words and buffers goes wrong where a result does not fit a word, and where a
range or an index does not lie in its buffer.  Written with `word`, `slice` and `List.getElem?` in
the monad `Option`, it is `none` just then; the lemmas `bind_word`, `bind_slice`, `bind_getElem?`
discharge one operation each, and leave the program on numbers and lists.
-/

namespace Word

variable {α β : Type}

/-- The result `n` of an operation, unless it wraps a `w`-bit word. -/
def word (w n : ℕ) : Option ℕ := if n < 2 ^ w then some n else none

/-- `&src[i..j]`, unless the range is out of bounds. -/
def slice (src : List α) (i j : ℕ) : Option (List α) :=
  if i ≤ j ∧ j ≤ src.length then some ((src.take j).drop i) else none

theorem word_of_lt {w n : ℕ} (h : n < 2 ^ w) : word w n = some n := if_pos h

theorem slice_of_le {src : List α} {i j : ℕ} (hij : i ≤ j) (hj : j ≤ src.length) :
    slice src i j = some ((src.take j).drop i) := if_pos ⟨hij, hj⟩

theorem bind_word {w n : ℕ} (h : n < 2 ^ w) (f : ℕ → Option β) : (word w n >>= f) = f n := by
  rw [word_of_lt h]
  rfl

theorem bind_slice {src : List α} {i j : ℕ} (hij : i ≤ j) (hj : j ≤ src.length)
    (f : List α → Option β) : (slice src i j >>= f) = f ((src.take j).drop i) := by
  rw [slice_of_le hij hj]
  rfl

theorem bind_slice_length {src : List α} {i : ℕ} (h : i ≤ src.length) (f : List α → Option β) :
    (slice src i src.length >>= f) = f (src.drop i) := by
  rw [bind_slice h (Nat.le_refl _), List.take_length]

theorem bind_slice_zero {src : List α} {j : ℕ} (h : j ≤ src.length) (f : List α → Option β) :
    (slice src 0 j >>= f) = f (src.take j) := by
  rw [bind_slice (Nat.zero_le j) h, List.drop_zero]

theorem bind_getElem? {src : List α} {i : ℕ} (h : i < src.length) (f : α → Option β) :
    (src[i]? >>= f) = f src[i] := by
  rw [List.getElem?_eq_getElem h]
  rfl

end Word
