import Mathlib.Algebra.Order.Field.Basic
import Mathlib.Algebra.Order.Ring.NNRat
import Mathlib.Tactic.NormNum

/-!
# Durations

A span of time as a count of nanoseconds, with the text that Rust's `Debug` gives it.
-/

/-- A `std::time::Duration`. -/
structure Duration where
  nanos : ℕ
deriving DecidableEq, Repr

namespace Duration

/-- A duration of `n` milliseconds. -/
def fromMillis (n : ℕ) : Duration := ⟨n * 1000000⟩

/-- The maximum duration: the seconds are a `u64`. -/
def maximum : Duration := ⟨18446744073709551615 * 1000000000 + 999999999⟩

/-- `checked_mul` of the standard library. -/
def checkedMul (d : Duration) (n : ℕ) : Option Duration :=
  if d.nanos * n ≤ maximum.nanos then some ⟨d.nanos * n⟩ else none

/-- The smaller one of two durations. -/
def min (d e : Duration) : Duration := if d.nanos ≤ e.nanos then d else e

/-- The duration in seconds. -/
def seconds (d : Duration) : ℚ≥0 := d.nanos / 1000000000

theorem ext_nanos {d e : Duration} (h : d.nanos = e.nanos) : d = e := by
  cases d
  cases e
  exact congrArg mk h

theorem nanos_min (d e : Duration) : (d.min e).nanos = Min.min d.nanos e.nanos := by
  unfold min
  split_ifs with h
  · rw [Nat.min_eq_left h]
  · rw [Nat.min_eq_right (Nat.le_of_not_le h)]

theorem nanos_of_checkedMul {d e : Duration} {n : ℕ} (h : d.checkedMul n = some e) :
    e.nanos = d.nanos * n := by
  unfold checkedMul at h
  split_ifs at h
  rw [← Option.some.inj h]

theorem seconds_le_seconds_iff {d e : Duration} : d.seconds ≤ e.seconds ↔ d.nanos ≤ e.nanos := by
  unfold seconds
  rw [div_le_div_iff_of_pos_right (by norm_num), Nat.cast_le]

theorem seconds_mk_min (d e : Duration) (n : ℕ) :
    (mk (Min.min (d.nanos * n) e.nanos)).seconds = Min.min (d.seconds * n) e.seconds := by
  unfold seconds
  rw [Nat.cast_min, ← min_div_div_right (by norm_num), Nat.cast_mul, div_mul_eq_mul_div]

/-- The decimals of `frac`, whose leading one counts `divisor`, without trailing zeros. -/
def fracDigits : (places frac divisor : ℕ) → String
  | 0, _, _ => ""
  | places + 1, frac, divisor =>
    if frac = 0 then ""
    else toString (frac / divisor) ++ fracDigits places (frac % divisor) (divisor / 10)

/-- `fmt_decimal` of the standard library: integral part, decimals, unit. -/
def fmtDecimal (integer frac divisor : ℕ) (unit : String) : String :=
  toString integer ++ (if frac = 0 then "" else "." ++ fracDigits 9 frac divisor) ++ unit

/-- The `Debug` text of a duration. -/
def debug (d : Duration) : String :=
  if 1000000000 ≤ d.nanos then
    fmtDecimal (d.nanos / 1000000000) (d.nanos % 1000000000) 100000000 "s"
  else if 1000000 ≤ d.nanos then
    fmtDecimal (d.nanos / 1000000) (d.nanos % 1000000) 100000 "ms"
  else if 1000 ≤ d.nanos then
    fmtDecimal (d.nanos / 1000) (d.nanos % 1000) 100 "µs"
  else fmtDecimal d.nanos 0 1 "ns"

example : (fromMillis 10).debug = "10ms" := by decide

example : (Duration.mk 1002500000).debug = "1.0025s" := by decide

end Duration
