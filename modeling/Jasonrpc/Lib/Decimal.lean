import Jasonrpc.Lib.Bytes
import Mathlib.Data.Nat.Notation
import Mathlib.Tactic.Ring

/-!
# Decimal numerals of `w`-bit machine words

The printer `decimal` writes a number without sign or leading zeros, as `itoa` does.  The parser
`parseUsize w` is `str::parse::<usize>` on a target with `w`-bit words: an optional `+`, then at
least one digit, with the value accumulated in checked arithmetic.  `parseUsize_eq_some_iff` says
which texts it reads and as what, `parseUsize_fromUtf8_eq_some_iff` which bytes are read as a given
number; `parseUsize_decimal` that it reads back what `decimal` writes.
-/

namespace ByteString

/-- The numeral of `n`, as characters. -/
abbrev digits (n : ℕ) : List Char := Nat.toDigits 10 n

/-- The numeral of `n`, as bytes. -/
def decimal (n : ℕ) : Bytes := (digits n).map fun c => UInt8.ofNat c.toNat

/-- `usize::checked_add` on `w`-bit words. -/
def checkedAdd (w a b : ℕ) : Option ℕ := if a + b < 2 ^ w then some (a + b) else none

/-- `usize::checked_mul` on `w`-bit words. -/
def checkedMul (w a b : ℕ) : Option ℕ := if a * b < 2 ^ w then some (a * b) else none

theorem checkedAdd_eq_some_iff {w a b c : ℕ} :
    checkedAdd w a b = some c ↔ a + b < 2 ^ w ∧ c = a + b := by
  unfold checkedAdd
  split_ifs with h <;> simp [h, eq_comm]

theorem checkedAdd_of_lt {w a b : ℕ} (h : a + b < 2 ^ w) : checkedAdd w a b = some (a + b) :=
  if_pos h

/-- One more digit of an unsigned numeral, in checked arithmetic. -/
def pushDigit (w acc : ℕ) (c : Char) : Option ℕ :=
  (checkedMul w acc 10).bind fun m =>
    if c.isDigit then checkedAdd w m (c.toNat - '0'.toNat) else none

/-- A numeral without its leading `+`. -/
def stripPlus : List Char → List Char
  | '+' :: ds => ds
  | ds => ds

/-- `str::parse::<usize>` on a target with `w`-bit words. -/
def parseUsize (w : ℕ) (s : List Char) : Option ℕ :=
  if stripPlus s = [] then none else (stripPlus s).foldlM (pushDigit w) 0

theorem pushDigit_eq_some_iff {w acc n : ℕ} {c : Char} :
    pushDigit w acc c = some n ↔
      c.isDigit ∧ 10 * acc + (c.toNat - '0'.toNat) < 2 ^ w ∧
        n = 10 * acc + (c.toNat - '0'.toNat) := by
  unfold pushDigit checkedMul
  by_cases h1 : acc * 10 < 2 ^ w
  · rw [if_pos h1, Option.bind_some]
    split_ifs with h2
    · rw [checkedAdd_eq_some_iff, Nat.mul_comm acc 10]
      simp [h2]
    · simp [h2]
  · rw [if_neg h1, Option.bind_none]
    simp only [reduceCtorEq, false_iff]
    rintro ⟨-, h3, -⟩
    omega

theorem le_ofDigitChars (ds : List Char) (acc : ℕ) : acc ≤ Nat.ofDigitChars 10 ds acc := by
  induction ds generalizing acc with
  | nil => simp
  | cons c ds ih =>
    rw [Nat.ofDigitChars_cons]
    exact le_trans (by omega) (ih _)

/-- The checked fold succeeds exactly on digits whose value fits the word. -/
theorem foldlM_pushDigit_eq_some_iff {w : ℕ} {ds : List Char} {acc n : ℕ} (hacc : acc < 2 ^ w) :
    ds.foldlM (pushDigit w) acc = some n ↔
      (∀ c ∈ ds, c.isDigit) ∧ Nat.ofDigitChars 10 ds acc < 2 ^ w ∧
        n = Nat.ofDigitChars 10 ds acc := by
  induction ds generalizing acc with
  | nil =>
    simp only [List.foldlM_nil, Nat.ofDigitChars_nil, hacc, List.not_mem_nil, true_and,
      false_implies, implies_true]
    exact Option.some_inj.trans eq_comm
  | cons c ds ih =>
    rw [List.foldlM_cons, Option.bind_eq_bind, Option.bind_eq_some_iff]
    simp only [pushDigit_eq_some_iff, List.forall_mem_cons, Nat.ofDigitChars_cons]
    constructor
    · rintro ⟨m, ⟨hc, hm, rfl⟩, h⟩
      obtain ⟨hds, hlt, rfl⟩ := (ih hm).1 h
      exact ⟨⟨hc, hds⟩, hlt, rfl⟩
    · rintro ⟨⟨hc, hds⟩, hlt, rfl⟩
      have hm := lt_of_le_of_lt (le_ofDigitChars ds (10 * acc + (c.toNat - '0'.toNat))) hlt
      exact ⟨_, ⟨hc, hm, rfl⟩, (ih hm).2 ⟨hds, hlt, rfl⟩⟩

theorem stripPlus_of_isDigit {ds : List Char} (h : ∀ c ∈ ds, c.isDigit) : stripPlus ds = ds := by
  unfold stripPlus
  split
  · exact absurd (h '+' List.mem_cons_self) (by decide)
  · rfl

theorem eq_or_eq_of_stripPlus (s : List Char) : s = stripPlus s ∨ s = '+' :: stripPlus s := by
  unfold stripPlus
  split
  · exact Or.inr rfl
  · exact Or.inl rfl

/-- What `parseUsize` reads: an optional `+` and at least one digit, of a value below `2 ^ w`. -/
theorem parseUsize_eq_some_iff {w : ℕ} {s : List Char} {n : ℕ} :
    parseUsize w s = some n ↔
      ∃ ds, (s = ds ∨ s = '+' :: ds) ∧ ds ≠ [] ∧ (∀ c ∈ ds, c.isDigit) ∧
        Nat.ofDigitChars 10 ds 0 < 2 ^ w ∧ n = Nat.ofDigitChars 10 ds 0 := by
  have key : parseUsize w s = some n ↔ stripPlus s ≠ [] ∧ (∀ c ∈ stripPlus s, c.isDigit) ∧
      Nat.ofDigitChars 10 (stripPlus s) 0 < 2 ^ w ∧ n = Nat.ofDigitChars 10 (stripPlus s) 0 := by
    unfold parseUsize
    split_ifs with h
    · simp [h]
    · rw [foldlM_pushDigit_eq_some_iff (Nat.two_pow_pos w)]
      simp [h]
  rw [key]
  constructor
  · exact fun h => ⟨stripPlus s, eq_or_eq_of_stripPlus s, h⟩
  · rintro ⟨ds, rfl | rfl, h⟩
    · rwa [stripPlus_of_isDigit h.2.1]
    · exact h

/-- The text of a number `n` of any size: an optional `+` and at least one digit. -/
def IsNumeral (n : ℕ) (s : List Char) : Prop :=
  ∃ ds, (s = ds ∨ s = '+' :: ds) ∧ ds ≠ [] ∧ (∀ c ∈ ds, c.isDigit) ∧ Nat.ofDigitChars 10 ds 0 = n

/-- A numeral is read when its number fits the word, and not otherwise. -/
theorem parseUsize_of_isNumeral {w n : ℕ} {s : List Char} (h : IsNumeral n s) :
    parseUsize w s = if n < 2 ^ w then some n else none := by
  obtain ⟨ds, hs, hne, hdigits, rfl⟩ := h
  have hplus : stripPlus s = ds := by
    rcases hs with rfl | rfl
    · exact stripPlus_of_isDigit hdigits
    · rfl
  split_ifs with hlt
  · exact parseUsize_eq_some_iff.2 ⟨ds, hs, hne, hdigits, hlt, rfl⟩
  · rw [parseUsize, hplus, if_neg hne, Option.eq_none_iff_forall_ne_some]
    intro n hn
    exact hlt ((foldlM_pushDigit_eq_some_iff (Nat.two_pow_pos w)).1 hn).2.1

theorem isDigit_of_mem_digits {n : ℕ} {c : Char} (h : c ∈ digits n) : c.isDigit :=
  Nat.isDigit_of_mem_toDigits (by decide) (by decide) h

theorem toNat_of_isDigit {c : Char} (h : c.isDigit) : 48 ≤ c.toNat ∧ c.toNat ≤ 57 := by
  simp only [Char.isDigit, Bool.and_eq_true, decide_eq_true_eq, ge_iff_le, UInt32.le_iff_toNat_le]
    at h
  exact h

theorem parseUsize_digits {w n : ℕ} (h : n < 2 ^ w) : parseUsize w (digits n) = some n :=
  parseUsize_eq_some_iff.2 ⟨digits n, Or.inl rfl, Nat.toDigits_ne_nil,
    fun _ => isDigit_of_mem_digits, by simpa using h, by simp⟩

theorem toUtf8_digits (n : ℕ) : toUtf8 (digits n) = decimal n :=
  toUtf8_of_lt fun c hc => by
    have := toNat_of_isDigit (isDigit_of_mem_digits hc)
    omega

/-! ## Which texts are read as a number -/

theorem digitChar_sub_of_isDigit {c : Char} (h : c.isDigit) :
    (c.toNat - '0'.toNat).digitChar = c := by
  have hbounds := toNat_of_isDigit h
  have hdigit : ∀ k < 10, (48 + k - '0'.toNat).digitChar = Char.ofNat (48 + k) := by decide
  have hc := hdigit (c.toNat - 48) (by omega)
  rwa [show 48 + (c.toNat - 48) = c.toNat by omega, Char.ofNat_toNat] at hc

/-- A digit string is the numeral of its value behind superfluous zeros. -/
theorem exists_eq_replicate_append_digits {ds : List Char} (hne : ds ≠ [])
    (h : ∀ c ∈ ds, c.isDigit) :
    ∃ k, ds = List.replicate k '0' ++ digits (Nat.ofDigitChars 10 ds 0) := by
  induction ds using List.reverseRecOn with
  | nil => exact absurd rfl hne
  | append_singleton ds c ih =>
    have hc : c.isDigit := h c (by simp)
    have hlt : c.toNat - '0'.toNat < 10 := by
      have := toNat_of_isDigit hc
      have hzero : '0'.toNat = 48 := rfl
      omega
    have hlast : digits (c.toNat - '0'.toNat) = [c] := by
      rw [digits, Nat.toDigits_of_lt_base hlt, digitChar_sub_of_isDigit hc]
    rw [Nat.ofDigitChars_append, Nat.ofDigitChars_cons, Nat.ofDigitChars_nil]
    by_cases hds : ds = []
    · subst hds
      refine ⟨0, ?_⟩
      rw [Nat.ofDigitChars_nil, Nat.mul_zero, Nat.zero_add, hlast]
      rfl
    · obtain ⟨k, hk⟩ := ih hds fun x hx => h x (List.mem_append_left _ hx)
      generalize Nat.ofDigitChars 10 ds 0 = v at hk
      rcases Nat.eq_zero_or_pos v with rfl | hpos
      · refine ⟨k + 1, ?_⟩
        rw [hk, Nat.mul_zero, Nat.zero_add, hlast, List.replicate_succ']
        rfl
      · have happend : digits v ++ digits (c.toNat - '0'.toNat) =
            digits (10 * v + (c.toNat - '0'.toNat)) :=
          Nat.toDigits_append_toDigits (by decide) hpos hlt
        refine ⟨k, ?_⟩
        rw [← happend, hlast, hk, List.append_assoc]

/-- What is read as `n`: the numeral of `n` behind an optional `+` and superfluous zeros. -/
theorem parseUsize_eq_some_iff_digits {w : ℕ} {s : List Char} {n : ℕ} :
    parseUsize w s = some n ↔ n < 2 ^ w ∧ ∃ sign k, (sign = [] ∨ sign = ['+']) ∧
      s = sign ++ List.replicate k '0' ++ digits n := by
  rw [parseUsize_eq_some_iff]
  constructor
  · rintro ⟨ds, hs, hne, hdigits, hlt, rfl⟩
    obtain ⟨k, hk⟩ := exists_eq_replicate_append_digits hne hdigits
    refine ⟨hlt, ?_⟩
    rcases hs with rfl | rfl
    · exact ⟨[], k, .inl rfl, hk⟩
    · exact ⟨['+'], k, .inr rfl, congrArg ('+' :: ·) hk⟩
  · rintro ⟨hlt, sign, k, hsign, rfl⟩
    have hvalue : Nat.ofDigitChars 10 (List.replicate k '0' ++ digits n) 0 = n := by
      rw [Nat.ofDigitChars_append, Nat.ofDigitChars_replicate_zero, Nat.mul_zero,
        Nat.ofDigitChars_ten_toDigits]
    refine ⟨List.replicate k '0' ++ digits n, ?_, by simp, ?_, by rwa [hvalue], hvalue.symm⟩
    · rcases hsign with rfl | rfl
      · exact .inl rfl
      · exact .inr rfl
    · intro c hc
      rcases List.mem_append.1 hc with hzero | hdigit
      · rw [List.eq_of_mem_replicate hzero]
        rfl
      · exact isDigit_of_mem_digits hdigit

theorem toUtf8_replicate_zero (k : ℕ) : toUtf8 (List.replicate k '0') = List.replicate k 48 := by
  rw [toUtf8_of_lt, List.map_replicate]
  · rfl
  · intro c hc
    rw [List.eq_of_mem_replicate hc]
    decide

/-- The bytes that are read as `n`. -/
theorem parseUsize_fromUtf8_eq_some_iff {w : ℕ} {b : Bytes} {n : ℕ} :
    (fromUtf8 b).bind (parseUsize w) = some n ↔ n < 2 ^ w ∧ ∃ sign k,
      (sign = [] ∨ sign = ascii "+") ∧ b = sign ++ List.replicate k 48 ++ decimal n := by
  have htext (sign : List Char) (k : ℕ) : toUtf8 (sign ++ List.replicate k '0' ++ digits n) =
      toUtf8 sign ++ List.replicate k 48 ++ decimal n := by
    rw [toUtf8_append, toUtf8_append, toUtf8_replicate_zero, toUtf8_digits]
  constructor
  · intro h
    obtain ⟨s, hs, hparse⟩ := Option.bind_eq_some_iff.1 h
    obtain ⟨hlt, sign, k, hsign, rfl⟩ := parseUsize_eq_some_iff_digits.1 hparse
    refine ⟨hlt, toUtf8 sign, k, ?_, ?_⟩
    · rcases hsign with rfl | rfl
      · exact .inl rfl
      · exact .inr (by decide)
    · rw [fromUtf8_eq_some_iff.1 hs, htext]
  · rintro ⟨hlt, sign, k, hsign, rfl⟩
    rcases hsign with rfl | rfl
    · refine Option.bind_eq_some_iff.2 ⟨[] ++ List.replicate k '0' ++ digits n, ?_, ?_⟩
      · exact fromUtf8_eq_some_iff.2 (htext [] k).symm
      · exact parseUsize_eq_some_iff_digits.2 ⟨hlt, [], k, .inl rfl, rfl⟩
    · refine Option.bind_eq_some_iff.2 ⟨['+'] ++ List.replicate k '0' ++ digits n, ?_, ?_⟩
      · exact fromUtf8_eq_some_iff.2 (htext ['+'] k).symm
      · exact parseUsize_eq_some_iff_digits.2 ⟨hlt, ['+'], k, .inr rfl, rfl⟩

/-! ## Numerals in texts -/

theorem parseUsize_decimal {w n : ℕ} (h : n < 2 ^ w) :
    (fromUtf8 (decimal n)).bind (parseUsize w) = some n := by
  rw [← toUtf8_digits, fromUtf8_toUtf8, Option.bind_some, parseUsize_digits h]

theorem mem_decimal {n : ℕ} {b : UInt8} (h : b ∈ decimal n) : 48 ≤ b.toNat ∧ b.toNat ≤ 57 := by
  obtain ⟨c, hc, rfl⟩ := List.mem_map.1 h
  have := toNat_of_isDigit (isDigit_of_mem_digits hc)
  rw [UInt8.toNat_ofNat']
  omega

theorem notMem_decimal {b : UInt8} (h : b.toNat < 48 ∨ 57 < b.toNat) (n : ℕ) : b ∉ decimal n :=
  fun hb => by
    have := mem_decimal hb
    omega

theorem length_decimal_le {n k : ℕ} (hk : 0 < k) (h : n < 10 ^ k) : (decimal n).length ≤ k := by
  rw [decimal, List.length_map]
  exact (Nat.length_toDigits_le_iff (by decide) hk).2 h

theorem isWhitespace_of_isDigit {c : Char} (h : c.isDigit) : isWhitespace c = false := by
  have := toNat_of_isDigit h
  simp only [isWhitespace, List.contains_eq_mem, Bool.or_eq_false_iff, Bool.and_eq_false_iff,
    decide_eq_false_iff_not, List.mem_cons, List.not_mem_nil, or_false]
  omega

theorem dropWhile_isWhitespace_append {ds : List Char} (hne : ds ≠ []) (h : ∀ c ∈ ds, c.isDigit)
    (t : List Char) : (ds ++ t).dropWhile isWhitespace = ds ++ t := by
  cases ds with
  | nil => exact absurd rfl hne
  | cons c ds =>
    rw [List.cons_append, List.dropWhile_cons_of_neg]
    simp [isWhitespace_of_isDigit (h c List.mem_cons_self)]

/-- Trimming a numeral between white space leaves the numeral. -/
theorem trim_digits {before after : List Char} (hbefore : ∀ c ∈ before, isWhitespace c)
    (hafter : ∀ c ∈ after, isWhitespace c) (n : ℕ) :
    trim (before ++ digits n ++ after) = digits n := by
  have hdigits : ∀ c ∈ digits n, c.isDigit := fun _ => isDigit_of_mem_digits
  have hne : digits n ≠ [] := Nat.toDigits_ne_nil
  have hreverse := dropWhile_isWhitespace_append (List.reverse_ne_nil_iff.2 hne)
    (fun c hc => hdigits c (List.mem_reverse.1 hc)) []
  rw [List.append_nil] at hreverse
  rw [trim, List.append_assoc, List.dropWhile_append_of_pos hbefore,
    dropWhile_isWhitespace_append hne hdigits, List.reverse_append,
    List.dropWhile_append_of_pos fun c hc => hafter c (List.mem_reverse.1 hc), hreverse,
    List.reverse_reverse]

/-! ## Numerals between blanks -/

/-- A space or a tab. -/
def IsBlank (b : UInt8) : Prop := b = 32 ∨ b = 9

/-- Blanks are white space, one byte each. -/
theorem exists_toUtf8_of_isBlank {b : Bytes} (h : ∀ x ∈ b, IsBlank x) :
    ∃ s : List Char, toUtf8 s = b ∧ ∀ c ∈ s, isWhitespace c := by
  induction b with
  | nil => exact ⟨[], rfl, by simp⟩
  | cons x b ih =>
    obtain ⟨s, hs, hwhite⟩ := ih fun y hy => h y (List.mem_cons_of_mem x hy)
    rcases h x List.mem_cons_self with rfl | rfl
    · refine ⟨' ' :: s, congrArg (32 :: ·) hs, ?_⟩
      exact List.forall_mem_cons.2 ⟨by decide, hwhite⟩
    · refine ⟨'\t' :: s, congrArg (9 :: ·) hs, ?_⟩
      exact List.forall_mem_cons.2 ⟨by decide, hwhite⟩

theorem parseUsize_trim_of_isBlank {w n : ℕ} {before after : Bytes} (hn : n < 2 ^ w)
    (hbefore : ∀ x ∈ before, IsBlank x) (hafter : ∀ x ∈ after, IsBlank x) :
    (fromUtf8 (before ++ decimal n ++ after)).bind (fun v => parseUsize w (trim v)) = some n := by
  obtain ⟨s, rfl, hs⟩ := exists_toUtf8_of_isBlank hbefore
  obtain ⟨t, rfl, ht⟩ := exists_toUtf8_of_isBlank hafter
  rw [← toUtf8_digits, ← toUtf8_append, ← toUtf8_append, fromUtf8_toUtf8, Option.bind_some,
    trim_digits hs ht, parseUsize_digits hn]

end ByteString
