import Jasonrpc.Transport.Codec

/-!
# Netstrings that are accepted

The decoder reads every netstring that the encoder writes, and further ones: the length may have a
leading `+` or superfluous zeros.  On inputs that do not begin with such a netstring it accepts
exactly what the encoder writes (`decode_exact_iff`).
-/

namespace Jasonrpc

open ByteString

namespace Netstring

variable {w : ℕ}

/-- A numeral of `n` with a sign or with superfluous zeros. -/
def IsLoose (n : ℕ) (numeral : Bytes) : Prop :=
  numeral ≠ decimal n ∧ ∃ sign k, (sign = [] ∨ sign = ascii "+") ∧
    numeral = sign ++ List.replicate k 48 ++ decimal n

/-- The input begins with a netstring whose length is written loosely. -/
def StartsLoosely (src : Bytes) : Prop :=
  ∃ numeral m post, IsLoose m.length numeral ∧ src = numeral ++ colon :: m ++ comma :: post

/-- What is decoded at the front of `src` are the netstrings that the encoder writes. -/
def Exact (w : ℕ) (src : Bytes) : Prop :=
  ∀ m n, (Netstring w).decode src = .ok (some (m, n)) ↔
    n ≤ src.length ∧ src.take n = (Netstring w).encode m

theorem IsLoose.notMem_colon {n : ℕ} {numeral : Bytes} (h : IsLoose n numeral) :
    colon ∉ numeral := by
  obtain ⟨-, sign, k, hsign, rfl⟩ := h
  have hplus : colon ∉ sign := by
    rcases hsign with rfl | rfl
    · exact List.not_mem_nil
    · decide
  have hzeros : colon ∉ List.replicate k 48 :=
    fun hmem => absurd (List.eq_of_mem_replicate hmem) (by decide)
  have hdecimal : colon ∉ decimal n := notMem_decimal (by decide) n
  simp [hplus, hzeros, hdecimal]

theorem IsLoose.two_le_length {n : ℕ} {numeral : Bytes} (h : IsLoose n numeral) :
    2 ≤ numeral.length := by
  obtain ⟨hne, sign, k, hsign, rfl⟩ := h
  have hdecimal : 0 < (decimal n).length := by
    rw [decimal, List.length_map]
    exact Nat.length_toDigits_pos
  have hfront : sign ++ List.replicate k 48 ≠ [] := by
    intro hnil
    rw [hnil, List.nil_append] at hne
    exact hne rfl
  have hpos := List.length_pos_iff.2 hfront
  rw [List.length_append]
  omega

theorem decode_of_isLoose {numeral m : Bytes} (hloose : IsLoose m.length numeral) (post : Bytes)
    (h : (numeral ++ colon :: m ++ comma :: post).length < 2 ^ w) :
    decode w (numeral ++ colon :: m ++ comma :: post) =
      .ok (some (m, numeral.length + 1 + m.length + 1)) := by
  simp only [List.length_append, List.length_cons] at h
  refine decode_eq_some_iff.2 ⟨numeral, post, rfl, hloose.notMem_colon, ?_, by omega, rfl⟩
  exact parseUsize_fromUtf8_eq_some_iff.2 ⟨by omega, hloose.2⟩

theorem not_exact_of_startsLoosely {src : Bytes} (hsrc : src.length < 2 ^ w)
    (h : StartsLoosely src) : ¬ Exact w src := by
  obtain ⟨numeral, m, post, hloose, rfl⟩ := h
  intro hexact
  obtain ⟨-, htake⟩ := (hexact m _).1 (decode_of_isLoose hloose post hsrc)
  rw [List.append_cons _ comma post, List.take_left' (by simp; omega), encode_eq,
    List.append_assoc, List.append_assoc] at htake
  exact hloose.1 (List.append_cancel_right htake)

/-- Other inputs are decoded as the encoder writes them. -/
theorem exact_of_not_startsLoosely {src : Bytes} (hsrc : src.length < 2 ^ w)
    (h : ¬ StartsLoosely src) : Exact w src := by
  intro m n
  constructor
  · intro hdec
    obtain ⟨pre, post, rfl, -, hparse, -, rfl⟩ := decode_eq_some_iff.1 hdec
    obtain ⟨-, sign, k, hsign, hpre⟩ := parseUsize_fromUtf8_eq_some_iff.1 hparse
    have hdecimal : pre = decimal m.length := by
      by_contra hne
      exact h ⟨pre, m, post, ⟨hne, sign, k, hsign, hpre⟩, rfl⟩
    refine ⟨by simp; omega, ?_⟩
    rw [List.append_cons _ comma post, List.take_left' (by simp; omega), encode_eq, hdecimal]
  · rintro ⟨hle, htake⟩
    have hlen : ((Netstring w).encode m).length = n := by
      rw [← htake, List.length_take_of_le hle]
    have hdec := decode_encode_append (w := w) (p := m) (by omega) (src.drop n)
    rw [hlen, ← htake, List.take_append_drop] at hdec
    exact hdec

/-- Exactly the netstrings that the encoder writes are accepted just when the input does not begin
with one whose length has a sign or superfluous zeros. -/
theorem decode_exact_iff (w : ℕ) (src : Bytes) (hsrc : src.length < 2 ^ w) :
    Exact w src ↔ ¬ StartsLoosely src :=
  ⟨fun hexact h => not_exact_of_startsLoosely hsrc h hexact, exact_of_not_startsLoosely hsrc⟩

/-- The netstring of `abc`, and a byte behind it. -/
theorem decode_exact_abc : Exact 64 (ascii "3:abc,x") := by
  apply (decode_exact_iff 64 (ascii "3:abc,x") (by decide)).2
  rintro ⟨numeral, m, post, hloose, hsrc⟩
  -- the colon would have to stand at the offset 1, behind two bytes or more
  have hcolon : memchr colon (numeral ++ colon :: (m ++ comma :: post)) = some numeral.length :=
    memchr_append_of_notMem hloose.notMem_colon
  rw [← List.cons_append, ← List.append_assoc, ← hsrc] at hcolon
  have hlength : some 1 = some numeral.length := hcolon
  have := hloose.two_le_length
  rw [← Option.some.inj hlength] at this
  omega

/-- A length with superfluous zeros, and one with a sign. -/
theorem not_exact_zeros : ¬ Exact 64 (ascii "003:abc,") ∧ ¬ Exact 64 (ascii "+3:abc,") := by
  constructor
  · intro h
    obtain ⟨-, htake⟩ := (h (ascii "abc") 8).1 (by decide)
    exact absurd htake (by decide)
  · intro h
    obtain ⟨-, htake⟩ := (h (ascii "abc") 7).1 (by decide)
    exact absurd htake (by decide)

end Netstring

end Jasonrpc
