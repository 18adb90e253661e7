import Jasonrpc.Json.Backend
import Jasonrpc.Lib.Decimal
import Mathlib.Data.List.DropRight
import Mathlib.Data.List.TakeWhile

/-!
# A reference JSON backend

A backend whose raw values are the JSON texts themselves.  A text is taken apart one level at a
time: brackets and strings are followed byte by byte, and the separators met at the top level cut
the text into its parts.  Surrogate escapes are the one thing it does not read.  `lawful` shows that
it has every property the crate relies on.
-/

namespace Jasonrpc

open ByteString

namespace JsonText

/-! ## The top level of a text -/

/-- Whether a byte is read inside a string, and behind a backslash there. -/
inductive Mode where
  | plain
  | string
  | escaped
deriving DecidableEq

/-- Where a scan stands: the number of open brackets, and the mode. -/
structure Place where
  depth : ℕ
  mode : Mode
deriving DecidableEq

/-- Outside of brackets and strings. -/
abbrev top : Place := ⟨0, .plain⟩

/-- The place behind one more byte. -/
def Place.next (p : Place) (b : UInt8) : Place :=
  match p.mode with
  | .plain =>
    if b = 34 then ⟨p.depth, .string⟩
    else if b = 91 ∨ b = 123 then ⟨p.depth + 1, .plain⟩
    else if b = 93 ∨ b = 125 then ⟨p.depth - 1, .plain⟩
    else p
  | .string => if b = 34 then ⟨p.depth, .plain⟩ else if b = 92 then ⟨p.depth, .escaped⟩ else p
  | .escaped => ⟨p.depth, .string⟩

/-- The bytes that do not belong to a value at the top level: `,`, `:`, `]` and `}`. -/
def isStop (b : UInt8) : Bool := b == 44 || b == 58 || b == 93 || b == 125

/-- Follow a text that meets no stop at the top level. -/
def walk : Place → Bytes → Option Place
  | p, [] => some p
  | p, b :: bs => if p = top ∧ isStop b then none else walk (p.next b) bs

/-- Cut a text at the separators of the top level. -/
def splitTop (sep : UInt8) : Place → Bytes → List Bytes
  | _, [] => [[]]
  | p, b :: bs =>
    if p = top ∧ b = sep then [] :: splitTop sep p bs
    else (splitTop sep (p.next b) bs).modifyHead (b :: ·)

theorem walk_append (p : Place) (a t : Bytes) : walk p (a ++ t) = (walk p a).bind (walk · t) := by
  induction a generalizing p with
  | nil => rfl
  | cons b a ih =>
    rw [List.cons_append, walk, walk]
    split_ifs
    · rfl
    · exact ih _

theorem next_deeper {p : Place} {b : UInt8} (k : ℕ) (h : ¬ (p = top ∧ isStop b)) :
    (⟨p.depth + k, p.mode⟩ : Place).next b = ⟨(p.next b).depth + k, (p.next b).mode⟩ := by
  obtain ⟨d, m⟩ := p
  cases m with
  | plain =>
    simp only [Place.next]
    split_ifs with h1 h2 h3
    · rfl
    · exact congrArg (Place.mk · _) (by dsimp only; omega)
    · have hd : d ≠ 0 := fun hd => h ⟨by rw [hd], by rcases h3 with rfl | rfl <;> rfl⟩
      exact congrArg (Place.mk · _) (by dsimp only; omega)
    · rfl
  | string =>
    simp only [Place.next]
    split_ifs <;> rfl
  | escaped => rfl

/-- A text that is followed from some depth is followed from any greater depth. -/
theorem walk_deeper {p q : Place} {a : Bytes} (k : ℕ) (h : walk p a = some q) :
    walk ⟨p.depth + k, p.mode⟩ a = some ⟨q.depth + k, q.mode⟩ := by
  induction a generalizing p with
  | nil =>
    obtain rfl := Option.some.inj h
    rfl
  | cons b a ih =>
    rw [walk] at h ⊢
    split_ifs at h with hstop
    have hstop' : ¬ ((⟨p.depth + k, p.mode⟩ : Place) = top ∧ isStop b) := by
      rintro ⟨htop, hb⟩
      refine hstop ⟨?_, hb⟩
      obtain ⟨d, m⟩ := p
      simp only [top, Place.mk.injEq] at htop ⊢
      exact ⟨by omega, htop.2⟩
    rw [if_neg hstop', next_deeper k hstop]
    exact ih h

theorem splitTop_append {sep : UInt8} (hsep : isStop sep) {p q : Place} {a : Bytes}
    (h : walk p a = some q) (t : Bytes) :
    splitTop sep p (a ++ t) = (splitTop sep q t).modifyHead (a ++ ·) := by
  induction a generalizing p with
  | nil =>
    obtain rfl := Option.some.inj h
    rw [List.nil_append]
    cases splitTop sep p t <;> rfl
  | cons b a ih =>
    rw [walk] at h
    split_ifs at h with hstop
    have hcut : ¬ (p = top ∧ b = sep) := fun hb => hstop ⟨hb.1, hb.2 ▸ hsep⟩
    rw [List.cons_append, splitTop, if_neg hcut, ih h, List.modifyHead_modifyHead]
    rfl

/-- A text that returns to the top level without a stop, as every value does. -/
def Solid (a : Bytes) : Prop := walk top a = some top

instance (a : Bytes) : Decidable (Solid a) := inferInstanceAs (Decidable (_ = _))

theorem splitTop_solid {sep : UInt8} (hsep : isStop sep) {a : Bytes} (h : Solid a) (t : Bytes) :
    splitTop sep top (a ++ sep :: t) = a :: splitTop sep top t := by
  rw [splitTop_append hsep h, splitTop, if_pos ⟨rfl, rfl⟩, List.modifyHead_cons, List.append_nil]

theorem splitTop_solid_nil {sep : UInt8} (hsep : isStop sep) {a : Bytes} (h : Solid a) :
    splitTop sep top a = [a] := by
  have := splitTop_append hsep h []
  rwa [List.append_nil, splitTop, List.modifyHead_cons, List.append_nil] at this

theorem length_of_mem_splitTop {sep : UInt8} {p : Place} {a e : Bytes}
    (h : e ∈ splitTop sep p a) : e.length ≤ a.length := by
  induction a generalizing p e with
  | nil =>
    obtain rfl : e = [] := by simpa [splitTop] using h
    exact le_rfl
  | cons b a ih =>
    rw [splitTop] at h
    split_ifs at h with hcut
    · rcases List.mem_cons.1 h with rfl | h
      · exact Nat.zero_le _
      · exact (ih h).trans (Nat.le_succ _)
    · cases hs : splitTop sep (p.next b) a with
      | nil => simp [hs] at h
      | cons x xs =>
        rw [hs, List.modifyHead_cons] at h
        rcases List.mem_cons.1 h with rfl | h
        · exact Nat.succ_le_succ (ih (hs ▸ List.mem_cons_self))
        · exact (ih (hs ▸ List.mem_cons_of_mem _ h)).trans (Nat.le_succ _)

/-! ## White space -/

/-- JSON white space: space, tab, line feed, carriage return. -/
def isSpace (b : UInt8) : Bool := b == 32 || b == 9 || b == 10 || b == 13

/-- A text without the white space around it. -/
def trimSpace (b : Bytes) : Bytes := ((b.dropWhile isSpace).reverse.dropWhile isSpace).reverse

theorem trimSpace_eq {x : UInt8} {b : Bytes} (hx : isSpace x = false)
    (hlast : ∀ y, (x :: b).getLast? = some y → isSpace y = false) : trimSpace (x :: b) = x :: b := by
  have hdrop : (x :: b).dropWhile isSpace = x :: b := by
    rw [List.dropWhile_cons_of_neg (by simp [hx])]
  have hrev : (x :: b).reverse.dropWhile isSpace = (x :: b).reverse := by
    cases hr : (x :: b).reverse with
    | nil => rfl
    | cons y ys =>
      have hy := hlast y (by rw [List.getLast?_eq_head?_reverse, hr]; rfl)
      rw [List.dropWhile_cons_of_neg (by simp [hy])]
  rw [trimSpace, hdrop, hrev, List.reverse_reverse]

theorem length_trimSpace_le (b : Bytes) : (trimSpace b).length ≤ b.length := by
  rw [trimSpace, List.length_reverse]
  have h1 := (List.dropWhile_sublist isSpace (l := (b.dropWhile isSpace).reverse)).length_le
  have h2 := (List.dropWhile_sublist isSpace (l := b)).length_le
  rw [List.length_reverse] at h1
  exact h1.trans h2

theorem head_of_trimSpace_eq {x : UInt8} {b : Bytes} (h : trimSpace (x :: b) = x :: b) :
    isSpace x = false := by
  by_contra hx
  rw [Bool.not_eq_false] at hx
  have hlen := congrArg List.length h
  rw [trimSpace, List.dropWhile_cons_of_pos hx] at hlen
  have := length_trimSpace_le b
  rw [trimSpace] at this
  rw [List.length_cons] at hlen
  omega

theorem last_of_trimSpace_eq {y : UInt8} {b : Bytes} (h : trimSpace b = b)
    (hy : b.getLast? = some y) : isSpace y = false := by
  have hnot := List.head?_dropWhile_not isSpace (b.dropWhile isSpace).reverse
  rw [trimSpace] at h
  rw [← h, List.getLast?_reverse] at hy
  rw [hy] at hnot
  exact hnot

theorem trimSpace_ne_nil {x : UInt8} {b : Bytes} (hx : x ∈ b) (hspace : isSpace x = false) :
    trimSpace b ≠ [] := by
  intro h
  have hall := List.dropWhile_eq_nil_iff.1 (List.reverse_eq_nil_iff.1 h)
  have hdrop : b.dropWhile isSpace = [] := by
    rw [← List.dropWhile_idempotent isSpace b]
    exact List.dropWhile_eq_nil_iff.2 fun y hy => hall y (List.mem_reverse.2 hy)
  have := List.dropWhile_eq_nil_iff.1 hdrop x hx
  rw [hspace] at this
  cases this

/-! ## Strings -/

/-- A lower-case hexadecimal digit. -/
def hexDigit (n : ℕ) : UInt8 := UInt8.ofNat (if n < 10 then 48 + n else 87 + n)

/-- The value of a hexadecimal digit of either case. -/
def hexValue (b : UInt8) : Option ℕ :=
  if 48 ≤ b ∧ b ≤ 57 then some (b.toNat - 48)
  else if 97 ≤ b ∧ b ≤ 102 then some (b.toNat - 87)
  else if 65 ≤ b ∧ b ≤ 70 then some (b.toNat - 55)
  else none

/-- A byte of a string as the writer puts it. -/
def escapeByte (b : UInt8) : Bytes :=
  if b = 34 then [92, 34]
  else if b = 92 then [92, 92]
  else if b = 8 then [92, 98]
  else if b = 9 then [92, 116]
  else if b = 10 then [92, 110]
  else if b = 12 then [92, 102]
  else if b = 13 then [92, 114]
  else if b < 32 then [92, 117, 48, 48, hexDigit (b.toNat / 16), hexDigit (b.toNat % 16)]
  else [b]

/-- The escapes of one letter. -/
def simpleEscape (c : UInt8) : Option UInt8 :=
  [(34, 34), (92, 92), (47, 47), (98, 8), (102, 12), (110, 10), (114, 13), (116, 9)].lookup c

/-- The character of a `\u` escape that is no surrogate. -/
def unicodeEscape (a b c d : UInt8) : Option Bytes := do
  let n := ((← hexValue a) * 16 + (← hexValue b)) * 256 + (← hexValue c) * 16 + (← hexValue d)
  if 0xD800 ≤ n ∧ n ≤ 0xDFFF then none else some (toUtf8 [Char.ofNat n])

/-- The bytes between the quotes, with the escapes undone. -/
def unescape : Bytes → Option Bytes
  | [] => some []
  | 92 :: 117 :: a :: b :: c :: d :: t =>
    (unicodeEscape a b c d).bind fun u => (unescape t).map (u ++ ·)
  | 92 :: c :: t => (simpleEscape c).bind fun x => (unescape t).map (x :: ·)
  | b :: t => if b < 32 ∨ b = 34 ∨ b = 92 then none else (unescape t).map (b :: ·)

/-- How the writer puts a byte: as a letter behind a backslash, as a `\u` escape, or as it is. -/
inductive Escaped (b : UInt8) : Bytes → Prop where
  | letter (c : UInt8) (hc : simpleEscape c = some b) : Escaped b [92, c]
  | unicode (hb : b.toNat < 32) :
    Escaped b [92, 117, 48, 48, hexDigit (b.toNat / 16), hexDigit (b.toNat % 16)]
  | plain (h34 : b ≠ 34) (h92 : b ≠ 92) (h32 : ¬ b < 32) : Escaped b [b]

theorem escaped_escapeByte (b : UInt8) : Escaped b (escapeByte b) := by
  by_cases hletter : b ∈ [34, 92, 8, 9, 10, 12, 13]
  · simp only [List.mem_cons, List.not_mem_nil, or_false] at hletter
    rcases hletter with rfl | rfl | rfl | rfl | rfl | rfl | rfl
    · exact .letter 34 rfl
    · exact .letter 92 rfl
    · exact .letter 98 rfl
    · exact .letter 116 rfl
    · exact .letter 110 rfl
    · exact .letter 102 rfl
    · exact .letter 114 rfl
  · simp only [List.mem_cons, List.not_mem_nil, or_false, not_or] at hletter
    obtain ⟨h34, h92, h8, h9, h10, h12, h13⟩ := hletter
    rw [escapeByte, if_neg h34, if_neg h92, if_neg h8, if_neg h9, if_neg h10, if_neg h12, if_neg h13]
    by_cases h32 : b < 32
    · rw [if_pos h32]
      exact .unicode (UInt8.lt_iff_toNat_lt.1 h32)
    · rw [if_neg h32]
      exact .plain h34 h92 h32

theorem unescape_escapeByte (b : UInt8) (t : Bytes) :
    unescape (escapeByte b ++ t) = (unescape t).map (b :: ·) := by
  have hcontrol : ∀ n < 32, unicodeEscape 48 48 (hexDigit (n / 16)) (hexDigit (n % 16)) =
      some [UInt8.ofNat n] := by decide
  have hescaped := escaped_escapeByte b
  generalize escapeByte b = a at hescaped ⊢
  cases hescaped with
  | letter c hc =>
    have hu : c ≠ 117 := by
      rintro rfl
      cases hc
    simp only [List.cons_append, List.nil_append]
    rw [unescape, hc]
    · rfl
    · exact fun _ _ _ _ _ heq => absurd heq hu
  | unicode hb =>
    simp only [List.cons_append, List.nil_append, unescape]
    rw [hcontrol b.toNat hb, Option.bind_some, UInt8.ofNat_toNat]
    rfl
  | plain h34 h92 h32 =>
    rw [List.singleton_append, unescape, if_neg (by simp [h34, h92, h32])]
    · exact fun _ _ _ _ _ hb => absurd hb h92
    · exact fun _ _ hb => absurd hb h92

/-- The text of a string. -/
def quote (s : String) : Bytes := 34 :: (toUtf8 s.toList).flatMap escapeByte ++ [34]

/-- What stands between the bytes `opening` and `closing`. -/
def enclosed (opening closing : UInt8) : Bytes → Option Bytes
  | [] => none
  | b :: rest => if b = opening ∧ rest.getLast? = some closing then some rest.dropLast else none

/-- The string of a text in quotes. -/
def unquote (b : Bytes) : Option String :=
  (((enclosed 34 34 b).bind unescape).bind fromUtf8).map String.ofList

theorem enclosed_append (opening closing : UInt8) (mid : Bytes) :
    enclosed opening closing (opening :: mid ++ [closing]) = some mid := by
  simp [enclosed]

theorem unescape_escape (b : Bytes) : unescape (b.flatMap escapeByte) = some b := by
  induction b with
  | nil => rfl
  | cons x b ih => rw [List.flatMap_cons, unescape_escapeByte, ih, Option.map_some]

theorem unquote_quote (s : String) : unquote (quote s) = some s := by
  rw [unquote, quote, enclosed_append, Option.bind_some, unescape_escape, Option.bind_some,
    fromUtf8_toUtf8, Option.map_some, String.ofList_toList]

/-! ## Numbers and literals -/

/-- The byte is a decimal digit. -/
def isDigit (b : UInt8) : Bool := 48 ≤ b && b ≤ 57

/-- A digit string without leading zeros, as a 64-bit number. -/
def natural (ds : Bytes) : Option ℕ :=
  ((fromUtf8 ds).bind (parseUsize 64)).filter fun n => decimal n == ds

theorem natural_decimal {n : ℕ} (h : n < 2 ^ 64) : natural (decimal n) = some n := by
  rw [natural, parseUsize_decimal h, Option.filter_some, if_pos (by simp)]

theorem natural_eq_some_iff {ds : Bytes} {n : ℕ} :
    natural ds = some n ↔ n < 2 ^ 64 ∧ ds = decimal n := by
  constructor
  · intro h
    obtain ⟨hparse, heq⟩ := Option.filter_eq_some_iff.1 h
    exact ⟨(parseUsize_fromUtf8_eq_some_iff.1 hparse).1, (eq_of_beq heq).symm⟩
  · rintro ⟨hlt, rfl⟩
    exact natural_decimal hlt

/-- The exponent of a number, behind its letter. -/
def isExponent : Bytes → Bool
  | 43 :: ds => !ds.isEmpty && ds.all isDigit
  | 45 :: ds => !ds.isEmpty && ds.all isDigit
  | ds => !ds.isEmpty && ds.all isDigit

/-- What may follow the digits of a number. -/
def isExponentPart : Bytes → Bool
  | [] => true
  | b :: e => (b == 101 || b == 69) && isExponent e

def isFraction : Bytes → Bool
  | 46 :: ds => !(ds.takeWhile isDigit).isEmpty && isExponentPart (ds.dropWhile isDigit)
  | rest => isExponentPart rest

/-- A number without its sign. -/
def isUnsigned (b : Bytes) : Bool :=
  match b.takeWhile isDigit with
  | [] => false
  | d :: ds => (d != 48 || ds.isEmpty) && isFraction (b.dropWhile isDigit)

/-- A number, as the parser classifies it: an integer that fits 64 bits, or a float. -/
def number {R : Type} : Bytes → Option (Shape R)
  | 45 :: ds =>
    match (natural ds).filter fun n => 0 < n && n ≤ 2 ^ 63 with
    | some n => some (.i64 (Int64.ofInt (-n)))
    | none => if isUnsigned ds then some .f64 else none
  | ds =>
    match natural ds with
    | some n => some (.u64 (UInt64.ofNat n))
    | none => if isUnsigned ds then some .f64 else none

/-- A text without parts. -/
def atom {R : Type} (b : Bytes) : Option (Shape R) :=
  if b = ascii "null" then some .null
  else if b = ascii "true" then some (.bool true)
  else if b = ascii "false" then some (.bool false)
  else number b

/-- The text of an integer. -/
def integer (n : Int64) : Bytes :=
  if n < 0 then 45 :: decimal n.toInt.natAbs else decimal n.toUInt64.toNat

theorem atom_of_ne {R : Type} {b : Bytes} (h : ∀ x ∈ b, x = 45 ∨ 48 ≤ x.toNat ∧ x.toNat ≤ 57) :
    (atom b : Option (Shape R)) = number b := by
  have hne (text : Bytes) (htext : ∃ x ∈ text, ¬ (x = 45 ∨ 48 ≤ x.toNat ∧ x.toNat ≤ 57)) :
      b ≠ text := by
    rintro rfl
    obtain ⟨x, hx, hnot⟩ := htext
    exact hnot (h x hx)
  rw [atom, if_neg (hne _ (by decide)), if_neg (hne _ (by decide)), if_neg (hne _ (by decide))]

theorem number_decimal {R : Type} {n : ℕ} (h : n < 2 ^ 64) :
    (number (decimal n) : Option (Shape R)) = some (.u64 (UInt64.ofNat n)) := by
  rw [number]
  · rw [natural_decimal h]
  · intro ds hds
    have := mem_decimal (n := n) (b := 45) (by rw [hds]; exact List.mem_cons_self)
    exact absurd this.1 (by decide)

/-- An integer is classified by its sign, and read back. -/
theorem atom_integer {R : Type} (n : Int64) :
    (atom (integer n) : Option (Shape R)) = some (if n < 0 then .i64 n else .u64 n.toUInt64) := by
  unfold integer
  split_ifs with h
  · have hneg : n.toInt < 0 := Int64.lt_iff_toInt_lt.1 h
    have hle := Int64.le_toInt n
    have habs : (n.toInt.natAbs : ℤ) = -n.toInt := by omega
    rw [atom_of_ne, number, natural_decimal (by omega), Option.filter_some, if_pos (by simp; omega)]
    · dsimp only
      rw [habs, neg_neg, Int64.ofInt_toInt]
    · intro x hx
      rcases List.mem_cons.1 hx with rfl | hx
      · exact .inl rfl
      · exact .inr (mem_decimal hx)
  · rw [atom_of_ne fun x hx => .inr (mem_decimal hx), number_decimal (UInt64.toNat_lt _),
      UInt64.ofNat_toNat]

/-! ## Texts -/

/-- The items between the brackets of an array or an object. -/
def items (mid : Bytes) : List Bytes :=
  if trimSpace mid = [] then [] else (splitTop 44 top mid).map trimSpace

/-- A member of an object. -/
def entry (e : Bytes) : Option (String × Bytes) :=
  match splitTop 58 top e with
  | [k, v] => (unquote (trimSpace k)).map fun k => (k, trimSpace v)
  | _ => none

/-- Whether bytes are a JSON text without white space around it, nested at most `fuel` deep. -/
def isText : (fuel : ℕ) → Bytes → Bool
  | 0, _ => false
  | fuel + 1, b =>
    decide (Solid b) && trimSpace b == b &&
      match enclosed 91 93 b, enclosed 123 125 b with
      | some mid, _ => (items mid).all (isText fuel)
      | none, some mid => (items mid).all fun e => (entry e).any fun kv => isText fuel kv.2
      | none, none => (unquote b).isSome || (atom (R := Unit) b).isSome

theorem eq_of_enclosed {opening closing : UInt8} {b mid : Bytes}
    (h : enclosed opening closing b = some mid) : b = opening :: mid ++ [closing] := by
  cases b with
  | nil => cases h
  | cons x rest =>
    rw [enclosed] at h
    split_ifs at h with hends
    obtain rfl := Option.some.inj h
    rw [List.cons_append, List.dropLast_append_getLast? _ hends.2, hends.1]

theorem length_of_mem_items {mid e : Bytes} (h : e ∈ items mid) : e.length ≤ mid.length := by
  unfold items at h
  split_ifs at h
  · cases h
  · obtain ⟨x, hx, rfl⟩ := List.mem_map.1 h
    exact (length_trimSpace_le x).trans (length_of_mem_splitTop hx)

theorem length_of_entry {e v : Bytes} {k : String} (h : entry e = some (k, v)) :
    v.length ≤ e.length := by
  unfold entry at h
  split at h
  · rename_i k' v' hsplit
    obtain ⟨s, -, hs⟩ := Option.map_eq_some_iff.1 h
    obtain ⟨rfl, rfl⟩ := Prod.mk.inj hs
    have hmem : v' ∈ splitTop 58 top e := by
      rw [hsplit]
      simp
    exact (length_trimSpace_le v').trans (length_of_mem_splitTop hmem)
  · cases h

theorem all_entry_mono {p q : Bytes → Bool} {es : List Bytes}
    (h : es.all fun e => (entry e).any fun kv => p kv.2)
    (hpq : ∀ e ∈ es, ∀ kv, entry e = some kv → p kv.2 → q kv.2) :
    es.all fun e => (entry e).any fun kv => q kv.2 := by
  refine List.all_eq_true.2 fun e he => ?_
  have hentry := List.all_eq_true.1 h e he
  rw [Option.any_eq_true] at hentry ⊢
  obtain ⟨kv, hkv, hp⟩ := hentry
  exact ⟨kv, hkv, hpq e he kv hkv hp⟩

theorem isText_mono {n m : ℕ} {b : Bytes} (h : isText n b) (hnm : n ≤ m) : isText m b := by
  induction n generalizing m b with
  | zero => cases h
  | succ n ih =>
    obtain ⟨m, rfl⟩ : ∃ k, m = k + 1 := ⟨m - 1, by omega⟩
    have step {b : Bytes} (hb : isText n b) : isText m b := ih hb (by omega)
    rw [isText, Bool.and_eq_true] at h ⊢
    refine ⟨h.1, ?_⟩
    have h2 := h.2
    split at h2
    · exact List.all_eq_true.2 fun e he => step (List.all_eq_true.1 h2 e he)
    · exact all_entry_mono h2 fun _ _ _ _ hv => step hv
    · exact h2

/-- As much fuel as bytes is enough. -/
theorem isText_length {n : ℕ} {b : Bytes} (h : isText n b) : isText b.length b := by
  induction hl : b.length using Nat.strong_induction_on generalizing b n with
  | _ l ih =>
    cases n with
    | zero => cases h
    | succ n =>
      have part {mid e v : Bytes} {opening closing : UInt8} {k : ℕ}
          (hmid : enclosed opening closing b = some mid) (he : e ∈ items mid)
          (hv : v.length ≤ e.length) (hk : isText k v) : isText (l - 1) v := by
        have hlen := congrArg List.length (eq_of_enclosed hmid)
        simp only [List.length_append, List.length_cons, List.length_nil] at hlen
        have := length_of_mem_items he
        exact isText_mono (ih v.length (by omega) hk rfl) (by omega)
      cases l with
      | zero =>
        obtain rfl := List.length_eq_zero_iff.1 hl
        cases h
      | succ l =>
        rw [isText, Bool.and_eq_true] at h ⊢
        refine ⟨h.1, ?_⟩
        have h2 := h.2
        split at h2
        · rename_i mid hmid
          exact List.all_eq_true.2 fun e he => part hmid he le_rfl (List.all_eq_true.1 h2 e he)
        · rename_i mid hmid
          exact all_entry_mono h2 fun e he _ hentry hv => part hmid he (length_of_entry hentry) hv
        · exact h2

/-! ## The backend -/

/-- A JSON text. -/
structure Text where
  bytes : Bytes
  ok : isText bytes.length bytes

/-- The text, if it is a JSON text. -/
def ofText (b : Bytes) : Option Text := if h : isText b.length b then some ⟨b, h⟩ else none

theorem ofText_bytes (r : Text) : ofText r.bytes = some r := dif_pos r.ok

/-- A text through the eyes of a deserializer. -/
def view (r : Text) : Shape Text :=
  match enclosed 91 93 r.bytes, enclosed 123 125 r.bytes with
  | some mid, _ => .seq ((items mid).filterMap ofText)
  | none, some mid =>
    .map ((items mid).filterMap fun e => (entry e).bind fun kv => (ofText kv.2).map (kv.1, ·))
  | none, none =>
    match unquote r.bytes with
    | some s => .str s
    | none => (atom r.bytes).getD .null

theorem solid_of_isText {n : ℕ} {b : Bytes} (h : isText n b) : Solid b ∧ trimSpace b = b := by
  cases n with
  | zero => cases h
  | succ n =>
    rw [isText, Bool.and_eq_true, Bool.and_eq_true] at h
    exact ⟨of_decide_eq_true h.1.1, eq_of_beq h.1.2⟩

theorem Text.solid (r : Text) : Solid r.bytes := (solid_of_isText r.ok).1

theorem Text.trimSpace (r : Text) : trimSpace r.bytes = r.bytes := (solid_of_isText r.ok).2

theorem Text.ne_nil (r : Text) : r.bytes ≠ [] := by
  obtain ⟨b, h⟩ := r
  rintro rfl
  cases h

/-! ## Texts that are written -/

/-- A byte that opens and closes nothing. -/
def isPlain (b : UInt8) : Bool := !(isStop b || b == 34 || b == 91 || b == 123)

theorem walk_plain {a : Bytes} (h : ∀ x ∈ a, isPlain x) : walk top a = some top := by
  induction a with
  | nil => rfl
  | cons b a ih =>
    have hb := h b List.mem_cons_self
    simp only [isPlain, isStop, Bool.not_eq_true', Bool.or_eq_false_iff, beq_eq_false_iff_ne] at hb
    have hnext : top.next b = top := by simp [Place.next, hb]
    rw [walk, if_neg (by simp [isStop, hb]), hnext]
    exact ih fun x hx => h x (List.mem_cons_of_mem _ hx)

theorem walk_string (d : ℕ) {a : Bytes} (h : ∀ x ∈ a, x ≠ 34 ∧ x ≠ 92) :
    walk ⟨d, .string⟩ a = some ⟨d, .string⟩ := by
  induction a with
  | nil => rfl
  | cons b a ih =>
    obtain ⟨h34, h92⟩ := h b List.mem_cons_self
    have hnext : (⟨d, .string⟩ : Place).next b = ⟨d, .string⟩ := by simp [Place.next, h34, h92]
    rw [walk, if_neg (by simp), hnext]
    exact ih fun x hx => h x (List.mem_cons_of_mem _ hx)

theorem walk_escapeByte (d : ℕ) (b : UInt8) :
    walk ⟨d, .string⟩ (escapeByte b) = some ⟨d, .string⟩ := by
  have hescape (c : UInt8) (t : Bytes) :
      walk ⟨d, .string⟩ (92 :: c :: t) = walk ⟨d, .string⟩ t := by
    simp [walk, Place.next]
  have hhex : ∀ n < 16, hexDigit n ≠ 34 ∧ hexDigit n ≠ 92 := by decide
  have hescaped := escaped_escapeByte b
  generalize escapeByte b = a at hescaped ⊢
  cases hescaped with
  | letter c hc =>
    rw [hescape]
    rfl
  | unicode hb =>
    rw [hescape]
    refine walk_string d fun x hx => ?_
    simp only [List.mem_cons, List.not_mem_nil, or_false] at hx
    rcases hx with rfl | rfl | rfl | rfl
    · decide
    · decide
    · exact hhex _ (by omega)
    · exact hhex _ (by omega)
  | plain h34 h92 h32 => exact walk_string d (by simp [h34, h92])

theorem walk_escape (d : ℕ) (b : Bytes) :
    walk ⟨d, .string⟩ (b.flatMap escapeByte) = some ⟨d, .string⟩ := by
  induction b with
  | nil => rfl
  | cons x b ih => rw [List.flatMap_cons, walk_append, walk_escapeByte, Option.bind_some, ih]

theorem solid_quote (s : String) : Solid (quote s) := by
  rw [Solid, quote, List.cons_append, walk, if_neg (by decide)]
  change walk ⟨0, .string⟩ _ = _
  rw [walk_append, walk_escape]
  rfl

theorem solid_brackets {opening closing : UInt8} {mid : Bytes}
    (hopening : opening = 91 ∨ opening = 123) (hclosing : closing = 93 ∨ closing = 125)
    (h : walk ⟨1, .plain⟩ mid = some ⟨1, .plain⟩) : Solid (opening :: mid ++ [closing]) := by
  have hopen : ∀ t, walk top (opening :: t) = walk ⟨1, .plain⟩ t := by
    rcases hopening with rfl | rfl <;> exact fun t => rfl
  rw [Solid, List.cons_append, hopen, walk_append, h]
  rcases hclosing with rfl | rfl <;> rfl

/-- The parts of an array or object, with the commas between them. -/
abbrev joined (parts : List Bytes) : Bytes := [44].intercalate parts

theorem walk_joined {parts : List Bytes}
    (h : ∀ a ∈ parts, walk ⟨1, .plain⟩ a = some ⟨1, .plain⟩) :
    walk ⟨1, .plain⟩ (joined parts) = some ⟨1, .plain⟩ := by
  induction parts with
  | nil => rfl
  | cons a parts ih =>
    cases parts with
    | nil =>
      rw [joined, List.intercalate_singleton]
      exact h a (by simp)
    | cons a' parts =>
      rw [joined, List.intercalate_cons_cons, walk_append, walk_append, h a (by simp),
        Option.bind_some]
      exact ih fun x hx => h x (List.mem_cons_of_mem _ hx)

/-- A part that is not cut. -/
def Whole (a : Bytes) : Prop :=
  ∀ t, splitTop 44 top (a ++ t) = (splitTop 44 top t).modifyHead (a ++ ·)

theorem Solid.whole {a : Bytes} (h : Solid a) : Whole a := splitTop_append (by decide) h

theorem splitTop_joined {parts : List Bytes} (hne : parts ≠ []) (h : ∀ a ∈ parts, Whole a) :
    splitTop 44 top (joined parts) = parts := by
  induction parts with
  | nil => exact absurd rfl hne
  | cons a parts ih =>
    have ha := h a List.mem_cons_self
    cases parts with
    | nil =>
      have := ha []
      rw [List.append_nil, splitTop, List.modifyHead_cons, List.append_nil] at this
      rwa [joined, List.intercalate_singleton]
    | cons a' parts =>
      rw [joined, List.intercalate_cons_cons, List.append_assoc, ha, List.singleton_append,
        splitTop, if_pos ⟨rfl, rfl⟩, List.modifyHead_cons, List.append_nil]
      exact congrArg (a :: ·) (ih (by simp) fun x hx => h x (List.mem_cons_of_mem _ hx))

/-- A member of an object. -/
def memberText (kv : String × Text) : Bytes := quote kv.1 ++ 58 :: kv.2.bytes

theorem whole_memberText (kv : String × Text) : Whole (memberText kv) := by
  intro t
  rw [memberText, List.append_assoc, (solid_quote kv.1).whole, List.cons_append, splitTop,
    if_neg (by decide)]
  change ((splitTop 44 top (kv.2.bytes ++ t)).modifyHead _).modifyHead _ = _
  rw [kv.2.solid.whole, List.modifyHead_modifyHead, List.modifyHead_modifyHead]
  congr 1
  funext x
  simp

theorem walk_memberText (kv : String × Text) :
    walk ⟨1, .plain⟩ (memberText kv) = some ⟨1, .plain⟩ := by
  rw [memberText, walk_append, walk_deeper 1 (solid_quote kv.1), Option.bind_some, walk,
    if_neg (by decide)]
  exact walk_deeper 1 kv.2.solid

theorem trimSpace_append {x : UInt8} {a b : Bytes} (hx : isSpace x = false) (hb : b ≠ [])
    (htrim : trimSpace b = b) : trimSpace (x :: a ++ b) = x :: a ++ b := by
  rw [List.cons_append]
  refine trimSpace_eq hx fun y hy => last_of_trimSpace_eq htrim ?_
  rwa [← List.cons_append, List.getLast?_append_of_ne_nil _ hb] at hy

theorem trimSpace_quote (s : String) : trimSpace (quote s) = quote s :=
  trimSpace_append (by decide) (List.cons_ne_nil _ _) (by decide)

theorem trimSpace_memberText (kv : String × Text) : trimSpace (memberText kv) = memberText kv := by
  rw [memberText, List.append_cons, quote, List.cons_append, List.cons_append]
  exact trimSpace_append (by decide) kv.2.ne_nil kv.2.trimSpace

theorem entry_memberText (kv : String × Text) : entry (memberText kv) = some (kv.1, kv.2.bytes) := by
  rw [entry, memberText, splitTop_solid (by decide) (solid_quote kv.1),
    splitTop_solid_nil (by decide) kv.2.solid]
  dsimp only
  rw [trimSpace_quote, unquote_quote, kv.2.trimSpace, Option.map_some]

/-- The parts between the brackets are the items again. -/
theorem items_joined {parts : List Bytes} (hwhole : ∀ a ∈ parts, Whole a)
    (htrim : ∀ a ∈ parts, trimSpace a = a) (hne : ∀ a ∈ parts, a ≠ []) :
    items (joined parts) = parts := by
  rw [items]
  cases parts with
  | nil => rfl
  | cons a parts =>
    have hhead : trimSpace (joined (a :: parts)) ≠ [] := by
      cases a with
      | nil => exact absurd rfl (hne [] List.mem_cons_self)
      | cons x a =>
        refine trimSpace_ne_nil (x := x) ?_ (head_of_trimSpace_eq (htrim _ List.mem_cons_self))
        cases parts <;> simp [joined, List.intercalate_singleton, List.intercalate_cons_cons]
    rw [if_neg hhead, splitTop_joined (by simp) hwhole]
    exact (List.map_congr_left htrim).trans (List.map_id' _)

theorem enclosed_eq_none {opening closing : UInt8} {b : Bytes} (h : opening ∉ b) :
    enclosed opening closing b = none := by
  cases henclosed : enclosed opening closing b with
  | none => rfl
  | some mid =>
    rw [eq_of_enclosed henclosed] at h
    exact absurd List.mem_cons_self h

/-- The text of an array. -/
def seqText (rs : List Text) : Bytes := 91 :: joined (rs.map Text.bytes) ++ [93]

/-- The text of an object. -/
def mapText (kvs : List (String × Text)) : Bytes := 123 :: joined (kvs.map memberText) ++ [125]

theorem items_seqText (rs : List Text) :
    items (joined (rs.map Text.bytes)) = rs.map Text.bytes := by
  apply items_joined <;> intro a ha <;> obtain ⟨r, -, rfl⟩ := List.mem_map.1 ha
  · exact r.solid.whole
  · exact r.trimSpace
  · exact r.ne_nil

theorem items_mapText (kvs : List (String × Text)) :
    items (joined (kvs.map memberText)) = kvs.map memberText := by
  apply items_joined <;> intro a ha <;> obtain ⟨kv, -, rfl⟩ := List.mem_map.1 ha
  · exact whole_memberText kv
  · exact trimSpace_memberText kv
  · simp [memberText]

theorem enclosed_of_ne {opening closing x : UInt8} {b : Bytes} (h : x ≠ opening) :
    enclosed opening closing (x :: b) = none := if_neg fun hends => h hends.1

theorem isText_of_items {b mid : Bytes} {n : ℕ} (hsolid : Solid b) (htrim : trimSpace b = b)
    (hmid : enclosed 91 93 b = some mid) (h : ∀ e ∈ items mid, isText n e) : isText b.length b := by
  apply isText_length (n := n + 1)
  rw [isText, hmid, htrim]
  simpa [hsolid] using h

theorem isText_of_entries {b mid : Bytes} {n : ℕ} (hsolid : Solid b) (htrim : trimSpace b = b)
    (hseq : enclosed 91 93 b = none) (hmid : enclosed 123 125 b = some mid)
    (h : ∀ e ∈ items mid, (entry e).any fun kv => isText n kv.2) : isText b.length b := by
  apply isText_length (n := n + 1)
  rw [isText, hseq, hmid, htrim]
  simpa [hsolid] using h

theorem isText_of_leaf {b : Bytes} (hsolid : Solid b) (htrim : trimSpace b = b)
    (hseq : enclosed 91 93 b = none) (hmap : enclosed 123 125 b = none)
    (h : (unquote b).isSome ∨ (atom (R := Unit) b).isSome) : isText b.length b := by
  apply isText_length (n := 1)
  rw [isText, hseq, hmap, htrim]
  simpa [hsolid] using h

theorem isText_seqText (rs : List Text) : isText (seqText rs).length (seqText rs) := by
  refine isText_of_items (solid_brackets (.inl rfl) (.inl rfl) (walk_joined fun a ha => ?_))
    (trimSpace_append (by decide) (by simp) (by decide)) (enclosed_append 91 93 _)
    (n := (joined (rs.map Text.bytes)).length) fun a ha => ?_
  · obtain ⟨r, -, rfl⟩ := List.mem_map.1 ha
    exact walk_deeper 1 r.solid
  · have hlen := length_of_mem_items ha
    rw [items_seqText] at ha
    obtain ⟨r, -, rfl⟩ := List.mem_map.1 ha
    exact isText_mono r.ok hlen

theorem isText_mapText (kvs : List (String × Text)) : isText (mapText kvs).length (mapText kvs) := by
  refine isText_of_entries (solid_brackets (.inr rfl) (.inr rfl) (walk_joined fun a ha => ?_))
    (trimSpace_append (by decide) (by simp) (by decide)) (enclosed_of_ne (by decide))
    (enclosed_append 123 125 _) (n := (joined (kvs.map memberText)).length) fun a ha => ?_
  · obtain ⟨kv, -, rfl⟩ := List.mem_map.1 ha
    exact walk_memberText kv
  · have hlen := length_of_mem_items ha
    rw [items_mapText] at ha
    obtain ⟨kv, -, rfl⟩ := List.mem_map.1 ha
    rw [entry_memberText, Option.any_some]
    exact isText_mono kv.2.ok ((length_of_entry (entry_memberText kv)).trans hlen)

theorem isText_quote (s : String) : isText (quote s).length (quote s) :=
  isText_of_leaf (solid_quote s) (trimSpace_quote s) (enclosed_of_ne (by decide))
    (enclosed_of_ne (by decide)) (.inl (by rw [unquote_quote]; rfl))

theorem mem_integer {n : Int64} {x : UInt8} (h : x ∈ integer n) :
    x = 45 ∨ 48 ≤ x.toNat ∧ x.toNat ≤ 57 := by
  unfold integer at h
  split_ifs at h
  · exact (List.mem_cons.1 h).imp_right mem_decimal
  · exact .inr (mem_decimal h)

theorem isPlain_of_mem_integer {n : Int64} {x : UInt8} (h : x ∈ integer n) :
    isPlain x ∧ isSpace x = false := by
  have hplain : ∀ k < 58, 45 ≤ k → (k = 45 ∨ 48 ≤ k) →
      isPlain (UInt8.ofNat k) ∧ isSpace (UInt8.ofNat k) = false := by decide
  rw [← UInt8.ofNat_toNat (x := x)]
  rcases mem_integer h with rfl | hx
  · exact hplain 45 (by decide) (by decide) (by decide)
  · exact hplain x.toNat (by omega) (by omega) (.inr hx.1)

theorem trimSpace_integer (n : Int64) : trimSpace (integer n) = integer n := by
  cases h : integer n with
  | nil => rfl
  | cons x b =>
    have hspace {y : UInt8} (hy : y ∈ x :: b) : isSpace y = false :=
      (isPlain_of_mem_integer (n := n) (h ▸ hy)).2
    exact trimSpace_eq (hspace List.mem_cons_self) fun y hy => hspace (List.mem_of_getLast? hy)

theorem isText_integer (n : Int64) : isText (integer n).length (integer n) := by
  have hnot {x : UInt8} (hx : isPlain x = false) : x ∉ integer n := fun h => by
    rw [(isPlain_of_mem_integer h).1] at hx
    cases hx
  exact isText_of_leaf (walk_plain fun x hx => (isPlain_of_mem_integer hx).1) (trimSpace_integer n)
    (enclosed_eq_none (hnot (by decide))) (enclosed_eq_none (hnot (by decide)))
    (.inr (by rw [atom_integer]; rfl))

def parse (bytes : Bytes) : Except JsonError Text :=
  match ofText (trimSpace bytes) with
  | some r => .ok r
  | none => .error ⟨"expected value"⟩

/-- The reference backend. -/
def backend : Backend where
  Raw := Text
  get := Text.bytes
  parse := parse
  shape := view
  mismatch _ := ⟨"invalid type"⟩
  null := ⟨ascii "null", by decide⟩
  int n := ⟨integer n, isText_integer n⟩
  str s := ⟨quote s, isText_quote s⟩
  seq rs := ⟨seqText rs, isText_seqText rs⟩
  map kvs := ⟨mapText kvs, isText_mapText kvs⟩

/-! ## The laws -/

theorem filterMap_ofText (rs : List Text) : (rs.map Text.bytes).filterMap ofText = rs := by
  induction rs with
  | nil => rfl
  | cons r rs ih => rw [List.map_cons, List.filterMap_cons_some (ofText_bytes r), ih]

theorem view_seqText (rs : List Text) (h : isText (seqText rs).length (seqText rs)) :
    view ⟨seqText rs, h⟩ = .seq rs := by
  have hmid : enclosed 91 93 (seqText rs) = some (joined (rs.map Text.bytes)) := enclosed_append ..
  simp only [view, hmid]
  rw [items_seqText, filterMap_ofText]

theorem view_mapText (kvs : List (String × Text)) (h : isText (mapText kvs).length (mapText kvs)) :
    view ⟨mapText kvs, h⟩ = .map kvs := by
  have hseq : enclosed 91 93 (mapText kvs) = none := enclosed_of_ne (by decide)
  have hmid : enclosed 123 125 (mapText kvs) = some (joined (kvs.map memberText)) :=
    enclosed_append ..
  simp only [view, hseq, hmid]
  rw [items_mapText]
  congr 1
  induction kvs with
  | nil => rfl
  | cons kv kvs ih =>
    rw [List.map_cons, List.filterMap_cons_some (b := kv)]
    · exact congrArg (kv :: ·) (ih (isText_mapText kvs) (enclosed_of_ne (by decide))
        (enclosed_append ..))
    · rw [entry_memberText, Option.bind_some, ofText_bytes, Option.map_some]

theorem view_quote (s : String) (h : isText (quote s).length (quote s)) :
    view ⟨quote s, h⟩ = .str s := by
  have hseq : enclosed 91 93 (quote s) = none := enclosed_of_ne (by decide)
  have hmap : enclosed 123 125 (quote s) = none := enclosed_of_ne (by decide)
  simp only [view, hseq, hmap, unquote_quote]

theorem view_integer (n : Int64) (h : isText (integer n).length (integer n)) :
    view ⟨integer n, h⟩ = if n < 0 then .i64 n else .u64 n.toUInt64 := by
  have hnot {x : UInt8} (hx : isPlain x = false) : x ∉ integer n := fun h => by
    rw [(isPlain_of_mem_integer h).1] at hx
    cases hx
  have hunquote : unquote (integer n) = none := by
    rw [unquote, enclosed_eq_none (hnot (by decide))]
    rfl
  simp only [view, enclosed_eq_none (hnot (x := 91) (by decide)),
    enclosed_eq_none (hnot (x := 123) (by decide)), hunquote, atom_integer, Option.getD_some]

/-- A level that has nothing below it. -/
def IsLeaf {R : Type} : Shape R → Prop
  | .seq _ => False
  | .map _ => False
  | _ => True

/-- A number is the text of a negative integer, the text of an integer that is not, or a float. -/
theorem number_eq_some {R : Type} {b : Bytes} {shape : Shape R} (h : number b = some shape) :
    (∃ k : ℕ, 0 < k ∧ k ≤ 2 ^ 63 ∧ b = 45 :: decimal k ∧ shape = .i64 (Int64.ofInt (-k))) ∨
      (∃ k < 2 ^ 64, b = decimal k ∧ shape = .u64 (UInt64.ofNat k)) ∨ shape = .f64 := by
  unfold number at h
  split at h
  · split at h
    · rename_i k hk
      obtain ⟨hnatural, hbound⟩ := Option.filter_eq_some_iff.1 hk
      obtain ⟨hpos, hle⟩ : 0 < k ∧ k ≤ 2 ^ 63 := by simpa using hbound
      obtain ⟨-, rfl⟩ := natural_eq_some_iff.1 hnatural
      exact .inl ⟨k, hpos, hle, rfl, (Option.some.inj h).symm⟩
    · split_ifs at h
      exact .inr (.inr (Option.some.inj h).symm)
  · split at h
    · rename_i k hk
      obtain ⟨hlt, rfl⟩ := natural_eq_some_iff.1 hk
      exact .inr (.inl ⟨k, hlt, rfl, (Option.some.inj h).symm⟩)
    · split_ifs at h
      exact .inr (.inr (Option.some.inj h).symm)

theorem isLeaf_of_number {R : Type} {b : Bytes} {shape : Shape R} (h : number b = some shape) :
    shape ≠ .null ∧ IsLeaf shape := by
  obtain ⟨_, _, _, _, rfl⟩ | ⟨_, _, _, rfl⟩ | rfl := number_eq_some h
  · exact ⟨nofun, trivial⟩
  · exact ⟨nofun, trivial⟩
  · exact ⟨nofun, trivial⟩

theorem isLeaf_of_atom {R : Type} {b : Bytes} {shape : Shape R} (h : atom b = some shape) :
    IsLeaf shape := by
  unfold atom at h
  split_ifs at h
  · obtain rfl := Option.some.inj h
    trivial
  · obtain rfl := Option.some.inj h
    trivial
  · obtain rfl := Option.some.inj h
    trivial
  · exact (isLeaf_of_number h).2

theorem isSome_number {R R' : Type} (b : Bytes) :
    (number (R := R) b).isSome = (number (R := R') b).isSome := by
  unfold number
  split <;> split <;> try split
  all_goals rfl

theorem isSome_atom {R S : Type} (b : Bytes) :
    (atom (R := R) b).isSome = (atom (R := S) b).isSome := by
  unfold atom
  split_ifs
  · rfl
  · rfl
  · rfl
  · exact isSome_number b

theorem eq_null_of_atom {R : Type} {b : Bytes} (h : (atom b : Option (Shape R)) = some .null) :
    b = ascii "null" := by
  unfold atom at h
  split_ifs at h with hnull
  · exact hnull
  · cases h
  · cases h
  · exact absurd rfl (isLeaf_of_number h).1

theorem isSome_of_leaf (r : Text) (hseq : enclosed 91 93 r.bytes = none)
    (hmap : enclosed 123 125 r.bytes = none) :
    (unquote r.bytes).isSome ∨ (atom (R := Text) r.bytes).isSome := by
  have h := r.ok
  cases hl : r.bytes.length with
  | zero =>
    rw [hl] at h
    cases h
  | succ n =>
    rw [hl, isText, Bool.and_eq_true, hseq, hmap, isSome_atom (S := Text)] at h
    simpa using h.2

/-- A text that is neither an array, an object nor a string is an atom. -/
theorem atom_of_view {r : Text} {shape : Shape Text} (h : view r = shape) (hleaf : IsLeaf shape)
    (hstr : ∀ s, shape ≠ .str s) : atom r.bytes = some shape := by
  unfold view at h
  split at h
  · subst h
    cases hleaf
  · subst h
    cases hleaf
  · rename_i hseq hmap
    split at h
    · exact absurd h.symm (hstr _)
    · rename_i hunquote
      obtain ⟨shape', hatom⟩ := Option.isSome_iff_exists.1
        ((isSome_of_leaf r hseq hmap).resolve_left (by rw [hunquote]; exact Bool.false_ne_true))
      rw [hatom, Option.getD_some] at h
      exact h ▸ hatom

theorem Text.ext {r r' : Text} (h : r.bytes = r'.bytes) : r = r' := by
  cases r
  cases r'
  cases h
  rfl

theorem view_eq_null {r : Text} : view r = .null ↔ r = ⟨ascii "null", by decide⟩ := by
  constructor
  · intro h
    exact Text.ext (eq_null_of_atom (atom_of_view h trivial nofun))
  · rintro rfl
    rfl

theorem parse_bytes (r : Text) : parse r.bytes = .ok r := by
  rw [parse, r.trimSpace, ofText_bytes]

theorem trimSpace_of_parse {bytes : Bytes} {r : Text} (h : parse bytes = .ok r) :
    trimSpace bytes = r.bytes := by
  unfold parse ofText at h
  split at h
  · rename_i r' hr'
    split_ifs at hr' with hok
    obtain rfl := Option.some.inj hr'
    obtain rfl := Except.ok.inj h
    rfl
  · cases h

/-- A number starts with a minus sign or a digit. -/
theorem head_of_number {R : Type} {x : UInt8} {b : Bytes}
    (h : (number (R := R) (x :: b)).isSome) : x = 45 ∨ isDigit x := by
  have hnatural {n : ℕ} (hn : natural (x :: b) = some n) : isDigit x := by
    obtain ⟨-, heq⟩ := Option.filter_eq_some_iff.1 hn
    have := mem_decimal (n := n) (b := x) (by rw [eq_of_beq heq]; exact List.mem_cons_self)
    simp only [isDigit, Bool.and_eq_true, decide_eq_true_eq, UInt8.le_iff_toNat_le]
    exact this
  unfold number at h
  split at h
  · rename_i ds heq
    exact .inl (List.cons.inj heq).1
  · split at h
    · exact .inr (hnatural ‹_›)
    · split_ifs at h with hunsigned
      · by_contra hx
        rw [not_or] at hx
        rw [isUnsigned, List.takeWhile_cons_of_neg hx.2] at hunsigned
        cases hunsigned
      · cases h

/-- The first bytes of the texts that are neither arrays nor objects. -/
theorem head_of_leaf {r : Text} {x : UInt8} {b : Bytes} (hseq : enclosed 91 93 r.bytes = none)
    (hmap : enclosed 123 125 r.bytes = none) (h : r.bytes = x :: b) :
    x ∈ [34, 110, 116, 102, 45] ∨ isDigit x := by
  have hleaf := isSome_of_leaf r hseq hmap
  rw [h] at hleaf
  rcases hleaf with hunquote | hatom
  · by_cases hx : x = 34
    · exact .inl (by simp [hx])
    · rw [unquote, enclosed_of_ne hx] at hunquote
      cases hunquote
  · unfold atom at hatom
    split_ifs at hatom with h1 h2 h3
    · exact .inl (by simp [(List.cons.inj (show x :: b = 110 :: [117, 108, 108] from h1)).1])
    · exact .inl (by simp [(List.cons.inj (show x :: b = 116 :: [114, 117, 101] from h2)).1])
    · exact .inl (by simp [(List.cons.inj (show x :: b = 102 :: [97, 108, 115, 101] from h3)).1])
    · rcases head_of_number hatom with rfl | hx
      · exact .inl (by simp)
      · exact .inr hx

/-- The first byte of a text tells whether it is an array, an object, or neither. -/
theorem head_of_text {r : Text} {x : UInt8} {b : Bytes} (h : r.bytes = x :: b) :
    (x = 91 ∧ ∃ rs, view r = .seq rs) ∨ (x = 123 ∧ ∃ kvs, view r = .map kvs) ∨
      ((x ∈ [34, 110, 116, 102, 45] ∨ isDigit x) ∧ IsLeaf (view r)) := by
  cases hseq : enclosed 91 93 r.bytes with
  | some mid =>
    have hx := eq_of_enclosed hseq
    rw [h] at hx
    refine .inl ⟨(List.cons.inj hx).1, (items mid).filterMap ofText, ?_⟩
    simp only [view, hseq]
  | none =>
    cases hmap : enclosed 123 125 r.bytes with
    | some mid =>
      have hx := eq_of_enclosed hmap
      rw [h] at hx
      refine .inr (.inl ⟨(List.cons.inj hx).1, (items mid).filterMap fun e =>
        (entry e).bind fun kv => (ofText kv.2).map (kv.1, ·), ?_⟩)
      simp only [view, hseq, hmap]
    | none =>
      refine .inr (.inr ⟨head_of_leaf hseq hmap h, ?_⟩)
      simp only [view, hseq, hmap]
      cases unquote r.bytes with
      | some s => trivial
      | none =>
        cases hatom : (atom r.bytes : Option (Shape Text)) with
        | none => trivial
        | some shape => exact isLeaf_of_atom hatom

/-- White space before a text is skipped; the text starts with none, not even a form feed. -/
theorem firstByte_eq {bytes : Bytes} {r : Text} (h : parse bytes = .ok r) :
    firstByte bytes = r.bytes.head? := by
  have htrim := trimSpace_of_parse h
  have hskip : firstByte bytes = firstByte (bytes.dropWhile isSpace) := by
    conv_lhs => rw [← List.takeWhile_append_dropWhile (p := isSpace) (l := bytes)]
    rw [firstByte, List.find?_append, List.find?_eq_none.2, Option.none_or, firstByte]
    intro y hy
    have hspace := List.mem_takeWhile_imp hy
    simp only [isSpace, Bool.or_eq_true, beq_iff_eq] at hspace
    rcases hspace with ((rfl | rfl) | rfl) | rfl <;> decide
  obtain ⟨t, ht⟩ : ∃ t, bytes.dropWhile isSpace = r.bytes ++ t := by
    refine ⟨((bytes.dropWhile isSpace).reverse.takeWhile isSpace).reverse, ?_⟩
    rw [← htrim, trimSpace, ← List.reverse_append, List.takeWhile_append_dropWhile,
      List.reverse_reverse]
  rw [hskip, ht]
  cases hb : r.bytes with
  | nil => exact absurd hb r.ne_nil
  | cons x b =>
    have hx : isAsciiWhitespace x = false := by
      rcases head_of_text hb with ⟨rfl, -⟩ | ⟨rfl, -⟩ | ⟨hx | hx, -⟩
      · decide
      · decide
      · simp only [List.mem_cons, List.not_mem_nil, or_false] at hx
        rcases hx with rfl | rfl | rfl | rfl | rfl <;> decide
      · simp only [isDigit, Bool.and_eq_true, decide_eq_true_eq, UInt8.le_iff_toNat_le] at hx
        simp only [isAsciiWhitespace, Bool.or_eq_false_iff, beq_eq_false_iff_ne]
        refine ⟨⟨⟨⟨?_, ?_⟩, ?_⟩, ?_⟩, ?_⟩ <;> rintro rfl <;> exact absurd hx.1 (by decide)
    rw [List.cons_append, firstByte, List.find?_cons_of_pos (by simp [hx])]
    rfl

theorem notMem_escapeByte (b : UInt8) : (10 : UInt8) ∉ escapeByte b := by
  have hhex : ∀ n < 16, (10 : UInt8) ≠ hexDigit n := by decide
  have hescaped := escaped_escapeByte b
  generalize escapeByte b = a at hescaped ⊢
  cases hescaped with
  | letter c hc =>
    have hlf : (10 : UInt8) ≠ c := by
      rintro rfl
      cases hc
    simp [hlf]
  | unicode hb => simp [hhex (b.toNat / 16) (by omega), hhex (b.toNat % 16) (by omega)]
  | plain h34 h92 h32 =>
    have hlf : (10 : UInt8) ≠ b := by
      rintro rfl
      exact h32 (by decide)
    simpa using hlf

theorem notMem_quote (s : String) : (10 : UInt8) ∉ quote s := by
  simp [quote, notMem_escapeByte]

theorem firstByte_eq_lbracket {bytes : Bytes} {r : Text} (h : parse bytes = .ok r) :
    firstByte bytes = some lbracket ↔ ∃ rs, view r = .seq rs := by
  rw [firstByte_eq h]
  cases hb : r.bytes with
  | nil => exact absurd hb r.ne_nil
  | cons x b =>
    rw [List.head?_cons, Option.some_inj]
    rcases head_of_text hb with ⟨rfl, hseq⟩ | ⟨rfl, kvs, hmap⟩ | ⟨hx, hleaf⟩
    · exact iff_of_true rfl hseq
    · refine iff_of_false (by decide) fun ⟨rs, hseq⟩ => ?_
      rw [hmap] at hseq
      cases hseq
    · refine iff_of_false ?_ fun ⟨rs, hseq⟩ => by rwa [hseq] at hleaf
      rintro rfl
      revert hx
      decide

theorem firstByte_eq_lbrace {bytes : Bytes} {r : Text} (h : parse bytes = .ok r) :
    firstByte bytes = some lbrace ↔ ∃ kvs, view r = .map kvs := by
  rw [firstByte_eq h]
  cases hb : r.bytes with
  | nil => exact absurd hb r.ne_nil
  | cons x b =>
    rw [List.head?_cons, Option.some_inj]
    rcases head_of_text hb with ⟨rfl, rs, hseq⟩ | ⟨rfl, hmap⟩ | ⟨hx, hleaf⟩
    · refine iff_of_false (by decide) fun ⟨kvs, hmap⟩ => ?_
      rw [hseq] at hmap
      cases hmap
    · exact iff_of_true rfl hmap
    · refine iff_of_false ?_ fun ⟨kvs, hmap⟩ => by rwa [hmap] at hleaf
      rintro rfl
      revert hx
      decide

theorem get_map (kvs : List (String × Text)) :
    backend.get (backend.map kvs) =
      ascii "\x7b" ++ (ascii ",").intercalate (kvs.map backend.member) ++ ascii "\x7d" := by
  have hmember : backend.member = memberText := by
    funext kv
    exact List.append_assoc ..
  rw [hmember]
  rfl

/-- The reference backend has the properties the crate relies on. -/
theorem lawful : backend.Lawful where
  parse_get := parse_bytes
  firstByte_eq_lbracket := firstByte_eq_lbracket
  firstByte_eq_lbrace := firstByte_eq_lbrace
  shape_eq_null := view_eq_null
  shape_int n := view_integer n _
  shape_str s := view_quote s _
  shape_seq rs := view_seqText rs _
  shape_map kvs := view_mapText kvs _
  get_null := rfl
  notMem_int n := fun h => absurd (mem_integer h) (by decide)
  notMem_str s := notMem_quote s
  get_seq rs := rfl
  get_map := get_map

/-! ## Integers -/

/-- An integer of an `i64` is the text of its value. -/
theorem eq_integer_of_atom {b : Bytes} {shape : Shape Text} {n : Int64} (h : atom b = some shape)
    (hn : shape = .i64 n ∨ ∃ m, shape = .u64 m ∧ i64TryFrom m = some n) : b = integer n := by
  have hnumber : number b = some shape := by
    unfold atom at h
    split_ifs at h
    · obtain rfl := Option.some.inj h
      simp at hn
    · obtain rfl := Option.some.inj h
      simp at hn
    · obtain rfl := Option.some.inj h
      simp at hn
    · exact h
  obtain ⟨k, hpos, hle, rfl, rfl⟩ | ⟨k, hlt, rfl, rfl⟩ | rfl := number_eq_some hnumber
  · obtain hn | ⟨m, hm, -⟩ := hn
    · obtain rfl := Shape.i64.inj hn
      have hint : (Int64.ofInt (-k)).toInt = -k := Int64.toInt_ofInt_of_le (by omega) (by omega)
      have hneg : Int64.ofInt (-k) < 0 := by
        apply Int64.lt_iff_toInt_lt.2
        rw [hint, Int64.toInt_zero]
        omega
      rw [integer, if_pos hneg, hint, Int.natAbs_neg, Int.natAbs_natCast]
    · cases hm
  · obtain hn | ⟨m, hm, hfrom⟩ := hn
    · cases hn
    · obtain rfl := Shape.u64.inj hm
      have hnat : (UInt64.ofNat k).toNat = k := UInt64.toNat_ofNat_of_lt' hlt
      unfold i64TryFrom at hfrom
      rw [hnat] at hfrom
      split_ifs at hfrom with hfits
      obtain rfl := Option.some.inj hfrom
      have hint := toInt_toInt64 (n := UInt64.ofNat k) (by omega)
      have hnonneg : ¬ (UInt64.ofNat k).toInt64 < 0 := by
        rw [Int64.lt_iff_toInt_lt, hint, Int64.toInt_zero]
        omega
      rw [integer, if_neg hnonneg, UInt64.toUInt64_toInt64, hnat]
  · obtain hn | ⟨m, hm, -⟩ := hn
    · cases hn
    · cases hm

/-- An integer of an `i64` has one text. -/
theorem eq_int_of_deserializeI64 {r : Text} {n : Int64}
    (h : deserializeI64 (B := backend) r = some n) : r = backend.int n := by
  unfold deserializeI64 at h
  cases hview : backend.shape r with
  | i64 m =>
    rw [hview] at h
    have hatom := atom_of_view hview trivial nofun
    exact Text.ext (eq_integer_of_atom hatom (.inl (congrArg Shape.i64 (Option.some.inj h))))
  | u64 m =>
    rw [hview] at h
    have hatom := atom_of_view hview trivial nofun
    exact Text.ext (eq_integer_of_atom hatom (.inr ⟨m, rfl, h⟩))
  | null | bool | f64 | str | seq | map =>
    rw [hview] at h
    cases h

end JsonText

end Jasonrpc
