import Jasonrpc.Transport.Framing

/-!
# Header blocks

A header block is a list of lines `name:value`, and ends at the first blank line.  The search for the
separator returns the least offset where one stands (`findHeaderEnd_least`), so that of a block is found
where the block ends, whatever stands behind it (`findHeaderEnd_block`); the lines are cut as they were
joined (`splitCrlf_block`), and the scan looks at the lines of the name `Content-Length` only
(`scanHeaders_filter`).
-/

namespace Jasonrpc

open ByteString

/-! ## The header separator -/

/-- The separator stands at offset `i`. -/
def SepAt (src : Bytes) (i : ℕ) : Prop := crlfcrlf <+: src.drop i

theorem SepAt.append {src : Bytes} {i : ℕ} (h : SepAt src i) (t : Bytes) : SepAt (src ++ t) i := by
  obtain ⟨u, hu⟩ := h
  have hi : i ≤ src.length := by
    by_contra hlt
    rw [List.drop_of_length_le (by omega)] at hu
    simp at hu
  exact ⟨u ++ t, by rw [List.drop_append_of_le_length hi, ← hu, List.append_assoc]⟩

theorem SepAt.lt {src : Bytes} {i : ℕ} (h : SepAt src i) : i + 4 ≤ src.length := by
  have := h.length_le
  rw [List.length_drop] at this
  simp only [List.length_cons, List.length_nil] at this
  omega

theorem SepAt.take {src : Bytes} {i n : ℕ} (h : SepAt src i) (hn : i + 4 ≤ n) :
    SepAt (src.take n) i := by
  rw [SepAt, List.drop_take]
  exact List.prefix_take_iff.2 ⟨h, by simp; omega⟩

theorem SepAt.of_take {src : Bytes} {i n : ℕ} (h : SepAt (src.take n) i) : SepAt src i := by
  have := h.append (src.drop n)
  rwa [List.take_append_drop] at this

theorem SepAt.getElem? {src : Bytes} {i : ℕ} (h : SepAt src i) : src[i]? = some 13 := by
  obtain ⟨u, hu⟩ := h
  have := congrArg (fun l : Bytes => l[0]?) hu
  simpa using this.symm

/-- What `find_header_end` is to return: the least offset of a separator. -/
def IsHeaderEnd (src : Bytes) : Option ℕ → Prop
  | some i => SepAt src i ∧ ∀ j < i, ¬ SepAt src j
  | none => ∀ j, ¬ SepAt src j

theorem isHeaderEnd_findHeaderEndFrom (src : Bytes) :
    ∀ fuel start, src.length < fuel + start → (∀ j < start, ¬ SepAt src j) →
      IsHeaderEnd src (findHeaderEndFrom src fuel start)
  | 0, start, hfuel, hstart => fun j hj => by
      have := hj.lt
      exact hstart j (by omega) hj
  | fuel + 1, start, hfuel, hstart => by
      rw [findHeaderEndFrom]
      cases hm : memchr 13 (src.drop start) with
      | none =>
        intro j hj
        by_cases hlt : j < start
        · exact hstart j hlt hj
        · refine memchr_eq_none_iff.1 hm (List.mem_of_getElem? (i := j - start) ?_)
          rw [List.getElem?_drop, show start + (j - start) = j by omega]
          exact hj.getElem?
      | some rel =>
        -- No separator starts before the next carriage return.
        have hbefore : ∀ j < start + rel, ¬ SepAt src j := by
          intro j hj hsep
          by_cases hlt : j < start
          · exact hstart j hlt hsep
          · obtain ⟨_, _, hno⟩ := List.findIdx?_eq_some_iff_getElem.1 hm
            have hget := hsep.getElem?
            have hlen := hsep.lt
            have := hno (j - start) (by omega)
            rw [List.getElem_drop] at this
            rw [List.getElem?_eq_getElem (by omega)] at hget
            simp only [show start + (j - start) = j by omega, Option.some.inj hget] at this
            exact this rfl
        dsimp only
        split_ifs with hpre
        · exact ⟨List.isPrefixOf_iff_prefix.1 hpre, hbefore⟩
        · refine isHeaderEnd_findHeaderEndFrom src fuel _ (by omega) fun j hj hsep => ?_
          rcases Nat.lt_succ_iff_lt_or_eq.1 hj with hlt | rfl
          · exact hbefore j hlt hsep
          · exact hpre (List.isPrefixOf_iff_prefix.2 hsep)

theorem isHeaderEnd_findHeaderEnd (src : Bytes) : IsHeaderEnd src (findHeaderEnd src) :=
  isHeaderEnd_findHeaderEndFrom src _ _ (by omega) fun _ h => absurd h (by omega)

theorem findHeaderEnd_eq_some_iff {src : Bytes} {i : ℕ} :
    findHeaderEnd src = some i ↔ SepAt src i ∧ ∀ j < i, ¬ SepAt src j := by
  have key := isHeaderEnd_findHeaderEnd src
  constructor
  · intro h
    rwa [h] at key
  · rintro ⟨hi, hlt⟩
    cases h : findHeaderEnd src with
    | none => rw [h] at key; exact absurd hi (key i)
    | some i' =>
      rw [h] at key
      rcases Nat.lt_trichotomy i i' with hl | rfl | hl
      · exact absurd hi (key.2 i hl)
      · rfl
      · exact absurd key.1 (hlt i' hl)

theorem findHeaderEnd_eq_none_iff {src : Bytes} :
    findHeaderEnd src = none ↔ ∀ j, ¬ SepAt src j := by
  have key := isHeaderEnd_findHeaderEnd src
  constructor
  · intro h
    rwa [h] at key
  · intro h
    cases hs : findHeaderEnd src with
    | none => rfl
    | some i => rw [hs] at key; exact absurd key.1 (h i)

/-- The separator is found where it was when bytes are appended behind it. -/
theorem findHeaderEnd_take_append {src : Bytes} {i n : ℕ} (h : findHeaderEnd src = some i)
    (hn : i + 4 ≤ n) (t : Bytes) : findHeaderEnd (src.take n ++ t) = some i := by
  obtain ⟨hi, hlt⟩ := findHeaderEnd_eq_some_iff.1 h
  refine findHeaderEnd_eq_some_iff.2 ⟨(hi.take hn).append t, fun j hj hsep => hlt j hj ?_⟩
  have hlen : i + 4 ≤ (src.take n).length := by
    rw [List.length_take]
    have := hi.lt
    omega
  have := hsep.take (n := (src.take n).length) (by omega)
  rw [List.take_left] at this
  exact this.of_take

/-- The loop of `find_header_end` returns `r` from offset `start` on, after `turns` turns: no carriage
return is left, or one begins a separator, or the loop goes on behind it. -/
inductive HeaderLoop (src : Bytes) : (start turns : ℕ) → Option ℕ → Prop where
  | absent {start : ℕ} (h : memchr 13 (src.drop start) = none) : HeaderLoop src start 1 none
  | found {start rel : ℕ} (h : memchr 13 (src.drop start) = some rel)
    (hsep : SepAt src (start + rel)) : HeaderLoop src start 1 (some (start + rel))
  | skip {start rel turns : ℕ} {r : Option ℕ} (h : memchr 13 (src.drop start) = some rel)
    (hsep : ¬ SepAt src (start + rel)) (rest : HeaderLoop src (start + rel + 1) turns r) :
    HeaderLoop src start (turns + 1) r

theorem HeaderLoop.unique {src : Bytes} {start turns turns' : ℕ} {r r' : Option ℕ}
    (h : HeaderLoop src start turns r) (h' : HeaderLoop src start turns' r') : r = r' := by
  induction h generalizing turns' with
  | absent hcr =>
    cases h' with
    | absent => rfl
    | found hcr' | skip hcr' => cases hcr.symm.trans hcr'
  | found hcr hsep =>
    cases h' with
    | absent hcr' => cases hcr.symm.trans hcr'
    | found hcr' =>
      obtain rfl := Option.some.inj (hcr.symm.trans hcr')
      rfl
    | skip hcr' hsep' =>
      obtain rfl := Option.some.inj (hcr.symm.trans hcr')
      exact absurd hsep hsep'
  | skip hcr hsep _ ih =>
    cases h' with
    | absent hcr' => cases hcr.symm.trans hcr'
    | found hcr' hsep' =>
      obtain rfl := Option.some.inj (hcr.symm.trans hcr')
      exact absurd hsep' hsep
    | skip hcr' _ rest' =>
      obtain rfl := Option.some.inj (hcr.symm.trans hcr')
      exact ih rest'

/-- Each turn moves the offset behind a carriage return, so the fuel is not used up. -/
theorem exists_headerLoop (src : Bytes) (fuel start : ℕ) (hfuel : src.length ≤ fuel + start) :
    ∃ turns ≤ fuel + 1, HeaderLoop src start turns (findHeaderEndFrom src (fuel + 1) start) := by
  induction fuel generalizing start with
  | zero =>
    have hnil : src.drop start = [] := List.drop_of_length_le (by omega)
    have hcr : memchr 13 (src.drop start) = none := by
      rw [hnil]
      rfl
    rw [findHeaderEndFrom, hcr]
    exact ⟨1, le_rfl, .absent hcr⟩
  | succ fuel ih =>
    rw [findHeaderEndFrom]
    cases hcr : memchr 13 (src.drop start) with
    | none => exact ⟨1, by omega, .absent hcr⟩
    | some rel =>
      dsimp only
      split_ifs with hpre
      · exact ⟨1, by omega, .found hcr (List.isPrefixOf_iff_prefix.1 hpre)⟩
      · obtain ⟨turns, hle, hloop⟩ := ih (start + rel + 1) (by omega)
        refine ⟨turns + 1, by omega, .skip hcr (fun hsep => hpre ?_) hloop⟩
        exact List.isPrefixOf_iff_prefix.2 hsep

/-- The search ends within one turn a byte, and one; it finds the least offset of a separator, or that
there is none; and what it has found stays when bytes are appended. -/
theorem findHeaderEnd_least (src : Bytes) :
    (∃ turns ≤ src.length + 1, HeaderLoop src 0 turns (findHeaderEnd src)) ∧
      (∀ turns r, HeaderLoop src 0 turns r → r = findHeaderEnd src) ∧
      (∀ i, findHeaderEnd src = some i ↔ SepAt src i ∧ ∀ j < i, ¬ SepAt src j) ∧
      (findHeaderEnd src = none ↔ ∀ j, ¬ SepAt src j) ∧
      ∀ i t, findHeaderEnd src = some i → findHeaderEnd (src ++ t) = some i := by
  obtain ⟨turns, hle, hloop⟩ := exists_headerLoop src src.length 0 le_rfl
  refine ⟨⟨turns, hle, hloop⟩, fun turns r h => h.unique hloop,
    fun i => findHeaderEnd_eq_some_iff, findHeaderEnd_eq_none_iff, fun i t h => ?_⟩
  have hlen := (findHeaderEnd_eq_some_iff.1 h).1.lt
  have happend := findHeaderEnd_take_append h hlen t
  rwa [List.take_length] at happend

/-- A stray carriage return before the separator. -/
example : findHeaderEnd [13, 13, 10, 13, 10] = some 1 := by decide

theorem findHeaderEnd_take_eq_none {src : Bytes} {i k : ℕ} (h : findHeaderEnd src = some i)
    (hk : k < i + 4) : findHeaderEnd (src.take k) = none := by
  obtain ⟨hi, hlt⟩ := findHeaderEnd_eq_some_iff.1 h
  refine findHeaderEnd_eq_none_iff.2 fun j hj => ?_
  have hlen := hj.lt
  rw [List.length_take] at hlen
  exact hlt j (by omega) hj.of_take

theorem sepAt_append_right {pre src : Bytes} {i : ℕ} :
    SepAt (pre ++ src) (pre.length + i) ↔ SepAt src i := by
  rw [SepAt, List.drop_length_add_append]
  exact Iff.rfl

theorem SepAt.getElem?_add_two {src : Bytes} {i : ℕ} (h : SepAt src i) :
    src[i + 2]? = some 13 := by
  obtain ⟨u, hu⟩ := h
  have := congrArg (fun l : Bytes => l[2]?) hu
  simpa using this.symm

/-! ## Header lines -/

/-- A header `name:value`, neither of which can be mistaken for a line end or for another colon. -/
structure Header where
  name : Bytes
  value : Bytes
  name_ne : name ≠ []
  name_clean : colon ∉ name ∧ 13 ∉ name ∧ lf ∉ name
  value_clean : 13 ∉ value ∧ lf ∉ value

namespace Header

def line (header : Header) : Bytes := header.name ++ colon :: header.value

/-- The name is `content-length`, up to ASCII case. -/
def isContentLength (header : Header) : Bool :=
  eqIgnoreAsciiCase header.name (ascii "content-length")

/-- The value is the numeral of `n`, which may stand between blanks. -/
def Declares (header : Header) (n : ℕ) : Prop :=
  ∃ before after, (∀ b ∈ before, IsBlank b) ∧ (∀ b ∈ after, IsBlank b) ∧
    header.value = before ++ decimal n ++ after

/-- The value is, up to white space around it, an optional `+` and at least one digit, of a value
below `2 ^ w`. -/
def IsUsize (w : ℕ) (header : Header) : Prop :=
  ∃ s ds, header.value = toUtf8 s ∧ (trim s = ds ∨ trim s = '+' :: ds) ∧ ds ≠ [] ∧
    (∀ c ∈ ds, c.isDigit) ∧ Nat.ofDigitChars 10 ds 0 < 2 ^ w

variable (header : Header)

theorem notMem_line : 13 ∉ header.line ∧ lf ∉ header.line := by
  obtain ⟨-, hcr, hlf⟩ := header.name_clean
  obtain ⟨hcr', hlf'⟩ := header.value_clean
  have hcolon : (13 : UInt8) ≠ colon ∧ lf ≠ colon := by decide
  unfold line
  exact ⟨by simp [hcr, hcr', hcolon], by simp [hlf, hlf', hcolon]⟩

theorem line_ne_nil : header.line ≠ [] := by simp [line]

theorem line_getElem?_zero (t : Bytes) : (header.line ++ t)[0]? ≠ some 13 := by
  rw [List.getElem?_append_left (List.length_pos_iff.2 header.line_ne_nil)]
  exact fun h => header.notMem_line.1 (List.mem_of_getElem? h)

theorem memchr_colon : memchr colon header.line = some header.name.length :=
  memchr_append_of_notMem header.name_clean.1

end Header

/-- The lines of a block, joined by CRLF. -/
def block (headers : List Header) : Bytes := [13, lf].intercalate (headers.map Header.line)

theorem block_cons (header : Header) {headers : List Header} (h : headers ≠ []) :
    block (header :: headers) = header.line ++ 13 :: lf :: block headers := by
  rw [block, List.map_cons, List.intercalate_cons_of_ne_nil (by simpa using h), List.append_assoc]
  rfl

theorem block_singleton (header : Header) : block [header] = header.line := by
  simp [block]

theorem block_getElem?_zero {headers : List Header} (h : headers ≠ []) (t : Bytes) :
    (block headers ++ t)[0]? ≠ some 13 := by
  cases headers with
  | nil => exact absurd rfl h
  | cons header headers =>
    by_cases hrest : headers = []
    · subst hrest
      rw [block_singleton]
      exact header.line_getElem?_zero t
    · rw [block_cons header hrest, List.append_assoc]
      exact header.line_getElem?_zero _

theorem not_sepAt_line (header : Header) (t : Bytes) {j : ℕ} (hj : j < header.line.length) :
    ¬ SepAt (header.line ++ t) j := by
  intro hsep
  have hcr := hsep.getElem?
  rw [List.getElem?_append_left hj] at hcr
  exact header.notMem_line.1 (List.mem_of_getElem? hcr)

/-- No separator begins in a block. -/
theorem not_sepAt_block {headers : List Header} (h : headers ≠ []) (t : Bytes) {j : ℕ}
    (hj : j < (block headers).length) : ¬ SepAt (block headers ++ t) j := by
  induction headers generalizing j with
  | nil => exact absurd rfl h
  | cons header headers ih =>
    by_cases hrest : headers = []
    · subst hrest
      rw [block_singleton] at hj ⊢
      exact not_sepAt_line header t hj
    · rw [block_cons header hrest] at hj ⊢
      rw [List.append_assoc]
      by_cases hline : j < header.line.length
      · exact not_sepAt_line header _ hline
      · obtain ⟨i, rfl⟩ : ∃ i, j = header.line.length + i := ⟨j - header.line.length, by omega⟩
        rw [List.length_append, List.length_cons, List.length_cons] at hj
        rw [sepAt_append_right]
        -- behind the line: at its CR, at its LF, or in the next lines
        rcases i with _ | _ | i
        · intro hsep
          exact block_getElem?_zero hrest t hsep.getElem?_add_two
        · intro hsep
          have hlf : some lf = some 13 := hsep.getElem?
          exact absurd hlf (by decide)
        · intro hsep
          have happend : (13 :: lf :: block headers) ++ t = [13, lf] ++ (block headers ++ t) := rfl
          rw [happend, show i + 1 + 1 = [(13 : UInt8), lf].length + i by simp; omega,
            sepAt_append_right] at hsep
          exact ih hrest (by omega) hsep

theorem findHeaderEnd_block {headers : List Header} (h : headers ≠ []) (t : Bytes) :
    findHeaderEnd (block headers ++ crlfcrlf ++ t) = some (block headers).length := by
  rw [List.append_assoc]
  refine findHeaderEnd_eq_some_iff.2 ⟨?_, fun j hj => not_sepAt_block h _ hj⟩
  rw [SepAt, List.drop_left]
  exact List.prefix_append _ _

/-! ## Cutting a block into lines -/

theorem stripCr_concat (line : Bytes) : stripCr (line ++ [13]) = line := by
  rw [stripCr, if_pos List.getLast?_concat, List.dropLast_concat]

/-- The lines of a block are cut as they were joined. -/
theorem splitCrlf_block {headers : List Header} (h : headers ≠ []) :
    splitCrlf (block headers) = headers.map Header.line := by
  induction headers with
  | nil => exact absurd rfl h
  | cons header headers ih =>
    have hne := header.line_ne_nil
    have hlf : lf ∉ header.line := header.notMem_line.2
    have hcr : header.line.getLast? ≠ some 13 :=
      fun hlast => header.notMem_line.1 (List.mem_of_getLast? hlast)
    by_cases hrest : headers = []
    · subst hrest
      have hstrip : stripCr header.line = header.line := if_neg hcr
      rw [block_singleton, splitCrlf, List.splitOn_eq_singleton hlf]
      simp [hstrip, hne]
    · have hlf' : lf ∉ header.line ++ [13] := by
        rw [List.mem_append, List.mem_singleton, not_or]
        exact ⟨hlf, by decide⟩
      rw [block_cons header hrest, List.append_cons, splitCrlf,
        List.splitOn_append_cons_self_of_not_mem hlf', List.map_cons, stripCr_concat,
        List.filter_cons_of_pos (by simpa using hne), ← splitCrlf, ih hrest, List.map_cons]

/-! ## Scanning a block -/

namespace ContentLength

variable {w : ℕ}

/-- The value of a header as the scan reads it. -/
def valueOf (w : ℕ) (header : Header) : Option ℕ :=
  (fromUtf8 header.value).bind fun v => parseUsize w (trim v)

theorem scanHeaders_line (header : Header) (lines : List Bytes) (contentLen : Option ℕ) :
    scanHeaders w (header.line :: lines) contentLen =
      if header.isContentLength then
        match valueOf w header with
        | none => .error (.frame "invalid content-length value")
        | some parsed => scanHeaders w lines (some parsed)
      else scanHeaders w lines contentLen := by
  have hname : header.line.take header.name.length = header.name := List.take_left
  have hvalue : header.line.drop (header.name.length + 1) = header.value := by
    rw [Header.line, List.append_cons, List.drop_left' (by simp)]
  rw [scanHeaders, header.memchr_colon]
  dsimp only
  rw [hname, hvalue]
  rfl

theorem scanHeaders_filter (headers : List Header) (contentLen : Option ℕ) :
    scanHeaders w (headers.map Header.line) contentLen =
      scanHeaders w ((headers.filter Header.isContentLength).map Header.line) contentLen := by
  induction headers generalizing contentLen with
  | nil => rfl
  | cons header headers ih =>
    rw [List.map_cons, scanHeaders_line]
    by_cases h : header.isContentLength
    · rw [if_pos h, List.filter_cons_of_pos h, List.map_cons, scanHeaders_line, if_pos h]
      cases valueOf w header with
      | none => rfl
      | some parsed => exact ih (some parsed)
    · rw [if_neg h, List.filter_cons_of_neg h, ih]

/-- A header with the name whose value is not read is an error. -/
theorem scanHeaders_eq_error {headers : List Header} {header : Header} (hmem : header ∈ headers)
    (hname : header.isContentLength) (hvalue : valueOf w header = none) (contentLen : Option ℕ) :
    ∃ e, scanHeaders w (headers.map Header.line) contentLen = .error e := by
  induction headers generalizing contentLen with
  | nil => exact absurd hmem List.not_mem_nil
  | cons first headers ih =>
    rw [List.map_cons, scanHeaders_line]
    rcases List.mem_cons.1 hmem with rfl | hmem
    · rw [if_pos hname, hvalue]
      exact ⟨_, rfl⟩
    · split_ifs with hfirst
      · cases valueOf w first with
        | none => exact ⟨_, rfl⟩
        | some parsed => exact ih hmem (some parsed)
      · exact ih hmem contentLen

theorem valueOf_of_declares {header : Header} {n : ℕ} (h : header.Declares n) (hn : n < 2 ^ w) :
    valueOf w header = some n := by
  obtain ⟨before, after, hbefore, hafter, hvalue⟩ := h
  rw [valueOf, hvalue]
  exact parseUsize_trim_of_isBlank hn hbefore hafter

theorem valueOf_eq_none_iff {header : Header} : valueOf w header = none ↔ ¬ header.IsUsize w := by
  constructor
  · rintro hnone ⟨s, ds, hvalue, hds, hne, hdigits, hlt⟩
    rw [valueOf, hvalue, fromUtf8_toUtf8, Option.bind_some,
      parseUsize_eq_some_iff.2 ⟨ds, hds, hne, hdigits, hlt, rfl⟩] at hnone
    cases hnone
  · intro h
    cases hvalue : valueOf w header with
    | none => rfl
    | some n =>
      obtain ⟨s, hs, hparse⟩ := Option.bind_eq_some_iff.1 hvalue
      obtain ⟨ds, hds, hne, hdigits, hlt, -⟩ := parseUsize_eq_some_iff.1 hparse
      exact absurd ⟨s, ds, fromUtf8_eq_some_iff.1 hs, hds, hne, hdigits, hlt⟩ h

end ContentLength

end Jasonrpc
