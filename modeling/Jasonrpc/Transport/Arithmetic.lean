import Jasonrpc.Lib.Word
import Jasonrpc.Transport.Codec

/-!
# Length arithmetic

The length-prefixed codecs as programs on `w`-bit words, with each addition that the source leaves
unchecked, each slice and each index an operation that can go wrong.  On buffers below `2 ^ w` bytes
none does, so these programs compute what the codecs compute on numbers (`decodeChecked_eq`); and a
length that does not fit a word, or whose payload would end behind the last word, is an error
(`length_arithmetic`).
-/

namespace Jasonrpc

open ByteString Word

/-! ## Netstring -/

namespace Netstring

variable {w : ℕ}

/-- `Netstring::decode` on words. -/
def decodeChecked (w : ℕ) (src : Bytes) :
    Option (Except TransportError (Option (Bytes × ℕ))) :=
  match memchr colon src with
  | none => do
    let limit ← word w 20
    if src.length > limit then return .error (.frame "netstring length prefix too long")
    else return .ok none
  | some col => do
    let numeral ← slice src 0 col
    match (fromUtf8 numeral).bind (parseUsize w) with
    | none => return .error (.frame "invalid netstring length")
    | some len =>
      match (checkedAdd w col 1).bind fun v => checkedAdd w v len with
      | none => return .error (.frame "netstring length overflows usize")
      | some fin =>
        if src.length ≤ fin then return .ok none
        else do
          let last ← src[fin]?
          if last ≠ comma then return .error (.frame "netstring missing trailing comma")
          else do
            let start ← word w (col + 1)
            let payload ← slice src start fin
            let consumed ← word w (fin + 1)
            return .ok (some (payload, consumed))

theorem decodeChecked_eq {src : Bytes} (hw : 20 < 2 ^ w) (hsrc : src.length < 2 ^ w) :
    decodeChecked w src = some (decode w src) := by
  unfold decodeChecked decode
  cases hcol : memchr colon src with
  | none =>
    dsimp only
    rw [bind_word hw]
    split_ifs <;> rfl
  | some col =>
    have hlt := lt_length_of_memchr hcol
    dsimp only
    rw [bind_slice_zero hlt.le]
    cases (fromUtf8 (src.take col)).bind (parseUsize w) with
    | none => rfl
    | some len =>
      dsimp only
      cases hend : (checkedAdd w col 1).bind fun v => checkedAdd w v len with
      | none => rfl
      | some fin =>
        obtain ⟨v, hv, hfin⟩ := Option.bind_eq_some_iff.1 hend
        obtain ⟨-, rfl⟩ := checkedAdd_eq_some_iff.1 hv
        obtain ⟨-, rfl⟩ := checkedAdd_eq_some_iff.1 hfin
        dsimp only
        by_cases hle : src.length ≤ col + 1 + len
        · rw [if_pos hle, dif_pos hle]
          rfl
        · rw [if_neg hle, dif_neg hle, bind_getElem? (not_le.1 hle)]
          by_cases hcomma : src[col + 1 + len] = comma
          · rw [if_neg (not_not.2 hcomma), if_neg (not_not.2 hcomma), bind_word (by omega),
              bind_slice (by omega) (by omega), bind_word (by omega)]
            rfl
          · rw [if_pos hcomma, if_pos hcomma]
            rfl

/-- The length is complete: it is a numeral of `len`, and its colon is at the offset `col`. -/
def Declares (src : Bytes) (col len : ℕ) : Prop :=
  memchr colon src = some col ∧ ∃ s, fromUtf8 (src.take col) = some s ∧ IsNumeral len s

/-- A payload that would end behind the last word is an error. -/
theorem decode_eq_error {src : Bytes} {col len : ℕ} (h : Declares src col len)
    (hlen : 2 ^ w ≤ col + 1 + len) : ∃ e, decode w src = .error e := by
  obtain ⟨hcol, s, hs, hnumeral⟩ := h
  rw [decode, hcol]
  dsimp only
  rw [hs, Option.bind_some, parseUsize_of_isNumeral hnumeral]
  split_ifs with hlt
  · have hadd : ((checkedAdd w col 1).bind fun v => checkedAdd w v len) = none := by
      rw [Option.bind_eq_none_iff]
      intro v hv
      obtain ⟨-, rfl⟩ := checkedAdd_eq_some_iff.1 hv
      exact if_neg (not_lt.2 hlen)
    dsimp only
    rw [hadd]
    exact ⟨_, rfl⟩
  · exact ⟨_, rfl⟩

end Netstring

/-! ## Content-Length -/

/-- The loop of `find_header_end` on words; it goes wrong, too, when `fuel` turns are not enough. -/
def findHeaderEndCheckedFrom (w : ℕ) (src : Bytes) : (fuel start : ℕ) → Option (Option ℕ)
  | 0, _ => none
  | fuel + 1, start => do
    let rest ← slice src start src.length
    match memchr 13 rest with
    | none => return none
    | some rel => do
      let i ← word w (start + rel)
      let tail ← slice src i src.length
      if crlfcrlf.isPrefixOf tail then return some i
      else do
        let next ← word w (i + 1)
        findHeaderEndCheckedFrom w src fuel next

/-- `find_header_end` on words. -/
def findHeaderEndChecked (w : ℕ) (src : Bytes) : Option (Option ℕ) :=
  findHeaderEndCheckedFrom w src (src.length + 1) 0

/-- The loop stays within the buffer, and each turn moves the offset. -/
theorem findHeaderEndCheckedFrom_eq {w : ℕ} {src : Bytes} (hsrc : src.length < 2 ^ w)
    (fuel start : ℕ) (hfuel : src.length < fuel + start) (hstart : start ≤ src.length) :
    findHeaderEndCheckedFrom w src fuel start = some (findHeaderEndFrom src fuel start) := by
  induction fuel generalizing start with
  | zero => omega
  | succ fuel ih =>
    rw [findHeaderEndCheckedFrom, findHeaderEndFrom, bind_slice_length hstart]
    cases hrel : memchr 13 (src.drop start) with
    | none => rfl
    | some rel =>
      have hlt := lt_length_of_memchr hrel
      rw [List.length_drop] at hlt
      dsimp only
      rw [bind_word (by omega), bind_slice_length (by omega)]
      split_ifs with hsep
      · rfl
      · rw [bind_word (by omega)]
        exact ih (start + rel + 1) (by omega) (by omega)

theorem findHeaderEndChecked_eq {w : ℕ} {src : Bytes} (hsrc : src.length < 2 ^ w) :
    findHeaderEndChecked w src = some (findHeaderEnd src) :=
  findHeaderEndCheckedFrom_eq hsrc _ _ (by omega) (Nat.zero_le _)

theorem length_stripCr_le (line : Bytes) : (stripCr line).length ≤ line.length := by
  unfold stripCr
  split_ifs
  · rw [List.length_dropLast]
    omega
  · exact le_rfl

theorem length_le_of_mem_splitCrlf {headers line : Bytes} (h : line ∈ splitCrlf headers) :
    line.length ≤ headers.length := by
  obtain ⟨part, hpart, rfl⟩ := List.mem_map.1 (List.mem_filter.1 h).1
  have hinfix := infix_intercalate hpart [lf]
  rw [List.intercalate_splitOn] at hinfix
  exact (length_stripCr_le part).trans hinfix.length_le

namespace ContentLength

variable {w : ℕ}

/-- The scan for `Content-Length` on words. -/
def scanHeadersChecked (w : ℕ) :
    List Bytes → Option ℕ → Option (Except TransportError (Option ℕ))
  | [], contentLen => return .ok contentLen
  | line :: lines, contentLen =>
    match memchr colon line with
    | none => return .error (.frame "malformed content-length header line")
    | some col => do
      let name ← slice line 0 col
      let start ← word w (col + 1)
      let value ← slice line start line.length
      if eqIgnoreAsciiCase name (ascii "content-length") then
        match (fromUtf8 value).bind fun v => parseUsize w (trim v) with
        | none => return .error (.frame "invalid content-length value")
        | some parsed => scanHeadersChecked w lines (some parsed)
      else scanHeadersChecked w lines contentLen

/-- `ContentLength::decode` on words. -/
def decodeChecked (w : ℕ) (src : Bytes) :
    Option (Except TransportError (Option (Bytes × ℕ))) := do
  match ← findHeaderEndChecked w src with
  | none => do
    let limit ← word w maxHeaderBytes
    if src.length > limit then return .error (.frame "content-length header block too long")
    else return .ok none
  | some sep => do
    let headerEnd ← word w (sep + 4)
    let headers ← slice src 0 sep
    match ← scanHeadersChecked w (splitCrlf headers) none with
    | .error e => return .error e
    | .ok none => return .error (.frame "missing content-length header")
    | .ok (some len) =>
      match checkedAdd w headerEnd len with
      | none => return .error (.frame "content-length overflows usize")
      | some fin =>
        if src.length < fin then return .ok none
        else do
          let payload ← slice src headerEnd fin
          return .ok (some (payload, fin))

theorem scanHeadersChecked_eq {lines : List Bytes} (hlines : ∀ line ∈ lines, line.length < 2 ^ w)
    (contentLen : Option ℕ) :
    scanHeadersChecked w lines contentLen = some (scanHeaders w lines contentLen) := by
  induction lines generalizing contentLen with
  | nil => rfl
  | cons line lines ih =>
    have hline := hlines line List.mem_cons_self
    have ih := ih fun line h => hlines line (List.mem_cons_of_mem _ h)
    rw [scanHeadersChecked, scanHeaders]
    cases hcol : memchr colon line with
    | none => rfl
    | some col =>
      have hlt := lt_length_of_memchr hcol
      dsimp only
      rw [bind_slice_zero hlt.le, bind_word (by omega), bind_slice_length (by omega)]
      split_ifs
      · cases (fromUtf8 (line.drop (col + 1))).bind fun v => parseUsize w (trim v) with
        | none => rfl
        | some parsed => exact ih (some parsed)
      · exact ih contentLen

theorem decodeChecked_eq {src : Bytes} (hw : maxHeaderBytes < 2 ^ w) (hsrc : src.length < 2 ^ w) :
    decodeChecked w src = some (decode w src) := by
  unfold decodeChecked decode
  rw [findHeaderEndChecked_eq hsrc, Option.bind_eq_bind, Option.bind_some]
  cases hsep : findHeaderEnd src with
  | none =>
    dsimp only
    rw [bind_word hw]
    split_ifs <;> rfl
  | some sep =>
    have hlen := (findHeaderEnd_eq_some_iff.1 hsep).1.lt
    have hlines : ∀ line ∈ splitCrlf (src.take sep), line.length < 2 ^ w := by
      intro line hline
      have := length_le_of_mem_splitCrlf hline
      rw [List.length_take] at this
      omega
    dsimp only
    rw [bind_word (by omega), bind_slice_zero (by omega), scanHeadersChecked_eq hlines,
      Option.bind_eq_bind, Option.bind_some]
    rcases scanHeaders w (splitCrlf (src.take sep)) none with e | _ | len
    · rfl
    · rfl
    · dsimp only
      cases hend : checkedAdd w (sep + 4) len with
      | none => rfl
      | some fin =>
        obtain ⟨-, rfl⟩ := checkedAdd_eq_some_iff.1 hend
        dsimp only
        split_ifs with hlt
        · rfl
        · rw [bind_slice (by omega) (by omega)]
          rfl

/-! ### Declared lengths -/

/-- The line is a header with the name `Content-Length`. -/
def IsNamed (line : Bytes) : Prop :=
  ∃ col, memchr colon line = some col ∧ eqIgnoreAsciiCase (line.take col) (ascii "content-length")

/-- The line is a header `Content-Length` whose value is, up to white space, a numeral of `len`. -/
def LineDeclares (line : Bytes) (len : ℕ) : Prop :=
  ∃ col, memchr colon line = some col ∧
    eqIgnoreAsciiCase (line.take col) (ascii "content-length") ∧
    ∃ s, fromUtf8 (line.drop (col + 1)) = some s ∧ IsNumeral len (trim s)

/-- The header block is complete, its separator at the offset `sep`, and one of its lines declares
the length `len`. -/
def Mentions (src : Bytes) (sep len : ℕ) : Prop :=
  findHeaderEnd src = some sep ∧ ∃ line ∈ splitCrlf (src.take sep), LineDeclares line len

/-- The header block is complete, its separator at the offset `sep`, and the last of its lines with
the name `Content-Length` declares the length `len`. -/
def Declares (src : Bytes) (sep len : ℕ) : Prop :=
  findHeaderEnd src = some sep ∧ ∃ before line after,
    splitCrlf (src.take sep) = before ++ line :: after ∧ LineDeclares line len ∧
      ∀ line ∈ after, ¬ IsNamed line

/-- A line that declares a length too wide stops the scan. -/
theorem scanHeaders_of_tooWide {lines : List Bytes} {line : Bytes} {len : ℕ} (hmem : line ∈ lines)
    (hline : LineDeclares line len) (hlen : 2 ^ w ≤ len) (contentLen : Option ℕ) :
    ∃ e, scanHeaders w lines contentLen = .error e := by
  induction lines generalizing contentLen with
  | nil => exact absurd hmem List.not_mem_nil
  | cons first lines ih =>
    rw [scanHeaders]
    rcases List.mem_cons.1 hmem with rfl | hmem
    · obtain ⟨col, hcol, hname, s, hs, hnumeral⟩ := hline
      rw [hcol]
      dsimp only
      rw [if_pos hname, hs, Option.bind_some, parseUsize_of_isNumeral hnumeral,
        if_neg (not_lt.2 hlen)]
      exact ⟨_, rfl⟩
    · cases memchr colon first with
      | none => exact ⟨_, rfl⟩
      | some col =>
        dsimp only
        split_ifs
        · cases (fromUtf8 (first.drop (col + 1))).bind fun v => parseUsize w (trim v) with
          | none => exact ⟨_, rfl⟩
          | some parsed => exact ih hmem (some parsed)
        · exact ih hmem contentLen

/-- Lines without the name leave the length that was read. -/
theorem scanHeaders_of_not_isNamed {lines : List Bytes} (h : ∀ line ∈ lines, ¬ IsNamed line)
    {contentLen got : Option ℕ} (hscan : scanHeaders w lines contentLen = .ok got) :
    got = contentLen := by
  induction lines with
  | nil => exact (Except.ok.inj hscan).symm
  | cons line lines ih =>
    rw [scanHeaders] at hscan
    cases hcol : memchr colon line with
    | none =>
      rw [hcol] at hscan
      cases hscan
    | some col =>
      have hname : ¬ eqIgnoreAsciiCase (line.take col) (ascii "content-length") :=
        fun hname => h line List.mem_cons_self ⟨col, hcol, hname⟩
      rw [hcol] at hscan
      dsimp only at hscan
      rw [if_neg hname] at hscan
      exact ih (fun line hline => h line (List.mem_cons_of_mem _ hline)) hscan

/-- The scan returns the last declared length, if it returns one. -/
theorem scanHeaders_of_declares {before after : List Bytes} {line : Bytes} {len : ℕ}
    (hline : LineDeclares line len) (hafter : ∀ line ∈ after, ¬ IsNamed line)
    {contentLen got : Option ℕ}
    (hscan : scanHeaders w (before ++ line :: after) contentLen = .ok got) : got = some len := by
  induction before generalizing contentLen with
  | nil =>
    obtain ⟨col, hcol, hname, s, hs, hnumeral⟩ := hline
    rw [List.nil_append, scanHeaders, hcol] at hscan
    dsimp only at hscan
    rw [if_pos hname, hs, Option.bind_some, parseUsize_of_isNumeral hnumeral] at hscan
    split_ifs at hscan
    exact scanHeaders_of_not_isNamed hafter hscan
  | cons first before ih =>
    rw [List.cons_append, scanHeaders] at hscan
    split at hscan
    · cases hscan
    · split_ifs at hscan
      · split at hscan
        · cases hscan
        · exact ih hscan
      · exact ih hscan

theorem decode_eq_error_of_scanHeaders {src : Bytes} {sep : ℕ} (hsep : findHeaderEnd src = some sep)
    (h : ∃ e, scanHeaders w (splitCrlf (src.take sep)) none = .error e) :
    ∃ e, decode w src = .error e := by
  obtain ⟨e, he⟩ := h
  rw [decode, hsep]
  dsimp only
  rw [he]
  exact ⟨e, rfl⟩

theorem decode_eq_error_of_mentions {src : Bytes} {sep len : ℕ} (h : Mentions src sep len)
    (hlen : 2 ^ w ≤ len) : ∃ e, decode w src = .error e := by
  obtain ⟨hsep, line, hmem, hline⟩ := h
  exact decode_eq_error_of_scanHeaders hsep (scanHeaders_of_tooWide hmem hline hlen none)

theorem decode_eq_error_of_declares {src : Bytes} {sep len : ℕ} (h : Declares src sep len)
    (hlen : 2 ^ w ≤ sep + 4 + len) : ∃ e, decode w src = .error e := by
  obtain ⟨hsep, before, line, after, hlines, hline, hafter⟩ := h
  cases hscan : scanHeaders w (splitCrlf (src.take sep)) none with
  | error e => exact decode_eq_error_of_scanHeaders hsep ⟨e, hscan⟩
  | ok got =>
    rw [decode, hsep]
    dsimp only
    rw [hlines] at hscan
    obtain rfl := scanHeaders_of_declares hline hafter hscan
    have hadd : checkedAdd w (sep + 4) len = none := if_neg (not_lt.2 hlen)
    rw [hlines, hscan]
    dsimp only
    rw [hadd]
    exact ⟨_, rfl⟩

end ContentLength

/-- On words of 16 bits or more, and buffers below half of their range, no unchecked addition of the
length-prefixed decoders wraps and every slice and index is in range; and a length that does not fit a
word, or whose payload would not end within one, is an error. -/
theorem length_arithmetic (w : ℕ) (hw : 16 ≤ w) (src : Bytes) (hsrc : src.length < 2 ^ (w - 1)) :
    (Netstring.decodeChecked w src = some (Netstring.decode w src) ∧
      ContentLength.decodeChecked w src = some (ContentLength.decode w src)) ∧
    (∀ col len, Netstring.Declares src col len → (2 ^ w ≤ len ∨ 2 ^ w ≤ col + 1 + len) →
      ∃ e, Netstring.decode w src = .error e) ∧
    (∀ sep len, ContentLength.Mentions src sep len → 2 ^ w ≤ len →
      ∃ e, ContentLength.decode w src = .error e) ∧
    (∀ sep len, ContentLength.Declares src sep len → 2 ^ w ≤ sep + 4 + len →
      ∃ e, ContentLength.decode w src = .error e) := by
  have hword : 2 ^ 16 ≤ 2 ^ w := Nat.pow_le_pow_right (by omega) hw
  have hmax : ContentLength.maxHeaderBytes < 2 ^ 16 := by decide
  have hlt : src.length < 2 ^ w := hsrc.trans_le (Nat.pow_le_pow_right (by omega) (by omega))
  refine ⟨⟨Netstring.decodeChecked_eq (by omega) hlt, ContentLength.decodeChecked_eq (by omega) hlt⟩,
    fun col len h hlen => Netstring.decode_eq_error h (by omega),
    fun sep len h hlen => ContentLength.decode_eq_error_of_mentions h hlen,
    fun sep len h hlen => ContentLength.decode_eq_error_of_declares h hlen⟩

/-- The longest length of a 16-bit word, whose payload ends behind the last word. -/
theorem length_arithmetic_65535 :
    (Netstring.decodeChecked 16 (ascii "65535:") = some (Netstring.decode 16 (ascii "65535:")) ∧
      ∃ e, Netstring.decode 16 (ascii "65535:") = .error e) ∧
    ∃ e, ContentLength.decode 16 (ascii "Content-Length: 65535\r\n\r\n") = .error e := by
  have hnumeral : IsNumeral 65535 "65535".toList :=
    ⟨"65535".toList, .inl rfl, by decide, List.all_eq_true.1 (by decide), by decide⟩
  obtain ⟨⟨hchecked, -⟩, herror, -, -⟩ := length_arithmetic 16 le_rfl (ascii "65535:") (by decide)
  have hnet : Netstring.Declares (ascii "65535:") 5 65535 :=
    ⟨by decide, "65535".toList, fromUtf8_eq_some_iff.2 (by decide), hnumeral⟩
  refine ⟨⟨hchecked, herror 5 65535 hnet (.inr (by decide))⟩, ?_⟩
  obtain ⟨-, -, -, herror⟩ :=
    length_arithmetic 16 le_rfl (ascii "Content-Length: 65535\r\n\r\n") (by decide)
  refine herror 21 65535 ⟨by decide, [], ascii "Content-Length: 65535", [], by decide, ?_, by simp⟩
    (by decide)
  exact ⟨14, by decide, by decide, " 65535".toList, fromUtf8_eq_some_iff.2 (by decide), hnumeral⟩

end Jasonrpc
