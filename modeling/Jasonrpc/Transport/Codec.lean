import Jasonrpc.Lib.Incremental
import Jasonrpc.Transport.Headers

/-!
# The codecs as incremental decoders

Each codec of the crate is a lawful incremental decoder: a frame takes at least one byte and at
most those there, and what is read off the front depends on these bytes only.  For each codec this
file also says which frames are clean, that is, never rejected while they are still growing: all
frames of `Delimited`, the netstrings whose length prefix has at most 20 bytes, and the
`Content-Length` frames whose header block stays within `maxHeaderBytes` until its separator is
complete.
-/

namespace Jasonrpc

open ByteString Incremental

/-! ## Delimited -/

namespace Delimited

variable {d : UInt8}

theorem decode_eq_some_iff {src m : Bytes} {n : ℕ} :
    decode d src = .ok (some (m, n)) ↔
      ∃ post, src = m ++ d :: post ∧ d ∉ m ∧ n = m.length + 1 := by
  unfold decode
  constructor
  · intro h
    split at h
    · rename_i idx hidx
      obtain ⟨pre, post, rfl, hd, rfl⟩ := memchr_eq_some_iff.1 hidx
      rw [List.take_left] at h
      obtain ⟨rfl, rfl⟩ := Prod.mk.inj (Option.some.inj (Except.ok.inj h))
      exact ⟨post, rfl, hd, rfl⟩
    · simp at h
  · rintro ⟨post, rfl, hd, rfl⟩
    simp [memchr_append_of_notMem hd]

theorem decode_eq_none {src : Bytes} (h : d ∉ src) : decode d src = .ok none := by
  rw [decode, memchr_eq_none_iff.2 h]

theorem decode_ne_error (src : Bytes) (e : TransportError) : decode d src ≠ .error e := by
  unfold decode
  split <;> simp

theorem lawful : Lawful (decode d) where
  bounds h := by
    obtain ⟨post, rfl, -, rfl⟩ := decode_eq_some_iff.1 h
    simp
  front t h := by
    obtain ⟨post, rfl, hd, rfl⟩ := decode_eq_some_iff.1 h
    exact decode_eq_some_iff.2 ⟨t, by simp [List.take_append], hd, rfl⟩

theorem infix_take {src m : Bytes} {n : ℕ} (h : decode d src = .ok (some (m, n))) :
    m <:+: src.take n := by
  obtain ⟨post, rfl, -, rfl⟩ := decode_eq_some_iff.1 h
  refine ⟨[], [d], ?_⟩
  rw [List.append_cons m d post, List.take_left' (by rw [List.length_append, List.length_singleton])]
  rfl

theorem clean {src m : Bytes} {n : ℕ} (h : decode d src = .ok (some (m, n))) :
    Clean (decode d) src n := by
  obtain ⟨post, rfl, hd, rfl⟩ := decode_eq_some_iff.1 h
  intro k hk
  apply decode_eq_none
  rw [List.take_append_of_le_length (by omega)]
  exact fun hmem => hd (List.mem_of_mem_take hmem)

/-- Nothing is guarded. -/
def guard : Guard UInt8 := ⟨0, fun _ => some 0⟩

theorem guarded : Guarded (decode d) guard := by
  intro s m n h
  exact ⟨0, Nat.zero_le n, rfl, fun k hk => ⟨fun _ => clean h k hk, fun _ hk => absurd hk (by omega)⟩⟩

end Delimited

/-! ## Netstring -/

namespace Netstring

variable {w : ℕ}

theorem decode_of_notMem {src : Bytes} (h : colon ∉ src) :
    decode w src =
      if src.length > 20 then .error (.frame "netstring length prefix too long") else .ok none := by
  rw [decode, memchr_eq_none_iff.2 h]

/-- Once the colon has arrived, the verdict is a function of the prefix and the bytes behind it. -/
theorem decode_append_colon {pre post : Bytes} (h : colon ∉ pre) :
    decode w (pre ++ colon :: post) =
      match (fromUtf8 pre).bind (parseUsize w) with
      | none => .error (.frame "invalid netstring length")
      | some len =>
        if pre.length + 1 + len < 2 ^ w then
          if hp : post.length ≤ len then .ok none
          else if post.get ⟨len, Nat.lt_of_not_le hp⟩ ≠ comma then
            .error (.frame "netstring missing trailing comma")
          else .ok (some (post.take len, pre.length + 1 + len + 1))
        else .error (.frame "netstring length overflows usize") := by
  rw [decode, memchr_append_of_notMem h]
  simp only [List.take_left]
  split
  · rename_i hp
    rw [hp]
  · rename_i len hp
    rw [hp]
    dsimp only
    by_cases hlt : pre.length + 1 + len < 2 ^ w
    · have h1 : pre.length + 1 < 2 ^ w := by omega
      have hlen : (pre ++ colon :: post).length ≤ pre.length + 1 + len ↔ post.length ≤ len := by
        rw [List.length_append, List.length_cons]
        omega
      rw [checkedAdd_of_lt h1, Option.bind_some, checkedAdd_of_lt hlt, if_pos hlt]
      dsimp only
      by_cases hle : post.length ≤ len
      · rw [dif_pos hle, dif_pos (hlen.2 hle)]
      · have hget (hi : pre.length + 1 + len < (pre ++ colon :: post).length) :
            (pre ++ colon :: post)[pre.length + 1 + len] = post[len] := by
          rw [List.getElem_append_right (by omega)]
          simp [show pre.length + 1 + len - pre.length = len + 1 by omega]
        have hdrop : ((pre ++ colon :: post).take (pre.length + 1 + len)).drop (pre.length + 1) =
            post.take len := by
          rw [List.drop_take, show pre ++ colon :: post = (pre ++ [colon]) ++ post by simp,
            List.drop_left' (by simp), show pre.length + 1 + len - (pre.length + 1) = len by omega]
        rw [dif_neg hle, dif_neg (fun h => hle (hlen.1 h))]
        simp only [hget, hdrop, List.get_eq_getElem]
    · rw [if_neg hlt]
      split
      · rfl
      · rename_i fin hfin
        obtain ⟨v, hv, hfin⟩ := Option.bind_eq_some_iff.1 hfin
        obtain ⟨-, rfl⟩ := checkedAdd_eq_some_iff.1 hv
        exact absurd (checkedAdd_eq_some_iff.1 hfin).1 hlt

/-- What is read off the front: a numeral, a colon, as many bytes as it says, and a comma. -/
theorem decode_eq_some_iff {src m : Bytes} {n : ℕ} :
    decode w src = .ok (some (m, n)) ↔
      ∃ pre post, src = pre ++ colon :: m ++ comma :: post ∧ colon ∉ pre ∧
        (fromUtf8 pre).bind (parseUsize w) = some m.length ∧
        pre.length + 1 + m.length < 2 ^ w ∧ n = pre.length + 1 + m.length + 1 := by
  constructor
  · intro h
    by_cases hc : colon ∈ src
    · obtain ⟨pre, post, rfl, hpre⟩ := List.eq_append_cons_of_mem hc
      rw [decode_append_colon hpre] at h
      split at h
      · simp at h
      · rename_i len hlen
        simp only [ne_eq, List.get_eq_getElem] at h
        split_ifs at h with hlt hle hcomma
        · simp at h
        · obtain ⟨rfl, rfl⟩ := Prod.mk.inj (Option.some.inj (Except.ok.inj h))
          rw [not_le] at hle
          have hm : (post.take len).length = len := List.length_take_of_le hle.le
          refine ⟨pre, post.drop (len + 1), ?_, hpre, by rw [hm]; exact hlen, by rwa [hm], by rw [hm]⟩
          rw [← hcomma, List.append_assoc, List.cons_append, List.cons_getElem_drop_succ,
            List.take_append_drop]
    · rw [decode_of_notMem hc] at h
      split_ifs at h
      simp at h
  · rintro ⟨pre, post, rfl, hpre, hlen, hlt, rfl⟩
    rw [List.append_assoc, List.cons_append, decode_append_colon hpre, hlen]
    simp [hlt]

theorem lawful : Lawful (decode w) where
  bounds h := by
    obtain ⟨pre, post, rfl, -, -, -, rfl⟩ := decode_eq_some_iff.1 h
    simp
    omega
  front t h := by
    obtain ⟨pre, post, rfl, hpre, hlen, hlt, rfl⟩ := decode_eq_some_iff.1 h
    refine decode_eq_some_iff.2 ⟨pre, t, ?_, hpre, hlen, hlt, rfl⟩
    rw [List.append_cons _ comma post, List.append_cons _ comma t,
      List.take_left' (by simp; omega)]

theorem infix_take {src m : Bytes} {n : ℕ} (h : decode w src = .ok (some (m, n))) :
    m <:+: src.take n := by
  obtain ⟨pre, post, rfl, -, -, -, rfl⟩ := decode_eq_some_iff.1 h
  refine ⟨pre ++ [colon], [comma], ?_⟩
  rw [List.append_cons _ comma post, List.take_left' (by simp; omega)]
  simp

/-- The length prefix and its colon must be there before the buffer exceeds 20 bytes. -/
def guard : Guard UInt8 := ⟨20, fun src => (memchr colon src).map (· + 1)⟩

theorem guarded : Guarded (decode w) guard := by
  intro s m n h
  obtain ⟨pre, post, rfl, hpre, hlen, hlt, rfl⟩ := decode_eq_some_iff.1 h
  refine ⟨pre.length + 1, by omega, ?_, fun k hk => ?_⟩
  · rw [List.append_assoc, List.cons_append]
    exact congrArg (Option.map (· + 1)) (memchr_append_of_notMem hpre)
  · rw [List.append_assoc, List.cons_append]
    rcases Nat.lt_or_ge pre.length k with hlt' | hge
    · refine ⟨fun _ => ?_, fun _ hk => absurd hk (by omega)⟩
      obtain ⟨j, rfl⟩ : ∃ j, k = pre.length + (j + 1) := ⟨k - pre.length - 1, by omega⟩
      rw [List.take_length_add_append, List.take_succ_cons, decode_append_colon hpre, hlen]
      dsimp only
      rw [if_pos hlt, dif_pos (by rw [List.length_take]; omega)]
    · rw [List.take_append_of_le_length hge,
        decode_of_notMem fun hm => hpre (List.mem_of_mem_take hm), List.length_take,
        min_eq_left hge]
      refine ⟨fun hk => if_neg ?_, fun hk _ => ⟨_, if_pos hk⟩⟩
      dsimp only [guard] at hk
      omega

theorem encode_eq (p : Bytes) :
    (Netstring w).encode p = decimal p.length ++ colon :: p ++ [comma] := by
  simp [Framing.encode, Netstring, encodeInto]

theorem decode_encode_append {p : Bytes} (h : ((Netstring w).encode p).length < 2 ^ w) (t : Bytes) :
    decode w ((Netstring w).encode p ++ t) = .ok (some (p, ((Netstring w).encode p).length)) := by
  rw [encode_eq] at h ⊢
  simp only [List.length_append, List.length_cons, List.length_nil] at h ⊢
  refine decode_eq_some_iff.2 ⟨decimal p.length, t, by simp, notMem_decimal (by decide) _,
    parseUsize_decimal (by omega), by omega, by omega⟩

theorem headLen_encode_append (p t : Bytes) :
    guard.headLen ((Netstring w).encode p ++ t) = some ((decimal p.length).length + 1) := by
  rw [encode_eq, List.append_assoc, List.append_assoc, List.cons_append]
  exact congrArg (Option.map (· + 1))
    (memchr_append_of_notMem (notMem_decimal (by decide) _))

end Netstring

/-! ## Content-Length -/

namespace ContentLength

variable {w : ℕ}

/-- The end offset of the payload that a header block declares, `headerEnd` being its start. -/
def payloadEnd (w : ℕ) (headers : Bytes) (headerEnd : ℕ) : Except TransportError ℕ :=
  match scanHeaders w (splitCrlf headers) none with
  | .error e => .error e
  | .ok none => .error (.frame "missing content-length header")
  | .ok (some len) =>
    match checkedAdd w headerEnd len with
    | none => .error (.frame "content-length overflows usize")
    | some fin => .ok fin

theorem le_of_payloadEnd {headers : Bytes} {headerEnd fin : ℕ}
    (h : payloadEnd w headers headerEnd = .ok fin) : headerEnd ≤ fin := by
  unfold payloadEnd at h
  split at h
  · cases h
  · cases h
  · split at h
    · cases h
    · rename_i hadd
      obtain rfl := Except.ok.inj h
      obtain ⟨-, rfl⟩ := checkedAdd_eq_some_iff.1 hadd
      omega

theorem decode_of_none {src : Bytes} (h : findHeaderEnd src = none) :
    decode w src =
      if src.length > maxHeaderBytes then
        .error (.frame "content-length header block too long")
      else .ok none := by
  rw [decode, h]

theorem decode_of_some {src : Bytes} {sep : ℕ} (h : findHeaderEnd src = some sep) :
    decode w src =
      match payloadEnd w (src.take sep) (sep + 4) with
      | .error e => .error e
      | .ok fin =>
        if src.length < fin then .ok none
        else .ok (some ((src.take fin).drop (sep + 4), fin)) := by
  rw [decode, h, payloadEnd]
  dsimp only
  rcases scanHeaders w (splitCrlf (src.take sep)) none with e | (_ | len)
  · rfl
  · rfl
  · dsimp only
    rcases checkedAdd w (sep + 4) len with _ | fin <;> rfl

theorem decode_eq_some_iff {src m : Bytes} {n : ℕ} :
    decode w src = .ok (some (m, n)) ↔
      ∃ sep, findHeaderEnd src = some sep ∧ payloadEnd w (src.take sep) (sep + 4) = .ok n ∧
        n ≤ src.length ∧ m = (src.take n).drop (sep + 4) := by
  constructor
  · intro h
    cases hsep : findHeaderEnd src with
    | none =>
      rw [decode_of_none hsep] at h
      split_ifs at h
      simp at h
    | some sep =>
      rw [decode_of_some hsep] at h
      refine ⟨sep, rfl, ?_⟩
      split at h
      · cases h
      · rename_i fin hfin
        split_ifs at h with hlt
        · simp at h
        · obtain ⟨rfl, rfl⟩ := Prod.mk.inj (Option.some.inj (Except.ok.inj h))
          exact ⟨hfin, not_lt.1 hlt, rfl⟩
  · rintro ⟨sep, hsep, hend, hle, rfl⟩
    rw [decode_of_some hsep, hend]
    exact if_neg (not_lt.2 hle)

theorem lawful : Lawful (decode w) where
  bounds h := by
    obtain ⟨sep, -, hend, hle, -⟩ := decode_eq_some_iff.1 h
    have := le_of_payloadEnd hend
    omega
  front {s m n} t h := by
    obtain ⟨sep, hsep, hend, hle, rfl⟩ := decode_eq_some_iff.1 h
    have hn := le_of_payloadEnd hend
    have hlen : (s.take n).length = n := List.length_take_of_le hle
    refine decode_eq_some_iff.2 ⟨sep, findHeaderEnd_take_append hsep hn t, ?_, ?_, ?_⟩
    · rwa [List.take_append_of_le_length (by omega), List.take_take, min_eq_left (by omega)]
    · rw [List.length_append]
      omega
    · rw [List.take_left' hlen]

theorem infix_take {src m : Bytes} {n : ℕ} (h : decode w src = .ok (some (m, n))) :
    m <:+: src.take n := by
  obtain ⟨sep, -, -, -, rfl⟩ := decode_eq_some_iff.1 h
  exact (List.drop_suffix _ _).isInfix

/-- The header block and its separator must be there before the buffer exceeds the cap. -/
def guard : Guard UInt8 := ⟨maxHeaderBytes, fun src => (findHeaderEnd src).map (· + 4)⟩

theorem guarded : Guarded (decode w) guard := by
  intro s m n h
  obtain ⟨sep, hsep, hend, hle, rfl⟩ := decode_eq_some_iff.1 h
  refine ⟨sep + 4, le_of_payloadEnd hend, ?_, fun k hk => ?_⟩
  · exact congrArg (Option.map (· + 4)) hsep
  · by_cases hlt : k < sep + 4
    · rw [decode_of_none (findHeaderEnd_take_eq_none hsep hlt), List.length_take,
        min_eq_left (by omega)]
      refine ⟨fun hk => if_neg ?_, fun hk _ => ⟨_, if_pos hk⟩⟩
      dsimp only [guard] at hk
      omega
    · refine ⟨fun _ => ?_, fun _ hk => absurd hk hlt⟩
      have hfound := findHeaderEnd_take_append hsep (not_lt.1 hlt) []
      rw [List.append_nil] at hfound
      rw [decode_of_some hfound, List.take_take, min_eq_left (by omega), hend]
      exact if_pos (by rw [List.length_take]; omega)

/-- The end of the payload that a block declares in its one header with the name. -/
theorem payloadEnd_block {headers : List Header} {header : Header} {n headerEnd : ℕ}
    (hfilter : headers.filter Header.isContentLength = [header]) (hvalue : header.Declares n)
    (h : headerEnd + n < 2 ^ w) : payloadEnd w (block headers) headerEnd = .ok (headerEnd + n) := by
  have hne : headers ≠ [] := by
    rintro rfl
    cases hfilter
  have hname : header.isContentLength :=
    (List.mem_filter.1 (hfilter ▸ List.mem_singleton_self header)).2
  have hscan : scanHeaders w (headers.map Header.line) none = .ok (some n) := by
    rw [scanHeaders_filter, hfilter, List.map_singleton, scanHeaders_line, if_pos hname,
      valueOf_of_declares hvalue (by omega)]
    rfl
  rw [payloadEnd, splitCrlf_block hne, hscan]
  dsimp only
  rw [checkedAdd_of_lt h]

/-- A payload behind its headers is read off the front of a buffer. -/
theorem decode_block {headers : List Header} {header : Header} {p : Bytes}
    (hfilter : headers.filter Header.isContentLength = [header])
    (hvalue : header.Declares p.length) (rest : Bytes)
    (h : (block headers).length + 4 + p.length < 2 ^ w) :
    decode w (block headers ++ crlfcrlf ++ p ++ rest) =
      .ok (some (p, (block headers).length + 4 + p.length)) := by
  have hne : headers ≠ [] := by
    rintro rfl
    cases hfilter
  have hlen : (block headers ++ crlfcrlf ++ p).length = (block headers).length + 4 + p.length := by
    rw [List.length_append, List.length_append]
    rfl
  refine decode_eq_some_iff.2 ⟨(block headers).length, ?_, ?_, ?_, ?_⟩
  · rw [List.append_assoc _ p rest]
    exact findHeaderEnd_block hne _
  · rw [List.append_assoc, List.append_assoc, List.take_left]
    exact payloadEnd_block hfilter hvalue h
  · rw [List.length_append, hlen]
    omega
  · rw [← hlen, List.take_left]
    exact (List.drop_left' (by rw [List.length_append]; rfl)).symm

/-- The header line of an encoded payload, without its line end. -/
def headerLine (n : ℕ) : Bytes := ascii "Content-Length: " ++ decimal n

theorem encode_eq (p : Bytes) :
    (ContentLength w).encode p = headerLine p.length ++ crlfcrlf ++ p := by
  simp [Framing.encode, ContentLength, encodeInto, headerLine]

/-- The header of an encoded payload. -/
def lengthHeader (n : ℕ) : Header where
  name := ascii "Content-Length"
  value := 32 :: decimal n
  name_ne := by decide
  name_clean := by decide
  value_clean := by
    have hcr : (13 : UInt8) ∉ decimal n := notMem_decimal (by decide) n
    have hlf : lf ∉ decimal n := notMem_decimal (by decide) n
    have hspace : (13 : UInt8) ≠ 32 ∧ lf ≠ 32 := by decide
    exact ⟨by simp [hcr, hspace], by simp [hlf, hspace]⟩

theorem block_lengthHeader (n : ℕ) : block [lengthHeader n] = headerLine n := by
  rw [block_singleton]
  exact List.append_cons (ascii "Content-Length") colon (32 :: decimal n)

theorem declares_lengthHeader (n : ℕ) : (lengthHeader n).Declares n :=
  ⟨[32], [], by simp [IsBlank], by simp, (List.append_nil _).symm⟩

theorem decode_encode_append {p : Bytes} (h : ((ContentLength w).encode p).length < 2 ^ w)
    (t : Bytes) : decode w ((ContentLength w).encode p ++ t) =
      .ok (some (p, ((ContentLength w).encode p).length)) := by
  have hlen : (headerLine p.length ++ crlfcrlf ++ p).length =
      (headerLine p.length).length + 4 + p.length := by
    simp only [List.length_append]
    rfl
  rw [encode_eq, hlen] at h ⊢
  rw [← block_lengthHeader] at h ⊢
  exact decode_block rfl (declares_lengthHeader p.length) t h

theorem headLen_encode_append (p t : Bytes) :
    guard.headLen ((ContentLength w).encode p ++ t) = some ((headerLine p.length).length + 4) := by
  rw [encode_eq, List.append_assoc _ p t, ← block_lengthHeader]
  exact congrArg (Option.map (· + 4)) (findHeaderEnd_block (List.cons_ne_nil _ _) _)

/-- Other headers than the one of the name `Content-Length` do not matter; a block without it, or in
which its value is no numeral of a `usize`, is rejected. -/
theorem decode_headers (w : ℕ) (headers : List Header) (hne : headers ≠ []) (p rest : Bytes) :
    (∀ header, headers.filter Header.isContentLength = [header] → header.Declares p.length →
        (block headers ++ crlfcrlf ++ p ++ rest).length < 2 ^ w →
      (ContentLength w).decode (block headers ++ crlfcrlf ++ p ++ rest) =
        .ok (some (p, (block headers ++ crlfcrlf ++ p).length))) ∧
    ((∀ header ∈ headers, ¬ header.isContentLength) ∨
        (∃ header ∈ headers, header.isContentLength ∧ ¬ header.IsUsize w) →
      ∃ e, (ContentLength w).decode (block headers ++ crlfcrlf ++ p ++ rest) = .error e) := by
  constructor
  · intro header hfilter hvalue hlt
    have hlen : (block headers ++ crlfcrlf ++ p).length = (block headers).length + 4 + p.length := by
      rw [List.length_append, List.length_append]
      rfl
    rw [List.length_append, hlen] at hlt
    rw [hlen]
    exact decode_block hfilter hvalue rest (by omega)
  · intro hbad
    have hfound : findHeaderEnd (block headers ++ crlfcrlf ++ p ++ rest) =
        some (block headers).length := by
      rw [List.append_assoc _ p rest]
      exact findHeaderEnd_block hne _
    have hblock : (block headers ++ crlfcrlf ++ p ++ rest).take (block headers).length =
        block headers := by
      rw [List.append_assoc, List.append_assoc, List.take_left]
    have hend : ∃ e, payloadEnd w (block headers) ((block headers).length + 4) = .error e := by
      rw [payloadEnd, splitCrlf_block hne]
      rcases hbad with hnone | ⟨header, hmem, hname, hvalue⟩
      · have hfilter : headers.filter Header.isContentLength = [] := List.filter_eq_nil_iff.2 hnone
        rw [scanHeaders_filter, hfilter]
        exact ⟨_, rfl⟩
      · obtain ⟨e, he⟩ :=
          scanHeaders_eq_error hmem hname (valueOf_eq_none_iff.2 hvalue) none
        rw [he]
        exact ⟨e, rfl⟩
    obtain ⟨e, he⟩ := hend
    refine ⟨e, ?_⟩
    show decode w _ = _
    rw [decode_of_some hfound, hblock, he]

/-- `Content-Type:x`. -/
def typeHeader : Header :=
  ⟨ascii "Content-Type", ascii "x", by decide, by decide, by decide⟩

/-- `CONTENT-length: 4` with a tab behind the numeral. -/
def mixedCaseHeader : Header :=
  ⟨ascii "CONTENT-length", ascii " 4\t", by decide, by decide, by decide⟩

/-- A payload that looks like a separator, behind two headers. -/
theorem decode_headers_mixedCase :
    (ContentLength 64).decode (block [typeHeader, mixedCaseHeader] ++ crlfcrlf ++ crlfcrlf ++
      ascii "Con") = .ok (some (crlfcrlf, 42)) := by
  refine (decode_headers 64 [typeHeader, mixedCaseHeader] (by decide) crlfcrlf (ascii "Con")).1
    mixedCaseHeader rfl ⟨[32], [9], ?_, ?_, rfl⟩ (by decide)
  · simp [IsBlank]
  · simp [IsBlank]

end ContentLength

/-! ## All codecs -/

namespace Codec

theorem lawful (w : ℕ) (c : Codec) : Lawful (c.framing w).decode := by
  cases c with
  | delimited d => exact Delimited.lawful
  | newline => exact Delimited.lawful
  | netstring => exact Netstring.lawful
  | contentLength => exact ContentLength.lawful

theorem infix_take {w : ℕ} {c : Codec} {src m : Bytes} {n : ℕ}
    (h : (c.framing w).decode src = .ok (some (m, n))) : m <:+: src.take n := by
  cases c with
  | delimited d => exact Delimited.infix_take h
  | newline => exact Delimited.infix_take h
  | netstring => exact Netstring.infix_take h
  | contentLength => exact ContentLength.infix_take h

/-- The `n` bytes at the front of `src` are a frame with payload `m`, which the bytes behind it do not
take part in, and no part of which is a frame already. -/
structure IsFrame (f : Framing) (src m : Bytes) (n : ℕ) : Prop where
  pos : 1 ≤ n
  le : n ≤ src.length
  infix_take : m <:+: src.take n
  decode_append (t : Bytes) : f.decode (src.take n ++ t) = .ok (some (m, n))
  decode_take {k : ℕ} : k < n → ∀ m' n', f.decode (src.take k) ≠ .ok (some (m', n'))

/-- Frame boundaries are local and prefix-free, for every codec. -/
theorem isFrame_of_decode (w : ℕ) (c : Codec) (src m : Bytes) (n : ℕ)
    (h : (c.framing w).decode src = .ok (some (m, n))) : IsFrame (c.framing w) src m n where
  pos := ((lawful w c).bounds h).1
  le := ((lawful w c).bounds h).2
  infix_take := infix_take h
  decode_append t := (lawful w c).front t h
  decode_take hk := (lawful w c).stuck_take h hk

/-- The netstring of `hi` in front of a part of another one. -/
theorem isFrame_of_decode_hi :
    IsFrame (Netstring 64) (ascii "2:hi,3:a") (ascii "hi") 5 :=
  isFrame_of_decode 64 .netstring _ _ _ (by decide)

/-- How far a codec waits for the head of a frame. -/
def guard : Codec → Guard UInt8
  | delimited _ => Delimited.guard
  | newline => Delimited.guard
  | netstring => Netstring.guard
  | contentLength => ContentLength.guard

theorem guarded (w : ℕ) (c : Codec) : Guarded (c.framing w).decode c.guard := by
  cases c with
  | delimited d => exact Delimited.guarded
  | newline => exact Delimited.guarded
  | netstring => exact Netstring.guarded
  | contentLength => exact ContentLength.guarded

theorem decode_ne_error {w : ℕ} {c : Codec} (ht : (c.framing w).takeOnEof = true) (src : Bytes)
    (e : TransportError) : (c.framing w).decode src ≠ .error e := by
  cases c with
  | delimited d => exact Delimited.decode_ne_error src e
  | newline => exact Delimited.decode_ne_error src e
  | netstring => cases ht
  | contentLength => cases ht

/-- An encoded payload is a clean frame at the front of every buffer, for the codecs that write the
length of a payload in front of it. -/
theorem decode_encode_append {w : ℕ} {c : Codec} (hc : c = netstring ∨ c = contentLength) {p : Bytes}
    (hw : w ≤ 64) (h : ((c.framing w).encode p).length < 2 ^ w) (t : Bytes) :
    (c.framing w).decode ((c.framing w).encode p ++ t) =
        .ok (some (p, ((c.framing w).encode p).length)) ∧
      Clean (c.framing w).decode ((c.framing w).encode p ++ t)
        ((c.framing w).encode p).length := by
  have hpow : 2 ^ w ≤ 10 ^ 20 := (Nat.pow_le_pow_right (by decide) hw).trans (by norm_num)
  rcases hc with rfl | rfl
  · have hdec := Netstring.decode_encode_append h t
    refine ⟨hdec, (Netstring.guarded.clean_iff hdec (Netstring.headLen_encode_append p t)).2 ?_⟩
    have hp : p.length < 10 ^ 20 := by
      rw [framing, Netstring.encode_eq] at h
      simp only [List.length_append, List.length_cons] at h
      omega
    exact Nat.succ_le_succ (length_decimal_le (by decide) hp)
  · have hdec := ContentLength.decode_encode_append h t
    refine ⟨hdec,
      (ContentLength.guarded.clean_iff hdec (ContentLength.headLen_encode_append p t)).2 ?_⟩
    have hp : p.length < 10 ^ 20 := by
      rw [framing, ContentLength.encode_eq] at h
      simp only [List.length_append] at h
      omega
    have hlen : (ContentLength.headerLine p.length).length = 16 + (decimal p.length).length :=
      List.length_append
    have hdigits := length_decimal_le (by decide) hp
    change _ ≤ 8 * 1024 + 1
    omega

end Codec

end Jasonrpc
