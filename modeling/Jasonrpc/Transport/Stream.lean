import Jasonrpc.Transport.Codec
import Jasonrpc.Transport.ReadCore

/-!
# What a reader makes of a stream

A stream arrives in non-empty chunks of at most `chunkSize` bytes and ends at end-of-file.  The
reader calls `recv` until the first call that brings no payload.  Frames that are not rejected while
they grow are delivered however the stream is split (`delivers_of_cleanCuts`), so encoded payloads
arrive intact (`yields_encode`).  The verdict on a whole stream depends on the split just when the
head of a frame is longer than its codec waits for, but not longer by a whole chunk
(`splitIndependent_iff`).
-/

namespace Jasonrpc

open ByteString Incremental

/-- `chunks` is a split of `s` into non-empty reads. -/
def Splits (s : Bytes) (chunks : List Chunk) : Prop :=
  (∀ chunk ∈ chunks, chunk.bytes ≠ []) ∧ chunks.flatMap Chunk.bytes = s

theorem eq_nil_of_flatMap_eq_nil {chunks : List Chunk} (hne : ∀ chunk ∈ chunks, chunk.bytes ≠ [])
    (h : chunks.flatMap Chunk.bytes = []) : chunks = [] := by
  cases chunks with
  | nil => rfl
  | cons chunk chunks =>
    rw [List.flatMap_cons, List.append_eq_nil_iff] at h
    exact absurd h.1 (hne chunk (by simp))

/-- The reads by which `chunks` arrive before `rest`. -/
def arrive (chunks : List Chunk) (rest : List ReadOutcome) : List ReadOutcome :=
  chunks.map .ready ++ rest

/-- A reader without a frame-size cap. -/
def ReadCore.uncapped (readTimeout : Option Duration) (readBuf : Bytes) : ReadCore :=
  { readBuf, readTimeout, maxFrameSize := 0 }

/-- Successive calls of `recv` return the payloads `ms`. -/
inductive Delivers (f : Framing) : ReadCore → List ReadOutcome → List Bytes → ReadCore →
    List ReadOutcome → Prop
  | nil (core : ReadCore) (reads : List ReadOutcome) : Delivers f core reads [] core reads
  | cons {core core₁ core₂ : ReadCore} {reads reads₁ reads₂ : List ReadOutcome} {m wire : Bytes}
      {ms : List Bytes} (head : core.recv f reads = some ⟨⟨.ok (some m), core₁, reads₁⟩, wire⟩)
      (tail : Delivers f core₁ reads₁ ms core₂ reads₂) :
      Delivers f core reads (m :: ms) core₂ reads₂

/-- Calls of `recv` up to the first that brings no payload return the payloads `ms`, and the last
one the error, or `none` at the end of the stream. -/
inductive Yields (f : Framing) : ReadCore → List ReadOutcome → List Bytes → Option TransportError →
    Prop
  | closed {core core' : ReadCore} {reads reads' : List ReadOutcome} {wire : Bytes}
      (last : core.recv f reads = some ⟨⟨.ok none, core', reads'⟩, wire⟩) :
      Yields f core reads [] none
  | failed {core core' : ReadCore} {reads reads' : List ReadOutcome} {wire : Bytes}
      {e : TransportError} (last : core.recv f reads = some ⟨⟨.error e, core', reads'⟩, wire⟩) :
      Yields f core reads [] (some e)
  | payload {core core' : ReadCore} {reads reads' : List ReadOutcome} {m wire : Bytes}
      {ms : List Bytes} {ending : Option TransportError}
      (head : core.recv f reads = some ⟨⟨.ok (some m), core', reads'⟩, wire⟩)
      (tail : Yields f core' reads' ms ending) : Yields f core reads (m :: ms) ending

variable {f : Framing} {core core' : ReadCore} {reads reads' : List ReadOutcome}
  {ms ps : List Bytes} {ending : Option TransportError}

theorem Delivers.yields (h : Delivers f core reads ms core' reads')
    (hy : Yields f core' reads' ps ending) : Yields f core reads (ms ++ ps) ending := by
  induction h with
  | nil core reads => exact hy
  | cons head tail ih => exact .payload head (ih hy)

theorem Delivers.of_yields (h : Delivers f core reads ms core' reads')
    (hy : Yields f core reads ps ending) :
    ∃ qs, ps = ms ++ qs ∧ Yields f core' reads' qs ending := by
  induction h generalizing ps with
  | nil core reads => exact ⟨ps, rfl, hy⟩
  | cons head tail ih =>
    cases hy with
    | closed last =>
      rw [head] at last
      cases last
    | failed last =>
      rw [head] at last
      cases last
    | payload head' tail' =>
      rw [head] at head'
      cases head'
      obtain ⟨qs, rfl, hq⟩ := ih tail'
      exact ⟨qs, rfl, hq⟩

theorem Delivers.append {core₁ core₂ : ReadCore} {reads₁ reads₂ : List ReadOutcome}
    {ms ms' : List Bytes} (h : Delivers f core reads ms core₁ reads₁)
    (h' : Delivers f core₁ reads₁ ms' core₂ reads₂) :
    Delivers f core reads (ms ++ ms') core₂ reads₂ := by
  induction h with
  | nil core reads => exact h'
  | cons head tail ih => exact .cons head (ih h')

/-! ## Reading without a cap -/

namespace ReadCore

variable {readTimeout : Option Duration}

theorem not_full_uncapped (readTimeout : Option Duration) (b : Bytes) : ¬ (uncapped readTimeout b).Full :=
  fun h => absurd h.1 (Nat.lt_irrefl 0)

theorem not_exceeds_uncapped (readTimeout : Option Duration) (b b' : Bytes) : ¬ (uncapped readTimeout b).Exceeds b' :=
  fun h => absurd h.1 (Nat.lt_irrefl 0)

theorem recv_uncapped_of_frame {b m : Bytes} {n : ℕ} (h : f.decode b = .ok (some (m, n)))
    (reads : List ReadOutcome) :
    (uncapped readTimeout b).recv f reads =
      some ⟨⟨.ok (some m), uncapped readTimeout (b.drop n), reads⟩, b.take n⟩ :=
  recv_of_recvExit (.frame h)

theorem recv_uncapped_of_error {b : Bytes} {e : TransportError} (h : f.decode b = .error e)
    (reads : List ReadOutcome) :
    (uncapped readTimeout b).recv f reads =
      some ⟨⟨.error e, uncapped readTimeout b, reads⟩, []⟩ :=
  recv_of_recvExit (.rejected h)

theorem recv_uncapped_ready {b : Bytes} {chunk : Chunk} (hdec : f.decode b = .ok none)
    (hchunk : chunk.bytes ≠ []) (reads : List ReadOutcome) :
    (uncapped readTimeout b).recv f (.ready chunk :: reads) =
      (uncapped readTimeout (b ++ chunk.bytes)).recv f reads :=
  recv_ready reads hdec (not_full_uncapped _ b) (not_exceeds_uncapped _ b _) hchunk

theorem recv_grow {b : Bytes} {chunks : List Chunk} (hne : ∀ chunk ∈ chunks, chunk.bytes ≠ [])
    (h : ∀ k, b.length ≤ k → k < b.length + (chunks.flatMap Chunk.bytes).length →
      f.decode ((b ++ chunks.flatMap Chunk.bytes).take k) = .ok none) (rest : List ReadOutcome) :
    (uncapped readTimeout b).recv f (arrive chunks rest) =
      (uncapped readTimeout (b ++ chunks.flatMap Chunk.bytes)).recv f rest := by
  induction chunks generalizing b with
  | nil =>
    rw [List.flatMap_nil, List.append_nil]
    rfl
  | cons chunk chunks ih =>
    rw [List.flatMap_cons] at h ⊢
    have hchunk := hne chunk (by simp)
    have hpos := List.length_pos_iff.2 hchunk
    have hb := h b.length le_rfl (by rw [List.length_append]; omega)
    rw [List.take_left] at hb
    have hready : (uncapped readTimeout b).recv f (arrive (chunk :: chunks) rest) =
        (uncapped readTimeout (b ++ chunk.bytes)).recv f (arrive chunks rest) :=
      recv_uncapped_ready hb hchunk _
    rw [hready, ih (fun c hc => hne c (by simp [hc])), List.append_assoc]
    intro k hk hlt
    rw [List.length_append] at hk hlt
    rw [List.append_assoc]
    exact h k (by omega) (by rw [List.length_append]; omega)

theorem recv_grow_all {b r : Bytes} {chunks : List Chunk}
    (hdec : ∀ k, f.decode (r.take k) = .ok none) (hne : ∀ chunk ∈ chunks, chunk.bytes ≠ [])
    (hs : b ++ chunks.flatMap Chunk.bytes = r) (rest : List ReadOutcome) :
    (uncapped readTimeout b).recv f (arrive chunks rest) =
      (uncapped readTimeout r).recv f rest := by
  rw [recv_grow hne (by rw [hs]; exact fun k _ _ => hdec k), hs]

theorem recv_eof_nil (hdec : f.decode [] = .ok none) (rest : List ReadOutcome) :
    (uncapped readTimeout []).recv f (.eof :: rest) =
      some ⟨⟨.ok none, uncapped readTimeout [], rest⟩, []⟩ :=
  recv_of_recvExit (.closed hdec
    (fill_of_fillExit (.ok _ (not_full_uncapped _ []) (not_exceeds_uncapped _ [] _))) rfl)

theorem recv_eof_taken {b : Bytes} (hdec : f.decode b = .ok none) (hb : b ≠ [])
    (heof : f.takeOnEof = true) (rest : List ReadOutcome) :
    (uncapped readTimeout b).recv f (.eof :: rest) =
      some ⟨⟨.ok (some b), uncapped readTimeout [], rest⟩, b⟩ := by
  have hexit : FillExit (uncapped readTimeout b) (.eof :: rest) _ :=
    .ok _ (not_full_uncapped _ b) (not_exceeds_uncapped _ b _)
  have hfill := fill_of_fillExit hexit
  rw [show (uncapped readTimeout b).readBuf ++ [] = b from List.append_nil b] at hfill
  exact recv_of_recvExit (.taken hdec hfill hb heof)

theorem recv_eof_midFrame {b : Bytes} (hdec : f.decode b = .ok none) (hb : b ≠ [])
    (heof : f.takeOnEof = false) (rest : List ReadOutcome) :
    (uncapped readTimeout b).recv f (.eof :: rest) =
      some ⟨⟨.error (.frame "stream closed mid-frame"), uncapped readTimeout b, rest⟩, []⟩ := by
  have hexit : FillExit (uncapped readTimeout b) (.eof :: rest) _ :=
    .ok _ (not_full_uncapped _ b) (not_exceeds_uncapped _ b _)
  have hfill := fill_of_fillExit hexit
  rw [show (uncapped readTimeout b).readBuf ++ [] = b from List.append_nil b] at hfill
  exact recv_of_recvExit (.midFrame hdec hfill hb heof)

end ReadCore

/-! ## Streams of clean frames -/

section Clean

variable {readTimeout : Option Duration} (law : Lawful f.decode)
include law

open ReadCore

/-- A clean frame at the front of what is buffered and still to come is delivered, whatever chunks
it comes in.  The bytes buffered behind it are of the last chunk, or were there before. -/
theorem recv_clean_frame {s b m : Bytes} {n : ℕ} {chunks : List Chunk}
    (h : f.decode s = .ok (some (m, n))) (hclean : Clean f.decode s n)
    (hne : ∀ chunk ∈ chunks, chunk.bytes ≠ []) (hs : b ++ chunks.flatMap Chunk.bytes = s) :
    ∃ b' chunks', (∀ chunk ∈ chunks', chunk.bytes ≠ []) ∧
      b' ++ chunks'.flatMap Chunk.bytes = s.drop n ∧ b'.length ≤ max b.length chunkSize ∧
      ∀ rest, ∃ wire, (uncapped readTimeout b).recv f (arrive chunks rest) =
        some ⟨⟨.ok (some m), uncapped readTimeout b', arrive chunks' rest⟩, wire⟩ := by
  have hn := law.bounds h
  -- Chunks are read while `b` is shorter than the frame; the bound on what is left over is
  -- relative to the frame's end so that it survives the induction.
  suffices hgoal : ∃ b' chunks', (∀ chunk ∈ chunks', chunk.bytes ≠ []) ∧
      b' ++ chunks'.flatMap Chunk.bytes = s.drop n ∧
      b'.length + n ≤ max b.length (n + chunkSize) ∧
      ∀ rest, ∃ wire, (uncapped readTimeout b).recv f (arrive chunks rest) =
        some ⟨⟨.ok (some m), uncapped readTimeout b', arrive chunks' rest⟩, wire⟩ by
    obtain ⟨b', chunks', hne', hs', hlen, hrecv⟩ := hgoal
    exact ⟨b', chunks', hne', hs', by omega, hrecv⟩
  induction chunks generalizing b with
  | nil =>
    obtain rfl : b = s := by rw [← hs, List.flatMap_nil, List.append_nil]
    refine ⟨b.drop n, [], by simp, by simp, by rw [List.length_drop]; omega, fun rest => ?_⟩
    exact ⟨_, recv_uncapped_of_frame h _⟩
  | cons chunk chunks ih =>
    rcases Nat.lt_or_ge b.length n with hlt | hge
    · have hdec : f.decode b = .ok none := by
        have := hclean b.length hlt
        rwa [← hs, List.take_left] at this
      have hchunk := hne chunk (by simp)
      obtain ⟨b', chunks', hne', hs', hlen, hrecv⟩ := @ih (b ++ chunk.bytes)
        (fun c hc => hne c (by simp [hc])) (by rw [← hs, List.flatMap_cons, List.append_assoc])
      have hle := chunk.le
      rw [List.length_append] at hlen
      refine ⟨b', chunks', hne', hs', by omega, fun rest => ?_⟩
      obtain ⟨wire, hwire⟩ := hrecv rest
      refine ⟨wire, ?_⟩
      rw [← hwire]
      exact recv_uncapped_ready hdec hchunk _
    · have hdec : f.decode b = .ok (some (m, n)) := by
        have htake : s.take n ++ b.drop n = b := by
          rw [← hs, List.take_append_of_le_length hge, List.take_append_drop]
        have := law.front (b.drop n) h
        rwa [htake] at this
      refine ⟨b.drop n, chunk :: chunks, hne, ?_, by rw [List.length_drop]; omega, fun rest => ?_⟩
      · rw [← hs, List.drop_append_of_le_length hge]
      · exact ⟨_, recv_uncapped_of_frame hdec _⟩

theorem delivers_of_cleanCuts {s r b : Bytes} {chunks : List Chunk}
    (h : CleanCuts f.decode s ms r) (hne : ∀ chunk ∈ chunks, chunk.bytes ≠ [])
    (hs : b ++ chunks.flatMap Chunk.bytes = s) (hb : b.length ≤ chunkSize) :
    ∃ b' chunks', (∀ chunk ∈ chunks', chunk.bytes ≠ []) ∧
      b' ++ chunks'.flatMap Chunk.bytes = r ∧ b'.length ≤ chunkSize ∧
      ∀ rest, Delivers f (uncapped readTimeout b) (arrive chunks rest) ms
        (uncapped readTimeout b') (arrive chunks' rest) := by
  induction h generalizing b chunks with
  | nil s => exact ⟨b, chunks, hne, hs, hb, fun rest => .nil _ _⟩
  | cons head clean _ ih =>
    obtain ⟨b₁, chunks₁, hne₁, hs₁, hlen₁, hrecv⟩ := recv_clean_frame law head clean hne hs
    obtain ⟨b₂, chunks₂, hne₂, hs₂, hlen₂, hdel⟩ := ih hne₁ hs₁ (by omega)
    refine ⟨b₂, chunks₂, hne₂, hs₂, hlen₂, fun rest => ?_⟩
    obtain ⟨wire, hwire⟩ := hrecv rest
    exact .cons hwire (hdel rest)

theorem Splits.delivers {s r : Bytes} {chunks : List Chunk} (hs : Splits s chunks)
    (h : CleanCuts f.decode s ms r) (readTimeout : Option Duration) :
    ∃ b' chunks', (∀ chunk ∈ chunks', chunk.bytes ≠ []) ∧
      b' ++ chunks'.flatMap Chunk.bytes = r ∧ b'.length ≤ chunkSize ∧
      ∀ rest, Delivers f (uncapped readTimeout []) (arrive chunks rest) ms
        (uncapped readTimeout b') (arrive chunks' rest) :=
  delivers_of_cleanCuts law h hs.1 hs.2 (Nat.zero_le _)

end Clean

/-! ## The end of a stream -/

section Ending

variable {readTimeout : Option Duration}

open ReadCore

/-- A stream at its end, which a further read reports again. -/
abbrev atEof : List ReadOutcome := [.eof, .eof]

theorem yields_nil (hdec : f.decode [] = .ok none) (rest : List ReadOutcome) :
    Yields f (uncapped readTimeout []) (.eof :: rest) [] none :=
  .closed (recv_eof_nil hdec _)

theorem yields_taken {r b : Bytes} {chunks : List Chunk} (hdec : ∀ k, f.decode (r.take k) = .ok none)
    (heof : f.takeOnEof = true) (hr : r ≠ []) (hne : ∀ chunk ∈ chunks, chunk.bytes ≠ [])
    (hs : b ++ chunks.flatMap Chunk.bytes = r) :
    Yields f (uncapped readTimeout b) (arrive chunks atEof) [r] none := by
  have hr' := hdec r.length
  rw [List.take_length] at hr'
  exact .payload ((recv_grow_all hdec hne hs _).trans (recv_eof_taken hr' hr heof _))
    (yields_nil (by simpa using hdec 0) _)

theorem yields_midFrame {r b : Bytes} {chunks : List Chunk}
    (hdec : ∀ k, f.decode (r.take k) = .ok none) (heof : f.takeOnEof = false) (hr : r ≠ [])
    (hne : ∀ chunk ∈ chunks, chunk.bytes ≠ []) (hs : b ++ chunks.flatMap Chunk.bytes = r) :
    Yields f (uncapped readTimeout b) (arrive chunks atEof) []
      (some (.frame "stream closed mid-frame")) := by
  have hr' := hdec r.length
  rw [List.take_length] at hr'
  exact .failed ((recv_grow_all hdec hne hs _).trans (recv_eof_midFrame hr' hr heof _))

/-- A rest whose buffered part is never read as a frame is an error: it is rejected, or the stream
is closed mid-frame.  `P` holds of the lengths of the buffer that the reads can lead to. -/
theorem yields_error {r b : Bytes} {chunks : List Chunk} {P : ℕ → Prop}
    (hP : ∀ k, P k → (∃ e, f.decode (r.take k) = .error e) ∨
      (f.decode (r.take k) = .ok none ∧ ∀ j ≤ chunkSize, P (k + j)))
    (heof : f.takeOnEof = false) (hr : r ≠ []) (hne : ∀ chunk ∈ chunks, chunk.bytes ≠ [])
    (hs : b ++ chunks.flatMap Chunk.bytes = r) (hb : P b.length) :
    ∃ e, Yields f (uncapped readTimeout b) (arrive chunks atEof) [] (some e) := by
  induction chunks generalizing b with
  | nil =>
    obtain rfl : b = r := by rw [← hs, List.flatMap_nil, List.append_nil]
    have := hP _ hb
    rw [List.take_length] at this
    rcases this with ⟨e, hdec⟩ | ⟨hdec, -⟩
    · exact ⟨e, .failed (recv_uncapped_of_error hdec _)⟩
    · exact ⟨_, .failed (recv_eof_midFrame hdec hr heof _)⟩
  | cons chunk chunks ih =>
    have := hP _ hb
    rw [← hs, List.take_left] at this
    rcases this with ⟨e, hdec⟩ | ⟨hdec, hnext⟩
    · exact ⟨e, .failed (recv_uncapped_of_error hdec _)⟩
    · have hchunk := hne chunk (by simp)
      have hready : (uncapped readTimeout b).recv f (arrive (chunk :: chunks) atEof) =
          (uncapped readTimeout (b ++ chunk.bytes)).recv f (arrive chunks atEof) :=
        recv_uncapped_ready hdec hchunk _
      obtain ⟨e, hy⟩ := @ih (b ++ chunk.bytes) (fun c hc => hne c (by simp [hc]))
        (by rw [← hs, List.flatMap_cons, List.append_assoc])
        (by rw [List.length_append]; exact hnext _ chunk.le)
      cases hy with
      | failed last => exact ⟨e, .failed (hready.trans last)⟩

end Ending

/-! ## Encoded payloads -/

theorem decode_nil (w : ℕ) (c : Codec) : (c.framing w).decode [] = .ok none := by
  cases c <;> rfl

section Encoded

variable {w : ℕ} {c : Codec} (hc : c = .netstring ∨ c = .contentLength) (hw : w ≤ 64)
include hc hw

theorem cleanCuts_encode (ps : List Bytes)
    (hps : ∀ p ∈ ps, ((c.framing w).encode p).length < 2 ^ w) (t : Bytes) :
    CleanCuts (c.framing w).decode (ps.flatMap (c.framing w).encode ++ t) ps t := by
  induction ps with
  | nil => exact .nil t
  | cons p ps ih =>
    rw [List.flatMap_cons, List.append_assoc]
    obtain ⟨hdec, hclean⟩ := Codec.decode_encode_append hc hw (hps p (by simp))
      (ps.flatMap (c.framing w).encode ++ t)
    refine .cons hdec hclean ?_
    rw [List.drop_left]
    exact ih fun q hq => hps q (by simp [hq])

/-- A proper prefix of an encoded payload is never rejected and holds no frame. -/
theorem decode_take_of_encode {q t : Bytes} (hq : ((c.framing w).encode q).length < 2 ^ w)
    (ht : t <+: (c.framing w).encode q) (hne : t ≠ (c.framing w).encode q) (k : ℕ) :
    (c.framing w).decode (t.take k) = .ok none := by
  obtain ⟨u, hu⟩ := ht
  have hlen : t.length < ((c.framing w).encode q).length := by
    rw [← hu, List.length_append, Nat.lt_add_right_iff_pos, List.length_pos_iff]
    rintro rfl
    exact hne (by rw [← hu, List.append_nil])
  obtain ⟨-, hclean⟩ := Codec.decode_encode_append hc hw hq []
  have := hclean (min k t.length) (by omega)
  rwa [List.append_nil, ← hu, List.take_append_of_le_length (by omega), ← List.take_take,
    List.take_length] at this

/-- Encoded payloads, followed by nothing or by a proper prefix of an encoded payload, arrive intact
and in order, whatever chunks they come in; then the reader reports the end of the stream, or that
it was closed mid-frame. -/
theorem yields_encode (readTimeout : Option Duration) (ps : List Bytes) (t : Bytes)
    (chunks : List Chunk) (hps : ∀ p ∈ ps, ((c.framing w).encode p).length < 2 ^ w)
    (ht : t = [] ∨ ∃ q, ((c.framing w).encode q).length < 2 ^ w ∧ t <+: (c.framing w).encode q ∧
      t ≠ (c.framing w).encode q)
    (hs : Splits (ps.flatMap (c.framing w).encode ++ t) chunks) :
    Yields (c.framing w) (.uncapped readTimeout []) (arrive chunks atEof) ps
      (if t = [] then none else some (.frame "stream closed mid-frame")) := by
  obtain ⟨b, chunks', hne, hrest, -, hdel⟩ :=
    hs.delivers (Codec.lawful w c) (cleanCuts_encode hc hw ps hps t) readTimeout
  have heof : (c.framing w).takeOnEof = false := by
    rcases hc with rfl | rfl <;> rfl
  by_cases hnil : t = []
  · subst hnil
    obtain ⟨rfl, hflat⟩ := List.append_eq_nil_iff.1 hrest
    obtain rfl := eq_nil_of_flatMap_eq_nil hne hflat
    have hy := (hdel atEof).yields (yields_nil (decode_nil w c) _)
    rwa [List.append_nil] at hy
  · obtain ⟨q, hq, hprefix, hproper⟩ := ht.resolve_left hnil
    have hy := (hdel atEof).yields
      (yields_midFrame (decode_take_of_encode hc hw hq hprefix hproper) heof hnil hne hrest)
    rw [if_neg hnil]
    rwa [List.append_nil] at hy

end Encoded

/-- Two payloads and the first bytes of a third, in two chunks. -/
theorem yields_encode_three :
    Yields (Netstring 64) (.uncapped none []) (arrive [⟨ascii "2:hi,0", by decide⟩,
      ⟨ascii ":,3:a", by decide⟩] atEof) [ascii "hi", []]
      (some (.frame "stream closed mid-frame")) :=
  yields_encode (c := .netstring) (w := 64) (.inl rfl) (by decide) none [ascii "hi", []]
    (ascii "3:a") _ (by decide) (.inr ⟨ascii "abc", by decide, by decide, by decide⟩)
    ⟨by decide, by decide⟩

/-! ## Dependence on the split -/

/-- Whatever the split, the reader delivers the same payloads and ends in the same way: at the end
of the stream, or with an error. -/
def SplitIndependent (f : Framing) (s : Bytes) : Prop :=
  ∀ (readTimeout : Option Duration) (chunks chunks' : List Chunk),
    Splits s chunks → Splits s chunks' → ∃ ps ending ending',
      Yields f (.uncapped readTimeout []) (arrive chunks atEof) ps ending ∧
        Yields f (.uncapped readTimeout []) (arrive chunks' atEof) ps ending' ∧
        ending.isSome = ending'.isSome

/-- The frame at the front of `r` has a head that is longer than the codec waits for, but not longer
by a whole chunk, so that a chunk can bring it to its end before the buffer is looked at. -/
def Skippable (w : ℕ) (c : Codec) (r : Bytes) : Prop :=
  ∃ m n h, (c.framing w).decode r = .ok (some (m, n)) ∧ c.guard.headLen r = some h ∧
    c.guard.limit + 1 < h ∧ h ≤ c.guard.limit + chunkSize

/-- A stream that arrives byte by byte. -/
def bytewise (s : Bytes) : List Chunk := s.map fun b => ⟨[b], by simp [chunkSize]⟩

theorem splits_bytewise (s : Bytes) : Splits s (bytewise s) := by
  constructor
  · intro chunk hchunk
    obtain ⟨b, -, rfl⟩ := List.mem_map.1 hchunk
    simp
  · induction s with
    | nil => rfl
    | cons b s ih =>
      rw [bytewise, List.map_cons, List.flatMap_cons]
      exact congrArg (b :: ·) ih

theorem Splits.append {s s' : Bytes} {chunks chunks' : List Chunk} (h : Splits s chunks)
    (h' : Splits s' chunks') : Splits (s ++ s') (chunks ++ chunks') := by
  constructor
  · intro chunk hchunk
    exact (List.mem_append.1 hchunk).elim (h.1 chunk) (h'.1 chunk)
  · rw [List.flatMap_append, h.2, h'.2]

theorem arrive_append (chunks chunks' : List Chunk) (rest : List ReadOutcome) :
    arrive (chunks ++ chunks') rest = arrive chunks (arrive chunks' rest) := by
  simp [arrive]

section Verdict

variable {w : ℕ} {c : Codec} {readTimeout : Option Duration}

open ReadCore

theorem decode_of_stuck {b : Bytes} (h : Stuck f.decode b) :
    (∃ e, f.decode b = .error e) ∨ f.decode b = .ok none := by
  rcases hdec : f.decode b with e | _ | ⟨m, n⟩
  · exact .inl ⟨e, rfl⟩
  · exact .inr rfl
  · exact absurd hdec (h m n)

theorem decode_take_of_takeOnEof {r : Bytes} (heof : (c.framing w).takeOnEof = true)
    (hclean : ∀ m n, (c.framing w).decode r = .ok (some (m, n)) →
      ¬ Clean (c.framing w).decode r n) (k : ℕ) : (c.framing w).decode (r.take k) = .ok none := by
  have hnone {b : Bytes} (hb : Stuck (c.framing w).decode b) : (c.framing w).decode b = .ok none :=
    (decode_of_stuck hb).resolve_left fun ⟨e, he⟩ => Codec.decode_ne_error heof _ e he
  have hstuck : Stuck (c.framing w).decode r := fun m n hdec =>
    hclean m n hdec fun k hk => hnone ((Codec.lawful w c).stuck_take hdec hk)
  refine hnone ((Codec.lawful w c).stuck_of_append (t := r.drop k) ?_)
  rwa [List.take_append_drop]

/-- Elsewhere such a rest that is not skippable is rejected or closed mid-frame. -/
theorem yields_error_of_not_skippable {r b : Bytes} {chunks : List Chunk}
    (hclean : ∀ m n, (c.framing w).decode r = .ok (some (m, n)) →
      ¬ Clean (c.framing w).decode r n) (hskip : ¬ Skippable w c r)
    (heof : (c.framing w).takeOnEof = false) (hr : r ≠ []) (hne : ∀ chunk ∈ chunks, chunk.bytes ≠ [])
    (hs : b ++ chunks.flatMap Chunk.bytes = r) (hb : b.length ≤ chunkSize) :
    ∃ e, Yields (c.framing w) (uncapped readTimeout b) (arrive chunks atEof) [] (some e) := by
  by_cases hstuck : Stuck (c.framing w).decode r
  · refine yields_error (P := fun _ => True) (fun k _ => ?_) heof hr hne hs trivial
    have hk : Stuck (c.framing w).decode (r.take k) := by
      refine (Codec.lawful w c).stuck_of_append (t := r.drop k) ?_
      rwa [List.take_append_drop]
    exact (decode_of_stuck hk).imp_right fun h => ⟨h, fun _ _ => trivial⟩
  · -- The head is longer than any buffer that has not been rejected, by more than a chunk.
    simp only [Stuck, ne_eq, not_forall, not_not] at hstuck
    obtain ⟨m, n, hdec⟩ := hstuck
    obtain ⟨h, hle, hhead, hgrow⟩ := Codec.guarded w c hdec
    have hlong : ¬ h ≤ c.guard.limit + 1 :=
      fun hh => hclean m n hdec ((Guarded.clean_iff (Codec.guarded w c) hdec hhead).2 hh)
    have hfar : c.guard.limit + chunkSize < h :=
      not_le.1 fun hh => hskip ⟨m, n, h, hdec, hhead, by omega, hh⟩
    refine yields_error (P := fun k => k ≤ c.guard.limit + chunkSize) (fun k hk => ?_) heof hr hne hs
      (by omega)
    rcases Nat.lt_or_ge c.guard.limit k with hlt | hge
    · exact .inl ((hgrow k (by omega)).2 hlt (by omega))
    · exact .inr ⟨(hgrow k (by omega)).1 (.inl hge), fun j hj => by omega⟩

/-- A rest without a clean frame that is not skippable leads to the same verdict whatever the
split. -/
theorem exists_verdict_rest {r : Bytes}
    (hclean : ∀ m n, (c.framing w).decode r = .ok (some (m, n)) →
      ¬ Clean (c.framing w).decode r n) (hskip : ¬ Skippable w c r) :
    ∃ ps failed, ∀ b chunks, (∀ chunk ∈ chunks, chunk.bytes ≠ []) →
      b ++ chunks.flatMap Chunk.bytes = r → b.length ≤ chunkSize →
      ∃ ending, ending.isSome = failed ∧
        Yields (c.framing w) (uncapped readTimeout b) (arrive chunks atEof) ps ending := by
  by_cases hr : r = []
  · subst hr
    refine ⟨[], false, fun b chunks hne hs _ => ⟨none, rfl, ?_⟩⟩
    obtain ⟨rfl, hflat⟩ := List.append_eq_nil_iff.1 hs
    obtain rfl := eq_nil_of_flatMap_eq_nil hne hflat
    exact yields_nil (decode_nil w c) _
  · cases heof : (c.framing w).takeOnEof with
    | true => exact ⟨[r], false, fun b chunks hne hs _ =>
        ⟨none, rfl, yields_taken (decode_take_of_takeOnEof heof hclean) heof hr hne hs⟩⟩
    | false =>
      refine ⟨[], true, fun b chunks hne hs hb => ?_⟩
      obtain ⟨e, hy⟩ := yields_error_of_not_skippable hclean hskip heof hr hne hs hb
      exact ⟨some e, rfl, hy⟩

/-- Without a skippable frame behind clean ones, the verdict is the same whatever the split. -/
theorem splitIndependent_of_not_skippable {s : Bytes}
    (h : ∀ ms r, CleanCuts (c.framing w).decode s ms r → ¬ Skippable w c r) :
    SplitIndependent (c.framing w) s := by
  intro readTimeout chunks chunks' hs hs'
  obtain ⟨ms, r, hcuts, hclean⟩ := (Codec.lawful w c).exists_cleanCuts s
  obtain ⟨ps, failed, hrest⟩ := exists_verdict_rest hclean (h ms r hcuts)
  obtain ⟨b, cs, hne, hb, hlen, hdel⟩ := hs.delivers (Codec.lawful w c) hcuts readTimeout
  obtain ⟨b', cs', hne', hb', hlen', hdel'⟩ := hs'.delivers (Codec.lawful w c) hcuts readTimeout
  obtain ⟨ending, hsome, hy⟩ := hrest b cs hne hb hlen
  obtain ⟨ending', hsome', hy'⟩ := hrest b' cs' hne' hb' hlen'
  exact ⟨ms ++ ps, ending, ending', (hdel atEof).yields hy, (hdel' atEof).yields hy',
    hsome.trans hsome'.symm⟩

theorem delivers_bytewise {t : Bytes} {ms : List Bytes}
    (h : CleanCuts (c.framing w).decode t ms []) (rest : List ReadOutcome) :
    Delivers (c.framing w) (uncapped readTimeout []) (arrive (bytewise t) rest) ms
      (uncapped readTimeout []) rest := by
  obtain ⟨b, chunks, hne, hb, -, hdel⟩ :=
    (splits_bytewise t).delivers (Codec.lawful w c) h readTimeout
  obtain ⟨rfl, hflat⟩ := List.append_eq_nil_iff.1 hb
  obtain rfl := eq_nil_of_flatMap_eq_nil hne hflat
  exact hdel rest

/-- Bytes of `r` that arrive one by one while none of the prefixes is rejected or holds a frame. -/
theorem recv_bytewise (readTimeout : Option Duration) {r : Bytes} {i j : ℕ} (hij : i ≤ j) (hj : j ≤ r.length)
    (h : ∀ k, i ≤ k → k < j → f.decode (r.take k) = .ok none) (rest : List ReadOutcome) :
    (uncapped readTimeout (r.take i)).recv f (arrive (bytewise ((r.take j).drop i)) rest) =
      (uncapped readTimeout (r.take j)).recv f rest := by
  have hflat := (splits_bytewise ((r.take j).drop i)).2
  have happ : r.take i ++ (r.take j).drop i = r.take j := by
    have := List.take_append_drop i (r.take j)
    rwa [List.take_take, min_eq_left hij] at this
  rw [recv_grow (splits_bytewise _).1, hflat, happ]
  intro k hk hlt
  rw [hflat, happ, List.take_take]
  rw [hflat, ← List.length_append, happ, List.length_take] at hlt
  rw [List.length_take] at hk
  rw [min_eq_left (by omega)]
  exact h k (by omega) (by omega)

theorem recv_bytewise_of_skippable {r : Bytes} (h : Skippable w c r)
    (readTimeout : Option Duration) :
    ∃ e core reads wire, (uncapped readTimeout []).recv (c.framing w) (arrive (bytewise r) atEof) =
      some ⟨⟨.error e, core, reads⟩, wire⟩ := by
  obtain ⟨m, n, h, hdec, hhead, hlo, hhi⟩ := h
  obtain ⟨h', hle, hhead', hgrow⟩ := Codec.guarded w c hdec
  obtain rfl := Option.some.inj (hhead.symm.trans hhead')
  have hn := ((Codec.lawful w c).bounds hdec).2
  obtain ⟨e, he⟩ := (hgrow (c.guard.limit + 1) (by omega)).2 (by omega) (by omega)
  have hsplit : bytewise r = bytewise ((r.take (c.guard.limit + 1)).drop 0) ++
      bytewise (r.drop (c.guard.limit + 1)) := by
    rw [bytewise, bytewise, bytewise, ← List.map_append, List.drop_zero, List.take_append_drop]
  rw [hsplit, arrive_append]
  have hrecv := (recv_bytewise readTimeout (Nat.zero_le _) (by omega)
    (fun k _ hk => (hgrow k (by omega)).1 (.inl (by omega)))
    (arrive (bytewise (r.drop (c.guard.limit + 1))) atEof)).trans (recv_uncapped_of_error he _)
  exact ⟨e, _, _, _, hrecv⟩

/-- A skippable frame is delivered when the bytes that exceed the guard come with the end of its
head. -/
theorem exists_split_of_skippable {r : Bytes} (h : Skippable w c r)
    (readTimeout : Option Duration) :
    ∃ chunks, Splits r chunks ∧ ∃ m core reads wire,
      (uncapped readTimeout []).recv (c.framing w) (arrive chunks atEof) =
        some ⟨⟨.ok (some m), core, reads⟩, wire⟩ := by
  obtain ⟨m, n, h, hdec, hhead, hlo, hhi⟩ := h
  obtain ⟨h', hle, hhead', hgrow⟩ := Codec.guarded w c hdec
  obtain rfl := Option.some.inj (hhead.symm.trans hhead')
  have hn := ((Codec.lawful w c).bounds hdec).2
  obtain ⟨limit, hlimit⟩ : ∃ limit, limit = c.guard.limit := ⟨_, rfl⟩
  rw [← hlimit] at hlo hhi hgrow
  have hlen : ((r.take h).drop limit).length = h - limit := by
    rw [List.length_drop, List.length_take, min_eq_left (by omega)]
  let chunk : Chunk := ⟨(r.take h).drop limit, by omega⟩
  have hchunk : chunk.bytes ≠ [] := List.length_pos_iff.1 (by rw [hlen]; omega)
  have htake : r.take limit ++ chunk.bytes = r.take h := by
    have := List.take_append_drop limit (r.take h)
    rwa [List.take_take, min_eq_left (by omega)] at this
  have happ : r.take h ++ ((r.take n).drop h ++ r.drop n) = r := by
    have := List.take_append_drop h (r.take n)
    rw [List.take_take, min_eq_left hle] at this
    rw [← List.append_assoc, this, List.take_append_drop]
  have hsingle : Splits chunk.bytes [chunk] := ⟨by simpa using hchunk, by simp⟩
  have hsplit := ((splits_bytewise ((r.take limit).drop 0)).append hsingle).append
    ((splits_bytewise ((r.take n).drop h)).append (splits_bytewise (r.drop n)))
  rw [List.drop_zero, htake, happ] at hsplit
  refine ⟨_, hsplit, ?_⟩
  simp only [arrive_append]
  have hframe : (c.framing w).decode (r.take n) = .ok (some (m, n)) := by
    have := (Codec.lawful w c).front [] hdec
    rwa [List.append_nil] at this
  -- Up to the limit byte by byte, then the rest of the head at once, then byte by byte again.
  have hrecv : (uncapped readTimeout []).recv (c.framing w) (arrive (bytewise (r.take limit))
      (arrive [chunk] (arrive (bytewise ((r.take n).drop h)) (arrive (bytewise (r.drop n)) atEof)))) =
      some ⟨⟨.ok (some m), uncapped readTimeout ((r.take n).drop n),
        arrive (bytewise (r.drop n)) atEof⟩, (r.take n).take n⟩ := by
    have hlow := recv_bytewise (f := c.framing w) readTimeout (Nat.zero_le limit)
      (by omega) (fun k _ hk => (hgrow k (by omega)).1 (.inl (by omega)))
    have hhigh := recv_bytewise (f := c.framing w) readTimeout hle hn
      (fun k hk hlt => (hgrow k hlt).1 (.inr hk))
    rw [List.drop_zero, List.take_zero] at hlow
    rw [hlow, ← recv_uncapped_of_frame hframe, ← hhigh, ← htake]
    exact recv_uncapped_ready ((hgrow limit (by omega)).1 (.inl le_rfl)) hchunk _
  exact ⟨m, _, _, _, hrecv⟩

/-- A skippable frame behind clean ones makes the verdict depend on the split. -/
theorem not_splitIndependent_of_skippable {s r : Bytes} {ms : List Bytes}
    (hcuts : CleanCuts (c.framing w).decode s ms r) (hskip : Skippable w c r) :
    ¬ SplitIndependent (c.framing w) s := by
  intro hind
  obtain ⟨t, rfl, ht⟩ := (Codec.lawful w c).exists_append_of_cleanCuts hcuts
  obtain ⟨chunks, hsplit, m, core, reads, wire, hrecv⟩ := exists_split_of_skippable hskip none
  obtain ⟨e, core', reads', wire', hrecv'⟩ := recv_bytewise_of_skippable hskip none
  obtain ⟨ps, ending, ending', hy, hy', -⟩ := hind none _ _
    ((splits_bytewise t).append (splits_bytewise r)) ((splits_bytewise t).append hsplit)
  rw [arrive_append] at hy hy'
  obtain ⟨qs, rfl, hq⟩ := (delivers_bytewise ht _).of_yields hy
  obtain ⟨qs', heq, hq'⟩ := (delivers_bytewise ht _).of_yields hy'
  obtain rfl := List.append_cancel_left heq
  cases hq with
  | closed last =>
    rw [hrecv'] at last
    cases last
  | failed last =>
    cases hq' <;> rename_i last' <;> rw [hrecv] at last' <;> cases last'
  | payload head tail =>
    rw [hrecv'] at head
    cases head

/-- The verdict on a stream does not depend on the split just when no frame behind clean ones has a
head longer than its codec waits for, but not longer by a whole chunk. -/
theorem splitIndependent_iff (w : ℕ) (c : Codec) (s : Bytes) :
    SplitIndependent (c.framing w) s ↔
      ∀ ms r, CleanCuts (c.framing w).decode s ms r → ¬ Skippable w c r :=
  ⟨fun hind _ _ hcuts hskip => not_splitIndependent_of_skippable hcuts hskip hind,
    splitIndependent_of_not_skippable⟩

/-- The empty payload behind a length prefix of 21 zeros is delivered when it arrives in one piece,
and rejected when it arrives byte by byte. -/
theorem not_splitIndependent_zeros :
    ¬ SplitIndependent (Netstring 64) (List.replicate 21 48 ++ [colon, comma]) :=
  not_splitIndependent_of_skippable (c := .netstring) (.nil _)
    ⟨[], 23, 22, by decide, by decide, by decide, by decide⟩

end Verdict

end Jasonrpc
