import Jasonrpc.Lib.Duration
import Jasonrpc.Transport.Framing

/-!
# The frame reader

`ReadCore` is the decode and buffer machinery shared by `FramedReader` and `FramedConn`.  The
stream below it is the list `reads` of the ways its successive `read` calls end: with up to
`chunkSize` bytes (none at end-of-file), with an I/O error, or by running into the read timeout.
A call that never returns, since `reads` ends inside it, is `none`.
-/

namespace Jasonrpc

open ByteString

/-- Size of each stream read into the buffer tail. -/
def chunkSize : ℕ := 4096

/-- Default maximum frame size: 16 MiB. -/
def defaultMaxFrameSize : ℕ := 16 * 1024 * 1024

/-- What one `read` into the buffer tail can bring. -/
structure Chunk where
  bytes : Bytes
  le : bytes.length ≤ chunkSize

/-- How one `read` on the stream ends. -/
inductive ReadOutcome where
  /-- Bytes arrive; no bytes at end-of-file. -/
  | ready (chunk : Chunk)
  /-- The stream fails. -/
  | failed (e : IoError)
  /-- The read timeout elapses and the read is dropped with no bytes taken. -/
  | elapsed

/-- The bytes a read takes from the stream. -/
def ReadOutcome.bytes : ReadOutcome → Bytes
  | ready chunk => chunk.bytes
  | failed _ => []
  | elapsed => []

/-- End-of-file. -/
def ReadOutcome.eof : ReadOutcome := .ready ⟨[], Nat.zero_le _⟩

/-- The pending byte buffer, the read timeout and the frame-size cap (0: no cap). -/
structure ReadCore where
  readBuf : Bytes := []
  readTimeout : Option Duration := none
  maxFrameSize : ℕ := defaultMaxFrameSize

/-- `Vec::resize` to a length not below the present one. -/
def resize (buf : Bytes) (len : ℕ) (value : UInt8) : Bytes :=
  buf ++ List.replicate (len - buf.length) value

/-- Write `bytes` into `buf` from offset `start` on. -/
def writeAt (buf : Bytes) (start : ℕ) (bytes : Bytes) : Bytes :=
  buf.take start ++ bytes ++ buf.drop (start + bytes.length)

/-- What a call on the reader leaves behind: its result, the reader, and the reads not made. -/
structure Ran (α : Type) where
  result : Except TransportError α
  core : ReadCore
  reads : List ReadOutcome

/-- What `recv` leaves behind, with the wire bytes it removed from the buffer. -/
structure Received extends Ran (Option Bytes) where
  wire : Bytes

namespace ReadCore

/-- The error of a buffer beyond the frame-size cap. -/
def tooLarge (core : ReadCore) : TransportError :=
  .frame ("frame exceeds max size of " ++ toString core.maxFrameSize ++ " bytes")

/-- Read one chunk directly into the tail of `readBuf`, enforcing the frame-size cap. -/
def fill (core : ReadCore) (reads : List ReadOutcome) : Option (Ran ℕ) :=
  let start := core.readBuf.length
  if core.maxFrameSize > 0 ∧ start ≥ core.maxFrameSize then
    some ⟨.error core.tooLarge, core, reads⟩
  else
    let grown := resize core.readBuf (start + chunkSize) 0
    match reads, core.readTimeout with
    | [], _ => none
    | .elapsed :: _, none => none
    | .elapsed :: reads, some timeout =>
      -- The `?` on the elapsed timeout leaves `fill` before the buffer is cut back.
      some ⟨.error (.frame ("read timed out after " ++ timeout.debug)),
        { core with readBuf := grown }, reads⟩
    | .failed e :: reads, _ =>
      some ⟨.error (.io e), { core with readBuf := grown.take start }, reads⟩
    | .ready chunk :: reads, _ =>
      let n := chunk.bytes.length
      let readBuf := (writeAt grown start chunk.bytes).take (start + n)
      if core.maxFrameSize > 0 ∧ readBuf.length > core.maxFrameSize then
        some ⟨.error core.tooLarge, { core with readBuf }, reads⟩
      else some ⟨.ok n, { core with readBuf }, reads⟩

theorem resize_length_add (buf : Bytes) (n : ℕ) :
    resize buf (buf.length + n) 0 = buf ++ List.replicate n 0 := by
  simp [resize]

theorem take_resize (buf : Bytes) (n : ℕ) :
    (resize buf (buf.length + n) 0).take buf.length = buf := by
  simp [resize]

theorem take_writeAt_resize (buf : Bytes) (chunk : Chunk) :
    (writeAt (resize buf (buf.length + chunkSize) 0) buf.length chunk.bytes).take
      (buf.length + chunk.bytes.length) = buf ++ chunk.bytes := by
  rw [writeAt, take_resize, ← List.length_append, List.take_left]

/-- The cap is reached before a read is made. -/
abbrev Full (core : ReadCore) : Prop := core.maxFrameSize > 0 ∧ core.readBuf.length ≥ core.maxFrameSize

/-- The cap is exceeded by a buffer. -/
abbrev Exceeds (core : ReadCore) (readBuf : Bytes) : Prop :=
  core.maxFrameSize > 0 ∧ readBuf.length > core.maxFrameSize

/-- The exits of `fill`. -/
inductive FillExit (core : ReadCore) : List ReadOutcome → Ran ℕ → Prop
  | full {reads} (h : core.Full) : FillExit core reads ⟨.error core.tooLarge, core, reads⟩
  | elapsed {reads} (timeout : Duration) (h : ¬ core.Full) (ht : core.readTimeout = some timeout) :
      FillExit core (.elapsed :: reads)
        ⟨.error (.frame ("read timed out after " ++ timeout.debug)),
          { core with readBuf := core.readBuf ++ List.replicate chunkSize 0 }, reads⟩
  | failed {reads} (e : IoError) (h : ¬ core.Full) :
      FillExit core (.failed e :: reads) ⟨.error (.io e), core, reads⟩
  | exceeds {reads} (chunk : Chunk) (h : ¬ core.Full)
      (hx : core.Exceeds (core.readBuf ++ chunk.bytes)) :
      FillExit core (.ready chunk :: reads)
        ⟨.error core.tooLarge, { core with readBuf := core.readBuf ++ chunk.bytes }, reads⟩
  | ok {reads} (chunk : Chunk) (h : ¬ core.Full)
      (hx : ¬ core.Exceeds (core.readBuf ++ chunk.bytes)) :
      FillExit core (.ready chunk :: reads)
        ⟨.ok chunk.bytes.length, { core with readBuf := core.readBuf ++ chunk.bytes }, reads⟩

/-- Every return of `fill` is one of its exits. -/
theorem fillExit_of_fill {core : ReadCore} {reads : List ReadOutcome} {r : Ran ℕ}
    (h : core.fill reads = some r) : FillExit core reads r := by
  by_cases hfull : core.Full
  · rw [fill, if_pos hfull] at h
    obtain rfl := Option.some.inj h
    exact .full hfull
  · rw [fill, if_neg hfull] at h
    rcases reads with _ | ⟨_ | e | _, reads⟩
    · cases h
    · rename_i chunk
      dsimp only at h
      rw [take_writeAt_resize] at h
      split_ifs at h with hx <;> obtain rfl := Option.some.inj h
      · exact .exceeds chunk hfull hx
      · exact .ok chunk hfull hx
    · dsimp only at h
      rw [take_resize] at h
      obtain rfl := Option.some.inj h
      exact .failed e hfull
    · rcases ht : core.readTimeout with _ | timeout <;> rw [ht] at h
      · cases h
      · dsimp only at h
        rw [resize_length_add] at h
        obtain rfl := Option.some.inj h
        rw [← ht]
        exact .elapsed timeout hfull ht

/-- Every exit of `fill` is what it returns. -/
theorem fill_of_fillExit {core : ReadCore} {reads : List ReadOutcome} {r : Ran ℕ}
    (h : FillExit core reads r) : core.fill reads = some r := by
  cases h with
  | full h => rw [fill, if_pos h]
  | elapsed timeout h ht =>
    rw [fill, if_neg h, ht]
    simp only [resize_length_add]
  | failed e h =>
    rw [fill, if_neg h]
    simp only [take_resize]
  | exceeds chunk h hx =>
    rw [fill, if_neg h]
    simp only [take_writeAt_resize]
    rw [if_pos hx]
  | ok chunk h hx =>
    rw [fill, if_neg h]
    simp only [take_writeAt_resize]
    rw [if_neg hx]

theorem fill_eq_ok {core core' : ReadCore} {reads reads' : List ReadOutcome} {n : ℕ}
    (h : core.fill reads = some ⟨.ok n, core', reads'⟩) :
    ∃ chunk : Chunk, reads = .ready chunk :: reads' ∧ n = chunk.bytes.length ∧ ¬ core.Full ∧
      ¬ core.Exceeds (core.readBuf ++ chunk.bytes) ∧
      core' = { core with readBuf := core.readBuf ++ chunk.bytes } := by
  generalize hr : (⟨.ok n, core', reads'⟩ : Ran ℕ) = r at h
  cases fillExit_of_fill h with
  | ok chunk hfull hx =>
    obtain ⟨hok, rfl, rfl⟩ := Ran.mk.inj hr
    exact ⟨chunk, rfl, Except.ok.inj hok, hfull, hx, rfl⟩
  | full | elapsed | failed | exceeds => cases (Ran.mk.inj hr).1

theorem length_lt_of_fill_eq_ok {core core' : ReadCore} {reads reads' : List ReadOutcome} {n : ℕ}
    (h : core.fill reads = some ⟨.ok n, core', reads'⟩) : reads'.length < reads.length := by
  obtain ⟨chunk, rfl, -⟩ := fill_eq_ok h
  simp

/-- Read a single complete payload, or `none` at clean end-of-stream. -/
def recv (f : Framing) (core : ReadCore) (reads : List ReadOutcome) : Option Received :=
  match f.decode core.readBuf with
  | .error e => some ⟨⟨.error e, core, reads⟩, []⟩
  | .ok (some (msg, consumed)) =>
    some ⟨⟨.ok (some msg), { core with readBuf := core.readBuf.drop consumed }, reads⟩,
      core.readBuf.take consumed⟩
  | .ok none =>
    match _h : core.fill reads with
    | none => none
    | some ⟨.error e, core, reads⟩ => some ⟨⟨.error e, core, reads⟩, []⟩
    | some ⟨.ok n, core, reads⟩ =>
      if n = 0 then
        if f.takeOnEof then
          if core.readBuf.isEmpty then some ⟨⟨.ok none, core, reads⟩, []⟩
          else some ⟨⟨.ok (some core.readBuf), { core with readBuf := [] }, reads⟩, core.readBuf⟩
        else if core.readBuf.isEmpty then some ⟨⟨.ok none, core, reads⟩, []⟩
        else some ⟨⟨.error (.frame "stream closed mid-frame"), core, reads⟩, []⟩
      else recv f core reads
termination_by reads.length
decreasing_by exact length_lt_of_fill_eq_ok _h

/-- The exits of `recv`: before a read is needed, at a failed read, at end-of-file, or after one
more read. -/
inductive RecvExit (f : Framing) : ReadCore → List ReadOutcome → Received → Prop
  | rejected {core reads e} (hdec : f.decode core.readBuf = .error e) :
      RecvExit f core reads ⟨⟨.error e, core, reads⟩, []⟩
  | frame {core reads msg consumed} (hdec : f.decode core.readBuf = .ok (some (msg, consumed))) :
      RecvExit f core reads
        ⟨⟨.ok (some msg), { core with readBuf := core.readBuf.drop consumed }, reads⟩,
          core.readBuf.take consumed⟩
  | failed {core core' reads reads' e} (hdec : f.decode core.readBuf = .ok none)
      (hfill : core.fill reads = some ⟨.error e, core', reads'⟩) :
      RecvExit f core reads ⟨⟨.error e, core', reads'⟩, []⟩
  | closed {core core' reads reads'} (hdec : f.decode core.readBuf = .ok none)
      (hfill : core.fill reads = some ⟨.ok 0, core', reads'⟩) (hbuf : core'.readBuf = []) :
      RecvExit f core reads ⟨⟨.ok none, core', reads'⟩, []⟩
  | taken {core core' reads reads'} (hdec : f.decode core.readBuf = .ok none)
      (hfill : core.fill reads = some ⟨.ok 0, core', reads'⟩) (hbuf : core'.readBuf ≠ [])
      (heof : f.takeOnEof = true) :
      RecvExit f core reads
        ⟨⟨.ok (some core'.readBuf), { core' with readBuf := [] }, reads'⟩, core'.readBuf⟩
  | midFrame {core core' reads reads'} (hdec : f.decode core.readBuf = .ok none)
      (hfill : core.fill reads = some ⟨.ok 0, core', reads'⟩) (hbuf : core'.readBuf ≠ [])
      (heof : f.takeOnEof = false) :
      RecvExit f core reads ⟨⟨.error (.frame "stream closed mid-frame"), core', reads'⟩, []⟩
  | again {core core' reads reads' n r} (hdec : f.decode core.readBuf = .ok none)
      (hfill : core.fill reads = some ⟨.ok n, core', reads'⟩) (hn : n ≠ 0)
      (rest : RecvExit f core' reads' r) : RecvExit f core reads r

/-- Every return of `recv` is one of its exits. -/
theorem recvExit_of_recv {f : Framing} {core : ReadCore} {reads : List ReadOutcome} {r : Received}
    (h : recv f core reads = some r) : RecvExit f core reads r := by
  induction hl : reads.length using Nat.strong_induction_on generalizing core reads with
  | _ l ih =>
    rw [recv] at h
    split at h
    · rename_i e hdec
      obtain rfl := Option.some.inj h
      exact .rejected hdec
    · rename_i msg consumed hdec
      obtain rfl := Option.some.inj h
      exact .frame hdec
    · rename_i hdec
      split at h
      · cases h
      · rename_i e core' reads' hfill
        obtain rfl := Option.some.inj h
        exact .failed hdec hfill
      · rename_i n core' reads' hfill
        split_ifs at h with hn heof hbuf hbuf
        · obtain rfl := Option.some.inj h
          exact .closed hdec (hn ▸ hfill) (List.isEmpty_iff.1 hbuf)
        · obtain rfl := Option.some.inj h
          exact .taken hdec (hn ▸ hfill) (fun h => hbuf (List.isEmpty_iff.2 h)) heof
        · obtain rfl := Option.some.inj h
          exact .closed hdec (hn ▸ hfill) (List.isEmpty_iff.1 hbuf)
        · obtain rfl := Option.some.inj h
          exact .midFrame hdec (hn ▸ hfill) (fun h => hbuf (List.isEmpty_iff.2 h))
            (Bool.eq_false_iff.2 heof)
        · exact .again hdec hfill hn (ih _ (hl ▸ length_lt_of_fill_eq_ok hfill) h rfl)

/-- Every exit of `recv` is what it returns. -/
theorem recv_of_recvExit {f : Framing} {core : ReadCore} {reads : List ReadOutcome} {r : Received}
    (h : RecvExit f core reads r) : recv f core reads = some r := by
  induction h with
  | rejected hdec => rw [recv, hdec]
  | frame hdec => rw [recv, hdec]
  | failed hdec hfill =>
    rw [recv, hdec]
    dsimp only
    split <;> simp_all
  | closed hdec hfill hbuf =>
    rw [recv, hdec]
    dsimp only
    split <;> simp_all
  | taken hdec hfill hbuf heof =>
    rw [recv, hdec]
    dsimp only
    split <;> simp_all
  | midFrame hdec hfill hbuf heof =>
    rw [recv, hdec]
    dsimp only
    split <;> simp_all
  | again hdec hfill hn _ ih =>
    rw [recv, hdec]
    dsimp only
    split <;> simp_all

/-- A read that brings bytes within the cap only makes the buffer longer. -/
theorem recv_ready {f : Framing} {core : ReadCore} (reads : List ReadOutcome) {chunk : Chunk}
    (hdec : f.decode core.readBuf = .ok none) (h : ¬ core.Full)
    (hx : ¬ core.Exceeds (core.readBuf ++ chunk.bytes)) (hn : chunk.bytes ≠ []) :
    recv f core (.ready chunk :: reads) =
      recv f { core with readBuf := core.readBuf ++ chunk.bytes } reads := by
  have hexit : FillExit core (.ready chunk :: reads) _ := .ok chunk h hx
  have hfill := fill_of_fillExit hexit
  rw [recv, hdec]
  dsimp only
  split
  · simp_all
  · simp_all
  · rename_i n core' reads' hfill'
    rw [hfill] at hfill'
    obtain ⟨hok, rfl, rfl⟩ := Ran.mk.inj (Option.some.inj hfill')
    obtain rfl := Except.ok.inj hok
    rw [if_neg (mt List.length_eq_zero_iff.1 hn)]

end ReadCore

end Jasonrpc
