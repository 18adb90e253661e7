import Jasonrpc.Lib.Machine
import Jasonrpc.Transport.Codec
import Jasonrpc.Transport.ReadCore

/-!
# Byte conservation of the frame reader

A run of `recv` calls consumes the bytes it reads into delivered frames and the read buffer.  The
buffer is grown by a chunk of zeros before a read and cut back after it, except when the read times
out.  So a run conserves the bytes exactly when none of its reads timed out.
-/

namespace Jasonrpc

open ByteString Machine

/-- The bytes `reads` take from the stream. -/
def received (reads : List ReadOutcome) : Bytes := reads.flatMap ReadOutcome.bytes

/-- What a read leaves in the buffer. -/
def ReadOutcome.buffered : ReadOutcome → Bytes
  | ready chunk => chunk.bytes
  | failed _ => []
  | elapsed => List.replicate chunkSize 0

/-- A read that fails or times out. -/
inductive ReadOutcome.Fails : ReadOutcome → Prop
  | failed (e : IoError) : Fails (.failed e)
  | elapsed : Fails .elapsed

namespace ReadCore

variable {f : Framing} {core : ReadCore} {reads : List ReadOutcome}

theorem FillExit.reads_eq {r : Ran ℕ} (h : FillExit core reads r) :
    ∃ made, reads = made ++ r.reads ∧
      r.core = { core with readBuf := core.readBuf ++ made.flatMap ReadOutcome.buffered } := by
  cases h with
  | full h => exact ⟨[], rfl, by simp⟩
  | elapsed timeout h ht => exact ⟨[.elapsed], rfl, by simp [ReadOutcome.buffered]⟩
  | failed e h => exact ⟨[.failed e], rfl, by simp [ReadOutcome.buffered]⟩
  | exceeds chunk h hx => exact ⟨[.ready chunk], rfl, by simp [ReadOutcome.buffered]⟩
  | ok chunk h hx => exact ⟨[.ready chunk], rfl, by simp [ReadOutcome.buffered]⟩

/-- The delivered bytes followed by the buffer are the old buffer followed by what the reads of the
call left in it. -/
theorem RecvExit.wire_append {out : Received} (h : RecvExit f core reads out) :
    ∃ made, reads = made ++ out.reads ∧
      out.wire ++ out.core.readBuf = core.readBuf ++ made.flatMap ReadOutcome.buffered := by
  induction h with
  | rejected hdec => exact ⟨[], rfl, by simp⟩
  | frame hdec => exact ⟨[], rfl, by simp⟩
  | failed hdec hfill =>
    obtain ⟨made, hreads, hcore⟩ := (fillExit_of_fill hfill).reads_eq
    exact ⟨made, hreads, (ReadCore.mk.inj hcore).1⟩
  | closed hdec hfill hbuf =>
    obtain ⟨made, hreads, hcore⟩ := (fillExit_of_fill hfill).reads_eq
    exact ⟨made, hreads, (ReadCore.mk.inj hcore).1⟩
  | taken hdec hfill hbuf heof =>
    obtain ⟨made, hreads, hcore⟩ := (fillExit_of_fill hfill).reads_eq
    exact ⟨made, hreads, (List.append_nil _).trans (ReadCore.mk.inj hcore).1⟩
  | midFrame hdec hfill hbuf heof =>
    obtain ⟨made, hreads, hcore⟩ := (fillExit_of_fill hfill).reads_eq
    exact ⟨made, hreads, (ReadCore.mk.inj hcore).1⟩
  | again hdec hfill hn rest ih =>
    obtain ⟨made, hreads, hcore⟩ := (fillExit_of_fill hfill).reads_eq
    obtain ⟨made', hreads', hwire⟩ := ih
    refine ⟨made ++ made', ?_, ?_⟩
    · rw [List.append_assoc, ← hreads']
      exact hreads
    · rw [hwire, (ReadCore.mk.inj hcore).1, List.flatMap_append, List.append_assoc]

theorem ready_ne_append_failed {chunk : Chunk} {e : IoError} :
    ([.ready chunk] : List ReadOutcome) ≠ reads ++ [.failed e] := by
  intro h
  obtain ⟨-, h⟩ := List.append_inj' (show [] ++ [_] = _ from h) rfl
  cases h

/-- A call whose last read fails with an I/O error has undone that read: the buffer holds what it
held before, and the next call runs as if the read had not been attempted. -/
theorem RecvExit.undone {out : Received} {all : List ReadOutcome} (h : RecvExit f core all out)
    {e : IoError} (hall : all = reads ++ [.failed e]) (hout : out.reads = []) :
    out.result = .error (.io e) ∧
      out.core = { core with readBuf := core.readBuf ++ received reads } ∧
      ∀ later, recv f out.core later = recv f core (reads ++ later) := by
  induction h generalizing reads with
  | rejected hdec =>
    obtain rfl : _ = [] := hout
    simp at hall
  | frame hdec =>
    obtain rfl : _ = [] := hout
    simp at hall
  | failed hdec hfill =>
    obtain rfl : _ = [] := hout
    cases fillExit_of_fill hfill with
    | full h => simp at hall
    | elapsed timeout h ht => simp [List.singleton_eq_append_iff] at hall
    | failed e' h =>
      obtain ⟨rfl, he⟩ : [] = reads ∧ _ := List.append_inj' (show [] ++ [_] = _ from hall) rfl
      obtain rfl : _ = e := ReadOutcome.failed.inj (List.singleton_inj.1 he)
      exact ⟨rfl, by simp [received], fun later => rfl⟩
    | exceeds chunk h hx => simp [List.singleton_eq_append_iff] at hall
  | closed hdec hfill hbuf =>
    obtain rfl : _ = [] := hout
    obtain ⟨chunk, rfl, -⟩ := fill_eq_ok hfill
    exact absurd hall ready_ne_append_failed
  | taken hdec hfill hbuf heof =>
    obtain rfl : _ = [] := hout
    obtain ⟨chunk, rfl, -⟩ := fill_eq_ok hfill
    exact absurd hall ready_ne_append_failed
  | midFrame hdec hfill hbuf heof =>
    obtain rfl : _ = [] := hout
    obtain ⟨chunk, rfl, -⟩ := fill_eq_ok hfill
    exact absurd hall ready_ne_append_failed
  | again hdec hfill hn rest ih =>
    obtain ⟨chunk, rfl, rfl, hfull, hx, rfl⟩ := fill_eq_ok hfill
    cases reads with
    | nil => exact absurd hall (by simp)
    | cons first reads =>
      obtain ⟨rfl, htail⟩ := List.cons.inj hall
      obtain ⟨hresult, hcore, hlater⟩ := ih htail hout
      refine ⟨hresult, ?_, fun later => ?_⟩
      · rw [hcore]
        simp [received, ReadOutcome.bytes]
      · rw [hlater, List.cons_append,
          recv_ready (reads ++ later) hdec hfull hx (mt List.length_eq_zero_iff.2 hn)]

end ReadCore

/-! ## Runs of the reader -/

/-- A frame reader over a run of `recv` calls: the reads made so far, and the wire bytes of the
frames delivered so far. -/
structure Reader where
  core : ReadCore
  made : List ReadOutcome := []
  wire : Bytes := []

/-- A reader before its first call, with any read timeout and frame-size cap. -/
def Reader.new (readTimeout : Option Duration) (maxFrameSize : ℕ) : Reader :=
  { core := { readTimeout, maxFrameSize } }

/-- A `recv` call that returns, and whose reads are exactly `reads`. -/
def Reader.recv (f : Framing) (r : Reader) (reads : List ReadOutcome) : Option Reader :=
  match r.core.recv f reads with
  | some ⟨⟨_, core, []⟩, wire⟩ => some ⟨core, r.made ++ reads, r.wire ++ wire⟩
  | _ => none

/-- What the call of `r` with `reads`, which leads to `r'`, must keep: no byte is lost or made up,
and a failed last read is undone and does not change what later calls do. -/
structure Conserved (f : Framing) (r : Reader) (reads : List ReadOutcome) (r' : Reader) : Prop where
  bytes : r'.wire ++ r'.core.readBuf = received r'.made
  undone (before : List ReadOutcome) (last : ReadOutcome) :
    last.Fails → reads = before ++ [last] →
      r'.core.readBuf = r.core.readBuf ++ received before ∧
        ∀ later, r'.core.recv f later = r.core.recv f (before ++ later)

namespace Reader

variable {f : Framing} {r r' : Reader} {reads : List ReadOutcome}

theorem recv_eq_some (h : r.recv f reads = some r') :
    ∃ out : Received, ReadCore.RecvExit f r.core reads out ∧ out.reads = [] ∧ r'.core = out.core ∧
      r'.made = r.made ++ reads ∧ r'.wire = r.wire ++ out.wire := by
  rw [recv] at h
  split at h
  · rename_i out
    obtain rfl := Option.some.inj h
    exact ⟨_, ReadCore.recvExit_of_recv ‹_›, rfl, rfl, rfl, rfl⟩
  · cases h

/-- The wire bytes followed by the buffer are what the reads left in it. -/
def Balanced (r : Reader) : Prop :=
  r.wire ++ r.core.readBuf = r.made.flatMap ReadOutcome.buffered

theorem balanced_recv (hr : r.Balanced) (h : r.recv f reads = some r') : r'.Balanced := by
  obtain ⟨out, hexit, hout, hcore, hmade, hwire⟩ := recv_eq_some h
  obtain ⟨made, hreads, hbytes⟩ := hexit.wire_append
  rw [hout, List.append_nil] at hreads
  rw [Balanced, hcore, hmade, hwire, List.append_assoc, hbytes, ← List.append_assoc, hr, hreads,
    List.flatMap_append]

theorem balanced_of_reach {readTimeout : Option Duration} {maxFrameSize : ℕ}
    (hr : Reach (recv f) always (new readTimeout maxFrameSize) r) : r.Balanced := by
  refine hr.invariant ?_ fun _ _ _ hs _ h => balanced_recv hs h
  exact List.append_nil _

end Reader

theorem length_received_le (made : List ReadOutcome) :
    (received made).length ≤ (made.flatMap ReadOutcome.buffered).length := by
  induction made with
  | nil => exact Nat.le_refl _
  | cons first made ih =>
    rw [received] at ih ⊢
    rw [List.flatMap_cons, List.flatMap_cons, List.length_append, List.length_append]
    cases first <;> simp only [ReadOutcome.bytes, ReadOutcome.buffered, List.length_nil] <;> omega

/-- What the reads leave in the buffer is what they took from the stream just when none timed out:
a timed-out read leaves a chunk of zeros. -/
theorem flatMap_buffered_eq_received_iff (made : List ReadOutcome) :
    made.flatMap ReadOutcome.buffered = received made ↔ .elapsed ∉ made := by
  induction made with
  | nil => simp [received]
  | cons first made ih =>
    cases first with
    | ready chunk => simpa [received, ReadOutcome.buffered, ReadOutcome.bytes] using ih
    | failed e => simpa [received, ReadOutcome.buffered, ReadOutcome.bytes] using ih
    | elapsed =>
      refine iff_of_false (fun h => ?_) (by simp)
      have hlen := congrArg List.length h
      have hle := length_received_le made
      simp only [received, List.flatMap_cons, ReadOutcome.buffered, ReadOutcome.bytes,
        List.length_append, List.length_replicate, List.nil_append, chunkSize] at hlen hle
      omega

/-- A run conserves bytes up to the return of a call, and that call undoes its failed read, just
when no read up to there ran into the read timeout. -/
theorem conserved_iff_not_elapsed (f : Framing) (readTimeout : Option Duration) (maxFrameSize : ℕ)
    (r r' : Reader) (reads : List ReadOutcome)
    (hr : Reach (Reader.recv f) always (Reader.new readTimeout maxFrameSize) r)
    (h : r.recv f reads = some r') :
    Conserved f r reads r' ↔ .elapsed ∉ r.made ++ reads := by
  have hbalanced : r'.Balanced := Reader.balanced_recv (Reader.balanced_of_reach hr) h
  obtain ⟨out, hexit, hout, hcore, hmade, hwire⟩ := Reader.recv_eq_some h
  rw [← hmade, ← flatMap_buffered_eq_received_iff]
  constructor
  · intro hc
    rw [← hc.bytes, hbalanced]
  · intro hbytes
    refine ⟨hbalanced.trans hbytes, ?_⟩
    intro before last hfails hreads
    cases hfails with
    | failed e =>
      obtain ⟨-, hundone, hlater⟩ := hexit.undone hreads hout
      rw [hcore]
      exact ⟨by rw [hundone], hlater⟩
    | elapsed =>
      rw [flatMap_buffered_eq_received_iff, hmade, hreads] at hbytes
      exact absurd (by simp) hbytes

/-- A line feed read in one piece. -/
def lineChunk : Chunk := ⟨[lf], by decide⟩

/-- A run that reads an empty line after a failed read. -/
theorem conserved_iff_not_elapsed_line :
    Conserved Newline ⟨⟨[], none, 0⟩, [.failed "reset"], []⟩ [.ready lineChunk]
      ⟨⟨[], none, 0⟩, [.failed "reset", .ready lineChunk], [lf]⟩ := by
  have hfailed : (Reader.new none 0).recv Newline [.failed "reset"] =
      some ⟨⟨[], none, 0⟩, [.failed "reset"], []⟩ := by
    rw [Reader.recv, ReadCore.recv_of_recvExit
      (.failed rfl (ReadCore.fill_of_fillExit (.failed "reset" (by decide))))]
    rfl
  have hline : Reader.recv Newline ⟨⟨[], none, 0⟩, [.failed "reset"], []⟩ [.ready lineChunk] =
      some ⟨⟨[], none, 0⟩, [.failed "reset", .ready lineChunk], [lf]⟩ := by
    rw [Reader.recv, ReadCore.recv_of_recvExit (.again rfl
      (ReadCore.fill_of_fillExit (.ok lineChunk (by decide) (by decide))) (by decide)
      (.frame rfl))]
    rfl
  exact (conserved_iff_not_elapsed Newline none 0 _ _ _ (.single trivial hfailed) hline).2
    (by simp)

/-- The reader after its first read timed out. -/
def timedOut : Reader :=
  ⟨⟨List.replicate chunkSize 0, some (.fromMillis 50), 0⟩, [.elapsed], []⟩

/-- That reader after an empty line. -/
def paddedLine : Reader :=
  ⟨⟨[], some (.fromMillis 50), 0⟩, [.elapsed, .ready lineChunk], List.replicate chunkSize 0 ++ [lf]⟩

/-- A timed-out read leaves a chunk of zeros in the buffer, and the next call delivers it in front of
the line. -/
theorem not_conserved_of_timeout :
    (Reader.new (some (.fromMillis 50)) 0).recv Newline [.elapsed] = some timedOut ∧
      ¬ Conserved Newline (Reader.new (some (.fromMillis 50)) 0) [.elapsed] timedOut ∧
      timedOut.recv Newline [.ready lineChunk] = some paddedLine ∧
      ¬ Conserved Newline timedOut [.ready lineChunk] paddedLine := by
  have hmem : lf ∉ timedOut.core.readBuf := fun h => absurd (List.eq_of_mem_replicate h) (by decide)
  have hnone (buf : Bytes) (h : lf ∉ buf) : Newline.decode buf = .ok none :=
    Delimited.decode_eq_none h
  have hline (buf : Bytes) (h : lf ∉ buf) :
      Newline.decode (buf ++ lineChunk.bytes) = .ok (some (buf, buf.length + 1)) :=
    Delimited.decode_eq_some_iff.2 ⟨[], rfl, h, rfl⟩
  have hlen : timedOut.core.readBuf.length = 4096 := List.length_replicate
  refine ⟨?_, fun h => ?_, ?_, fun h => ?_⟩
  · rw [Reader.recv, ReadCore.recv_of_recvExit
      (.failed rfl (ReadCore.fill_of_fillExit (.elapsed _ (by decide) rfl)))]
    rfl
  · have h := congrArg List.length h.bytes
    rw [List.length_append, hlen] at h
    cases h
  · rw [Reader.recv, ReadCore.recv_of_recvExit (.again (hnone _ hmem)
      (ReadCore.fill_of_fillExit (.ok lineChunk (fun h => absurd h.1 (Nat.lt_irrefl 0))
        (fun h => absurd h.1 (Nat.lt_irrefl 0)))) (by decide) (.frame (hline _ hmem)))]
    dsimp only
    rw [List.drop_of_length_le (by simp [lineChunk]), List.take_of_length_le (by simp [lineChunk])]
    rfl
  · have hwire : paddedLine.wire.length = 4096 + 1 := by
      rw [paddedLine, List.length_append, List.length_replicate]
      rfl
    have h := congrArg List.length h.bytes
    rw [List.length_append, hwire] at h
    cases h

end Jasonrpc
