import Jasonrpc.Lib.Machine
import Jasonrpc.Transport.Cap

/-!
# The length of the read buffer

`recv` and `fill`, one access to the read buffer at a time: the buffer is grown by a chunk before a
read, and cut back after it, unless the read times out or its call is dropped.  The calls of `recv`
are runs of these steps (`exists_run_of_recvExit`, `exists_reach_of_inbox`).  The cap is tested before
the buffer is grown, so at every point of every run the buffer is less than a chunk beyond it
(`length_readBuf_lt`).
-/

namespace Jasonrpc

open ByteString Machine

/-- Where a call of `recv` stands. -/
inductive RecvStage where
  /-- No call is running; `last` is what the last one has returned. -/
  | idle (last : Option (Except TransportError (Option Bytes)))
  | decoding
  | filling
  /-- The buffer is grown, and the read into its tail is awaited. -/
  | reading (start : ℕ)
  /-- The read has ended, and the buffer is not cut back. -/
  | arrived (start : ℕ) (n : Except IoError ℕ)
  | filled (n : ℕ)

/-- What happens to a reader. -/
inductive RecvAction where
  /-- `recv` is called. -/
  | call
  /-- The call takes its next step. -/
  | advance
  /-- The read that is awaited ends. -/
  | read (outcome : ReadOutcome)
  /-- The call is dropped at its read. -/
  | drop

/-- A reader, between its calls or within one. -/
structure Receiving where
  core : ReadCore
  stage : RecvStage

namespace Receiving

/-- The call returns. -/
def returned (core : ReadCore) (result : Except TransportError (Option Bytes)) : Receiving :=
  ⟨core, .idle (some result)⟩

/-- The next step of a call that does not await a read. -/
def advance (f : Framing) (s : Receiving) : Option Receiving :=
  let core := s.core
  match s.stage with
  | .decoding =>
    match f.decode core.readBuf with
    | .error e => some (returned core (.error e))
    | .ok (some (msg, consumed)) =>
      some (returned { core with readBuf := core.readBuf.drop consumed } (.ok (some msg)))
    | .ok none => some ⟨core, .filling⟩
  | .filling =>
    let start := core.readBuf.length
    if core.maxFrameSize > 0 ∧ start ≥ core.maxFrameSize then
      some (returned core (.error core.tooLarge))
    else some ⟨{ core with readBuf := resize core.readBuf (start + chunkSize) 0 }, .reading start⟩
  | .arrived start (.ok n) =>
    some ⟨{ core with readBuf := core.readBuf.take (start + n) }, .filled n⟩
  | .arrived start (.error e) =>
    some (returned { core with readBuf := core.readBuf.take start } (.error (.io e)))
  | .filled n =>
    if core.maxFrameSize > 0 ∧ core.readBuf.length > core.maxFrameSize then
      some (returned core (.error core.tooLarge))
    else if n = 0 then
      if f.takeOnEof then
        if core.readBuf.isEmpty then some (returned core (.ok none))
        else some (returned { core with readBuf := [] } (.ok (some core.readBuf)))
      else if core.readBuf.isEmpty then some (returned core (.ok none))
      else some (returned core (.error (.frame "stream closed mid-frame")))
    else some ⟨core, .decoding⟩
  | .idle _ => none
  | .reading _ => none

/-- The end of a read into the tail of the buffer. -/
def arrive (s : Receiving) (start : ℕ) : ReadOutcome → Option Receiving
  | .ready chunk =>
    some ⟨{ s.core with readBuf := writeAt s.core.readBuf start chunk.bytes },
      .arrived start (.ok chunk.bytes.length)⟩
  | .failed e => some ⟨s.core, .arrived start (.error e)⟩
  | .elapsed =>
    -- The `?` on the elapsed timeout leaves `fill` before the buffer is cut back.
    s.core.readTimeout.map fun timeout =>
      returned s.core (.error (.frame ("read timed out after " ++ timeout.debug)))

def step (f : Framing) (s : Receiving) : RecvAction → Option Receiving
  | .call =>
    match s.stage with
    | .idle _ => some { s with stage := .decoding }
    | _ => none
  | .advance => s.advance f
  | .read outcome =>
    match s.stage with
    | .reading start => s.arrive start outcome
    | _ => none
  | .drop =>
    match s.stage with
    | .reading _ => some { s with stage := .idle none }
    | _ => none

/-- A reader with a frame-size cap before its first call. -/
def new (cap : ℕ) (readTimeout : Option Duration) : Receiving :=
  ⟨.capped cap readTimeout [], .idle none⟩

/-! ## The bound -/

/-- While a read is made the buffer is a chunk longer than before, when it was within the cap; else it
is less than a chunk beyond the cap. -/
def Fits (cap : ℕ) (readBuf : Bytes) : RecvStage → Prop
  | .reading start => start < cap ∧ readBuf.length = start + chunkSize
  | .arrived start n =>
    start < cap ∧ readBuf.length = start + chunkSize ∧ ∀ m, n = .ok m → m ≤ chunkSize
  | _ => readBuf.length < cap + chunkSize

/-- The cap is `cap`, and the buffer fits. -/
structure Bounded (cap : ℕ) (s : Receiving) : Prop where
  maxFrameSize_eq : s.core.maxFrameSize = cap
  fits : Fits cap s.core.readBuf s.stage

namespace Bounded

variable {f : Framing} {cap : ℕ} {readTimeout : Option Duration} {s s' : Receiving}

theorem new (hcap : 0 < cap) : Bounded cap (new cap readTimeout) :=
  ⟨rfl, by
    change 0 < cap + chunkSize
    omega⟩

theorem length_lt (h : Bounded cap s) : s.core.readBuf.length < cap + chunkSize := by
  have hfits := h.fits
  unfold Fits at hfits
  split at hfits <;> omega

theorem returned {core : ReadCore} {readBuf : Bytes} (hsize : core.maxFrameSize = cap)
    (hlength : readBuf.length < cap + chunkSize) (result : Except TransportError (Option Bytes)) :
    Bounded cap (returned { core with readBuf } result) :=
  ⟨hsize, hlength⟩

/-- A call takes a step: the buffer is grown when it is within the cap. -/
theorem advance (h : Bounded cap s) (hcap : 0 < cap) (hstep : s.advance f = some s') :
    Bounded cap s' := by
  obtain ⟨core, stage⟩ := s
  obtain ⟨hsize, hfits⟩ := h
  dsimp only at hsize hfits
  unfold Receiving.advance at hstep
  cases stage with
  | idle | reading => cases hstep
  | decoding =>
    have hlength : core.readBuf.length < cap + chunkSize := hfits
    dsimp only at hstep
    split at hstep <;> obtain rfl := Option.some.inj hstep
    · exact returned hsize hlength _
    · refine returned hsize ?_ _
      rw [List.length_drop]
      omega
    · exact ⟨hsize, hlength⟩
  | filling =>
    have hlength : core.readBuf.length < cap + chunkSize := hfits
    dsimp only at hstep
    split_ifs at hstep with hfull <;> obtain rfl := Option.some.inj hstep
    · exact returned hsize hlength _
    · rw [hsize] at hfull
      refine ⟨hsize, ?_, ?_⟩
      · exact not_le.1 fun hle => hfull ⟨hcap, hle⟩
      · dsimp only
        rw [ReadCore.resize_length_add, List.length_append, List.length_replicate]
  | arrived start n =>
    obtain ⟨hstart, hlength, hread⟩ := hfits
    cases n with
    | ok n =>
      have hn := hread n rfl
      obtain rfl := Option.some.inj hstep
      refine ⟨hsize, ?_⟩
      change (core.readBuf.take (start + n)).length < cap + chunkSize
      rw [List.length_take]
      omega
    | error e =>
      obtain rfl := Option.some.inj hstep
      refine returned hsize ?_ _
      rw [List.length_take]
      omega
  | filled n =>
    have hlength : core.readBuf.length < cap + chunkSize := hfits
    dsimp only at hstep
    split_ifs at hstep <;> obtain rfl := Option.some.inj hstep
    · exact returned hsize hlength _
    · exact returned hsize hlength _
    · refine returned hsize ?_ _
      change 0 < cap + chunkSize
      omega
    · exact returned hsize hlength _
    · exact returned hsize hlength _
    · exact ⟨hsize, hlength⟩

/-- A read ends: its bytes lie within the grown buffer. -/
theorem arrive (h : Bounded cap s) {start : ℕ} (hstage : s.stage = .reading start)
    {outcome : ReadOutcome} (hstep : s.arrive start outcome = some s') : Bounded cap s' := by
  have hlt := h.length_lt
  obtain ⟨hsize, hfits⟩ := h
  rw [hstage] at hfits
  obtain ⟨hstart, hlength⟩ := hfits
  cases outcome with
  | ready chunk =>
    have hchunk := chunk.le
    obtain rfl := Option.some.inj hstep
    refine ⟨hsize, hstart, ?_, ?_⟩
    · simp only [writeAt, List.length_append, List.length_take, List.length_drop]
      omega
    · intro m hm
      rw [← Except.ok.inj hm]
      exact hchunk
  | failed e =>
    obtain rfl := Option.some.inj hstep
    refine ⟨hsize, hstart, hlength, fun m hm => ?_⟩
    cases hm
  | elapsed =>
    obtain ⟨timeout, -, rfl⟩ := Option.map_eq_some_iff.1 hstep
    exact returned hsize hlt _

theorem step (h : Bounded cap s) (hcap : 0 < cap) {a : RecvAction} (hstep : s.step f a = some s') :
    Bounded cap s' := by
  cases a with
  | call =>
    unfold Receiving.step at hstep
    dsimp only at hstep
    split at hstep
    · rename_i hstage
      obtain rfl := Option.some.inj hstep
      exact ⟨h.maxFrameSize_eq, h.length_lt⟩
    · cases hstep
  | advance => exact h.advance hcap hstep
  | read outcome =>
    unfold Receiving.step at hstep
    dsimp only at hstep
    split at hstep
    · rename_i hstage
      exact h.arrive hstage hstep
    · cases hstep
  | drop =>
    unfold Receiving.step at hstep
    dsimp only at hstep
    split at hstep
    · obtain rfl := Option.some.inj hstep
      exact ⟨h.maxFrameSize_eq, h.length_lt⟩
    · cases hstep

theorem of_reach (hcap : 0 < cap) (h : Reach (Receiving.step f) always (.new cap readTimeout) s) :
    Bounded cap s :=
  h.invariant (.new hcap) fun _ _ _ hs _ hstep => hs.step hcap hstep

end Bounded

/-- At every point of every run the buffer is less than a chunk beyond the cap. -/
theorem length_readBuf_lt (f : Framing) {cap : ℕ} (hcap : 0 < cap) (readTimeout : Option Duration)
    (s : Receiving) (h : Reach (step f) always (new cap readTimeout) s) :
    s.core.readBuf.length < cap + 4096 :=
  (Bounded.of_reach hcap h).length_lt

/-- A call whose read times out leaves a whole chunk under a cap of one byte. -/
theorem length_readBuf_lt_timedOut :
    ∃ s, run (step Newline) always (new 1 (some (.fromMillis 50)))
        [.call, .advance, .advance, .read .elapsed] = some s ∧
      s.core.readBuf = List.replicate 4096 0 ∧ s.core.readBuf.length < 1 + 4096 :=
  ⟨_, rfl, rfl, length_readBuf_lt Newline Nat.one_pos (some (.fromMillis 50)) _
    (reach_of_run [.call, .advance, .advance, .read .elapsed] rfl)⟩

/-! ## The calls as runs -/

/-- The reads that actions end. -/
def readsOf (as : List RecvAction) : List ReadOutcome :=
  as.filterMap fun
    | .read outcome => some outcome
    | _ => none

section Runs

variable {f : Framing} {core : ReadCore} {reads : List ReadOutcome}

theorem step_decoding (f : Framing) (core : ReadCore) :
    (⟨core, .decoding⟩ : Receiving).step f .advance =
      match f.decode core.readBuf with
      | .error e => some (returned core (.error e))
      | .ok (some (msg, consumed)) =>
        some (returned { core with readBuf := core.readBuf.drop consumed } (.ok (some msg)))
      | .ok none => some ⟨core, .filling⟩ := rfl

theorem advance_decoding (h : f.decode core.readBuf = .ok none) :
    (⟨core, .decoding⟩ : Receiving).step f .advance = some ⟨core, .filling⟩ := by
  rw [step_decoding, h]

theorem advance_filling (f : Framing) (h : ¬ core.Full) :
    (⟨core, .filling⟩ : Receiving).step f .advance =
      some ⟨{ core with readBuf := resize core.readBuf (core.readBuf.length + chunkSize) 0 },
        .reading core.readBuf.length⟩ :=
  if_neg h

theorem run_ready (f : Framing) (h : ¬ core.Full) (chunk : Chunk) :
    run (step f) always ⟨core, .filling⟩ [.advance, .read (.ready chunk), .advance] =
      some ⟨{ core with readBuf := core.readBuf ++ chunk.bytes }, .filled chunk.bytes.length⟩ := by
  rw [run_cons trivial (advance_filling f h), run_cons trivial rfl, run_cons trivial rfl, run]
  dsimp only
  rw [ReadCore.take_writeAt_resize]

/-- A `fill` that fails is a run. -/
theorem exists_run_of_fill_eq_error (f : Framing) {core' : ReadCore} {reads' : List ReadOutcome}
    {e : TransportError} (h : core.fill reads = some ⟨.error e, core', reads'⟩) :
    ∃ as, reads = readsOf as ++ reads' ∧
      run (step f) always ⟨core, .filling⟩ as = some (returned core' (.error e)) := by
  generalize hr : (⟨.error e, core', reads'⟩ : Ran ℕ) = r at h
  cases ReadCore.fillExit_of_fill h with
  | full hfull =>
    cases hr
    exact ⟨[.advance], rfl, run_cons trivial (if_pos hfull)⟩
  | elapsed timeout hfull ht =>
    cases hr
    refine ⟨[.advance, .read .elapsed], rfl, ?_⟩
    have htimeout : (⟨{ core with readBuf := core.readBuf ++ List.replicate chunkSize 0 },
        .reading core.readBuf.length⟩ : Receiving).step f (.read .elapsed) = some (returned _ _) :=
      congrArg (Option.map _) ht
    rw [run_cons trivial (advance_filling f hfull), ReadCore.resize_length_add]
    exact run_cons trivial htimeout
  | failed e hfull =>
    cases hr
    refine ⟨[.advance, .read (.failed e), .advance], rfl, ?_⟩
    rw [run_cons trivial (advance_filling f hfull), run_cons trivial rfl, run_cons trivial rfl, run]
    dsimp only
    rw [ReadCore.take_resize]
  | exceeds chunk hfull hx =>
    cases hr
    refine ⟨[.advance, .read (.ready chunk), .advance] ++ [.advance], rfl, ?_⟩
    rw [run_append (run_ready f hfull chunk)]
    exact run_cons trivial (if_pos hx)
  | ok => cases hr

theorem exists_run_of_fill_eq_ok (f : Framing) {core' : ReadCore} {reads' : List ReadOutcome} {n : ℕ}
    (h : core.fill reads = some ⟨.ok n, core', reads'⟩) :
    ¬ core'.Exceeds core'.readBuf ∧ ∃ as, reads = readsOf as ++ reads' ∧
      run (step f) always ⟨core, .filling⟩ as = some ⟨core', .filled n⟩ := by
  obtain ⟨chunk, rfl, rfl, hfull, hx, rfl⟩ := ReadCore.fill_eq_ok h
  exact ⟨hx, _, rfl, run_ready f hfull chunk⟩

theorem readsOf_append (as bs : List RecvAction) : readsOf (as ++ bs) = readsOf as ++ readsOf bs :=
  List.filterMap_append ..

theorem exists_run_of_advance {core' : ReadCore} {reads' : List ReadOutcome} {n : ℕ}
    (hdec : f.decode core.readBuf = .ok none)
    (hfill : core.fill reads = some ⟨.ok n, core', reads'⟩) {s : Receiving}
    (hnext : ¬ core'.Exceeds core'.readBuf →
      (⟨core', .filled n⟩ : Receiving).step f .advance = some s) :
    ∃ as, reads = readsOf as ++ reads' ∧ run (step f) always ⟨core, .decoding⟩ as = some s := by
  obtain ⟨hx, as, hreads, hrun⟩ := exists_run_of_fill_eq_ok f hfill
  have hreadsOf : readsOf (.advance :: as ++ [.advance]) = readsOf as := by
    rw [readsOf_append]
    exact List.append_nil _
  refine ⟨.advance :: as ++ [.advance], by rw [hreadsOf, hreads], ?_⟩
  rw [List.cons_append, run_cons trivial (advance_decoding hdec), run_append hrun]
  exact run_cons trivial (hnext hx)

theorem advance_filled (h : ¬ core.Exceeds core.readBuf) :
    (⟨core, .filled 0⟩ : Receiving).step f .advance =
      if f.takeOnEof then
        if core.readBuf.isEmpty then some (returned core (.ok none))
        else some (returned { core with readBuf := [] } (.ok (some core.readBuf)))
      else if core.readBuf.isEmpty then some (returned core (.ok none))
      else some (returned core (.error (.frame "stream closed mid-frame"))) := by
  unfold step advance
  dsimp only
  rw [if_neg h, if_pos rfl]

/-- Every call of `recv` is a run, which ends its reads and returns what it returns. -/
theorem exists_run_of_recvExit {out : Received} (h : ReadCore.RecvExit f core reads out) :
    ∃ as, reads = readsOf as ++ out.reads ∧
      run (step f) always ⟨core, .decoding⟩ as = some (returned out.core out.result) := by
  induction h with
  | @rejected core reads e hdec =>
    have hreturn : (⟨core, .decoding⟩ : Receiving).step f .advance =
        some (returned core (.error e)) := by
      rw [step_decoding, hdec]
    exact ⟨[.advance], rfl, run_cons trivial hreturn⟩
  | @frame core reads msg consumed hdec =>
    have hreturn : (⟨core, .decoding⟩ : Receiving).step f .advance =
        some (returned { core with readBuf := core.readBuf.drop consumed } (.ok (some msg))) := by
      rw [step_decoding, hdec]
    exact ⟨[.advance], rfl, run_cons trivial hreturn⟩
  | failed hdec hfill =>
    obtain ⟨as, hreads, hrun⟩ := exists_run_of_fill_eq_error f hfill
    refine ⟨.advance :: as, hreads, ?_⟩
    rw [run_cons trivial (advance_decoding hdec), hrun]
  | closed hdec hfill hbuf =>
    refine exists_run_of_advance hdec hfill fun hx => ?_
    rw [advance_filled hx, hbuf]
    cases f.takeOnEof <;> rfl
  | taken hdec hfill hbuf heof =>
    refine exists_run_of_advance hdec hfill fun hx => ?_
    rw [advance_filled hx, if_pos heof, if_neg (mt List.isEmpty_iff.1 hbuf)]
  | midFrame hdec hfill hbuf heof =>
    refine exists_run_of_advance hdec hfill fun hx => ?_
    rw [advance_filled hx, if_neg (Bool.eq_false_iff.1 heof), if_neg (mt List.isEmpty_iff.1 hbuf)]
  | again hdec hfill hn rest ih =>
    obtain ⟨as, hreads, hrun⟩ := exists_run_of_advance hdec hfill fun hx => by
      unfold step advance
      dsimp only
      rw [if_neg hx, if_neg hn]
    obtain ⟨as', hreads', hrun'⟩ := ih
    refine ⟨as ++ as', ?_, ?_⟩
    · rw [readsOf_append, List.append_assoc, ← hreads', hreads]
    · rw [run_append hrun, hrun']

theorem exists_reach_of_inbox {cap : ℕ} {readTimeout : Option Duration} {i : Inbox}
    (h : Reach (Inbox.recv f) always (Inbox.new cap readTimeout) i) :
    ∃ last, Reach (step f) always (new cap readTimeout) ⟨i.core, .idle last⟩ := by
  apply h.invariant ⟨none, .refl⟩
  rintro i reads i' ⟨last, hreach⟩ - hrecv
  obtain ⟨out, hexit, hcore, -⟩ := Inbox.recv_eq_some hrecv
  obtain ⟨as, -, hrun⟩ := exists_run_of_recvExit hexit
  have hcall : (⟨i.core, .idle last⟩ : Receiving).step f .call = some ⟨i.core, .decoding⟩ := rfl
  rw [hcore]
  exact ⟨some out.result, (hreach.tail trivial hcall).trans (reach_of_run as hrun)⟩

end Runs

end Receiving

theorem Inbox.length_lt_of_reach {f : Framing} {cap : ℕ} (hcap : 0 < cap)
    {readTimeout : Option Duration} {i : Inbox}
    (h : Reach (Inbox.recv f) always (Inbox.new cap readTimeout) i) :
    i.core.readBuf.length < cap + chunkSize := by
  obtain ⟨last, hreach⟩ := Receiving.exists_reach_of_inbox h
  exact (Receiving.Bounded.of_reach hcap hreach).length_lt

end Jasonrpc
