import Jasonrpc.Transport.Conservation
import Jasonrpc.Transport.Stream
import Mathlib.Data.List.Forall2

/-!
# The frame-size cap

`fill` tests the cap against the whole buffer, and before the frames in it are decoded.  So frames
within the cap are refused when a read that begins inside one of them brings more of what follows
than the cap leaves room for (`yields_capped_iff`).  What a refused read has brought stays in the
buffer, and the next call decodes it without a test: a run of calls delivers no payload beyond the
cap as long as each call begins with a buffer within the cap (`length_le_cap`).
-/

namespace Jasonrpc

open ByteString Incremental Machine

/-- A reader with a frame-size cap. -/
def ReadCore.capped (cap : ℕ) (readTimeout : Option Duration) (readBuf : Bytes) : ReadCore :=
  { readBuf, readTimeout, maxFrameSize := cap }

/-- The payloads that a codec can carry: one that ends frames with a delimiter does not escape it. -/
def Codec.Carries : Codec → Bytes → Prop
  | delimited d, p => d ∉ p
  | newline, p => lf ∉ p
  | netstring, _ => True
  | contentLength, _ => True

instance Codec.decidableCarries : (c : Codec) → (p : Bytes) → Decidable (c.Carries p)
  | delimited d, p => inferInstanceAs (Decidable (d ∉ p))
  | newline, p => inferInstanceAs (Decidable (lf ∉ p))
  | netstring, _ => inferInstanceAs (Decidable True)
  | contentLength, _ => inferInstanceAs (Decidable True)

/-- Each read ends at most `cap` bytes behind the start of the frame in which it begins, when
`buffered` bytes of the frames are there before the first read. -/
def ReadsWithin (cap buffered : ℕ) (frames : List Bytes) (chunks : List Chunk) : Prop :=
  ∀ before chunk after done frame rest, chunks = before ++ chunk :: after →
    frames = done ++ frame :: rest →
    done.flatten.length ≤ buffered + (before.flatMap Chunk.bytes).length →
    buffered + (before.flatMap Chunk.bytes).length < done.flatten.length + frame.length →
    buffered + (before.flatMap Chunk.bytes).length + chunk.bytes.length ≤
      done.flatten.length + cap

section ReadsWithin

variable {cap buffered : ℕ} {frame : Bytes} {frames : List Bytes} {chunk : Chunk}
  {chunks : List Chunk}

theorem readsWithin_nil : ReadsWithin cap buffered frames [] := by
  intro before chunk after done frame rest hchunks
  simp at hchunks

theorem readsWithin_cons_frame (h : frame.length ≤ buffered) :
    ReadsWithin cap buffered (frame :: frames) chunks ↔
      ReadsWithin cap (buffered - frame.length) frames chunks := by
  constructor
  · intro hw before chunk after done frame' rest hchunks hframes hstart hend
    have := hw before chunk after (frame :: done) frame' rest hchunks (by rw [hframes]; rfl)
    rw [List.flatten_cons, List.length_append] at this
    have := this (by omega) (by omega)
    omega
  · intro hw before chunk after done frame' rest hchunks hframes hstart hend
    cases done with
    | nil =>
      obtain ⟨rfl, -⟩ := List.cons.inj hframes
      rw [List.flatten_nil, List.length_nil] at hend
      omega
    | cons first done =>
      obtain ⟨rfl, htail⟩ := List.cons.inj hframes
      rw [List.flatten_cons, List.length_append] at hstart hend ⊢
      have := hw before chunk after done frame' rest hchunks htail (by omega) (by omega)
      omega

theorem readsWithin_cons_chunk (h : buffered < frame.length) :
    ReadsWithin cap buffered (frame :: frames) (chunk :: chunks) ↔
      buffered + chunk.bytes.length ≤ cap ∧
        ReadsWithin cap (buffered + chunk.bytes.length) (frame :: frames) chunks := by
  constructor
  · refine fun hw => ⟨?_, ?_⟩
    · have := hw [] chunk chunks [] frame frames rfl rfl
      simp only [List.flatMap_nil, List.flatten_nil, List.length_nil, Nat.add_zero,
        Nat.zero_add] at this
      exact this (Nat.zero_le _) h
    · intro before chunk' after done frame' rest hchunks hframes hstart hend
      have := hw (chunk :: before) chunk' after done frame' rest (by rw [hchunks]; rfl) hframes
      rw [List.flatMap_cons, List.length_append] at this
      have := this (by omega) (by omega)
      omega
  · rintro ⟨hfirst, hw⟩ before chunk' after done frame' rest hchunks hframes hstart hend
    cases before with
    | nil =>
      obtain ⟨rfl, -⟩ := List.cons.inj hchunks
      rw [List.flatMap_nil, List.length_nil] at hstart ⊢
      cases done with
      | nil =>
        rw [List.flatten_nil, List.length_nil]
        omega
      | cons first done =>
        obtain ⟨rfl, -⟩ := List.cons.inj hframes
        rw [List.flatten_cons, List.length_append] at hstart
        omega
    | cons first before =>
      obtain ⟨rfl, htail⟩ := List.cons.inj hchunks
      rw [List.flatMap_cons, List.length_append] at hstart hend ⊢
      have := hw before chunk' after done frame' rest htail hframes (by omega) (by omega)
      omega

end ReadsWithin

/-! ## Reading with a cap -/

/-- A frame by itself, with its payload: it is read off, and not rejected while it grows. -/
structure FrameOf (f : Framing) (frame m : Bytes) : Prop where
  decode : f.decode frame = .ok (some (m, frame.length))
  clean : Clean f.decode frame frame.length

/-- An encoded payload is such a frame. -/
theorem Codec.frameOf_encode {w : ℕ} {c : Codec} {p : Bytes} (hw : w ≤ 64) (hp : c.Carries p)
    (hlen : ((c.framing w).encode p).length < 2 ^ w) :
    FrameOf (c.framing w) ((c.framing w).encode p) p := by
  have hdelimited (d : UInt8) (hd : d ∉ p) : FrameOf (Delimited d) ((Delimited d).encode p) p := by
    have hdec : Delimited.decode d (p ++ [d]) = .ok (some (p, (p ++ [d]).length)) :=
      Delimited.decode_eq_some_iff.2 ⟨[], rfl, hd, List.length_append⟩
    exact ⟨hdec, Delimited.clean hdec⟩
  have hprefixed (hc : c = .netstring ∨ c = .contentLength) :
      FrameOf (c.framing w) ((c.framing w).encode p) p := by
    obtain ⟨hdec, hclean⟩ := Codec.decode_encode_append hc hw hlen []
    rw [List.append_nil] at hdec hclean
    exact ⟨hdec, hclean⟩
  cases c with
  | delimited d => exact hdelimited d hp
  | newline => exact hdelimited lf hp
  | netstring => exact hprefixed (.inl rfl)
  | contentLength => exact hprefixed (.inr rfl)

section Capped

variable {f : Framing} {cap : ℕ} {readTimeout : Option Duration} {ms : List Bytes}
  {ending : Option TransportError} {b frame m : Bytes} {frames : List Bytes}
  {chunks : List Chunk} {reads : List ReadOutcome}

open ReadCore

theorem arrive_cons (chunk : Chunk) (chunks : List Chunk) (rest : List ReadOutcome) :
    arrive (chunk :: chunks) rest = .ready chunk :: arrive chunks rest := rfl

theorem yields_cons_iff {core core' : ReadCore} {reads' : List ReadOutcome} {wire : Bytes}
    (h : core.recv f reads = some ⟨⟨.ok (some m), core', reads'⟩, wire⟩) :
    Yields f core reads (m :: ms) ending ↔ Yields f core' reads' ms ending := by
  constructor
  · intro hy
    cases hy with
    | payload head tail =>
      rw [h] at head
      cases head
      exact tail
  · exact .payload h

theorem yields_congr {core core' : ReadCore} {reads' : List ReadOutcome}
    (h : core.recv f reads = core'.recv f reads') :
    Yields f core reads ms ending ↔ Yields f core' reads' ms ending := by
  constructor
  · intro hy
    cases hy with
    | closed last => exact .closed (h.symm.trans last)
    | failed last => exact .failed (h.symm.trans last)
    | payload head tail => exact .payload (h.symm.trans head) tail
  · intro hy
    cases hy with
    | closed last => exact .closed (h.trans last)
    | failed last => exact .failed (h.trans last)
    | payload head tail => exact .payload (h.trans head) tail

theorem recv_capped_frame (law : Lawful f.decode) (hframe : FrameOf f frame m) (t : Bytes) :
    (capped cap readTimeout (frame ++ t)).recv f reads =
      some ⟨⟨.ok (some m), capped cap readTimeout t, reads⟩, frame⟩ := by
  have hexit : RecvExit f (capped cap readTimeout (frame ++ t)) reads _ :=
    .frame (law.append hframe.decode t)
  have hrecv := recv_of_recvExit hexit
  rwa [show (capped cap readTimeout (frame ++ t)).readBuf = frame ++ t from rfl, List.drop_left,
    List.take_left] at hrecv

/-- A read inside a frame within the cap makes the buffer longer where it stays within the cap, and
is refused elsewhere. -/
theorem recv_capped_ready (readTimeout : Option Duration) (reads : List ReadOutcome)
    (hframe : FrameOf f frame m) (hsize : frame.length ≤ cap) (hb : b = frame.take b.length)
    (hlt : b.length < frame.length) {chunk : Chunk} (hchunk : chunk.bytes ≠ []) :
    (b.length + chunk.bytes.length ≤ cap →
      (capped cap readTimeout b).recv f (.ready chunk :: reads) =
        (capped cap readTimeout (b ++ chunk.bytes)).recv f reads) ∧
    (cap < b.length + chunk.bytes.length → ∃ core reads' wire,
      (capped cap readTimeout b).recv f (.ready chunk :: reads) =
        some ⟨⟨.error (capped cap readTimeout b).tooLarge, core, reads'⟩, wire⟩) := by
  have hdec : f.decode (capped cap readTimeout b).readBuf = .ok none := by
    rw [show (capped cap readTimeout b).readBuf = b from rfl, hb]
    exact hframe.clean b.length hlt
  have hfull : ¬ (capped cap readTimeout b).Full := fun h => absurd h.2 (by
    change ¬ cap ≤ b.length
    omega)
  refine ⟨fun hle => recv_ready reads hdec hfull (fun h => ?_) hchunk, fun hgt => ?_⟩
  · have hx : cap < (b ++ chunk.bytes).length := h.2
    rw [List.length_append] at hx
    omega
  · have hx : (capped cap readTimeout b).Exceeds (b ++ chunk.bytes) := by
      constructor
      · change 0 < cap
        omega
      · change cap < (b ++ chunk.bytes).length
        rwa [List.length_append]
    exact ⟨_, _, _, recv_of_recvExit (.failed hdec (fill_of_fillExit (.exceeds chunk hfull hx)))⟩

/-- Frames within the cap are delivered one after the other, and the stream then ends, just when
each read stays within the cap. -/
theorem yields_frames_iff (law : Lawful f.decode) (hnil : f.decode [] = .ok none) (hcap : 0 < cap)
    (hframes : List.Forall₂ (FrameOf f) frames ms) (hsize : ∀ frame ∈ frames, frame.length ≤ cap)
    (hne : ∀ chunk ∈ chunks, chunk.bytes ≠ [])
    (hs : b ++ chunks.flatMap Chunk.bytes = frames.flatten) :
    Yields f (capped cap readTimeout b) (arrive chunks atEof) ms none ↔
      ReadsWithin cap b.length frames chunks := by
  induction hframes generalizing b chunks with
  | nil =>
    obtain ⟨rfl, hflat⟩ := List.append_eq_nil_iff.1 hs
    obtain rfl := eq_nil_of_flatMap_eq_nil hne hflat
    refine iff_of_true ?_ readsWithin_nil
    have hfull : ¬ (capped cap readTimeout []).Full := fun h => absurd h.2 (Nat.not_le_of_lt hcap)
    have hx : ¬ (capped cap readTimeout []).Exceeds [] := fun h => absurd h.2 (Nat.not_lt_zero _)
    exact .closed (recv_of_recvExit (.closed hnil (fill_of_fillExit (.ok _ hfull hx)) rfl))
  | @cons frame m frames ms hframe _ ih =>
    -- Chunks are read until the frame is there; what they bring behind it is left to the frames
    -- that follow.
    induction chunks generalizing b with
    | nil =>
      obtain rfl : b = frame ++ frames.flatten := by simpa using hs
      rw [yields_cons_iff (recv_capped_frame law hframe _)]
      refine iff_of_true ?_ readsWithin_nil
      exact (ih (fun x hx => hsize x (List.mem_cons_of_mem _ hx)) hne (by simp)).2 readsWithin_nil
    | cons chunk chunks ihc =>
      rcases Nat.lt_or_ge b.length frame.length with hlt | hge
      · have hb : b = frame.take b.length := by
          have htake := congrArg (List.take b.length) hs
          rwa [List.take_left, List.flatten_cons, List.take_append_of_le_length hlt.le] at htake
        have hchunk := hne chunk List.mem_cons_self
        obtain ⟨hfits, hrefused⟩ := recv_capped_ready readTimeout (arrive chunks atEof) hframe
          (hsize frame List.mem_cons_self) hb hlt hchunk
        rw [readsWithin_cons_chunk hlt, arrive_cons]
        rcases Nat.lt_or_ge cap (b.length + chunk.bytes.length) with hgt | hle
        · refine iff_of_false (fun hy => ?_) fun h => by omega
          obtain ⟨core, reads', wire, hrecv⟩ := hrefused hgt
          cases hy with
          | payload head tail =>
            cases hrecv.symm.trans head
        · rw [yields_congr (hfits hle), and_iff_right hle]
          have hrest := @ihc (b ++ chunk.bytes) (fun x hx => hne x (List.mem_cons_of_mem _ hx))
            (by rw [← hs, List.flatMap_cons, List.append_assoc])
          rwa [List.length_append] at hrest
      · obtain ⟨t, rfl⟩ : frame <+: b := by
          refine List.prefix_of_prefix_length_le ⟨frames.flatten, rfl⟩ ⟨_, hs⟩ hge
        rw [yields_cons_iff (recv_capped_frame law hframe t), readsWithin_cons_frame hge,
          List.length_append, Nat.add_sub_cancel_left]
        rw [List.flatten_cons, List.append_assoc] at hs
        exact ih (fun x hx => hsize x (List.mem_cons_of_mem _ hx)) hne (List.append_cancel_left hs)

end Capped

/-! ## Encoded payloads under a cap -/

/-- Encoded payloads whose frames are within the cap are delivered in order, and no call is refused,
just when each read ends at most `cap` bytes behind the start of the frame in which it begins. -/
theorem yields_capped_iff {w cap : ℕ} {c : Codec} (hw : w ≤ 64) (hpos : 0 < cap)
    (hcap : cap < 2 ^ w) (readTimeout : Option Duration) (ps : List Bytes)
    (hcarries : ∀ p ∈ ps, c.Carries p)
    (hsize : ∀ p ∈ ps, ((c.framing w).encode p).length ≤ cap) (chunks : List Chunk)
    (hs : Splits (ps.flatMap (c.framing w).encode) chunks) :
    Yields (c.framing w) (.capped cap readTimeout []) (arrive chunks atEof) ps none ↔
      ReadsWithin cap 0 (ps.map (c.framing w).encode) chunks := by
  have hframes : List.Forall₂ (FrameOf (c.framing w)) (ps.map (c.framing w).encode) ps := by
    rw [List.forall₂_map_left_iff, List.forall₂_same]
    intro p hp
    exact Codec.frameOf_encode hw (hcarries p hp) ((hsize p hp).trans_lt hcap)
  refine yields_frames_iff (Codec.lawful w c) (decode_nil w c) hpos hframes ?_ hs.1 ?_
  · intro frame hframe
    obtain ⟨p, hp, rfl⟩ := List.mem_map.1 hframe
    exact hsize p hp
  · rw [List.nil_append, hs.2, List.flatMap_def]

/-- Two netstrings of 4 bytes under a cap of 6 bytes, in reads of 5 and of 3 bytes. -/
theorem yields_capped_iff_two :
    Yields (Netstring 64) (.capped 6 none []) (arrive [⟨ascii "1:a,1", by decide⟩,
      ⟨ascii ":b,", by decide⟩] atEof) [ascii "a", ascii "b"] none := by
  refine (yields_capped_iff (c := .netstring) (w := 64) (by decide) (by decide) (by decide) none
    [ascii "a", ascii "b"] (fun _ _ => trivial) (by decide) _ ⟨by decide, by decide⟩).2 ?_
  rw [List.map_cons, List.map_cons, readsWithin_cons_chunk (by decide)]
  refine ⟨by decide, ?_⟩
  rw [readsWithin_cons_frame (by decide), readsWithin_cons_chunk (by decide)]
  exact ⟨by decide, readsWithin_nil⟩

/-- Two lines that arrive in one read. -/
def twoLines : Chunk := ⟨ascii "a\nb\n", by decide⟩

/-- Two lines of 2 bytes each are refused under a cap of 3 bytes when they arrive in one read. -/
theorem not_yields_capped_twoLines :
    (∀ p ∈ [ascii "a", ascii "b"], Codec.newline.Carries p ∧ (Newline.encode p).length ≤ 3) ∧
      Splits ([ascii "a", ascii "b"].flatMap Newline.encode) [twoLines] ∧
      (∃ core reads wire, (ReadCore.capped 3 none []).recv Newline (arrive [twoLines] atEof) =
        some ⟨⟨.error (.frame "frame exceeds max size of 3 bytes"), core, reads⟩, wire⟩) ∧
      ¬ Yields Newline (.capped 3 none []) (arrive [twoLines] atEof) [ascii "a", ascii "b"]
        none := by
  have hframe : FrameOf Newline (ascii "a\n") (ascii "a") :=
    Codec.frameOf_encode (c := .newline) (w := 64) (p := ascii "a") (by decide) (by decide)
      (by decide)
  have hwithin : (ascii "a\n").length ≤ 3 := by decide
  have hread : twoLines.bytes ≠ [] := by decide
  obtain ⟨core, reads, wire, hrecv⟩ :=
    (recv_capped_ready none atEof hframe hwithin (b := []) rfl (by decide) hread).2 (by decide)
  have htext : (ReadCore.capped 3 none []).tooLarge = .frame "frame exceeds max size of 3 bytes" := by
    decide
  rw [htext] at hrecv
  refine ⟨by decide, ⟨by decide, by decide⟩, ⟨core, reads, wire, hrecv⟩, fun hy => ?_⟩
  cases hy with
  | payload head tail =>
    cases hrecv.symm.trans head

/-! ## Calls on one reader -/

/-- A frame reader with the payloads that its `recv` calls have returned. -/
structure Inbox where
  core : ReadCore
  payloads : List Bytes := []

/-- A `recv` call that returns, with a payload or with an error, and whose reads are exactly
`reads`. -/
def Inbox.recv (f : Framing) (i : Inbox) (reads : List ReadOutcome) : Option Inbox :=
  match i.core.recv f reads with
  | some ⟨⟨result, core, []⟩, _⟩ => some ⟨core, i.payloads ++ result.toOption.join.toList⟩
  | _ => none

/-- A reader with a frame-size cap before its first call. -/
def Inbox.new (cap : ℕ) (readTimeout : Option Duration) : Inbox := ⟨.capped cap readTimeout [], []⟩

/-- The buffer is within the cap. -/
abbrev Inbox.Within (cap : ℕ) (i : Inbox) : Prop := i.core.readBuf.length ≤ cap

section Within

variable {w cap : ℕ} {c : Codec} {readTimeout : Option Duration} {core : ReadCore} {i i' : Inbox}
  {reads : List ReadOutcome}

namespace ReadCore

theorem FillExit.maxFrameSize_eq {r : Ran ℕ} (h : FillExit core reads r) :
    r.core.maxFrameSize = core.maxFrameSize := by
  cases h <;> rfl

theorem RecvExit.maxFrameSize_eq {f : Framing} {out : Received} (h : RecvExit f core reads out) :
    out.core.maxFrameSize = core.maxFrameSize := by
  induction h with
  | rejected | frame => rfl
  | failed _ hfill => exact (fillExit_of_fill hfill).maxFrameSize_eq
  | closed _ hfill => exact (fillExit_of_fill hfill).maxFrameSize_eq
  | taken _ hfill => exact (fillExit_of_fill hfill).maxFrameSize_eq
  | midFrame _ hfill => exact (fillExit_of_fill hfill).maxFrameSize_eq
  | again _ hfill _ _ ih => exact ih.trans (fillExit_of_fill hfill).maxFrameSize_eq

theorem length_le_of_fill_eq_ok {core' : ReadCore} {reads' : List ReadOutcome} {n : ℕ}
    (hpos : 0 < core.maxFrameSize) (h : core.fill reads = some ⟨.ok n, core', reads'⟩) :
    core'.readBuf.length ≤ core'.maxFrameSize := by
  obtain ⟨chunk, rfl, -, -, hx, rfl⟩ := fill_eq_ok h
  exact not_lt.1 fun hlt => hx ⟨hpos, hlt⟩

/-- A call that begins with a buffer within the cap delivers no payload beyond it. -/
theorem RecvExit.length_le {out : Received} (h : RecvExit (c.framing w) core reads out)
    (hpos : 0 < core.maxFrameSize) (hb : core.readBuf.length ≤ core.maxFrameSize) {m : Bytes}
    (hm : out.result = .ok (some m)) : m.length ≤ core.maxFrameSize := by
  induction h with
  | rejected | failed | closed | midFrame => cases hm
  | @frame core reads msg consumed hdec =>
    obtain rfl := Option.some.inj (Except.ok.inj hm)
    have hle := (Codec.infix_take hdec).length_le
    rw [List.length_take] at hle
    omega
  | taken _ hfill =>
    obtain rfl := Option.some.inj (Except.ok.inj hm)
    have hle := length_le_of_fill_eq_ok hpos hfill
    rwa [(fillExit_of_fill hfill).maxFrameSize_eq] at hle
  | again _ hfill _ _ ih =>
    have heq := (fillExit_of_fill hfill).maxFrameSize_eq
    rw [← heq]
    exact ih (by rwa [heq]) (length_le_of_fill_eq_ok hpos hfill) hm

/-- The errors after which the buffer may be beyond the cap: a read has brought too much, or has
timed out. -/
def Overruns (core : ReadCore) (result : Except TransportError (Option Bytes)) : Prop :=
  result = .error core.tooLarge ∨
    ∃ timeout, core.readTimeout = some timeout ∧
      result = .error (.frame ("read timed out after " ++ timeout.debug))

/-- A call that begins with a buffer within the cap leaves one within the cap, unless it returns one
of those errors. -/
theorem RecvExit.within {out : Received} (h : RecvExit (c.framing w) core reads out)
    (hpos : 0 < core.maxFrameSize) (hb : core.readBuf.length ≤ core.maxFrameSize) :
    out.core.readBuf.length ≤ core.maxFrameSize ∨ core.Overruns out.result := by
  induction h with
  | rejected => exact .inl hb
  | frame =>
    refine .inl ?_
    rw [List.length_drop]
    omega
  | failed _ hfill =>
    cases fillExit_of_fill hfill with
    | full => exact .inl hb
    | elapsed timeout _ ht => exact .inr (.inr ⟨timeout, ht, rfl⟩)
    | failed => exact .inl hb
    | exceeds => exact .inr (.inl rfl)
  | closed _ hfill =>
    have hle := length_le_of_fill_eq_ok hpos hfill
    rw [(fillExit_of_fill hfill).maxFrameSize_eq] at hle
    exact .inl hle
  | taken => exact .inl (Nat.zero_le _)
  | midFrame _ hfill =>
    have hle := length_le_of_fill_eq_ok hpos hfill
    rw [(fillExit_of_fill hfill).maxFrameSize_eq] at hle
    exact .inl hle
  | @again core core' reads reads' n out _ hfill _ _ ih =>
    obtain ⟨chunk, rfl, -, -, -, rfl⟩ := fill_eq_ok hfill
    exact ih hpos (length_le_of_fill_eq_ok hpos hfill)

end ReadCore

namespace Inbox

theorem recv_eq_some {f : Framing} (h : i.recv f reads = some i') :
    ∃ out : Received, ReadCore.RecvExit f i.core reads out ∧ i'.core = out.core ∧
      i'.payloads = i.payloads ++ out.result.toOption.join.toList := by
  rw [recv] at h
  split at h
  · rename_i out
    obtain rfl := Option.some.inj h
    exact ⟨_, ReadCore.recvExit_of_recv ‹_›, rfl, rfl⟩
  · cases h

/-- In a run in which each call begins with a buffer within the cap, every payload is within the
cap. -/
theorem length_le_cap (hpos : 0 < cap)
    (h : Reach (recv (c.framing w)) (fun i _ => i.Within cap) (new cap readTimeout) i) :
    ∀ m ∈ i.payloads, m.length ≤ cap := by
  suffices hgoal : i.core.maxFrameSize = cap ∧ ∀ m ∈ i.payloads, m.length ≤ cap from hgoal.2
  refine Reach.invariant (I := fun i => i.core.maxFrameSize = cap ∧ ∀ m ∈ i.payloads,
    m.length ≤ cap) ⟨rfl, List.forall_mem_nil _⟩ ?_ h
  rintro i reads i' ⟨hsize, hall⟩ hwithin hrecv
  obtain ⟨out, hexit, hcore, hpayloads⟩ := recv_eq_some hrecv
  refine ⟨by rw [hcore, hexit.maxFrameSize_eq, hsize], fun m hm => ?_⟩
  rw [hpayloads, List.mem_append] at hm
  rcases hm with hm | hm
  · exact hall m hm
  · rw [Option.mem_toList, Option.join_eq_some_iff] at hm
    rw [← hsize] at hpos hwithin ⊢
    refine hexit.length_le hpos hwithin ?_
    cases hresult : out.result with
    | error e =>
      rw [hresult] at hm
      cases hm
    | ok m' =>
      rw [hresult] at hm
      exact congrArg Except.ok (Option.some.inj hm)

end Inbox

end Within

/-- A run under a cap of 8 bytes that reads a line after a failed read. -/
theorem length_le_cap_line :
    ∃ i : Inbox, i.payloads = [ascii "hi"] ∧ ∀ m ∈ i.payloads, m.length ≤ 8 := by
  let line : Chunk := ⟨ascii "hi\n", by decide⟩
  have hfailed : (Inbox.new 8 none).recv Newline [.failed "reset"] = some (Inbox.new 8 none) := by
    rw [Inbox.recv, ReadCore.recv_of_recvExit
      (.failed rfl (ReadCore.fill_of_fillExit (.failed "reset" (by decide))))]
    rfl
  have hline : (Inbox.new 8 none).recv Newline [.ready line] =
      some ⟨.capped 8 none [], [ascii "hi"]⟩ := by
    rw [Inbox.recv, ReadCore.recv_of_recvExit (.again rfl
      (ReadCore.fill_of_fillExit (.ok line (by decide) (by decide))) (by decide) (.frame rfl))]
    rfl
  exact ⟨_, rfl, Inbox.length_le_cap (w := 64) (c := .newline) (by decide)
    ((Reach.single (by decide) hfailed).tail (by decide) hline)⟩

/-- A line of 6 bytes with its line feed. -/
def longLine : Chunk := ⟨ascii "abcdef\n", by decide⟩

/-- A line beyond a cap of 3 bytes is refused by the call that reads it, and delivered by the
next. -/
theorem not_length_le_cap_longLine :
    ∃ i, Reach (Inbox.recv Newline) always (Inbox.new 3 none) i ∧
      ∃ m ∈ i.payloads, ¬ m.length ≤ 3 := by
  have hrefused : (Inbox.new 3 none).recv Newline [.ready longLine] =
      some ⟨.capped 3 none longLine.bytes, []⟩ := by
    rw [Inbox.recv, ReadCore.recv_of_recvExit (.failed rfl
      (ReadCore.fill_of_fillExit (.exceeds longLine (by decide) (by decide))))]
    rfl
  have hdelivered : (⟨.capped 3 none longLine.bytes, []⟩ : Inbox).recv Newline [] =
      some ⟨.capped 3 none [], [ascii "abcdef"]⟩ := by
    rw [Inbox.recv, ReadCore.recv_of_recvExit (.frame rfl)]
    rfl
  exact ⟨_, (Reach.single trivial hrefused).tail trivial hdelivered, ascii "abcdef",
    List.mem_singleton_self _, by decide⟩

end Jasonrpc
