import Jasonrpc.Transport.Codec
import Jasonrpc.Transport.ReadCore

/-!
# The frame reader between its reads

The loop of `recv` one turn at a time, for readers that run beside other tasks.  A turn either returns
what the buffer holds (`ready`), or waits for a read and looks at what it brings (`afterRead`);
`recv` is the iteration of its turns (`recv_eq`).  While its calls return frames, the frames are cut
from the bytes that were taken from the stream, and the buffer is the rest (`Heard`).
-/

namespace Jasonrpc

open ByteString Incremental

/-- What `recv` returns. -/
abbrev RecvResult := Except TransportError (Option Bytes)

namespace ReadCore

variable {f : Framing} {core core' : ReadCore}

/-- What `recv` returns without a further read; `none` where it reads. -/
def ready (f : Framing) (core : ReadCore) : Option (RecvResult × ReadCore) :=
  match f.decode core.readBuf with
  | .error e => some (.error e, core)
  | .ok (some (msg, consumed)) =>
    some (.ok (some msg), { core with readBuf := core.readBuf.drop consumed })
  | .ok none => if core.Full then some (.error core.tooLarge, core) else none

/-- What `recv` makes of a read that ends: it returns, or takes its next turn. -/
def afterRead (f : Framing) (core : ReadCore) (outcome : ReadOutcome) :
    Option (Option RecvResult × ReadCore) :=
  match core.fill [outcome] with
  | none => none
  | some ⟨.error e, core, _⟩ => some (some (.error e), core)
  | some ⟨.ok n, core, _⟩ =>
    if n = 0 then
      if f.takeOnEof then
        if core.readBuf.isEmpty then some (some (.ok none), core)
        else some (some (.ok (some core.readBuf)), { core with readBuf := [] })
      else if core.readBuf.isEmpty then some (some (.ok none), core)
      else some (some (.error (.frame "stream closed mid-frame")), core)
    else some (none, core)

theorem fill_cons (h : ¬ core.Full) (outcome : ReadOutcome) (reads : List ReadOutcome) :
    core.fill (outcome :: reads) = (core.fill [outcome]).map fun r => { r with reads } := by
  rw [fill, fill, if_neg h, if_neg h]
  cases outcome with
  | ready chunk =>
    dsimp only
    split_ifs <;> rfl
  | failed e => rfl
  | elapsed => cases core.readTimeout <;> rfl

/-- `recv` is the iteration of its turns. -/
theorem recv_eq (f : Framing) (core : ReadCore) (reads : List ReadOutcome) :
    (core.recv f reads).map Received.toRan =
      match core.ready f, reads with
      | some (result, core), reads => some ⟨result, core, reads⟩
      | none, [] => none
      | none, outcome :: reads =>
        (core.afterRead f outcome).bind fun turn =>
          match turn with
          | (some result, core) => some ⟨result, core, reads⟩
          | (none, core) => (core.recv f reads).map Received.toRan := by
  unfold ready
  cases hdec : f.decode core.readBuf with
  | error e =>
    rw [recv_of_recvExit (.rejected hdec)]
    rfl
  | ok frame =>
    cases frame with
    | some frame =>
      rw [recv_of_recvExit (.frame hdec)]
      rfl
    | none =>
      dsimp only
      by_cases hfull : core.Full
      · have hfill : core.fill reads = some ⟨.error core.tooLarge, core, reads⟩ :=
          fill_of_fillExit (.full hfull)
        rw [if_pos hfull, recv_of_recvExit (.failed hdec hfill)]
        rfl
      · rw [if_neg hfull]
        cases reads with
        | nil =>
          have hfill : core.fill [] = none := by rw [fill, if_neg hfull]
          rw [recv, hdec]
          dsimp only
          split <;> simp_all
        | cons outcome reads =>
          dsimp only
          have hcons := fill_cons hfull outcome reads
          rw [recv, hdec, afterRead]
          dsimp only
          cases hfill : core.fill [outcome] with
          | none =>
            rw [hfill] at hcons
            split <;> simp_all
          | some r =>
            obtain ⟨result, core', rest⟩ := r
            rw [hfill] at hcons
            cases result with
            | error e => split <;> simp_all
            | ok n =>
              split
              · simp_all
              · simp_all
              · rename_i n' core₁ reads₁ hfill'
                rw [hcons] at hfill'
                obtain ⟨hn, rfl, rfl⟩ := Ran.mk.inj (Option.some.inj hfill')
                obtain rfl := Except.ok.inj hn
                dsimp only
                split_ifs <;> rfl

end ReadCore

/-! ## A reader beside other tasks -/

/-- A read half, with the bytes that it has taken from the stream. -/
structure FramedReader where
  core : ReadCore := {}
  read : Bytes := []

/-- A turn of the loop of `recv`. -/
inductive RecvTurn where
  | ready
  | read (outcome : ReadOutcome)

/-- The bytes that a turn takes from the stream. -/
def RecvTurn.bytes : RecvTurn → Bytes
  | ready => []
  | read outcome => outcome.bytes

namespace FramedReader

variable {f : Framing} {r r' : FramedReader} {ms : List Bytes} {m : Bytes}

/-- A turn of `recv`: what it returns, if it does, and the reader behind it. -/
def turn (f : Framing) (r : FramedReader) : RecvTurn → Option (Option RecvResult × FramedReader)
  | .ready => (r.core.ready f).map fun (result, core) => (some result, { r with core })
  | .read outcome =>
    match r.core.ready f with
    | some _ => none
    | none =>
      (r.core.afterRead f outcome).map fun (result, core) =>
        (result, ⟨core, r.read ++ outcome.bytes⟩)

/-- The frames `ms` are cut from the bytes taken from the stream, and the buffer is the rest. -/
def Heard (f : Framing) (r : FramedReader) (ms : List Bytes) : Prop :=
  Cuts f.decode r.read ms r.core.readBuf

theorem heard_new (f : Framing) (core : ReadCore) (hcore : core.readBuf = []) :
    Heard f { core } [] := by
  rw [Heard, hcore]
  exact .nil []

/-- What a turn does. -/
inductive Turned (f : Framing) (r : FramedReader) :
    RecvTurn → Option RecvResult → FramedReader → Prop where
  | ready {result : RecvResult} {core : ReadCore} (h : r.core.ready f = some (result, core)) :
    Turned f r .ready (some result) { r with core }
  | read {outcome : ReadOutcome} {result : Option RecvResult} {core : ReadCore}
    (h : r.core.afterRead f outcome = some (result, core)) :
    Turned f r (.read outcome) result ⟨core, r.read ++ outcome.bytes⟩

variable {t : RecvTurn} {result : Option RecvResult}

theorem turned_of_turn (h : r.turn f t = some (result, r')) : Turned f r t result r' := by
  cases t with
  | ready =>
    obtain ⟨⟨result, core⟩, hready, heq⟩ := Option.map_eq_some_iff.1 h
    obtain ⟨rfl, rfl⟩ := Prod.mk.inj heq
    exact .ready hready
  | read outcome =>
    unfold turn at h
    cases hready : r.core.ready f with
    | some _ =>
      rw [hready] at h
      cases h
    | none =>
      rw [hready] at h
      obtain ⟨⟨result, core⟩, hafter, heq⟩ := Option.map_eq_some_iff.1 h
      obtain ⟨rfl, rfl⟩ := Prod.mk.inj heq
      exact .read hafter

theorem read_of_turn (h : r.turn f t = some (result, r')) : r'.read = r.read ++ t.bytes := by
  cases turned_of_turn h with
  | ready => exact (List.append_nil _).symm
  | read => rfl

/-- A read that ends leaves what it has brought in the buffer, and no frame where the framing does not
take one at end-of-file. -/
theorem readBuf_of_afterRead {core core' : ReadCore} {outcome : ReadOutcome}
    (heof : f.takeOnEof = false) (h : core.afterRead f outcome = some (result, core')) :
    (result = none → core'.readBuf = core.readBuf ++ outcome.bytes) ∧
      ∀ m, result ≠ some (.ok (some m)) := by
  unfold ReadCore.afterRead at h
  cases hfill : core.fill [outcome] with
  | none =>
    rw [hfill] at h
    cases h
  | some out =>
    rw [hfill] at h
    cases ReadCore.fillExit_of_fill hfill with
    | full | elapsed | failed | exceeds =>
      obtain ⟨rfl, -⟩ := Prod.mk.inj (Option.some.inj h)
      exact ⟨fun h => (by cases h), fun m h => by cases h⟩
    | ok chunk =>
      simp only [heof, Bool.false_eq_true, if_false] at h
      split_ifs at h <;> obtain ⟨rfl, rfl⟩ := Prod.mk.inj (Option.some.inj h)
      · exact ⟨fun h => (by cases h), fun m h => by cases h⟩
      · exact ⟨fun h => (by cases h), fun m h => by cases h⟩
      · exact ⟨fun _ => rfl, fun m h => by cases h⟩

theorem Heard.again (hr : Heard f r ms) (law : Lawful f.decode) (heof : f.takeOnEof = false)
    (h : r.turn f t = some (none, r')) : Heard f r' ms := by
  cases turned_of_turn h with
  | @read outcome _ core hafter =>
    show Cuts f.decode (r.read ++ outcome.bytes) ms core.readBuf
    rw [(readBuf_of_afterRead heof hafter).1 rfl]
    exact law.cuts_append hr _

theorem Heard.frame (hr : Heard f r ms) (heof : f.takeOnEof = false)
    (h : r.turn f t = some (some (.ok (some m)), r')) : Heard f r' (ms ++ [m]) := by
  cases turned_of_turn h with
  | ready hready =>
    unfold ReadCore.ready at hready
    split at hready
    · cases hready
    · rename_i msg consumed hdec
      obtain ⟨hmsg, rfl⟩ := Prod.mk.inj (Option.some.inj hready)
      obtain rfl := Option.some.inj (Except.ok.inj hmsg)
      exact hr.concat hdec
    · split_ifs at hready
      cases hready
  | read hafter => exact absurd rfl ((readBuf_of_afterRead heof hafter).2 m)

theorem exists_cuts_of_turn {rest : Bytes} (law : Lawful f.decode)
    (hr : Cuts f.decode r.read ms rest) (h : r.turn f t = some (result, r')) :
    ∃ rest', Cuts f.decode r'.read ms rest' := by
  rw [read_of_turn h]
  exact ⟨rest ++ t.bytes, law.cuts_append hr _⟩

end FramedReader

/-! ## Netstrings and `Content-Length` headers -/

namespace Codec

/-- The frame of a message is shorter than `2 ^ width`. -/
abbrev Fits (c : Codec) (width : ℕ) (p : Bytes) : Prop :=
  ((c.framing width).encode p).length < 2 ^ width

variable {c : Codec} (hc : c = .netstring ∨ c = .contentLength) {width : ℕ}
include hc

theorem takeOnEof_eq : (c.framing width).takeOnEof = false := by
  rcases hc with rfl | rfl <;> rfl

theorem carries_of_fits (hwidth : width ≤ 64) {p : Bytes} (hp : c.Fits width p) :
    Incremental.Carries (c.framing width).decode (c.framing width).encode p :=
  fun t => (decode_encode_append hc hwidth hp t).1

end Codec

end Jasonrpc
