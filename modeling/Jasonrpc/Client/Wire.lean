import Jasonrpc.Client.Multiplex
import Jasonrpc.Json.Text
import Mathlib.Data.List.Nodup

/-!
# Whole frames on the shared wire

The calls write their frames under one lock.  So the bytes handed to the socket are whole frames,
and then a part of the frame of the call that holds the lock (`Framed`).  This lasts as long as no
call is cancelled or fails in the middle of its frame (`wholeFrames`): that would release the lock
on a torn stream (`exists_tornFrame`).
-/

namespace Jasonrpc

open ByteString Machine

/-- A call that has left the writer lock behind, or will never acquire it. -/
def Phase.settled : Phase → Bool
  | waiting | unwinding _ | done _ => true
  | _ => false

theorem Call.settled_released (call : Call) : call.released.settled := by
  rw [released]
  cases call.operation <;> rfl

theorem Call.settled_exit (call : Call) (r : Outcome) : (call.exit r).settled := by
  rw [exit]
  cases call.operation <;> rfl

theorem Phase.ne_writing {phase : Phase} (h : phase.settled) (sent : ℕ) : phase ≠ .writing sent := by
  rintro rfl
  cases h

namespace MultiplexTransport

variable {B : Backend} {f : Framing} {s s' : MultiplexTransport} {c : ℕ} {call : Call}
  {done : List ℕ} {sent : ℕ}

/-- The frame of a call. -/
def frame (f : Framing) (s : MultiplexTransport) (c : ℕ) : Bytes :=
  ((s.calls c).map fun call => f.encode call.message).getD []

/-- The bytes handed to the socket are frames of different calls, and then at most a proper prefix
of the frame of another call. -/
def WholeFrames (f : Framing) (s : MultiplexTransport) : Prop :=
  ∃ (done : List ℕ) (tail : Bytes), done.Nodup ∧ s.wire = done.flatMap (s.frame f) ++ tail ∧
    (tail = [] ∨ ∃ c ∉ done, tail <+: s.frame f c ∧ tail ≠ s.frame f c)

/-- A call holds the lock after a part of its frame, not none and not all. -/
def midFrame (s : MultiplexTransport) (c : ℕ) : Bool :=
  match (s.calls c).map Call.phase with
  | some (.writing sent) => 0 < sent && sent < s.writeBuf.length
  | _ => false

/-- A step does not cancel a call, or let it fail, in the middle of its frame. -/
def AbandonsWhole (s : MultiplexTransport) : Action → Prop
  | .call c .cancel | .call c (.fail _) => s.midFrame c = false
  | _ => True

instance (s : MultiplexTransport) (a : Action) : Decidable (s.AbandonsWhole a) := by
  unfold AbandonsWhole
  split <;> infer_instance

/-- The calls `done` have written their frames, in this order, and the call that holds the lock a
part of its frame. -/
structure Framed (f : Framing) (s : MultiplexTransport) (done : List ℕ) : Prop where
  nodup : done.Nodup
  settled {c : ℕ} : c ∈ done → ∃ call, s.calls c = some call ∧ call.phase.settled
  locked {c : ℕ} {call : Call} {sent : ℕ} :
    s.calls c = some call → call.phase = .writing sent → s.writer = some c
  free : s.writer = none → s.wire = done.flatMap (s.frame f)
  held {c : ℕ} : s.writer = some c → ∃ call sent, s.calls c = some call ∧
    call.phase = .writing sent ∧ s.writeBuf = f.encode call.message ∧ sent ≤ s.writeBuf.length ∧
      s.wire = done.flatMap (s.frame f) ++ s.writeBuf.take sent

theorem frame_eq {phase : Phase} (hcall : s.calls c = some call)
    (hcalls : s'.calls = Function.update s.calls c (some { call with phase })) :
    s'.frame f = s.frame f := by
  funext x
  rw [frame, frame, hcalls, Function.update_apply]
  split_ifs with hx
  · rw [hx, hcall]
    rfl
  · rfl

namespace Framed

theorem notMem (h : Framed f s done) (hcall : s.calls c = some call)
    (hphase : call.phase.settled = false) : c ∉ done := by
  intro hmem
  obtain ⟨call', hcall', hsettled⟩ := h.settled hmem
  obtain rfl := Option.some.inj (hcall.symm.trans hcall')
  rw [hphase] at hsettled
  cases hsettled

theorem settled_update (h : Framed f s done) {phase : Phase} (hcall : s.calls c = some call)
    (hcalls : s'.calls = Function.update s.calls c (some { call with phase }))
    (hsettled : call.phase.settled → phase.settled) {x : ℕ} (hx : x ∈ done) :
    ∃ call, s'.calls x = some call ∧ call.phase.settled := by
  obtain ⟨callx, hcallx, hsettledx⟩ := h.settled hx
  rw [hcalls]
  rcases eq_or_ne x c with rfl | hne
  · obtain rfl := Option.some.inj (hcall.symm.trans hcallx)
    exact ⟨_, Function.update_self .., hsettled hsettledx⟩
  · exact ⟨callx, by rwa [Function.update_of_ne hne], hsettledx⟩

/-- A call moves on without the lock. -/
theorem quiet (h : Framed f s done) {phase : Phase} (hcall : s.calls c = some call)
    (hcalls : s'.calls = Function.update s.calls c (some { call with phase }))
    (hwriter : s'.writer = s.writer) (hbuf : s'.writeBuf = s.writeBuf) (hwire : s'.wire = s.wire)
    (hbefore : ∀ sent, call.phase ≠ .writing sent) (hafter : ∀ sent, phase ≠ .writing sent)
    (hsettled : call.phase.settled → phase.settled) : Framed f s' done where
  nodup := h.nodup
  settled hx := h.settled_update hcall hcalls hsettled hx
  locked {x callx sent} hcallx hphasex := by
    rw [hcalls] at hcallx
    rcases Table.of_update hcallx with ⟨-, rfl⟩ | ⟨-, hcallx⟩
    · exact absurd hphasex (hafter sent)
    · rw [hwriter]
      exact h.locked hcallx hphasex
  free hfree := by
    rw [hwire, frame_eq hcall hcalls]
    exact h.free (hwriter ▸ hfree)
  held {x} hheld := by
    obtain ⟨callx, sent, hcallx, hphasex, hrest⟩ := h.held (hwriter ▸ hheld)
    have hne : x ≠ c := by
      rintro rfl
      obtain rfl := Option.some.inj (hcall.symm.trans hcallx)
      exact hbefore sent hphasex
    refine ⟨callx, sent, ?_, hphasex, ?_⟩
    · rwa [hcalls, Function.update_of_ne hne]
    · rwa [hbuf, hwire, frame_eq hcall hcalls]

/-- The reader moves on. -/
theorem reader (h : Framed f s done) (hcalls : s'.calls = s.calls)
    (hwriter : s'.writer = s.writer) (hbuf : s'.writeBuf = s.writeBuf) (hwire : s'.wire = s.wire) :
    Framed f s' done := by
  have hframe : s'.frame f = s.frame f := by
    funext x
    rw [frame, frame, hcalls]
  constructor
  · exact h.nodup
  · rw [hcalls]
    exact h.settled
  · rw [hcalls, hwriter]
    exact h.locked
  · rw [hwriter, hwire, hframe]
    exact h.free
  · rw [hcalls, hwriter, hbuf, hwire, hframe]
    exact h.held

/-- A call starts. -/
theorem start (h : Framed f s done) (hfresh : s.calls c = none)
    (hcalls : s'.calls = Function.update s.calls c (some call)) (hready : call.phase = .ready)
    (hwriter : s'.writer = s.writer) (hbuf : s'.writeBuf = s.writeBuf) (hwire : s'.wire = s.wire) :
    Framed f s' done := by
  have hold {x : ℕ} {callx : Call} (hcallx : s.calls x = some callx) : s'.calls x = some callx := by
    rw [hcalls, Function.update_of_ne, hcallx]
    rintro rfl
    rw [hfresh] at hcallx
    cases hcallx
  have hframe : done.flatMap (s'.frame f) = done.flatMap (s.frame f) := by
    apply List.flatMap_congr
    intro x hx
    obtain ⟨callx, hcallx, -⟩ := h.settled hx
    rw [frame, frame, hold hcallx, hcallx]
  constructor
  · exact h.nodup
  · intro x hx
    obtain ⟨callx, hcallx, hsettled⟩ := h.settled hx
    exact ⟨callx, hold hcallx, hsettled⟩
  · intro x callx sent hcallx hphase
    rw [hcalls] at hcallx
    rcases Table.of_update hcallx with ⟨-, rfl⟩ | ⟨-, hcallx⟩
    · rw [hready] at hphase
      cases hphase
    · rw [hwriter]
      exact h.locked hcallx hphase
  · rw [hwriter, hwire, hframe]
    exact h.free
  · intro x hheld
    obtain ⟨callx, sent, hcallx, hrest⟩ := h.held (hwriter ▸ hheld)
    exact ⟨callx, sent, hold hcallx, by rwa [hbuf, hwire, hframe]⟩

theorem writing (h : Framed f s done) (hcall : s.calls c = some call)
    (hphase : call.phase = .writing sent) :
    s.writeBuf = f.encode call.message ∧ sent ≤ s.writeBuf.length ∧
      s.wire = done.flatMap (s.frame f) ++ s.writeBuf.take sent := by
  obtain ⟨call', sent', hcall', hphase', hrest⟩ := h.held (h.locked hcall hphase)
  obtain rfl := Option.some.inj (hcall.symm.trans hcall')
  obtain rfl := Phase.writing.inj (hphase.symm.trans hphase')
  exact hrest

/-- The lock is free when no call writes. -/
theorem acquire (h : Framed f s done) (hcall : s.calls c = some call)
    (hphase : call.phase = .locking) (hfree : s.writer = none) :
    Framed f ({ s with writer := some c, writeBuf := f.encodeInto call.message [] }.setPhase c call
      (.writing 0)) done := by
  have hcalls : ({ s with writer := some c, writeBuf := f.encodeInto call.message [] }.setPhase c
      call (.writing 0)).calls = Function.update s.calls c (some { call with phase := .writing 0 }) :=
    rfl
  constructor
  · exact h.nodup
  · exact fun hx => h.settled_update hcall hcalls (by rw [hphase]; exact fun h => by cases h) hx
  · intro x callx sent hcallx hphasex
    rw [hcalls] at hcallx
    rcases Table.of_update hcallx with ⟨rfl, -⟩ | ⟨-, hcallx⟩
    · rfl
    · cases hfree.symm.trans (h.locked hcallx hphasex)
  · intro hnone
    cases hnone
  · intro x hheld
    obtain rfl := Option.some.inj hheld
    refine ⟨_, 0, Function.update_self .., rfl, rfl, Nat.zero_le _, ?_⟩
    rw [frame_eq hcall hcalls, List.take_zero, List.append_nil]
    exact h.free hfree

/-- The stream takes the next bytes of the frame. -/
theorem write (h : Framed f s done) (hcall : s.calls c = some call)
    (hphase : call.phase = .writing sent) {n : ℕ} (hle : sent + n ≤ s.writeBuf.length) :
    Framed f ({ s with wire := s.wire ++ (s.writeBuf.drop sent).take n }.setPhase c call
      (.writing (sent + n))) done := by
  have hcalls : ({ s with wire := s.wire ++ (s.writeBuf.drop sent).take n }.setPhase c call
      (.writing (sent + n))).calls =
      Function.update s.calls c (some { call with phase := .writing (sent + n) }) := rfl
  have hlock := h.locked hcall hphase
  obtain ⟨hbuf, -, hwire⟩ := h.writing hcall hphase
  constructor
  · exact h.nodup
  · exact fun hx => h.settled_update hcall hcalls (by rw [hphase]; exact fun h => by cases h) hx
  · intro x callx sent' hcallx hphasex
    rw [hcalls] at hcallx
    rcases Table.of_update hcallx with ⟨rfl, -⟩ | ⟨-, hcallx⟩
    · exact hlock
    · exact h.locked hcallx hphasex
  · intro hnone
    cases hlock.symm.trans hnone
  · intro x hheld
    obtain rfl := Option.some.inj (hlock.symm.trans hheld)
    refine ⟨_, sent + n, Function.update_self .., rfl, hbuf, hle, ?_⟩
    rw [frame_eq hcall hcalls]
    show s.wire ++ (s.writeBuf.drop sent).take n = _ ++ s.writeBuf.take (sent + n)
    rw [hwire, List.append_assoc, List.take_add]

/-- The lock is released with none or all of the frame written. -/
theorem release (h : Framed f s done) {phase : Phase} (hcall : s.calls c = some call)
    (hphase : call.phase = .writing sent) (hsettled : phase.settled)
    (hsent : sent = 0 ∨ sent = s.writeBuf.length) :
    ∃ done', Framed f ({ s with writer := none }.setPhase c call phase) done' := by
  have hcalls : ({ s with writer := none }.setPhase c call phase).calls =
      Function.update s.calls c (some { call with phase }) := rfl
  have hlock := h.locked hcall hphase
  obtain ⟨hbuf, -, hwire⟩ := h.writing hcall hphase
  have hlocked {x : ℕ} {callx : Call} {sent : ℕ}
      (hcallx : ({ s with writer := none }.setPhase c call phase).calls x = some callx)
      (hphasex : callx.phase = .writing sent) : False := by
    rw [hcalls] at hcallx
    rcases Table.of_update hcallx with ⟨-, rfl⟩ | ⟨hx, hcallx⟩
    · exact Phase.ne_writing hsettled _ hphasex
    · exact hx (Option.some.inj ((h.locked hcallx hphasex).symm.trans hlock))
  rcases hsent with rfl | rfl
  · refine ⟨done, h.nodup, fun hx => h.settled_update hcall hcalls (fun _ => hsettled) hx,
      fun hcallx hphasex => (hlocked hcallx hphasex).elim, fun _ => ?_, fun hheld => by cases hheld⟩
    rw [frame_eq hcall hcalls]
    rw [List.take_zero, List.append_nil] at hwire
    exact hwire
  · have hmem : c ∉ done := h.notMem hcall (by rw [hphase]; rfl)
    refine ⟨done ++ [c], ?_, ?_, fun hcallx hphasex => (hlocked hcallx hphasex).elim, fun _ => ?_,
      fun hheld => by cases hheld⟩
    · exact List.Nodup.append h.nodup (List.nodup_singleton c) (List.disjoint_singleton.2 hmem)
    · intro x hx
      rcases List.mem_append.1 hx with hx | hx
      · exact h.settled_update hcall hcalls (fun _ => hsettled) hx
      · obtain rfl := List.mem_singleton.1 hx
        exact ⟨_, Function.update_self .., hsettled⟩
    · have hframe : s.frame f c = s.writeBuf := by
        rw [frame, hcall, hbuf]
        rfl
      rw [frame_eq hcall hcalls, List.flatMap_append, List.flatMap_singleton, hframe]
      rw [List.take_length] at hwire
      exact hwire

theorem sent_of_not_midFrame (h : Framed f s done) (hcall : s.calls c = some call)
    (hphase : call.phase = .writing sent) (hwhole : s.midFrame c = false) :
    sent = 0 ∨ sent = s.writeBuf.length := by
  have hle := (h.writing hcall hphase).2.1
  rw [midFrame, hcall, Option.map_some, hphase] at hwhole
  simp only [Bool.and_eq_false_iff, decide_eq_false_iff_not] at hwhole
  omega

/-- What an action of a call does to the wire. -/
theorem callStep {a : CallAction} (h : Framed f s done) (hcall : s.calls c = some call)
    (hok : s.AbandonsWhole (.call c a)) (hstep : CallStep B f s c call a s') :
    ∃ done', Framed f s' done' := by
  cases hstep with
  | check hphase =>
    refine ⟨done, h.quiet hcall rfl rfl rfl rfl ?_ ?_ ?_⟩
    · rw [hphase]
      exact fun _ h => by cases h
    · intro sent
      rcases s.afterCheck_cases (B := B) call with ⟨-, h⟩ | h | ⟨_, h⟩ <;> rw [h] <;>
        exact fun h => by cases h
    · rw [hphase]
      exact fun h => by cases h
  | insert hphase =>
    refine ⟨done, h.quiet hcall rfl rfl rfl rfl ?_ (fun _ h => by cases h) ?_⟩
    · rw [hphase]
      exact fun _ h => by cases h
    · rw [hphase]
      exact fun h => by cases h
  | acquire hphase hfree => exact ⟨done, h.acquire hcall hphase hfree⟩
  | write hphase _ hle => exact ⟨done, h.write hcall hphase hle⟩
  | flushed hphase => exact h.release hcall hphase call.settled_released (.inr rfl)
  | fail hphase =>
    exact h.release hcall hphase (call.settled_exit _) (h.sent_of_not_midFrame hcall hphase hok)
  | reply hphase =>
    refine ⟨done, h.quiet hcall rfl rfl rfl rfl ?_ (fun _ h => by cases h) fun _ => rfl⟩
    exact Phase.ne_writing (by rw [hphase]; rfl)
  | closed hphase =>
    refine ⟨done, h.quiet hcall rfl rfl rfl rfl ?_ (fun _ h => by cases h) fun _ => rfl⟩
    exact Phase.ne_writing (by rw [hphase]; rfl)
  | cancelReady hphase =>
    refine ⟨done, h.quiet hcall rfl rfl rfl rfl ?_ (fun _ h => by cases h) fun _ => rfl⟩
    rw [hphase]
    exact fun _ h => by cases h
  | cancel hphase =>
    have hexit := call.settled_exit .cancelled
    refine ⟨done, h.quiet hcall rfl rfl rfl rfl ?_ (Phase.ne_writing hexit) fun _ => hexit⟩
    rcases hphase with hphase | hphase <;> rw [hphase] <;> exact fun _ h => by cases h
  | cancelWriting hphase =>
    exact h.release hcall hphase (call.settled_exit _) (h.sent_of_not_midFrame hcall hphase hok)
  | unguard hphase =>
    refine ⟨done, h.quiet hcall rfl rfl rfl rfl ?_ (fun _ h => by cases h) fun _ => rfl⟩
    exact Phase.ne_writing (by rw [hphase]; rfl)

theorem step {a : Action} (h : Framed f s done) (hok : s.AbandonsWhole a)
    (hstep : s.step B f a = some s') : ∃ done', Framed f s' done' := by
  cases Step.of_step hstep with
  | start hfresh => exact ⟨done, h.start hfresh rfl rfl rfl rfl rfl⟩
  | call hcall hcallStep => exact h.callStep hcall hok hcallStep
  | reader hreaderStep =>
    refine ⟨done, ?_⟩
    cases hreaderStep <;> exact h.reader rfl rfl rfl rfl

/-- The wire holds whole frames, and a part of the frame of the holder of the lock. -/
theorem whole (h : Framed f s done) : s.WholeFrames f := by
  cases hwriter : s.writer with
  | none =>
    refine ⟨done, [], h.nodup, ?_, .inl rfl⟩
    rw [List.append_nil]
    exact h.free hwriter
  | some c =>
    obtain ⟨call, sent, hcall, hphase, hbuf, hle, hwire⟩ := h.held hwriter
    have hframe : s.frame f c = s.writeBuf := by
      rw [frame, hcall, hbuf]
      rfl
    have hmem : c ∉ done := h.notMem hcall (by rw [hphase]; rfl)
    rcases hle.lt_or_eq with hlt | rfl
    · refine ⟨done, _, h.nodup, hwire, .inr ⟨c, hmem, ?_, ?_⟩⟩
      · rw [hframe]
        exact List.take_prefix _ _
      · intro heq
        have hlength := congrArg List.length heq
        rw [hframe, List.length_take] at hlength
        omega
    · refine ⟨done ++ [c], [], ?_, ?_, .inl rfl⟩
      · exact List.Nodup.append h.nodup (List.nodup_singleton c) (List.disjoint_singleton.2 hmem)
      · rw [List.flatMap_append, List.flatMap_singleton, hframe, hwire, List.take_length,
          List.append_nil]

end Framed

/-- In a run where no call is cancelled or fails in the middle of its frame, the wire holds whole
frames, and at most one proper prefix of a frame after them. -/
theorem wholeFrames (B : Backend) (f : Framing) (s : MultiplexTransport)
    (hreach : Reach (step B f) AbandonsWhole new s) : s.WholeFrames f := by
  have hframed : ∃ done, Framed f s done := by
    apply hreach.invariant (I := fun s => ∃ done, Framed f s done)
    · refine ⟨[], ?_⟩
      constructor
      · exact List.nodup_nil
      · exact fun h => (List.not_mem_nil h).elim
      · exact fun h => by cases h
      · exact fun _ => rfl
      · exact fun h => by cases h
    · rintro s a s' ⟨done, h⟩ hok hstep
      exact h.step hok hstep
  obtain ⟨done, h⟩ := hframed
  exact h.whole

/-! ## Two notifications -/

section Sample

/-- A notification. -/
def sampleNotification : Bytes := ascii "\x7b\"jsonrpc\":\"2.0\",\"method\":\"tick\"\x7d"

/-- A call is cancelled before its frame, and another writes its frame in two parts. -/
def cancelledBefore : List Action :=
  [.start 0 .sendNotification sampleNotification, .start 1 .sendNotification sampleNotification,
    .call 0 .check, .call 1 .check, .call 0 .acquire, .call 0 .cancel, .call 1 .acquire,
    .call 1 (.write 5)]

theorem wholeFrames_cancelledBefore :
    ∃ s, run (step JsonText.backend Newline) AbandonsWhole new cancelledBefore = some s ∧
      s.WholeFrames Newline := by
  refine ⟨_, rfl, ?_⟩
  apply wholeFrames JsonText.backend
  exact reach_of_run cancelledBefore rfl

/-- A call is cancelled after one byte of its frame, and another writes a part of its frame. -/
def cancelledWithin : List Action :=
  [.start 0 .sendNotification sampleNotification, .start 1 .sendNotification sampleNotification,
    .call 0 .check, .call 1 .check, .call 0 .acquire, .call 0 (.write 1), .call 0 .cancel,
    .call 1 .acquire, .call 1 (.write 5)]

theorem flatMap_starts {α β : Type} {start : List β} {g : α → List β}
    (h : ∀ a, g a = [] ∨ start <+: g a) (as : List α) :
    as.flatMap g = [] ∨ start <+: as.flatMap g := by
  induction as with
  | nil => exact .inl rfl
  | cons a as ih =>
    rw [List.flatMap_cons]
    rcases h a with hnil | hstart
    · rwa [hnil, List.nil_append]
    · exact .inr (hstart.trans (List.prefix_append _ _))

/-- A wire that does not start as the frames do does not hold whole frames. -/
theorem not_wholeFrames_of_start {start : Bytes} (hstart : start ≠ [])
    (hframe : ∀ c, s.frame f c = [] ∨ start <+: s.frame f c)
    (hlength : start.length ≤ s.wire.length) (hwire : ¬ start <+: s.wire) :
    ¬ s.WholeFrames f := by
  rintro ⟨done, tail, -, heq, htail⟩
  have hpos : 0 < start.length := List.length_pos_iff.2 hstart
  rcases flatMap_starts hframe done with hnil | hframes
  · rw [hnil, List.nil_append] at heq
    rw [heq] at hlength hwire
    rcases htail with rfl | ⟨c, -, htail, -⟩
    · exact absurd hlength (by simpa using hstart)
    · rcases hframe c with hframe | hframe
      · rw [hframe] at htail
        rw [List.prefix_nil.1 htail, List.length_nil] at hlength
        omega
      · exact hwire (List.prefix_of_prefix_length_le hframe htail hlength)
  · exact hwire (heq ▸ hframes.trans (List.prefix_append _ _))

/-- The second frame then follows a torn one. -/
theorem exists_tornFrame : ∃ s, Reach (step JsonText.backend Newline) always new s ∧
    ¬ s.WholeFrames Newline := by
  refine ⟨_, reach_of_run cancelledWithin rfl, ?_⟩
  have hstart : ascii "\x7b\"" ≠ [] := by decide
  apply not_wholeFrames_of_start hstart
  · intro c
    rcases c with _ | _ | c
    · right
      decide
    · right
      decide
    · left
      rfl
  · decide
  · decide

end Sample

end MultiplexTransport

end Jasonrpc
