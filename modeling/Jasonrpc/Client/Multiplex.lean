import Jasonrpc.Client
import Jasonrpc.Lib.Machine
import Jasonrpc.Lib.Table
import Jasonrpc.Transport.Framing
import Mathlib.Logic.Function.Basic
import Mathlib.Tactic.SplitIfs

/-!
# Multiplexing transport over a single shared framed connection

Calls of `round_trip` and `send_notification` share one connection with a background reader.  A
state holds the shared cells, the point that each call has reached, and the point that the reader
has reached; `step` is one atomic action of a call or of the reader, and `Step` lists what the
actions do.  A call is named by a number, and so is the one-shot channel that it makes.
-/

namespace Jasonrpc

open ByteString

/-- Errors produced by `MultiplexTransport`. -/
inductive MultiplexError where
  /-- The outgoing request bytes did not contain a usable `id`. -/
  | missingId
  /-- The underlying connection closed or errored while a call was in flight. -/
  | connectionClosed
  /-- A framing or I/O error on the shared connection. -/
  | transport (e : TransportError)
deriving DecidableEq, Repr

/-- How a call ends. -/
inductive Outcome where
  /-- `round_trip` returns a reply. -/
  | reply (frame : Bytes)
  /-- `send_notification` returns. -/
  | sent
  | error (e : MultiplexError)
  /-- The future was dropped. -/
  | cancelled
deriving DecidableEq, Repr

/-- The point that a call has reached. -/
inductive Phase where
  | ready
  /-- The connection is alive and the request has an id. -/
  | checked
  /-- Awaits the writer lock. -/
  | locking
  /-- Awaits the stream, with the lock, after `sent` bytes of the frame; after all, the flush. -/
  | writing (sent : ℕ)
  /-- Awaits the reply. -/
  | waiting
  /-- The locals are being dropped; the pending guard is the next. -/
  | unwinding (r : Outcome)
  | done (r : Outcome)
deriving DecidableEq, Repr

inductive Operation where
  | roundTrip
  | sendNotification
deriving DecidableEq, Repr

/-- A call, with the message it is given. -/
structure Call where
  operation : Operation
  message : Bytes
  phase : Phase := .ready

namespace Call

/-- The id that a call registers. -/
def id (B : Backend) (call : Call) : Option Id :=
  match call.operation with
  | .roundTrip => parseId B call.message
  | .sendNotification => none

/-- Where a call goes when its frame is written. -/
def released (call : Call) : Phase :=
  match call.operation with
  | .roundTrip => .waiting
  | .sendNotification => .done .sent

/-- Where a call goes when it ends early; only `round_trip` has a guard to drop. -/
def exit (call : Call) (r : Outcome) : Phase :=
  match call.operation with
  | .roundTrip => .unwinding r
  | .sendNotification => .done r

end Call

/-- The point that the reader has reached. -/
inductive ReaderTask where
  | receiving
  /-- Has removed the sender of call `c` from the map, to deliver `frame`. -/
  | holding (c : ℕ) (frame : Bytes)
  /-- Has stored that the connection is dead. -/
  | flagged
  | returned
deriving DecidableEq, Repr

/-- The reader holds the sender of call `c`. -/
def ReaderTask.holds (reader : ReaderTask) (c : ℕ) : Bool :=
  match reader with
  | holding c' _ => c' == c
  | _ => false

/-- The shared connection, with its calls and its reader. -/
structure MultiplexTransport where
  calls : ℕ → Option Call := fun _ => none
  /-- The map of in-flight requests: whose sender is stored under an id. -/
  pending : Id → Option ℕ := fun _ => none
  /-- What has been sent on the channel of a call. -/
  replies : ℕ → Option Bytes := fun _ => none
  connected : Bool := true
  reader : ReaderTask := .receiving
  /-- The call that holds the writer lock. -/
  writer : Option ℕ := none
  writeBuf : Bytes := []
  /-- The bytes handed to the socket so far. -/
  wire : Bytes := []
  /-- The frames that the reader has received so far. -/
  received : List Bytes := []
  /-- Which received frame was handed to which call. -/
  handed : List (ℕ × ℕ) := []

/-- An atomic action of a call. -/
inductive CallAction where
  /-- Read `connected`, and parse the id of a request. -/
  | check
  /-- Insert the sender in the map. -/
  | insert
  /-- Acquire the writer lock, and encode the frame. -/
  | acquire
  /-- The stream takes `n` bytes. -/
  | write (n : ℕ)
  /-- The flush succeeds, and the lock is released. -/
  | flushed
  /-- The write or the flush fails. -/
  | fail (e : TransportError)
  /-- The channel resolves. -/
  | receive
  /-- The future is dropped where it awaits, or before it is polled. -/
  | cancel
  /-- The pending guard is dropped. -/
  | unguard
deriving DecidableEq, Repr

/-- An atomic action of the reader. -/
inductive ReaderAction where
  /-- Receive a frame, and remove the sender stored under its id. -/
  | take (frame : Bytes)
  /-- Send the frame on the channel. -/
  | deliver
  /-- The stream has ended or failed: store that the connection is dead. -/
  | stop
  /-- Drop every sender, and return. -/
  | clear
deriving DecidableEq, Repr

/-- An atomic action of one of the tasks. -/
inductive Action where
  | start (c : ℕ) (operation : Operation) (message : Bytes)
  | call (c : ℕ) (a : CallAction)
  | reader (a : ReaderAction)
deriving DecidableEq, Repr

namespace MultiplexTransport

variable (B : Backend) (f : Framing)

/-- A new transport. -/
def new : MultiplexTransport := {}

def setPhase (s : MultiplexTransport) (c : ℕ) (call : Call) (phase : Phase) : MultiplexTransport :=
  { s with calls := Function.update s.calls c (some { call with phase }) }

/-- Where a call goes from its first test. -/
def afterCheck (s : MultiplexTransport) (call : Call) : Phase :=
  if s.connected then
    match call.operation with
    | .sendNotification => .locking
    | .roundTrip =>
      match parseId B call.message with
      | none => .done (.error .missingId)
      | some _ => .checked
  else .done (.error .connectionClosed)

/-- The sender of a call still exists: it is in the map, or with the reader. -/
def senderAlive (s : MultiplexTransport) (c : ℕ) (call : Call) : Bool :=
  (call.id B).bind s.pending == some c || s.reader.holds c

/-- An action of the call `c`; `none` where it is not possible. -/
def callStep (s : MultiplexTransport) (c : ℕ) (call : Call) :
    CallAction → Option MultiplexTransport
  | .check => if call.phase = .ready then some (s.setPhase c call (s.afterCheck B call)) else none
  | .insert =>
    match call.phase, call.id B with
    | .checked, some id =>
      some ({ s with pending := Function.update s.pending id (some c) }.setPhase c call .locking)
    | _, _ => none
  | .acquire =>
    if call.phase = .locking ∧ s.writer = none then
      some ({ s with writer := some c, writeBuf := f.encodeInto call.message [] }.setPhase c call
        (.writing 0))
    else none
  | .write n =>
    match call.phase with
    | .writing sent =>
      if 0 < n ∧ sent + n ≤ s.writeBuf.length then
        some ({ s with wire := s.wire ++ (s.writeBuf.drop sent).take n }.setPhase c call
          (.writing (sent + n)))
      else none
    | _ => none
  | .flushed =>
    if call.phase = .writing s.writeBuf.length then
      some ({ s with writer := none }.setPhase c call call.released)
    else none
  | .fail e =>
    match call.phase with
    | .writing _ =>
      some ({ s with writer := none }.setPhase c call (call.exit (.error (.transport e))))
    | _ => none
  | .receive =>
    if call.phase = .waiting then
      match s.replies c with
      | some frame => some (s.setPhase c call (.done (.reply frame)))
      | none =>
        if s.senderAlive B c call then none
        else some (s.setPhase c call (.done (.error .connectionClosed)))
    else none
  | .cancel =>
    match call.phase with
    | .ready => some (s.setPhase c call (.done .cancelled))
    | .locking | .waiting => some (s.setPhase c call (call.exit .cancelled))
    | .writing _ => some ({ s with writer := none }.setPhase c call (call.exit .cancelled))
    | _ => none
  | .unguard =>
    match call.phase, call.id B with
    | .unwinding r, some id =>
      some ({ s with pending := Function.update s.pending id none }.setPhase c call (.done r))
    | _, _ => none

/-- An action of the reader. -/
def readerStep (s : MultiplexTransport) : ReaderAction → Option MultiplexTransport
  | .take frame =>
    if s.reader = .receiving then
      match (parseId B frame).bind fun id => (s.pending id).map (id, ·) with
      | some (id, c) =>
        some { s with
          received := s.received ++ [frame]
          pending := Function.update s.pending id none
          reader := .holding c frame }
      | none => some { s with received := s.received ++ [frame] }
    else none
  | .deliver =>
    match s.reader with
    | .holding c frame =>
      -- a failed send is ignored: the caller may have gone away
      some { s with
        replies := Function.update s.replies c (some frame)
        reader := .receiving
        handed := s.handed ++ [(s.received.length - 1, c)] }
    | _ => none
  | .stop =>
    if s.reader = .receiving then some { s with connected := false, reader := .flagged } else none
  | .clear =>
    if s.reader = .flagged then some { s with pending := fun _ => none, reader := .returned }
    else none

/-- One atomic action of the system. -/
def step (s : MultiplexTransport) : Action → Option MultiplexTransport
  | .start c operation message =>
    match s.calls c with
    | some _ => none
    | none => some { s with calls := Function.update s.calls c (some { operation, message }) }
  | .call c a => (s.calls c).bind fun call => s.callStep B f c call a
  | .reader a => s.readerStep B a

/-! ## What the actions do -/

/-- What an action of the call `c` does. -/
inductive CallStep (s : MultiplexTransport) (c : ℕ) (call : Call) :
    CallAction → MultiplexTransport → Prop where
  | check (phase_eq : call.phase = .ready) :
    CallStep s c call .check (s.setPhase c call (s.afterCheck B call))
  | insert {id : Id} (phase_eq : call.phase = .checked) (id_eq : call.id B = some id) :
    CallStep s c call .insert
      ({ s with pending := Function.update s.pending id (some c) }.setPhase c call .locking)
  | acquire (phase_eq : call.phase = .locking) (free : s.writer = none) :
    CallStep s c call .acquire
      ({ s with writer := some c, writeBuf := f.encodeInto call.message [] }.setPhase c call
        (.writing 0))
  | write {sent n : ℕ} (phase_eq : call.phase = .writing sent) (pos : 0 < n)
    (le : sent + n ≤ s.writeBuf.length) :
    CallStep s c call (.write n)
      ({ s with wire := s.wire ++ (s.writeBuf.drop sent).take n }.setPhase c call
        (.writing (sent + n)))
  | flushed (phase_eq : call.phase = .writing s.writeBuf.length) :
    CallStep s c call .flushed ({ s with writer := none }.setPhase c call call.released)
  | fail {sent : ℕ} {e : TransportError} (phase_eq : call.phase = .writing sent) :
    CallStep s c call (.fail e)
      ({ s with writer := none }.setPhase c call (call.exit (.error (.transport e))))
  | reply {frame : Bytes} (phase_eq : call.phase = .waiting) (sent : s.replies c = some frame) :
    CallStep s c call .receive (s.setPhase c call (.done (.reply frame)))
  | closed (phase_eq : call.phase = .waiting) (unsent : s.replies c = none)
    (dropped : s.senderAlive B c call = false) :
    CallStep s c call .receive (s.setPhase c call (.done (.error .connectionClosed)))
  | cancelReady (phase_eq : call.phase = .ready) :
    CallStep s c call .cancel (s.setPhase c call (.done .cancelled))
  | cancel (phase_eq : call.phase = .locking ∨ call.phase = .waiting) :
    CallStep s c call .cancel (s.setPhase c call (call.exit .cancelled))
  | cancelWriting {sent : ℕ} (phase_eq : call.phase = .writing sent) :
    CallStep s c call .cancel ({ s with writer := none }.setPhase c call (call.exit .cancelled))
  | unguard {id : Id} {r : Outcome} (phase_eq : call.phase = .unwinding r)
    (id_eq : call.id B = some id) :
    CallStep s c call .unguard
      ({ s with pending := Function.update s.pending id none }.setPhase c call (.done r))

/-- What an action of the reader does. -/
inductive ReaderStep (s : MultiplexTransport) : ReaderAction → MultiplexTransport → Prop where
  | take {frame : Bytes} {id : Id} {c : ℕ} (receiving : s.reader = .receiving)
    (id_eq : parseId B frame = some id) (stored : s.pending id = some c) :
    ReaderStep s (.take frame)
      { s with
        received := s.received ++ [frame]
        pending := Function.update s.pending id none
        reader := .holding c frame }
  | stray {frame : Bytes} (receiving : s.reader = .receiving)
    (unknown : ∀ id, parseId B frame = some id → s.pending id = none) :
    ReaderStep s (.take frame) { s with received := s.received ++ [frame] }
  | deliver {c : ℕ} {frame : Bytes} (holding : s.reader = .holding c frame) :
    ReaderStep s .deliver
      { s with
        replies := Function.update s.replies c (some frame)
        reader := .receiving
        handed := s.handed ++ [(s.received.length - 1, c)] }
  | stop (receiving : s.reader = .receiving) :
    ReaderStep s .stop { s with connected := false, reader := .flagged }
  | clear (flagged : s.reader = .flagged) :
    ReaderStep s .clear { s with pending := fun _ => none, reader := .returned }

/-- What an action of the system does. -/
inductive Step (s : MultiplexTransport) : Action → MultiplexTransport → Prop where
  | start {c : ℕ} {operation : Operation} {message : Bytes} (fresh : s.calls c = none) :
    Step s (.start c operation message)
      { s with calls := Function.update s.calls c (some { operation, message }) }
  | call {c : ℕ} {call : Call} {a : CallAction} {s' : MultiplexTransport}
    (call_eq : s.calls c = some call) (step : CallStep B f s c call a s') : Step s (.call c a) s'
  | reader {a : ReaderAction} {s' : MultiplexTransport} (step : ReaderStep B s a s') :
    Step s (.reader a) s'

variable {B f}

@[simp] theorem calls_setPhase (s : MultiplexTransport) (c : ℕ) (call : Call) (phase : Phase) :
    (s.setPhase c call phase).calls = Function.update s.calls c (some { call with phase }) := rfl

theorem eq_of_calls_setPhase {s : MultiplexTransport} {c : ℕ} {call call' : Call} {phase : Phase}
    (h : (s.setPhase c call phase).calls c = some call') : call' = { call with phase } := by
  rw [calls_setPhase, Function.update_self] at h
  exact (Option.some.inj h).symm

theorem afterCheck_cases (s : MultiplexTransport) (call : Call) :
    call.operation = .sendNotification ∧ s.afterCheck B call = .locking ∨
      s.afterCheck B call = .checked ∨ ∃ e, s.afterCheck B call = .done (.error e) := by
  unfold afterCheck
  split_ifs
  · cases hop : call.operation with
    | sendNotification => exact .inl ⟨rfl, rfl⟩
    | roundTrip =>
      cases parseId B call.message with
      | none => exact .inr (.inr ⟨_, rfl⟩)
      | some id => exact .inr (.inl rfl)
  · exact .inr (.inr ⟨_, rfl⟩)

theorem CallStep.of_callStep {s s' : MultiplexTransport} {c : ℕ} {call : Call} {a : CallAction}
    (h : s.callStep B f c call a = some s') : CallStep B f s c call a s' := by
  cases a with
  | check =>
    rw [callStep, Option.ite_none_right_eq_some] at h
    obtain ⟨hphase, h⟩ := h
    obtain rfl := Option.some.inj h
    exact .check hphase
  | insert =>
    rw [callStep] at h
    split at h
    · rename_i id hphase hid
      obtain rfl := Option.some.inj h
      exact .insert hphase hid
    · cases h
  | acquire =>
    rw [callStep, Option.ite_none_right_eq_some] at h
    obtain ⟨⟨hphase, hfree⟩, h⟩ := h
    obtain rfl := Option.some.inj h
    exact .acquire hphase hfree
  | write n =>
    rw [callStep] at h
    split at h
    · rename_i sent hphase
      rw [Option.ite_none_right_eq_some] at h
      obtain ⟨⟨hpos, hle⟩, h⟩ := h
      obtain rfl := Option.some.inj h
      exact .write hphase hpos hle
    · cases h
  | flushed =>
    rw [callStep, Option.ite_none_right_eq_some] at h
    obtain ⟨hphase, h⟩ := h
    obtain rfl := Option.some.inj h
    exact .flushed hphase
  | fail e =>
    rw [callStep] at h
    split at h
    · rename_i sent hphase
      obtain rfl := Option.some.inj h
      exact .fail hphase
    · cases h
  | receive =>
    rw [callStep, Option.ite_none_right_eq_some] at h
    obtain ⟨hphase, h⟩ := h
    split at h
    · rename_i frame hsent
      obtain rfl := Option.some.inj h
      exact .reply hphase hsent
    · rename_i hunsent
      split at h
      · cases h
      · rename_i halive
        obtain rfl := Option.some.inj h
        exact .closed hphase hunsent (Bool.eq_false_iff.2 halive)
  | cancel =>
    rw [callStep] at h
    split at h
    · rename_i hphase
      obtain rfl := Option.some.inj h
      exact .cancelReady hphase
    · rename_i hphase
      obtain rfl := Option.some.inj h
      exact .cancel (.inl hphase)
    · rename_i hphase
      obtain rfl := Option.some.inj h
      exact .cancel (.inr hphase)
    · rename_i sent hphase
      obtain rfl := Option.some.inj h
      exact .cancelWriting hphase
    · cases h
  | unguard =>
    rw [callStep] at h
    split at h
    · rename_i r id hphase hid
      obtain rfl := Option.some.inj h
      exact .unguard hphase hid
    · cases h

theorem CallStep.calls_eq {s s' : MultiplexTransport} {c : ℕ} {call : Call} {a : CallAction}
    (h : CallStep B f s c call a s') :
    ∃ phase, s'.calls = Function.update s.calls c (some { call with phase }) := by
  cases h <;> exact ⟨_, rfl⟩

theorem CallStep.reader_eq {s s' : MultiplexTransport} {c : ℕ} {call : Call} {a : CallAction}
    (h : CallStep B f s c call a s') :
    s'.reader = s.reader ∧ s'.replies = s.replies ∧ s'.received = s.received ∧
      s'.handed = s.handed := by
  cases h <;> exact ⟨rfl, rfl, rfl, rfl⟩

theorem operation_of_id {call : Call} {id : Id} (h : call.id B = some id) :
    call.operation = .roundTrip := by
  cases hop : call.operation with
  | roundTrip => rfl
  | sendNotification =>
    rw [Call.id, hop] at h
    cases h

/-- Where a `round_trip` ends: before its first test is passed, when its channel resolves, or when
its guard is dropped. -/
theorem CallStep.done_cases {s s' : MultiplexTransport} {c : ℕ} {call call' : Call} {a : CallAction}
    {r : Outcome} (h : CallStep B f s c call a s') (hop : call.operation = .roundTrip)
    (hcall' : s'.calls c = some call') (hdone : call'.phase = .done r) :
    call.phase = .ready ∨ (∃ frame, s.replies c = some frame ∧ r = .reply frame) ∨
      (call.phase = .waiting ∧ s.replies c = none ∧ s.senderAlive B c call = false ∧
        r = .error .connectionClosed) ∨ call.phase = .unwinding r := by
  have hexit (r' : Outcome) : call.exit r' ≠ .done r := by
    rw [Call.exit, hop]
    exact fun h => by cases h
  cases h with
  | check hphase | cancelReady hphase => exact .inl hphase
  | insert | acquire | write =>
    rw [eq_of_calls_setPhase hcall'] at hdone
    cases hdone
  | flushed =>
    rw [eq_of_calls_setPhase hcall'] at hdone
    have hreleased : call.released = .done r := hdone
    rw [Call.released, hop] at hreleased
    cases hreleased
  | fail | cancel | cancelWriting =>
    rw [eq_of_calls_setPhase hcall'] at hdone
    exact absurd hdone (hexit _)
  | reply _ hsent =>
    rw [eq_of_calls_setPhase hcall'] at hdone
    exact .inr (.inl ⟨_, hsent, (Phase.done.inj hdone).symm⟩)
  | closed hphase hunsent hdropped =>
    rw [eq_of_calls_setPhase hcall'] at hdone
    exact .inr (.inr (.inl ⟨hphase, hunsent, hdropped, (Phase.done.inj hdone).symm⟩))
  | unguard hphase =>
    rw [eq_of_calls_setPhase hcall'] at hdone
    rw [← Phase.done.inj hdone]
    exact .inr (.inr (.inr hphase))

theorem ReaderStep.calls_eq {s s' : MultiplexTransport} {a : ReaderAction}
    (h : ReaderStep B s a s') : s'.calls = s.calls := by
  cases h <;> rfl

theorem ReaderStep.of_readerStep {s s' : MultiplexTransport} {a : ReaderAction}
    (h : s.readerStep B a = some s') : ReaderStep B s a s' := by
  cases a with
  | take frame =>
    rw [readerStep, Option.ite_none_right_eq_some] at h
    obtain ⟨hreceiving, h⟩ := h
    split at h
    · rename_i id c hfound
      obtain rfl := Option.some.inj h
      obtain ⟨id', hid, hstored⟩ := Option.bind_eq_some_iff.1 hfound
      obtain ⟨c', hc, heq⟩ := Option.map_eq_some_iff.1 hstored
      obtain ⟨rfl, rfl⟩ := Prod.mk.inj heq
      exact .take hreceiving hid hc
    · rename_i hfound
      obtain rfl := Option.some.inj h
      refine .stray hreceiving fun id hid => ?_
      rw [hid, Option.bind_some] at hfound
      exact Option.map_eq_none_iff.1 hfound
  | deliver =>
    rw [readerStep] at h
    split at h
    · rename_i c frame hholding
      obtain rfl := Option.some.inj h
      exact .deliver hholding
    · cases h
  | stop =>
    rw [readerStep, Option.ite_none_right_eq_some] at h
    obtain ⟨hreceiving, h⟩ := h
    obtain rfl := Option.some.inj h
    exact .stop hreceiving
  | clear =>
    rw [readerStep, Option.ite_none_right_eq_some] at h
    obtain ⟨hflagged, h⟩ := h
    obtain rfl := Option.some.inj h
    exact .clear hflagged

theorem Step.of_step {s s' : MultiplexTransport} {a : Action} (h : s.step B f a = some s') :
    Step B f s a s' := by
  cases a with
  | start c operation message =>
    rw [step] at h
    split at h
    · cases h
    · rename_i hfresh
      obtain rfl := Option.some.inj h
      exact .start hfresh
  | call c a =>
    obtain ⟨call, hcall, h⟩ := Option.bind_eq_some_iff.1 h
    exact .call hcall (.of_callStep h)
  | reader a => exact .reader (.of_readerStep h)

/-- A call that is there after a step has just started, or acts, or was there before. -/
theorem Step.call_cases {s s' : MultiplexTransport} {a : Action} {c : ℕ} {call : Call}
    (h : Step B f s a s') (hcall : s'.calls c = some call) :
    (s.calls c = none ∧ ∃ operation message, a = .start c operation message ∧
        call = { operation, message }) ∨
      (∃ call₀ ca phase, s.calls c = some call₀ ∧ a = .call c ca ∧ CallStep B f s c call₀ ca s' ∧
        call = { call₀ with phase }) ∨
        s.calls c = some call ∧ ∀ ca, a ≠ .call c ca := by
  cases h with
  | start hfresh =>
    rcases Table.of_update hcall with ⟨rfl, rfl⟩ | ⟨-, hcall⟩
    · exact .inl ⟨hfresh, _, _, rfl, rfl⟩
    · exact .inr (.inr ⟨hcall, nofun⟩)
  | @call c₀ call₀ ca _ hcall₀ hstep =>
    obtain ⟨phase, hcalls⟩ := hstep.calls_eq
    rw [hcalls] at hcall
    rcases Table.of_update hcall with ⟨rfl, rfl⟩ | ⟨hc, hcall⟩
    · exact .inr (.inl ⟨call₀, ca, phase, hcall₀, rfl, hstep, rfl⟩)
    · exact .inr (.inr ⟨hcall, fun ca heq => hc (Action.call.inj heq).1.symm⟩)
  | reader hstep =>
    rw [hstep.calls_eq] at hcall
    exact .inr (.inr ⟨hcall, nofun⟩)

end MultiplexTransport

end Jasonrpc
