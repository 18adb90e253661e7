import Jasonrpc.Lib.Machine
import Jasonrpc.Lib.Table
import Jasonrpc.Server.Batch
import Jasonrpc.Transport.Turn
import Mathlib.Data.List.ReduceOption
import Mathlib.Logic.Function.Basic
import Mathlib.Tactic.SplitIfs

/-!
# Framed connections of one router

The accept loop and the connections it has spawned, each with a clone of the router: a connection
receives a frame, dispatches it, and writes what there is to send, until the stream ends or fails.
`step` is one atomic action of the accept loop or of a connection; a dispatch is one action.

However the connections interleave, the dispatches are those of one sequential run of the router
over the log (`served`): each connection has dispatched the frames that it was sent, in order, and
written the payloads that the sequential run sends for them, framed, whose last may be cut short.
-/

namespace Jasonrpc

open ByteString Machine Incremental

variable {B : Backend} {C σ : Type}

/-! ## The router one frame at a time -/

/-- The payload to send for an output, if there is one. -/
def Output.payload (output : Output B) : Option Bytes :=
  match output.toBytes with
  | .ok (some bytes) => some bytes
  | _ => none

theorem Output.toBytes_of_payload {output : Output B} {reply : Bytes}
    (h : output.payload = some reply) : output.toBytes = .ok (some reply) := by
  rw [payload] at h
  rcases hbytes : output.toBytes with e | _ | bytes <;> rw [hbytes] at h
  · cases h
  · cases h
  · obtain rfl := Option.some.inj h
    rfl

/-- Frames of different connections dispatched one after another. -/
def Router.handleAll [Inhabited C] (router : Router B C σ) :
    List (ℕ × Bytes) → World B C σ → List (ℕ × Option Bytes) × World B C σ
  | [], w => ([], w)
  | (k, frame) :: log, w =>
    let (output, w) := router.handleBytes frame w
    let (outputs, w) := router.handleAll log w
    ((k, output.payload) :: outputs, w)

theorem Router.handleAll_concat [Inhabited C] (router : Router B C σ) (log : List (ℕ × Bytes))
    (k : ℕ) (frame : Bytes) (w : World B C σ) :
    router.handleAll (log ++ [(k, frame)]) w =
      ((router.handleAll log w).1 ++
          [(k, (router.handleBytes frame (router.handleAll log w).2).1.payload)],
        (router.handleBytes frame (router.handleAll log w).2).2) := by
  induction log generalizing w with
  | nil => rfl
  | cons entry log ih =>
    obtain ⟨j, message⟩ := entry
    rw [List.cons_append, handleAll, handleAll]
    simp only [ih]
    rfl

/-! ## The connections -/

/-- Where the loop of a connection stands. -/
inductive ServePhase where
  | receiving
  | dispatching (frame : Bytes)
  /-- Awaits the stream, after `sent` bytes of the frame; after all, the flush. -/
  | writing (sent : ℕ)
  | returned
deriving DecidableEq, Repr

/-- An accepted connection, with the payloads that it has begun to write and the bytes that it has
handed to the stream. -/
structure ServeConn where
  reader : FramedReader
  writeBuf : Bytes := []
  phase : ServePhase := .receiving
  replies : List Bytes := []
  written : Bytes := []

/-- An atomic action of a connection. -/
inductive ServeAction where
  | recv (t : RecvTurn)
  | dispatch
  /-- The stream takes `n` bytes. -/
  | write (n : ℕ)
  /-- The flush succeeds. -/
  | flushed
  /-- The write or the flush fails. -/
  | fail

/-- The accept loop with the connections that it has spawned, and the frames dispatched so far. -/
structure Server (B : Backend) (C σ : Type) where
  world : World B C σ
  conns : ℕ → Option ServeConn := fun _ => none
  accepting : Bool := true
  log : List (ℕ × Bytes) := []

/-- An atomic action of one of the tasks. -/
inductive ServerAction where
  /-- Accept a connection, with the read timeout and the frame-size cap of its reader. -/
  | accept (k : ℕ) (readTimeout : Option Duration) (maxFrameSize : ℕ)
  | conn (k : ℕ) (a : ServeAction)
  /-- The shutdown fires: the accept loop ends, and the connections go on. -/
  | shutdown

namespace Server

variable [Inhabited C] (router : Router B C σ) (f : Framing)

/-- A server without connections. -/
def new (w : World B C σ) : Server B C σ := { world := w }

def setConn (s : Server B C σ) (k : ℕ) (conn : ServeConn) : Server B C σ :=
  { s with conns := Function.update s.conns k (some conn) }

/-- Where a connection goes from a turn of `recv`. -/
def received : Option RecvResult → ServePhase
  | none => .receiving
  | some (.ok (some frame)) => .dispatching frame
  | some _ => .returned

/-- An action of the connection `k`; `none` where it is not possible. -/
def connStep (s : Server B C σ) (k : ℕ) (conn : ServeConn) : ServeAction → Option (Server B C σ)
  | .recv t =>
    if conn.phase = .receiving then
      (conn.reader.turn f t).map fun (result, reader) =>
        s.setConn k { conn with reader, phase := received result }
    else none
  | .dispatch =>
    match conn.phase with
    | .dispatching frame =>
      let (output, world) := router.handleBytes frame s.world
      let s := { s with world, log := s.log ++ [(k, frame)] }
      match output.toBytes with
      | .ok (some bytes) =>
        some (s.setConn k { conn with
          writeBuf := f.encodeInto bytes []
          phase := .writing 0
          replies := conn.replies ++ [bytes] })
      | _ => some (s.setConn k { conn with phase := .receiving })
    | _ => none
  | .write n =>
    match conn.phase with
    | .writing sent =>
      if 0 < n ∧ sent + n ≤ conn.writeBuf.length then
        some (s.setConn k { conn with
          written := conn.written ++ (conn.writeBuf.drop sent).take n
          phase := .writing (sent + n) })
      else none
    | _ => none
  | .flushed =>
    if conn.phase = .writing conn.writeBuf.length then
      some (s.setConn k { conn with phase := .receiving })
    else none
  | .fail =>
    match conn.phase with
    | .writing _ => some (s.setConn k { conn with phase := .returned })
    | _ => none

/-- One atomic action of the system. -/
def step (s : Server B C σ) : ServerAction → Option (Server B C σ)
  | .accept k readTimeout maxFrameSize =>
    if s.accepting ∧ (s.conns k).isNone then
      some (s.setConn k { reader := { core := { readTimeout, maxFrameSize } } })
    else none
  | .conn k a => (s.conns k).bind fun conn => s.connStep router f k conn a
  | .shutdown => if s.accepting then some { s with accepting := false } else none

/-! ## What the actions do -/

/-- What an action of the connection `k` does. -/
inductive ConnStep (s : Server B C σ) (k : ℕ) (conn : ServeConn) :
    ServeAction → Server B C σ → Prop where
  | recv {t : RecvTurn} {result : Option RecvResult} {reader : FramedReader}
    (phase_eq : conn.phase = .receiving) (turned : conn.reader.turn f t = some (result, reader)) :
    ConnStep s k conn (.recv t) (s.setConn k { conn with reader, phase := received result })
  | reply {frame bytes : Bytes} (phase_eq : conn.phase = .dispatching frame)
    (payload_eq : (router.handleBytes frame s.world).1.payload = some bytes) :
    ConnStep s k conn .dispatch
      ({ s with
        world := (router.handleBytes frame s.world).2
        log := s.log ++ [(k, frame)] }.setConn k { conn with
          writeBuf := f.encodeInto bytes []
          phase := .writing 0
          replies := conn.replies ++ [bytes] })
  | silent {frame : Bytes} (phase_eq : conn.phase = .dispatching frame)
    (payload_eq : (router.handleBytes frame s.world).1.payload = none) :
    ConnStep s k conn .dispatch
      ({ s with
        world := (router.handleBytes frame s.world).2
        log := s.log ++ [(k, frame)] }.setConn k { conn with phase := .receiving })
  | write {sent n : ℕ} (phase_eq : conn.phase = .writing sent) (pos : 0 < n)
    (le : sent + n ≤ conn.writeBuf.length) :
    ConnStep s k conn (.write n)
      (s.setConn k { conn with
        written := conn.written ++ (conn.writeBuf.drop sent).take n
        phase := .writing (sent + n) })
  | flushed (phase_eq : conn.phase = .writing conn.writeBuf.length) :
    ConnStep s k conn .flushed (s.setConn k { conn with phase := .receiving })
  | fail {sent : ℕ} (phase_eq : conn.phase = .writing sent) :
    ConnStep s k conn .fail (s.setConn k { conn with phase := .returned })

variable {router f} {s s' : Server B C σ} {k : ℕ} {conn : ServeConn}

theorem ConnStep.of_connStep {a : ServeAction} (h : s.connStep router f k conn a = some s') :
    ConnStep router f s k conn a s' := by
  cases a with
  | recv t =>
    rw [connStep, Option.ite_none_right_eq_some] at h
    obtain ⟨hphase, h⟩ := h
    obtain ⟨⟨result, reader⟩, hturn, rfl⟩ := Option.map_eq_some_iff.1 h
    exact .recv hphase hturn
  | dispatch =>
    unfold connStep at h
    cases hphase : conn.phase with
    | dispatching frame =>
      have hpayload : (router.handleBytes frame s.world).1.payload =
        match (router.handleBytes frame s.world).1.toBytes with
        | .ok (some bytes) => some bytes
        | _ => none := rfl
      rw [hphase] at h
      dsimp only at h
      rcases hbytes : (router.handleBytes frame s.world).1.toBytes with e | (_ | bytes) <;>
        rw [hbytes] at h hpayload <;> obtain rfl := Option.some.inj h
      · exact .silent hphase hpayload
      · exact .silent hphase hpayload
      · exact .reply hphase hpayload
    | receiving | writing | returned =>
      rw [hphase] at h
      cases h
  | write n =>
    unfold connStep at h
    cases hphase : conn.phase with
    | writing sent =>
      rw [hphase] at h
      dsimp only at h
      rw [Option.ite_none_right_eq_some] at h
      obtain ⟨⟨hpos, hle⟩, h⟩ := h
      obtain rfl := Option.some.inj h
      exact .write hphase hpos hle
    | receiving | dispatching | returned =>
      rw [hphase] at h
      cases h
  | flushed =>
    rw [connStep, Option.ite_none_right_eq_some] at h
    obtain ⟨hphase, h⟩ := h
    obtain rfl := Option.some.inj h
    exact .flushed hphase
  | fail =>
    unfold connStep at h
    cases hphase : conn.phase with
    | writing sent =>
      rw [hphase] at h
      obtain rfl := Option.some.inj h
      exact .fail hphase
    | receiving | dispatching | returned =>
      rw [hphase] at h
      cases h

/-- What an action does. -/
inductive Step (router : Router B C σ) (f : Framing) (s : Server B C σ) :
    ServerAction → Server B C σ → Prop where
  | accept {k : ℕ} {readTimeout : Option Duration} {maxFrameSize : ℕ} (fresh : s.conns k = none) :
    Step router f s (.accept k readTimeout maxFrameSize)
      (s.setConn k { reader := { core := { readTimeout, maxFrameSize } } })
  | conn {k : ℕ} {conn : ServeConn} {a : ServeAction} {s' : Server B C σ}
    (conn_eq : s.conns k = some conn) (stepped : ConnStep router f s k conn a s') :
    Step router f s (.conn k a) s'
  | shutdown : Step router f s .shutdown { s with accepting := false }

theorem Step.of_step {a : ServerAction} (h : s.step router f a = some s') :
    Step router f s a s' := by
  cases a with
  | accept k readTimeout maxFrameSize =>
    rw [step, Option.ite_none_right_eq_some] at h
    obtain ⟨⟨-, hfresh⟩, h⟩ := h
    obtain rfl := Option.some.inj h
    exact .accept (Option.isNone_iff_eq_none.1 hfresh)
  | conn k a =>
    obtain ⟨conn, hconn, h⟩ := Option.bind_eq_some_iff.1 h
    exact .conn hconn (.of_connStep h)
  | shutdown =>
    rw [step, Option.ite_none_right_eq_some] at h
    obtain rfl := Option.some.inj h.2
    exact .shutdown

/-- What the connection `k` is about to send. -/
def answer (router : Router B C σ) (s : Server B C σ) (k : ℕ) : Option Bytes :=
  (s.conns k).bind fun conn =>
    match conn.phase with
    | .dispatching frame => (router.handleBytes frame s.world).1.payload
    | _ => none

/-- How a step of the connection `k` moves it. -/
structure Moved (router : Router B C σ) (s : Server B C σ) (a : ServerAction) (k : ℕ)
    (conn conn' : ServeConn) : Prop where
  read : conn'.reader.read = conn.reader.read ∨
    ∃ t, a = .conn k (.recv t) ∧ conn'.reader.read = conn.reader.read ++ t.bytes
  replies : conn'.replies = conn.replies ∨
    ∃ p ∈ s.answer router k, a = .conn k .dispatch ∧ conn'.replies = conn.replies ++ [p]
  written : conn.written <+: conn'.written

theorem ConnStep.moved {a : ServeAction} (hconn : s.conns k = some conn)
    (h : ConnStep router f s k conn a s') :
    ∃ conn', s'.conns = Function.update s.conns k (some conn') ∧
      Moved router s (.conn k a) k conn conn' := by
  cases h with
  | @recv t _ _ _ hturn =>
    exact ⟨_, rfl, .inr ⟨t, rfl, FramedReader.read_of_turn hturn⟩, .inl rfl, List.prefix_rfl⟩
  | @reply frame bytes hphase hpayload =>
    have hanswer : s.answer router k = some bytes := by
      rw [answer, hconn, Option.bind_some, hphase]
      exact hpayload
    exact ⟨_, rfl, .inl rfl, .inr ⟨bytes, hanswer, rfl, rfl⟩, List.prefix_rfl⟩
  | silent => exact ⟨_, rfl, .inl rfl, .inl rfl, List.prefix_rfl⟩
  | write => exact ⟨_, rfl, .inl rfl, .inl rfl, List.prefix_append _ _⟩
  | flushed => exact ⟨_, rfl, .inl rfl, .inl rfl, List.prefix_rfl⟩
  | fail => exact ⟨_, rfl, .inl rfl, .inl rfl, List.prefix_rfl⟩

/-- A connection is new, or has moved, or stays. -/
theorem Step.conn_cases {a : ServerAction} (h : Step router f s a s') {j : ℕ} {conn' : ServeConn}
    (hconn' : s'.conns j = some conn') :
    (s.conns j = none ∧ conn'.reader.read = [] ∧ conn'.replies = []) ∨
      ∃ conn, s.conns j = some conn ∧ Moved router s a j conn conn' := by
  cases h with
  | accept hfresh =>
    rcases Table.of_update hconn' with ⟨rfl, rfl⟩ | ⟨-, hconn'⟩
    · exact .inl ⟨hfresh, rfl, rfl⟩
    · exact .inr ⟨conn', hconn', .inl rfl, .inl rfl, List.prefix_rfl⟩
  | conn hconn hstep =>
    obtain ⟨conn₁, hconns, hmoved⟩ := hstep.moved hconn
    rw [hconns] at hconn'
    rcases Table.of_update hconn' with ⟨rfl, rfl⟩ | ⟨-, hconn'⟩
    · exact .inr ⟨_, hconn, hmoved⟩
    · exact .inr ⟨conn', hconn', .inl rfl, .inl rfl, List.prefix_rfl⟩
  | shutdown => exact .inr ⟨conn', hconn', .inl rfl, .inl rfl, List.prefix_rfl⟩

theorem Step.exists_conn {a : ServerAction} (h : Step router f s a s') {j : ℕ}
    (hconn : s.conns j = some conn) : ∃ conn', s'.conns j = some conn' := by
  have hset (k : ℕ) (conn₁ : ServeConn) :
      ∃ conn', Function.update s.conns k (some conn₁) j = some conn' := by
    by_cases hjk : j = k
    · exact ⟨conn₁, by rw [hjk, Function.update_self]⟩
    · exact ⟨conn, by rwa [Function.update_of_ne hjk]⟩
  cases h with
  | accept => exact hset _ _
  | conn hconn₁ hstep =>
    obtain ⟨conn₁, hconns, -⟩ := hstep.moved hconn₁
    rw [hconns]
    exact hset _ _
  | shutdown => exact ⟨conn, hconn⟩

theorem Step.log_grows {a : ServerAction} (h : Step router f s a s') : s.log <+: s'.log := by
  cases h with
  | accept => exact List.prefix_rfl
  | conn _ hstep =>
    cases hstep with
    | reply | silent => exact List.prefix_append _ _
    | recv | write | flushed | fail => exact List.prefix_rfl
  | shutdown => exact List.prefix_rfl

/-! ## What the connections have received and sent -/

/-- The entries of the connection `k`. -/
def entriesOf {α : Type} (k : ℕ) (log : List (ℕ × α)) : List α :=
  (log.filter fun entry => entry.1 = k).map Prod.snd

theorem entriesOf_concat_self {α : Type} (k : ℕ) (log : List (ℕ × α)) (a : α) :
    entriesOf k (log ++ [(k, a)]) = entriesOf k log ++ [a] := by
  simp [entriesOf]

theorem entriesOf_concat_ne {α : Type} {j k : ℕ} (h : j ≠ k) (log : List (ℕ × α)) (a : α) :
    entriesOf j (log ++ [(k, a)]) = entriesOf j log := by
  simp [entriesOf, h.symm]

theorem entriesOf_append {α : Type} (k : ℕ) (log log' : List (ℕ × α)) :
    entriesOf k (log ++ log') = entriesOf k log ++ entriesOf k log' := by
  simp [entriesOf]

theorem entriesOf_cons_self {α : Type} (k : ℕ) (a : α) (log : List (ℕ × α)) :
    entriesOf k ((k, a) :: log) = a :: entriesOf k log := by
  simp [entriesOf]

/-- The payloads that a sequential run over the log sends on the connection `k`. -/
def payloadsOf (router : Router B C σ) (w : World B C σ) (k : ℕ) (log : List (ℕ × Bytes)) :
    List Bytes :=
  (entriesOf k (router.handleAll log w).1).reduceOption

theorem payloadsOf_concat_self (router : Router B C σ) (w : World B C σ) (k : ℕ)
    (log : List (ℕ × Bytes)) (frame : Bytes) :
    payloadsOf router w k (log ++ [(k, frame)]) =
      payloadsOf router w k log ++
        (router.handleBytes frame (router.handleAll log w).2).1.payload.toList := by
  rw [payloadsOf, router.handleAll_concat, entriesOf_concat_self, List.reduceOption_append,
    List.reduceOption_singleton]
  rfl

theorem payloadsOf_concat_ne (router : Router B C σ) (w : World B C σ) {j k : ℕ} (h : j ≠ k)
    (log : List (ℕ × Bytes)) (frame : Bytes) :
    payloadsOf router w j (log ++ [(k, frame)]) = payloadsOf router w j log := by
  rw [payloadsOf, router.handleAll_concat, entriesOf_concat_ne h]
  rfl

/-- A payload answers an entry of the log. -/
theorem exists_of_mem_payloadsOf {w : World B C σ} {log : List (ℕ × Bytes)} {reply : Bytes}
    (h : reply ∈ payloadsOf router w k log) : ∃ before frame after,
      log = before ++ (k, frame) :: after ∧
        (router.handleBytes frame (router.handleAll before w).2).1.payload = some reply := by
  induction log using List.reverseRecOn with
  | nil => cases h
  | append_singleton log entry ih =>
    obtain ⟨j, frame⟩ := entry
    have hlater (h : reply ∈ payloadsOf router w k log) : ∃ before frame₁ after,
        log ++ [(j, frame)] = before ++ (k, frame₁) :: after ∧
          (router.handleBytes frame₁ (router.handleAll before w).2).1.payload = some reply := by
      obtain ⟨before, frame₁, after, rfl, hpayload⟩ := ih h
      exact ⟨before, frame₁, after ++ [(j, frame)], List.append_assoc _ _ _, hpayload⟩
    by_cases hjk : k = j
    · subst hjk
      rw [payloadsOf_concat_self] at h
      rcases List.mem_append.1 h with h | h
      · exact hlater h
      · exact ⟨log, frame, [], rfl, Option.mem_toList.1 h⟩
    · rw [payloadsOf_concat_ne router w hjk] at h
      exact hlater h

/-- The payload for an entry of the log is one of those sent. -/
theorem mem_payloadsOf (router : Router B C σ) (w : World B C σ) (before : List (ℕ × Bytes))
    {frame reply : Bytes} (after : List (ℕ × Bytes))
    (h : (router.handleBytes frame (router.handleAll before w).2).1.payload = some reply) :
    reply ∈ payloadsOf router w k (before ++ (k, frame) :: after) := by
  rw [List.append_cons]
  induction after using List.reverseRecOn with
  | nil =>
    rw [List.append_nil, payloadsOf_concat_self, h]
    exact List.mem_append_right _ List.mem_cons_self
  | append_singleton after entry ih =>
    obtain ⟨j, frame₁⟩ := entry
    rw [← List.append_assoc]
    by_cases hjk : k = j
    · subst hjk
      rw [payloadsOf_concat_self]
      exact List.mem_append_left _ ih
    · rwa [payloadsOf_concat_ne router w hjk]

theorem mem_entriesOf {α : Type} {log : List (ℕ × α)} {a : α} :
    a ∈ entriesOf k log ↔ (k, a) ∈ log := by
  simp [entriesOf]

end Server

/-- The bytes are the payloads, framed; of the last one perhaps only a part. -/
def Transcript (f : Framing) (payloads : List Bytes) (bytes : Bytes) : Prop :=
  bytes = payloads.flatMap f.encode ∨ ∃ before last tail, payloads = before ++ [last] ∧
    tail <+: f.encode last ∧ tail ≠ f.encode last ∧ bytes = before.flatMap f.encode ++ tail

theorem transcript_take (f : Framing) (before : List Bytes) (last : Bytes) (sent : ℕ) :
    Transcript f (before ++ [last]) (before.flatMap f.encode ++ (f.encode last).take sent) := by
  by_cases h : (f.encode last).take sent = f.encode last
  · left
    rw [h, List.flatMap_append, List.flatMap_singleton]
  · right
    exact ⟨before, last, _, rfl, List.take_prefix _ _, h, rfl⟩

theorem Transcript.isPrefix_of_cuts {f : Framing} {payloads ks : List Bytes}
    {bytes read rest : Bytes} (h : Transcript f payloads bytes) (law : Lawful f.decode)
    (hcarries : ∀ p ∈ payloads, Carries f.decode f.encode p) (hread : read <+: bytes)
    (hcuts : Cuts f.decode read ks rest) : ks <+: payloads := by
  rcases h with rfl | ⟨before, last, tail, rfl, htail, hne, rfl⟩
  · apply law.isPrefix_of_cuts hcarries law.stuck_nil hcuts
    rwa [List.append_nil]
  · have hlast := hcarries last (List.mem_append_right _ (List.mem_singleton_self _))
    have hbefore : ∀ p ∈ before, Carries f.decode f.encode p :=
      fun p hp => hcarries p (List.mem_append_left _ hp)
    have hstuck : Stuck f.decode tail := law.stuck_of_isPrefix hlast htail hne
    exact (law.isPrefix_of_cuts hbefore hstuck hcuts hread).trans (List.prefix_append _ _)

namespace ServeConn

variable {f : Framing} {conn : ServeConn} {frames : List Bytes}

/-- The frame that is received and not dispatched. -/
def pending (conn : ServeConn) : List Bytes :=
  match conn.phase with
  | .dispatching frame => [frame]
  | _ => []

/-- What a connection has written of its replies. -/
def Told (f : Framing) (conn : ServeConn) : Prop :=
  match conn.phase with
  | .receiving | .dispatching _ => conn.written = conn.replies.flatMap f.encode
  | .writing sent => ∃ before last, conn.replies = before ++ [last] ∧
      conn.writeBuf = f.encode last ∧
        conn.written = before.flatMap f.encode ++ (f.encode last).take sent
  | .returned => Transcript f conn.replies conn.written

theorem Told.transcript (h : conn.Told f) : Transcript f conn.replies conn.written := by
  unfold Told at h
  cases hphase : conn.phase with
  | receiving | dispatching =>
    rw [hphase] at h
    exact .inl h
  | writing sent =>
    rw [hphase] at h
    obtain ⟨before, last, hreplies, -, hwritten⟩ := h
    rw [hreplies, hwritten]
    exact transcript_take f before last sent
  | returned =>
    rw [hphase] at h
    exact h

/-- A connection has dispatched `frames`, and begun to send its replies. -/
structure Sound (f : Framing) (frames payloads : List Bytes) (conn : ServeConn) : Prop where
  replies_eq : conn.replies = payloads
  heard : conn.phase ≠ .returned → conn.reader.Heard f (frames ++ conn.pending)
  cut : ∃ rest, Cuts f.decode conn.reader.read (frames ++ conn.pending) rest
  told : conn.Told f

namespace Sound

variable {payloads : List Bytes}

theorem new (f : Framing) {core : ReadCore} (hcore : core.readBuf = []) :
    Sound f [] [] { reader := { core } } where
  replies_eq := rfl
  heard _ := FramedReader.heard_new f core hcore
  cut := ⟨[], .nil []⟩
  told := rfl

/-- A turn of `recv`. -/
theorem recv (h : Sound f frames payloads conn) (law : Lawful f.decode)
    (heof : f.takeOnEof = false) (hphase : conn.phase = .receiving) {t : RecvTurn}
    {result : Option RecvResult} {reader : FramedReader}
    (hturn : conn.reader.turn f t = some (result, reader)) :
    Sound f frames payloads { conn with reader, phase := Server.received result } := by
  have hpending : conn.pending = [] := by
    rw [pending, hphase]
  have htold : conn.written = conn.replies.flatMap f.encode := by
    have htold := h.told
    rwa [Told, hphase] at htold
  have hheard : conn.reader.Heard f frames := by
    have hheard := h.heard (by rw [hphase]; exact fun h => by cases h)
    rwa [hpending, List.append_nil] at hheard
  have hcut : ∃ rest, Cuts f.decode reader.read frames rest :=
    FramedReader.exists_cuts_of_turn law hheard hturn
  rcases result with _ | e | _ | frame
  · have hagain := hheard.again law heof hturn
    refine ⟨h.replies_eq, fun _ => ?_, ?_, htold⟩
    · show reader.Heard f (frames ++ [])
      rwa [List.append_nil]
    · show ∃ rest, Cuts f.decode reader.read (frames ++ []) rest
      rwa [List.append_nil]
  · refine ⟨h.replies_eq, fun hne => absurd rfl hne, ?_, .inl htold⟩
    show ∃ rest, Cuts f.decode reader.read (frames ++ []) rest
    rwa [List.append_nil]
  · refine ⟨h.replies_eq, fun hne => absurd rfl hne, ?_, .inl htold⟩
    show ∃ rest, Cuts f.decode reader.read (frames ++ []) rest
    rwa [List.append_nil]
  · have hframe := hheard.frame heof hturn
    exact ⟨h.replies_eq, fun _ => hframe, ⟨_, hframe⟩, htold⟩

/-- The pending frame is dispatched. -/
theorem dispatch (h : Sound f frames payloads conn) {frame : Bytes}
    (hphase : conn.phase = .dispatching frame) (conn' : ServeConn)
    (hreader : conn'.reader = conn.reader) (hpending : conn'.pending = []) (reply : Option Bytes)
    (hreplies : conn'.replies = conn.replies ++ reply.toList) (htold : conn'.Told f) :
    Sound f (frames ++ [frame]) (payloads ++ reply.toList) conn' := by
  have hframes : frames ++ [frame] ++ conn'.pending = frames ++ conn.pending := by
    rw [hpending, List.append_nil, pending, hphase]
  have hheard := h.heard (by rw [hphase]; exact fun h => by cases h)
  constructor
  · rw [hreplies, h.replies_eq]
  · intro _
    rwa [hframes, hreader]
  · rw [hframes, hreader]
    exact h.cut
  · exact htold

theorem writing (h : Sound f frames payloads conn) {sent : ℕ} (hphase : conn.phase = .writing sent)
    (conn' : ServeConn) (hreader : conn'.reader = conn.reader) (hpending : conn'.pending = [])
    (hreplies : conn'.replies = conn.replies) (htold : conn'.Told f) :
    Sound f frames payloads conn' := by
  have hframes : frames ++ conn'.pending = frames ++ conn.pending := by
    rw [hpending, pending, hphase]
  have hheard := h.heard (by rw [hphase]; exact fun h => by cases h)
  constructor
  · rw [hreplies, h.replies_eq]
  · intro _
    rwa [hframes, hreader]
  · rw [hframes, hreader]
    exact h.cut
  · exact htold

end Sound

end ServeConn

namespace Server

variable [Inhabited C] {router : Router B C σ} {f : Framing} {w : World B C σ}
  {s s' : Server B C σ} {k : ℕ} {conn : ServeConn}

/-- The world is that of a sequential run over the log, and the connections have dispatched their
entries of it and begun to send their payloads. -/
structure Sound (router : Router B C σ) (f : Framing) (w : World B C σ) (s : Server B C σ) :
    Prop where
  world_eq : s.world = (router.handleAll s.log w).2
  conn {k : ℕ} {conn : ServeConn} : s.conns k = some conn →
    conn.Sound f (entriesOf k s.log) (payloadsOf router w k s.log)
  fresh {k : ℕ} : s.conns k = none → entriesOf k s.log = [] ∧ payloadsOf router w k s.log = []

namespace Sound

theorem new (router : Router B C σ) (f : Framing) (w : World B C σ) : Sound router f w (new w) where
  world_eq := rfl
  conn h := by cases h
  fresh _ := ⟨rfl, rfl⟩

theorem setConn (h : Sound router f w s)
    (hconn : conn.Sound f (entriesOf k s.log) (payloadsOf router w k s.log)) :
    Sound router f w (s.setConn k conn) where
  world_eq := h.world_eq
  conn hconn' := by
    rcases Table.of_update hconn' with ⟨rfl, rfl⟩ | ⟨-, hconn'⟩
    · exact hconn
    · exact h.conn hconn'
  fresh hnone := h.fresh (Table.of_update_none hnone).2

/-- A connection dispatches a frame. -/
theorem dispatch (h : Sound router f w s) {frame : Bytes}
    (hconn : conn.Sound f (entriesOf k s.log ++ [frame])
      (payloadsOf router w k s.log ++ (router.handleBytes frame s.world).1.payload.toList)) :
    Sound router f w ({ s with
      world := (router.handleBytes frame s.world).2
      log := s.log ++ [(k, frame)] }.setConn k conn) where
  world_eq := by
    show (router.handleBytes frame s.world).2 = (router.handleAll (s.log ++ [(k, frame)]) w).2
    rw [router.handleAll_concat, h.world_eq]
  conn {j conn'} hconn' := by
    show conn'.Sound f (entriesOf j (s.log ++ [(k, frame)]))
      (payloadsOf router w j (s.log ++ [(k, frame)]))
    rcases Table.of_update hconn' with ⟨rfl, rfl⟩ | ⟨hne, hconn'⟩
    · rw [entriesOf_concat_self, payloadsOf_concat_self, ← h.world_eq]
      exact hconn
    · rw [entriesOf_concat_ne hne, payloadsOf_concat_ne router w hne]
      exact h.conn hconn'
  fresh {j} hnone := by
    obtain ⟨hne, hnone⟩ := Table.of_update_none hnone
    show entriesOf j (s.log ++ [(k, frame)]) = [] ∧ payloadsOf router w j (s.log ++ [(k, frame)]) = []
    rw [entriesOf_concat_ne hne, payloadsOf_concat_ne router w hne]
    exact h.fresh hnone

theorem connStep (h : Sound router f w s) (law : Lawful f.decode) (heof : f.takeOnEof = false)
    (hconn : s.conns k = some conn) {a : ServeAction} (hstep : ConnStep router f s k conn a s') :
    Sound router f w s' := by
  have hsound := h.conn hconn
  have htold := hsound.told
  cases hstep with
  | recv hphase hturn => exact h.setConn (hsound.recv law heof hphase hturn)
  | @reply frame bytes hphase hpayload =>
    rw [ServeConn.Told, hphase] at htold
    have hconn' := hsound.dispatch hphase
      { conn with writeBuf := f.encodeInto bytes [], phase := .writing 0,
                  replies := conn.replies ++ [bytes] } rfl rfl (some bytes) rfl
      ⟨conn.replies, bytes, rfl, rfl, by rw [List.take_zero, List.append_nil]; exact htold⟩
    rw [← hpayload] at hconn'
    exact h.dispatch hconn'
  | @silent frame hphase hpayload =>
    rw [ServeConn.Told, hphase] at htold
    have hconn' := hsound.dispatch hphase { conn with phase := .receiving } rfl rfl none
      (List.append_nil _).symm htold
    rw [← hpayload] at hconn'
    exact h.dispatch hconn'
  | @write sent n hphase hpos hle =>
    rw [ServeConn.Told, hphase] at htold
    obtain ⟨before, last, hreplies, hbuf, hwritten⟩ := htold
    refine h.setConn (hsound.writing hphase _ rfl rfl rfl ⟨before, last, hreplies, hbuf, ?_⟩)
    show conn.written ++ (conn.writeBuf.drop sent).take n = _
    rw [hwritten, hbuf, List.append_assoc, List.take_add]
  | flushed hphase =>
    rw [ServeConn.Told, hphase] at htold
    obtain ⟨before, last, hreplies, hbuf, hwritten⟩ := htold
    refine h.setConn (hsound.writing hphase _ rfl rfl rfl ?_)
    show conn.written = conn.replies.flatMap f.encode
    rw [hwritten, hreplies, hbuf, List.take_length, List.flatMap_append, List.flatMap_singleton]
  | fail hphase => exact h.setConn (hsound.writing hphase _ rfl rfl rfl htold.transcript)

theorem step (h : Sound router f w s) (law : Lawful f.decode) (heof : f.takeOnEof = false)
    {a : ServerAction} (hstep : s.step router f a = some s') : Sound router f w s' := by
  cases Step.of_step hstep with
  | @accept k readTimeout maxFrameSize hfresh =>
    obtain ⟨hentries, hpayloads⟩ := h.fresh hfresh
    apply h.setConn
    rw [hentries, hpayloads]
    exact .new f rfl
  | conn hconn hconnStep => exact h.connStep law heof hconn hconnStep
  | shutdown => exact ⟨h.world_eq, h.conn, h.fresh⟩

end Sound

theorem Sound.of_reach (law : Lawful f.decode) (heof : f.takeOnEof = false)
    (h : Reach (Server.step router f) always (.new w) s) : Sound router f w s :=
  h.invariant (.new router f w) fun _ _ _ h _ hstep => h.step law heof hstep

/-- The requests are served in a state. -/
structure Served (router : Router B C σ) (f : Framing) (fits : Bytes → Prop) (w : World B C σ)
    (s : Server B C σ) : Prop where
  /-- The state that the handlers share is that of one sequential run over the log. -/
  world_eq : s.world = (router.handleAll s.log w).2
  /-- A connection has written what this run sends on it, framed. -/
  written {k : ℕ} {conn : ServeConn} : s.conns k = some conn →
    Transcript f (payloadsOf router w k s.log) conn.written
  /-- What it has dispatched are the frames that it has read, in order. -/
  read {k : ℕ} {conn : ServeConn} : s.conns k = some conn →
    ∃ rest, Cuts f.decode conn.reader.read (entriesOf k s.log ++ conn.pending) rest
  /-- Of a peer that sends payloads, framed, it has dispatched the first ones. -/
  dispatched {k : ℕ} {conn : ServeConn} {ps : List Bytes} {tail : Bytes} :
    s.conns k = some conn → (∀ p ∈ ps, fits p) → Stuck f.decode tail →
      conn.reader.read <+: ps.flatMap f.encode ++ tail → entriesOf k s.log ++ conn.pending <+: ps
  /-- When it waits for more after whole frames, it has dispatched and answered all of them. -/
  settled {k : ℕ} {conn : ServeConn} {ps : List Bytes} :
    s.conns k = some conn → (∀ p ∈ ps, fits p) → conn.reader.read = ps.flatMap f.encode →
      conn.phase = .receiving → f.decode conn.reader.core.readBuf = .ok none →
        entriesOf k s.log = ps ∧ conn.written = (payloadsOf router w k s.log).flatMap f.encode

/-- However its connections interleave, the server serves the requests: with netstrings and
`Content-Length` headers. -/
theorem served {c : Codec} (hc : c = .netstring ∨ c = .contentLength) {width : ℕ}
    (hwidth : width ≤ 64) (router : Router B C σ) (w : World B C σ) (s : Server B C σ)
    (hreach : Reach (Server.step router (c.framing width)) always (.new w) s) :
    Served router (c.framing width) (c.Fits width) w s := by
  have law := Codec.lawful width c
  have heof : (c.framing width).takeOnEof = false := Codec.takeOnEof_eq hc
  have hcarries {ps : List Bytes} (hps : ∀ p ∈ ps, c.Fits width p) :
      ∀ p ∈ ps, Carries (c.framing width).decode (c.framing width).encode p :=
    fun p hp => Codec.carries_of_fits hc hwidth (hps p hp)
  have h := Sound.of_reach law heof hreach
  constructor
  · exact h.world_eq
  · intro k conn hconn
    have hconn := h.conn hconn
    rw [← hconn.replies_eq]
    exact hconn.told.transcript
  · exact fun hconn => (h.conn hconn).cut
  · intro k conn ps tail hconn hps htail hread
    obtain ⟨rest, hcut⟩ := (h.conn hconn).cut
    exact law.isPrefix_of_cuts (hcarries hps) htail hcut hread
  · intro k conn ps hconn hps hread hphase hdec
    have hconn := h.conn hconn
    have hheard := hconn.heard (by rw [hphase]; exact fun h => by cases h)
    have htold := hconn.told
    rw [ServeConn.pending, hphase, List.append_nil, FramedReader.Heard, hread] at hheard
    rw [ServeConn.Told, hphase, hconn.replies_eq] at htold
    have hstuck : Stuck (c.framing width).decode conn.reader.core.readBuf := fun m n hframe => by
      rw [hdec] at hframe
      cases hframe
    have hall := cuts_flatMap (hcarries hps) []
    rw [List.append_nil] at hall
    exact ⟨(hheard.unique hstuck hall (law.stuck_nil)).1, htold⟩

/-! ## A run of two connections -/

section Sample

open JsonText

/-- A call of `get`. -/
def getMessage : Bytes :=
  backend.get (Request.serialize { method := "get", id := some (.number 1) : Request backend })

/-- The call as a netstring. -/
def getChunk : Chunk := ⟨(Codec.netstring.framing 64).encode getMessage, by decide⟩

/-- The calls of two connections are read, dispatched and answered in turn, after the accept loop has
ended; the connection that was accepted last is dispatched first. -/
def servedRun : List ServerAction :=
  [.accept 0 none 100, .accept 1 none 100, .shutdown,
    .conn 0 (.recv (.read (.ready getChunk))), .conn 1 (.recv (.read (.ready getChunk))),
    .conn 1 (.recv .ready), .conn 0 (.recv .ready), .conn 1 .dispatch, .conn 1 (.write 30),
    .conn 0 .dispatch, .conn 0 (.write 42), .conn 1 (.write 12), .conn 0 .flushed, .conn 1 .flushed]

theorem served_servedRun : ∃ s, run (Server.step getRouter (Codec.netstring.framing 64)) always
      (.new ⟨(), []⟩) servedRun = some s ∧ s.log = [(1, getMessage), (0, getMessage)] ∧
    Served getRouter (Codec.netstring.framing 64) (Codec.netstring.Fits 64) ⟨(), []⟩ s := by
  have hlog : (run (Server.step getRouter (Codec.netstring.framing 64)) always
      (.new ⟨(), []⟩) servedRun).map Server.log = some [(1, getMessage), (0, getMessage)] := by
    decide +kernel
  obtain ⟨s, hrun, hlog⟩ := Option.map_eq_some_iff.1 hlog
  refine ⟨s, hrun, hlog, ?_⟩
  apply served (c := .netstring) (.inl rfl) le_rfl
  exact reach_of_run servedRun hrun

end Sample

end Server

end Jasonrpc
