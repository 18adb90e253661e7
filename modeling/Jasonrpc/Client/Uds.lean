import Jasonrpc.Client.Multiplex
import Jasonrpc.Lib.Duration

/-!
# Unix-domain-socket client

A `ReconnectingUds` hands every call to the multiplexing transport that it has in `current`, and
first dials the socket again where this transport is known to be dead.  A state holds every
transport built so far, in full, and the point that each call has reached; `step` is one atomic
action of a call or of a transport, and `Step` lists what the actions do.  Each call waits on the
gate, tests the transport a second time, and then dials, sleeping between its attempts.
-/

namespace Jasonrpc

open ByteString Machine

/-- Policy governing how the UDS client re-dials a dropped connection. -/
structure RetryPolicy where
  /-- Maximum number of dial attempts before giving up. Must be at least 1. -/
  maxAttempts : UInt32
  /-- Delay before the second attempt; doubles each subsequent attempt. -/
  baseBackoff : Duration
  /-- Upper bound on the backoff delay between attempts. -/
  maxBackoff : Duration
deriving DecidableEq, Repr

namespace RetryPolicy

def default : RetryPolicy where
  maxAttempts := 5
  baseBackoff := .fromMillis 50
  maxBackoff := .fromMillis 5000

/-- A policy that never reconnects: a single dial attempt, and once the connection dies it stays
dead. -/
def none : RetryPolicy where
  maxAttempts := 1
  baseBackoff := ⟨0⟩
  maxBackoff := ⟨0⟩

/-- The bound of the loop over the attempts. -/
def attempts (policy : RetryPolicy) : ℕ := max policy.maxAttempts.toNat 1

end RetryPolicy

/-- The variables of the loop over the attempts. -/
structure Redial where
  attempt : ℕ := 0
  backoff : Duration
  lastErr : Option IoError := none
deriving DecidableEq, Repr

/-- After a failed attempt. -/
def Redial.failed (redial : Redial) (e : IoError) : Redial :=
  { redial with attempt := redial.attempt + 1, lastErr := some e }

/-- The error of a loop that has made all its attempts. -/
def Redial.error (redial : Redial) : MultiplexError :=
  match redial.lastErr with
  | some e => .transport (.io e)
  | none => .connectionClosed

/-- The point that a call of the client has reached. -/
inductive Stage where
  | ready
  /-- `ensure_connected` has cloned out a transport. -/
  | snapped
  /-- Awaits the gate. -/
  | queueing
  /-- Has the gate. -/
  | gated
  /-- Has the gate, and has cloned out the transport `t`. -/
  | resnapped (t : ℕ)
  /-- Has the gate, and sleeps before the next attempt. -/
  | sleeping (redial : Redial)
  /-- Has the gate, and awaits `UnixStream::connect`. -/
  | dialling (redial : Redial)
  /-- Has the gate, and has built the transport `t` over a new stream. -/
  | dialled (t : ℕ)
  /-- Returns from `reconnect`; the gate is the next to be dropped. -/
  | returning (r : Except MultiplexError ℕ)
  /-- Awaits the call of the transport `t`. -/
  | delegated (t : ℕ)
  /-- Has panicked: the next delay is no duration. -/
  | panicked
  | done (r : Outcome)

namespace Stage

/-- The call has the gate. -/
def HasGate : Stage → Prop
  | gated | resnapped _ | sleeping _ | dialling _ | dialled _ | returning _ => True
  | ready | snapped | queueing | delegated _ | panicked | done _ => False

/-- The call is in the loop over the attempts. -/
def InLoop : Stage → Prop
  | sleeping _ | dialling _ | dialled _ => True
  | _ => False

theorem InLoop.hasGate {stage : Stage} (h : stage.InLoop) : stage.HasGate := by
  cases stage <;> first | exact h | trivial

end Stage

/-- A call of the client, with the message it is given. -/
structure UdsCall where
  operation : Operation
  message : Bytes
  /-- The transport that `ensure_connected` has cloned out. -/
  observed : Option ℕ := none
  stage : Stage := .ready

/-- A self-healing multiplexing transport over a Unix-domain socket, with its calls. -/
structure ReconnectingUds where
  policy : RetryPolicy
  /-- The transports built so far, from the first one on. -/
  transports : ℕ → MultiplexTransport := fun _ => .new
  built : ℕ := 1
  /-- The current transport. -/
  current : ℕ := 0
  /-- The call that has the gate. -/
  reconnectGate : Option ℕ := none
  calls : ℕ → Option UdsCall := fun _ => none
  /-- The calls that have dialled, in order, each as often as it has. -/
  dials : List ℕ := []

/-- An atomic action of a call of the client. -/
inductive UdsCallAction where
  /-- `ensure_connected` clones out the current transport. -/
  | snapshot
  /-- Test whether it is connected. -/
  | check
  /-- The gate is acquired. -/
  | acquire
  /-- `reconnect` clones out the current transport. -/
  | resnapshot
  /-- Test whether it is connected. -/
  | recheck
  /-- The delay is over. -/
  | wake
  /-- `UnixStream::connect` fails. -/
  | refused (e : IoError)
  /-- `UnixStream::connect` returns a stream, and a transport is built over it. -/
  | connected
  /-- Store the new transport in `current`. -/
  | install
  /-- The gate is dropped, and the call goes on with the transport. -/
  | release
  /-- The future is dropped where it awaits, or before it is polled. -/
  | cancel
deriving DecidableEq, Repr

/-- An atomic action of the client, or of one of its transports. -/
inductive UdsAction where
  | start (n : ℕ) (operation : Operation) (message : Bytes)
  | call (n : ℕ) (a : UdsCallAction)
  | transport (t : ℕ) (a : Action)
deriving DecidableEq, Repr

namespace ReconnectingUds

variable (B : Backend) (f : Framing)

/-- The client after its first connection. -/
def connect (policy : RetryPolicy) : ReconnectingUds := { policy }

/-- The transport `t` is connected. -/
def isConnected (s : ReconnectingUds) (t : ℕ) : Bool := (s.transports t).connected

def setStage (s : ReconnectingUds) (n : ℕ) (call : UdsCall) (stage : Stage) : ReconnectingUds :=
  { s with calls := Function.update s.calls n (some { call with stage }) }

/-- The call `n` calls `UnixStream::connect`. -/
def dial (s : ReconnectingUds) (n : ℕ) (call : UdsCall) (redial : Redial) : ReconnectingUds :=
  { s with dials := s.dials ++ [n] }.setStage n call (.dialling redial)

/-- The head of the loop over the attempts. -/
def attempt (s : ReconnectingUds) (n : ℕ) (call : UdsCall) (redial : Redial) : ReconnectingUds :=
  if redial.attempt < s.policy.attempts then
    if 0 < redial.attempt then s.setStage n call (.sleeping redial) else s.dial n call redial
  else s.setStage n call (.returning (.error redial.error))

/-- The call `n` goes on with the transport `t`, as a call of this transport. -/
def delegate (s : ReconnectingUds) (n : ℕ) (call : UdsCall) (t : ℕ) : Option ReconnectingUds :=
  ((s.transports t).step B f (.start n call.operation call.message)).map fun transport =>
    { s with transports := Function.update s.transports t transport }.setStage n call (.delegated t)

/-- An action of the call `n`; `none` where it is not possible. -/
def callStep (s : ReconnectingUds) (n : ℕ) (call : UdsCall) :
    UdsCallAction → Option ReconnectingUds
  | .snapshot =>
    match call.stage with
    | .ready => some (s.setStage n { call with observed := some s.current } .snapped)
    | _ => none
  | .check =>
    match call.stage, call.observed with
    | .snapped, some t =>
      if s.isConnected t then s.delegate B f n call t else some (s.setStage n call .queueing)
    | _, _ => none
  | .acquire =>
    match call.stage, s.reconnectGate with
    | .queueing, none => some ({ s with reconnectGate := some n }.setStage n call .gated)
    | _, _ => none
  | .resnapshot =>
    match call.stage with
    | .gated => some (s.setStage n call (.resnapped s.current))
    | _ => none
  | .recheck =>
    match call.stage with
    | .resnapped t =>
      if s.isConnected t then some (s.setStage n call (.returning (.ok t)))
      else some (s.attempt n call { backoff := s.policy.baseBackoff })
    | _ => none
  | .wake =>
    match call.stage with
    | .sleeping redial =>
      match redial.backoff.checkedMul 2 with
      | some backoff =>
        some (s.dial n call { redial with backoff := backoff.min s.policy.maxBackoff })
      | none => some ({ s with reconnectGate := none }.setStage n call .panicked)
    | _ => none
  | .refused e =>
    match call.stage with
    | .dialling redial =>
      some (s.attempt n call (redial.failed e))
    | _ => none
  | .connected =>
    match call.stage with
    | .dialling _ =>
      some ({ s with
        transports := Function.update s.transports s.built .new
        built := s.built + 1 }.setStage n call (.dialled s.built))
    | _ => none
  | .install =>
    match call.stage with
    | .dialled t => some ({ s with current := t }.setStage n call (.returning (.ok t)))
    | _ => none
  | .release =>
    match call.stage with
    | .returning (.ok t) => { s with reconnectGate := none }.delegate B f n call t
    | .returning (.error e) =>
      some ({ s with reconnectGate := none }.setStage n call (.done (.error e)))
    | _ => none
  | .cancel =>
    match call.stage with
    | .ready | .queueing => some (s.setStage n call (.done .cancelled))
    | .gated | .sleeping _ | .dialling _ =>
      some ({ s with reconnectGate := none }.setStage n call (.done .cancelled))
    | _ => none

/-- One atomic action of the system.  Calls of a transport start when the client hands them over. -/
def step (s : ReconnectingUds) : UdsAction → Option ReconnectingUds
  | .start n operation message =>
    match s.calls n with
    | some _ => none
    | none => some { s with calls := Function.update s.calls n (some { operation, message }) }
  | .call n a => (s.calls n).bind fun call => s.callStep B f n call a
  | .transport _ (.start _ _ _) => none
  | .transport t a =>
    if t < s.built then
      ((s.transports t).step B f a).map fun transport =>
        { s with transports := Function.update s.transports t transport }
    else none

/-- How a call has ended. -/
def outcome (s : ReconnectingUds) (n : ℕ) : Option Outcome :=
  match (s.calls n).map UdsCall.stage with
  | some (.done r) => some r
  | some (.delegated t) =>
    match ((s.transports t).calls n).map Call.phase with
    | some (.done r) => some r
    | _ => none
  | _ => none

/-! ## What the actions do -/

/-- What an action of the call `n` does. -/
inductive UdsCallStep (s : ReconnectingUds) (n : ℕ) (call : UdsCall) :
    UdsCallAction → ReconnectingUds → Prop where
  | snapshot (stage_eq : call.stage = .ready) :
    UdsCallStep s n call .snapshot (s.setStage n { call with observed := some s.current } .snapped)
  | reuse {t : ℕ} {transport : MultiplexTransport} (stage_eq : call.stage = .snapped)
    (observed_eq : call.observed = some t) (alive : s.isConnected t = true)
    (started : (s.transports t).step B f (.start n call.operation call.message) = some transport) :
    UdsCallStep s n call .check
      ({ s with transports := Function.update s.transports t transport }.setStage n call
        (.delegated t))
  | queue {t : ℕ} (stage_eq : call.stage = .snapped) (observed_eq : call.observed = some t)
    (dead : s.isConnected t = false) : UdsCallStep s n call .check (s.setStage n call .queueing)
  | acquire (stage_eq : call.stage = .queueing) (free : s.reconnectGate = none) :
    UdsCallStep s n call .acquire ({ s with reconnectGate := some n }.setStage n call .gated)
  | resnapshot (stage_eq : call.stage = .gated) :
    UdsCallStep s n call .resnapshot (s.setStage n call (.resnapped s.current))
  | share {t : ℕ} (stage_eq : call.stage = .resnapped t) (alive : s.isConnected t = true) :
    UdsCallStep s n call .recheck (s.setStage n call (.returning (.ok t)))
  | redial {t : ℕ} (stage_eq : call.stage = .resnapped t) (dead : s.isConnected t = false) :
    UdsCallStep s n call .recheck (s.dial n call { backoff := s.policy.baseBackoff })
  | wake {redial : Redial} {backoff : Duration} (stage_eq : call.stage = .sleeping redial)
    (doubled : redial.backoff.checkedMul 2 = some backoff) :
    UdsCallStep s n call .wake
      (s.dial n call { redial with backoff := backoff.min s.policy.maxBackoff })
  | panic {redial : Redial} (stage_eq : call.stage = .sleeping redial)
    (overflow : redial.backoff.checkedMul 2 = none) :
    UdsCallStep s n call .wake ({ s with reconnectGate := none }.setStage n call .panicked)
  | retry {redial : Redial} {e : IoError} (stage_eq : call.stage = .dialling redial)
    (lt : redial.attempt + 1 < s.policy.attempts) :
    UdsCallStep s n call (.refused e) (s.setStage n call (.sleeping (redial.failed e)))
  | giveUp {redial : Redial} {e : IoError} (stage_eq : call.stage = .dialling redial)
    (ge : s.policy.attempts ≤ redial.attempt + 1) :
    UdsCallStep s n call (.refused e)
      (s.setStage n call (.returning (.error (.transport (.io e)))))
  | connected {redial : Redial} (stage_eq : call.stage = .dialling redial) :
    UdsCallStep s n call .connected
      ({ s with
        transports := Function.update s.transports s.built .new
        built := s.built + 1 }.setStage n call (.dialled s.built))
  | install {t : ℕ} (stage_eq : call.stage = .dialled t) :
    UdsCallStep s n call .install ({ s with current := t }.setStage n call (.returning (.ok t)))
  | release {t : ℕ} {transport : MultiplexTransport} (stage_eq : call.stage = .returning (.ok t))
    (started : (s.transports t).step B f (.start n call.operation call.message) = some transport) :
    UdsCallStep s n call .release
      ({ s with
        reconnectGate := none
        transports := Function.update s.transports t transport }.setStage n call (.delegated t))
  | fail {e : MultiplexError} (stage_eq : call.stage = .returning (.error e)) :
    UdsCallStep s n call .release
      ({ s with reconnectGate := none }.setStage n call (.done (.error e)))
  | cancel (stage_eq : call.stage = .ready ∨ call.stage = .queueing) :
    UdsCallStep s n call .cancel (s.setStage n call (.done .cancelled))
  | cancelGated (hasGate : call.stage.HasGate) :
    UdsCallStep s n call .cancel
      ({ s with reconnectGate := none }.setStage n call (.done .cancelled))

/-- What an action of the system does. -/
inductive UdsStep (s : ReconnectingUds) : UdsAction → ReconnectingUds → Prop where
  | start {n : ℕ} {operation : Operation} {message : Bytes} (fresh : s.calls n = none) :
    UdsStep s (.start n operation message)
      { s with calls := Function.update s.calls n (some { operation, message }) }
  | call {n : ℕ} {call : UdsCall} {a : UdsCallAction} {s' : ReconnectingUds}
    (call_eq : s.calls n = some call) (step : UdsCallStep B f s n call a s') :
    UdsStep s (.call n a) s'
  | transport {t : ℕ} {a : Action} {transport : MultiplexTransport} (lt : t < s.built)
    (unstarted : ∀ c operation message, a ≠ .start c operation message)
    (stepped : (s.transports t).step B f a = some transport) :
    UdsStep s (.transport t a) { s with transports := Function.update s.transports t transport }

variable {B f} {s s' : ReconnectingUds} {n t : ℕ} {call : UdsCall} {a : UdsAction}

@[simp] theorem calls_setStage (s : ReconnectingUds) (n : ℕ) (call : UdsCall) (stage : Stage) :
    (s.setStage n call stage).calls = Function.update s.calls n (some { call with stage }) := rfl

theorem eq_of_calls_setStage {stage : Stage} {call' : UdsCall}
    (h : (s.setStage n call stage).calls n = some call') : call' = { call with stage } := by
  rw [calls_setStage, Function.update_self] at h
  exact (Option.some.inj h).symm

theorem attempts_pos (policy : RetryPolicy) : 0 < policy.attempts := by
  unfold RetryPolicy.attempts
  omega

theorem attempt_zero (s : ReconnectingUds) (n : ℕ) (call : UdsCall) {redial : Redial}
    (h : redial.attempt = 0) : s.attempt n call redial = s.dial n call redial := by
  rw [attempt, h, if_pos (attempts_pos _), if_neg (Nat.lt_irrefl 0)]

theorem attempt_failed (s : ReconnectingUds) (n : ℕ) (call : UdsCall) (redial : Redial)
    (e : IoError) :
    redial.attempt + 1 < s.policy.attempts ∧
        s.attempt n call (redial.failed e) = s.setStage n call (.sleeping (redial.failed e)) ∨
      s.policy.attempts ≤ redial.attempt + 1 ∧ s.attempt n call (redial.failed e) =
        s.setStage n call (.returning (.error (.transport (.io e)))) := by
  have hpos : 0 < (redial.failed e).attempt := Nat.succ_pos _
  by_cases hlt : (redial.failed e).attempt < s.policy.attempts
  · refine .inl ⟨hlt, ?_⟩
    rw [attempt, if_pos hlt, if_pos hpos]
  · refine .inr ⟨Nat.le_of_not_lt hlt, ?_⟩
    rw [attempt, if_neg hlt]
    rfl

theorem UdsCallStep.of_callStep {a : UdsCallAction} (h : s.callStep B f n call a = some s') :
    UdsCallStep B f s n call a s' := by
  cases a with
  | snapshot =>
    rw [callStep] at h
    split at h
    · rename_i hstage
      obtain rfl := Option.some.inj h
      exact .snapshot hstage
    · cases h
  | check =>
    rw [callStep] at h
    split at h
    · rename_i t hstage hobserved
      split_ifs at h with halive
      · obtain ⟨transport, hstarted, rfl⟩ := Option.map_eq_some_iff.1 h
        exact .reuse hstage hobserved halive hstarted
      · obtain rfl := Option.some.inj h
        exact .queue hstage hobserved (Bool.eq_false_iff.2 halive)
    · cases h
  | acquire =>
    rw [callStep] at h
    split at h
    · rename_i hstage hfree
      obtain rfl := Option.some.inj h
      exact .acquire hstage hfree
    · cases h
  | resnapshot =>
    rw [callStep] at h
    split at h
    · rename_i hstage
      obtain rfl := Option.some.inj h
      exact .resnapshot hstage
    · cases h
  | recheck =>
    rw [callStep] at h
    split at h
    · rename_i t hstage
      split_ifs at h with halive <;> obtain rfl := Option.some.inj h
      · exact .share hstage halive
      · rw [attempt_zero s n call rfl]
        exact .redial hstage (Bool.eq_false_iff.2 halive)
    · cases h
  | wake =>
    rw [callStep] at h
    split at h
    · rename_i redial hstage
      split at h
      · rename_i backoff hdoubled
        obtain rfl := Option.some.inj h
        exact .wake hstage hdoubled
      · rename_i hoverflow
        obtain rfl := Option.some.inj h
        exact .panic hstage hoverflow
    · cases h
  | refused e =>
    rw [callStep] at h
    split at h
    · rename_i redial hstage
      obtain rfl := Option.some.inj h
      rcases s.attempt_failed n call redial e with ⟨hlt, heq⟩ | ⟨hge, heq⟩
      · rw [heq]
        exact .retry hstage hlt
      · rw [heq]
        exact .giveUp hstage hge
    · cases h
  | connected =>
    rw [callStep] at h
    split at h
    · rename_i redial hstage
      obtain rfl := Option.some.inj h
      exact .connected hstage
    · cases h
  | install =>
    rw [callStep] at h
    split at h
    · rename_i t hstage
      obtain rfl := Option.some.inj h
      exact .install hstage
    · cases h
  | release =>
    rw [callStep] at h
    split at h
    · rename_i t hstage
      obtain ⟨transport, hstarted, rfl⟩ := Option.map_eq_some_iff.1 h
      exact .release hstage hstarted
    · rename_i e hstage
      obtain rfl := Option.some.inj h
      exact .fail hstage
    · cases h
  | cancel =>
    rw [callStep] at h
    split at h
    · rename_i hstage
      obtain rfl := Option.some.inj h
      exact .cancel (.inl hstage)
    · rename_i hstage
      obtain rfl := Option.some.inj h
      exact .cancel (.inr hstage)
    all_goals cases h
    all_goals
      rename_i hstage
      refine .cancelGated ?_
      rw [hstage]
      trivial

theorem UdsStep.of_step (h : s.step B f a = some s') : UdsStep B f s a s' := by
  cases a with
  | start n operation message =>
    rw [step] at h
    split at h
    · cases h
    · rename_i hfresh
      obtain rfl := Option.some.inj h
      exact .start hfresh
  | call n a =>
    obtain ⟨call, hcall, h⟩ := Option.bind_eq_some_iff.1 h
    exact .call hcall (.of_callStep h)
  | transport t a =>
    have hunstarted : ∀ c operation message, a ≠ .start c operation message := by
      rintro c operation message rfl
      cases h
    rw [step, Option.ite_none_right_eq_some] at h
    · obtain ⟨hlt, h⟩ := h
      obtain ⟨transport, hstepped, rfl⟩ := Option.map_eq_some_iff.1 h
      exact .transport hlt hunstarted hstepped
    · exact hunstarted

theorem UdsCallStep.calls_eq {a : UdsCallAction} (h : UdsCallStep B f s n call a s') :
    ∃ observed stage, s'.calls = Function.update s.calls n (some { call with observed, stage }) := by
  cases h <;> exact ⟨_, _, rfl⟩

/-! ## The transports of a client -/

/-- Whatever holds of a transport from its start on holds of every transport of the client. -/
theorem UdsStep.transports {I : MultiplexTransport → Prop} (h : UdsStep B f s a s')
    (init : I .new) (keep : ∀ t a t', I t → t.step B f a = some t' → I t')
    (hall : ∀ t, I (s.transports t)) (t : ℕ) : I (s'.transports t) := by
  have hupdate {i : ℕ} {transport : MultiplexTransport} (hnew : I transport) :
      I (Function.update s.transports i transport t) := by
    by_cases hti : t = i
    · rwa [hti, Function.update_self]
    · rw [Function.update_of_ne hti]
      exact hall t
  cases h with
  | start => exact hall t
  | call _ hstep =>
    cases hstep with
    | reuse _ _ _ hstarted | release _ hstarted => exact hupdate (keep _ _ _ (hall _) hstarted)
    | connected => exact hupdate init
    | _ => exact hall t
  | transport _ _ hstepped => exact hupdate (keep _ _ _ (hall _) hstepped)

theorem reach_transports {policy : RetryPolicy} (h : Reach (step B f) always (connect policy) s)
    (t : ℕ) : Reach (MultiplexTransport.step B f) always .new (s.transports t) := by
  refine h.invariant (I := fun s => ∀ t,
    Reach (MultiplexTransport.step B f) always .new (s.transports t)) (fun _ => .refl) ?_ t
  intro s a s' hall _ hstep
  exact (UdsStep.of_step hstep).transports .refl (fun _ _ _ hreach hstep => hreach.tail trivial hstep)
    hall

end ReconnectingUds

end Jasonrpc
