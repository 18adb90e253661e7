import Jasonrpc.Client.Uds
import Jasonrpc.Json.Text
import Jasonrpc.Lib.Lock

/-!
# Reconnection

Only the call that has the gate is past it: it has cloned out the current transport, found it dead
before it dials, and replaces it by a new one (`SingleFlight`).  So one call dials at a time, no live
connection is replaced, and a call that gets the gate shares the current transport
(`single_flight`), unless this transport dies before the call's second test
(`not_hasShared_of_acquire`).
-/

namespace Jasonrpc

open ByteString Machine

namespace MultiplexTransport

variable {B : Backend} {f : Framing} {s t : MultiplexTransport} {a : Action}

theorem connected_step (hstep : s.step B f a = some t) (hdead : s.connected = false) :
    t.connected = false := by
  cases Step.of_step hstep with
  | start => exact hdead
  | call _ hcallStep => cases hcallStep <;> exact hdead
  | reader hreaderStep =>
    cases hreaderStep with
    | stop => rfl
    | _ => exact hdead

end MultiplexTransport

namespace ReconnectingUds

variable {B : Backend} {f : Framing} {s s' : ReconnectingUds} {n m t : ℕ} {call : UdsCall}
  {stage : Stage} {a : UdsAction}

/-! ## What a step leaves -/

theorem isConnected_update {i : ℕ} {ia : Action} {transport : MultiplexTransport}
    (hstepped : (s.transports i).step B f ia = some transport) (hdead : s.isConnected t = false) :
    (Function.update s.transports i transport t).connected = false := by
  by_cases h : t = i
  · rw [h] at hdead ⊢
    rw [Function.update_self]
    exact MultiplexTransport.connected_step hstepped hdead
  · rw [Function.update_of_ne h]
    exact hdead

theorem UdsStep.dead (h : UdsStep B f s a s') (hlt : t < s.built)
    (hdead : s.isConnected t = false) : s'.isConnected t = false := by
  cases h with
  | start => exact hdead
  | @call n call _ _ _ hstep =>
    cases hstep with
    | reuse _ _ _ hstarted | release _ hstarted => exact isConnected_update hstarted hdead
    | connected =>
      show (Function.update s.transports s.built .new t).connected = false
      rw [Function.update_of_ne hlt.ne]
      exact hdead
    | _ => exact hdead
  | transport _ _ hstepped => exact isConnected_update hstepped hdead

theorem UdsStep.built_le (h : UdsStep B f s a s') : s.built ≤ s'.built := by
  cases h with
  | start | transport => exact le_rfl
  | call _ hstep =>
    cases hstep with
    | connected => exact Nat.le_succ _
    | _ => exact le_rfl

theorem UdsStep.current_eq (h : UdsStep B f s a s') :
    s'.current = s.current ∨ ∃ n call t, a = .call n .install ∧ s.calls n = some call ∧
      call.stage = .dialled t ∧ s'.current = t := by
  cases h with
  | start | transport => exact .inl rfl
  | call hcall hstep =>
    cases hstep with
    | install hstage => exact .inr ⟨_, _, _, rfl, hcall, hstage, rfl⟩
    | _ => exact .inl rfl

/-- A call keeps its entry where it does not act. -/
theorem UdsStep.calls_of_ne (h : UdsStep B f s a s') (hcall : s.calls n = some call)
    (hne : ∀ ca, a ≠ .call n ca) : s'.calls n = some call := by
  cases h with
  | @start m _ _ hfresh =>
    have hnm : n ≠ m := by
      rintro rfl
      cases hfresh.symm.trans hcall
    exact (Function.update_of_ne hnm _ _).trans hcall
  | @call m _ ca _ _ hstep =>
    have hnm : n ≠ m := by
      rintro rfl
      exact hne ca rfl
    obtain ⟨observed, stage, hcalls⟩ := hstep.calls_eq
    rw [hcalls, Function.update_of_ne hnm, hcall]
  | transport => exact hcall

theorem UdsStep.ne_call (h : UdsStep B f s a s') (hfresh : s.calls n = none) (ca : UdsCallAction) :
    a ≠ .call n ca := by
  rintro rfl
  cases h with
  | call hcall => cases hfresh.symm.trans hcall

theorem UdsStep.fresh (h : UdsStep B f s a s') (hfresh : s'.calls n = none) : s.calls n = none := by
  cases h with
  | start => exact (Table.of_update_none hfresh).2
  | call _ hstep =>
    obtain ⟨observed, stage, hcalls⟩ := hstep.calls_eq
    rw [hcalls] at hfresh
    exact (Table.of_update_none hfresh).2
  | transport => exact hfresh

/-- A call that is there after a step has just started, or acts, or was there before. -/
theorem UdsStep.call_cases (h : UdsStep B f s a s') (hcall : s'.calls n = some call) :
    (s.calls n = none ∧ call.stage = .ready ∧ call.observed = none) ∨
      (∃ call₀ ca, s.calls n = some call₀ ∧ a = .call n ca ∧ UdsCallStep B f s n call₀ ca s') ∨
        s.calls n = some call ∧ ∀ ca, a ≠ .call n ca := by
  cases h with
  | start hfresh =>
    rcases Table.of_update hcall with ⟨rfl, rfl⟩ | ⟨-, hcall⟩
    · exact .inl ⟨hfresh, rfl, rfl⟩
    · exact .inr (.inr ⟨hcall, fun ca heq => by cases heq⟩)
  | @call m call₀ ca _ hcall₀ hstep =>
    by_cases hnm : n = m
    · rw [hnm]
      exact .inr (.inl ⟨call₀, ca, hcall₀, rfl, hstep⟩)
    · obtain ⟨observed, stage, hcalls⟩ := hstep.calls_eq
      rw [hcalls, Function.update_of_ne hnm] at hcall
      exact .inr (.inr ⟨hcall, fun ca heq => hnm (UdsAction.call.inj heq).1.symm⟩)
  | transport => exact .inr (.inr ⟨hcall, fun ca heq => by cases heq⟩)

/-! ## The invariant -/

/-- What holds of a call at a point of `reconnect`. -/
def Fits (s : ReconnectingUds) : Stage → Prop
  | .resnapped t => t = s.current
  | .sleeping _ | .dialling _ => s.isConnected s.current = false
  | .dialled t => s.current < t ∧ t < s.built ∧ s.isConnected s.current = false
  | _ => True

/-- Only the call that has the gate is past it; it has cloned out the current transport, and found
it dead before it dials. -/
structure SingleFlight (s : ReconnectingUds) : Prop where
  held : Lock.Held (fun call : UdsCall => call.stage.HasGate) s.reconnectGate s.calls
  current_lt : s.current < s.built
  fits {n : ℕ} {call : UdsCall} : s.calls n = some call → s.Fits call.stage

/-- A call keeps its place where the current transport stays. -/
theorem Fits.step (h : s.Fits stage) (hlt : s.current < s.built) (hstep : UdsStep B f s a s')
    (hcurrent : stage.HasGate → s'.current = s.current) : s'.Fits stage := by
  have hdead (hgate : stage.HasGate) (hdead : s.isConnected s.current = false) :
      s'.isConnected s'.current = false := by
    rw [hcurrent hgate]
    exact hstep.dead hlt hdead
  cases stage with
  | resnapped t => exact Eq.trans h (hcurrent trivial).symm
  | sleeping => exact hdead trivial h
  | dialling => exact hdead trivial h
  | dialled t =>
    obtain ⟨hcurrentLt, hbuilt, hcurrentDead⟩ := h
    refine ⟨?_, hbuilt.trans_le hstep.built_le, hdead trivial hcurrentDead⟩
    rwa [hcurrent trivial]
  | _ => trivial

namespace SingleFlight

theorem new (policy : RetryPolicy) : SingleFlight (.connect policy) where
  held := .start _ _
  current_lt := Nat.zero_lt_one
  fits h := by cases h

/-- The gate after an action of a call. -/
theorem held_callStep (h : SingleFlight s) (hcall : s.calls n = some call)
    {ca : UdsCallAction} (hstep : UdsCallStep B f s n call ca s') :
    Lock.Held (fun call : UdsCall => call.stage.HasGate) s'.reconnectGate s'.calls := by
  have hgate (hgate : call.stage.HasGate) : s.reconnectGate = some n := h.held n call hcall hgate
  have hheld (hgated : call.stage.HasGate) :
      Lock.Held (fun call : UdsCall => call.stage.HasGate) (some n) s.calls := by
    rw [← hgate hgated]
    exact h.held
  cases hstep with
  | snapshot | reuse | queue | cancel => exact h.held.update fun hnew => hnew.elim
  | acquire _ hfree =>
    have hheld := h.held
    rw [hfree] at hheld
    exact hheld.acquire
  | resnapshot hstage | share hstage | redial hstage | wake hstage | retry hstage | giveUp hstage
    | connected hstage | install hstage =>
    exact h.held.update fun _ => hgate (by rw [hstage]; trivial)
  | panic hstage | release hstage | fail hstage =>
    exact (hheld (by rw [hstage]; trivial)).release id
  | cancelGated hgated => exact (hheld hgated).release id

/-- Where the call `n` is after its action. -/
theorem fits_callStep (h : SingleFlight s) (hcall : s.calls n = some call) {ca : UdsCallAction}
    (hstep : UdsCallStep B f s n call ca s') {call' : UdsCall}
    (hcall' : s'.calls n = some call') : s'.Fits call'.stage := by
  have hfits := h.fits hcall
  have hdead (hloop : call.stage.InLoop) : s.isConnected s.current = false := by
    cases hs : call.stage <;> rw [hs] at hloop hfits
    case sleeping => exact hfits
    case dialling => exact hfits
    case dialled => exact hfits.2.2
    all_goals cases hloop
  cases hstep with
  | resnapshot =>
    rw [eq_of_calls_setStage hcall']
    exact rfl
  | redial hstage hdial =>
    rw [eq_of_calls_setStage hcall']
    rw [hstage] at hfits
    obtain rfl : _ = s.current := hfits
    exact hdial
  | wake hstage | retry hstage =>
    rw [eq_of_calls_setStage hcall']
    exact hdead (by rw [hstage]; trivial)
  | connected hstage =>
    rw [eq_of_calls_setStage hcall']
    refine ⟨h.current_lt, Nat.lt_succ_self _, ?_⟩
    show (Function.update s.transports s.built .new s.current).connected = false
    rw [Function.update_of_ne h.current_lt.ne]
    exact hdead (by rw [hstage]; trivial)
  | _ =>
    rw [eq_of_calls_setStage hcall']
    trivial

theorem current_of_hasGate (h : SingleFlight s) (hstep : UdsStep B f s a s')
    (hcall : s.calls n = some call) (hgate : call.stage.HasGate)
    (hother : a ≠ .call n .install) : s'.current = s.current := by
  rcases hstep.current_eq with heq | ⟨m, callm, t, rfl, hcallm, hstage, -⟩
  · exact heq
  · have hm : callm.stage.HasGate := by rw [hstage]; trivial
    obtain rfl := h.held.unique hcall hcallm hgate hm
    exact absurd rfl hother

theorem step (h : SingleFlight s) (hstep : s.step B f a = some s') : SingleFlight s' := by
  have hdone := UdsStep.of_step hstep
  have hkeep {m : ℕ} {callm : UdsCall} (hcallm : s.calls m = some callm)
      (hother : a ≠ .call m .install) : s'.Fits callm.stage :=
    (h.fits hcallm).step h.current_lt hdone fun hgate =>
      h.current_of_hasGate hdone hcallm hgate hother
  constructor
  · cases hdone with
    | start => exact h.held.update fun hnew => hnew.elim
    | call hcall hcallStep => exact h.held_callStep hcall hcallStep
    | transport => exact h.held
  · rcases hdone.current_eq with heq | ⟨m, callm, t, rfl, hcallm, hstage, heq⟩
    · rw [heq]
      exact h.current_lt.trans_le hdone.built_le
    · have hfits := h.fits hcallm
      rw [hstage] at hfits
      rw [heq]
      exact hfits.2.1.trans_le hdone.built_le
  · intro m callm hcallm
    rcases hdone.call_cases hcallm with ⟨-, hready, -⟩ | ⟨call, ca, hcall, -, hcallStep⟩ |
      ⟨hbefore, hother⟩
    · rw [hready]
      trivial
    · exact h.fits_callStep hcall hcallStep hcallm
    · exact hkeep hbefore (hother _)

end SingleFlight

theorem singleFlight_of_reach {policy : RetryPolicy}
    (h : Reach (step B f) always (connect policy) s) : SingleFlight s :=
  h.invariant (.new policy) fun _ _ _ hflight _ hstep => hflight.step hstep

/-! ## One call at a time -/

/-- The call `n` is in the loop over the attempts. -/
def Redials (s : ReconnectingUds) (n : ℕ) : Prop :=
  ∃ call, s.calls n = some call ∧ call.stage.InLoop

/-- The call that tests, with the gate, a transport that is dead, and goes on to dial. -/
def redialler (s : ReconnectingUds) : UdsAction → Option ℕ
  | .call n .recheck =>
    match (s.calls n).map UdsCall.stage with
    | some (.resnapped t) => if s.isConnected t then none else some n
    | _ => none
  | _ => none

theorem redialler_recheck (hcall : s.calls n = some call) (hstage : call.stage = .resnapped t) :
    s.redialler (.call n .recheck) = if s.isConnected t then none else some n := by
  rw [redialler, hcall, Option.map_some, hstage]

/-- The call `n` does not find the transport dead at its second test. -/
def FindsAlive (n : ℕ) (s : ReconnectingUds) (a : UdsAction) : Prop := s.redialler a ≠ some n

instance (n : ℕ) (s : ReconnectingUds) (a : UdsAction) : Decidable (FindsAlive n s a) :=
  inferInstanceAs (Decidable (_ ≠ _))

theorem UdsStep.dials_eq (h : UdsStep B f s a s') :
    s'.dials = s.dials ∨ ∃ n call ca, a = .call n ca ∧ s.calls n = some call ∧
      s'.dials = s.dials ++ [n] ∧
        (s.redialler a = some n ∨ ∃ redial, call.stage = .sleeping redial) := by
  cases h with
  | start | transport => exact .inl rfl
  | call hcall hstep =>
    cases hstep with
    | redial hstage hdead =>
      refine .inr ⟨_, _, _, rfl, hcall, rfl, .inl ?_⟩
      rw [redialler_recheck hcall hstage, hdead]
      rfl
    | wake hstage => exact .inr ⟨_, _, _, rfl, hcall, rfl, .inr ⟨_, hstage⟩⟩
    | _ => exact .inl rfl

/-- A call that has acquired the gate while `t` was current: it is before its second test, it returns
`t` or goes on with it, or it was dropped. -/
def Shares (t : ℕ) : Stage → Prop
  | .gated | .resnapped _ | .done .cancelled => True
  | .returning (.ok t') | .delegated t' => t' = t
  | _ => False

/-- The call `n` shares the transport `t`, and `k` of the dials are its own. -/
def HasShared (s : ReconnectingUds) (n t k : ℕ) : Prop :=
  (∃ call, s.calls n = some call ∧ Shares t call.stage) ∧ s.dials.count n = k

/-- The current transport is `t` as long as the call `n` has the gate. -/
structure Sharing (n t k : ℕ) (s : ReconnectingUds) : Prop where
  flight : SingleFlight s
  shares : ∃ call, s.calls n = some call ∧ Shares t call.stage ∧
    (call.stage.HasGate → s.current = t)
  count_eq : s.dials.count n = k

namespace Sharing

variable {k : ℕ}

/-- What the call `n` does with its gate. -/
theorem callStep (h : Sharing n t k s) (hcall : s.calls n = some call) {ca : UdsCallAction}
    (hok : FindsAlive n s (.call n ca)) (hstep : UdsCallStep B f s n call ca s') :
    ∃ call', s'.calls n = some call' ∧ Shares t call'.stage ∧
      (call'.stage.HasGate → s'.current = t) := by
  obtain ⟨call₀, hcall₀, hshares, hcurrent⟩ := h.shares
  obtain rfl := Option.some.inj (hcall.symm.trans hcall₀)
  have hfits := h.flight.fits hcall
  cases hstep with
  | resnapshot hstage =>
    refine ⟨_, Function.update_self .., trivial, fun _ => hcurrent ?_⟩
    rw [hstage]
    trivial
  | share hstage =>
    rw [hstage] at hfits
    obtain rfl : _ = s.current := hfits
    have heq : s.current = t := hcurrent (by rw [hstage]; trivial)
    exact ⟨_, Function.update_self .., heq, fun _ => heq⟩
  | redial hstage hdead =>
    rw [FindsAlive, redialler_recheck hcall hstage, hdead] at hok
    exact absurd rfl hok
  | release hstage =>
    rw [hstage] at hshares
    exact ⟨_, Function.update_self .., hshares, fun hgate => hgate.elim⟩
  | cancel | cancelGated => exact ⟨_, Function.update_self .., trivial, fun hgate => hgate.elim⟩
  | snapshot hstage | reuse hstage | queue hstage | acquire hstage | wake hstage | panic hstage
    | retry hstage | giveUp hstage | connected hstage | install hstage | fail hstage =>
    rw [hstage] at hshares
    exact hshares.elim

theorem step (h : Sharing n t k s) (hok : FindsAlive n s a) (hstep : s.step B f a = some s') :
    Sharing n t k s' := by
  have hdone := UdsStep.of_step hstep
  obtain ⟨call, hcall, hshares, hcurrent⟩ := h.shares
  refine ⟨h.flight.step hstep, ?_, ?_⟩
  · by_cases hown : ∃ ca, a = .call n ca
    · obtain ⟨ca, rfl⟩ := hown
      cases hdone with
      | call hcall' hcallStep => exact h.callStep hcall' hok hcallStep
    · have hne : ∀ ca, a ≠ .call n ca := fun ca heq => hown ⟨ca, heq⟩
      refine ⟨call, hdone.calls_of_ne hcall hne, hshares, fun hgate => ?_⟩
      rw [h.flight.current_of_hasGate hdone hcall hgate (hne _)]
      exact hcurrent hgate
  · rcases hdone.dials_eq with heq | ⟨m, callm, ca, -, hcallm, heq, hdials⟩
    · rw [heq]
      exact h.count_eq
    · have hne : m ≠ n := by
        rintro rfl
        rcases hdials with hredials | ⟨redial, hstage⟩
        · exact hok hredials
        · obtain rfl := Option.some.inj (hcall.symm.trans hcallm)
          rw [hstage] at hshares
          exact hshares.elim
      rw [heq, List.count_append, List.count_singleton, h.count_eq]
      simp [hne]

theorem of_acquire (h : SingleFlight s) (hacquire : s.step B f (.call n .acquire) = some s') :
    Sharing n s.current (s.dials.count n) s' := by
  have hflight := h.step hacquire
  cases UdsStep.of_step hacquire with
  | call hcall hcallStep =>
    cases hcallStep with
    | acquire => exact ⟨hflight, ⟨_, Function.update_self .., trivial, fun _ => rfl⟩, rfl⟩

end Sharing

/-- At most one call is in the loop over the attempts, an installation replaces a dead transport, a
dead transport stays dead, and a call that acquires the gate shares the current transport without
dialling, unless it finds it dead at its second test. -/
theorem single_flight (B : Backend) (f : Framing) (policy : RetryPolicy) (s : ReconnectingUds)
    (h : Reach (step B f) always (connect policy) s) :
    (∀ n m, s.Redials n → s.Redials m → n = m) ∧
      (∀ n s', s.step B f (.call n .install) = some s' → s.isConnected s.current = false) ∧
      (∀ a s', s.step B f a = some s' →
        (s'.current = s.current ∨ ∃ n, a = .call n .install) ∧
          ∀ t, t < s.built → s.isConnected t = false → s'.isConnected t = false) ∧
      ∀ n s₁ s₂, s.step B f (.call n .acquire) = some s₁ →
        Reach (step B f) (FindsAlive n) s₁ s₂ → s₂.HasShared n s.current (s.dials.count n) := by
  have hflight := singleFlight_of_reach h
  refine ⟨?_, ?_, ?_, ?_⟩
  · rintro n m ⟨calln, hcalln, hn⟩ ⟨callm, hcallm, hm⟩
    exact hflight.held.unique hcalln hcallm hn.hasGate hm.hasGate
  · intro n s' hstep
    cases UdsStep.of_step hstep with
    | call hcall hcallStep =>
      cases hcallStep with
      | install hstage =>
        have hfits := hflight.fits hcall
        rw [hstage] at hfits
        exact hfits.2.2
  · intro a s' hstep
    have hdone := UdsStep.of_step hstep
    refine ⟨?_, fun t hlt hdead => hdone.dead hlt hdead⟩
    rcases hdone.current_eq with heq | ⟨n, call, t, ha, -⟩
    · exact .inl heq
    · exact .inr ⟨n, ha⟩
  · intro n s₁ s₂ hacquire hreach
    have hsharing := hreach.invariant (Sharing.of_acquire hflight hacquire)
      fun _ _ _ hsharing hok hstep => hsharing.step hok hstep
    obtain ⟨call, hcall, hshares, -⟩ := hsharing.shares
    exact ⟨⟨call, hcall, hshares⟩, hsharing.count_eq⟩

/-! ## Two calls on a dead connection -/

section Sample

/-- A request with id 1. -/
def sampleRequest : Bytes := ascii "\x7b\"id\":1\x7d"

/-- A call starts, and finds the transport dead. -/
def queues (n : ℕ) : List UdsAction :=
  [.start n .roundTrip sampleRequest, .call n .snapshot, .call n .check]

/-- A call that waits on the gate acquires it, and makes its second test. -/
def retests (n : ℕ) : List UdsAction :=
  [.call n .acquire, .call n .resnapshot, .call n .recheck]

/-- The first connection dies, and of two calls that wait on the gate one reconnects. -/
def reconnected : List UdsAction :=
  .transport 0 (.reader .stop) :: queues 0 ++ queues 1 ++ retests 0 ++
    [.call 0 .connected, .call 0 .install, .call 0 .release]

/-- The other one shares the new connection. -/
theorem single_flight_reconnected : ∃ s s₁ s₂,
    run (step JsonText.backend Newline) always (connect .default) reconnected = some s ∧
      s.step JsonText.backend Newline (.call 1 .acquire) = some s₁ ∧
      run (step JsonText.backend Newline) (FindsAlive 1) s₁
        [.call 1 .resnapshot, .call 1 .recheck] = some s₂ ∧ s₂.HasShared 1 1 0 := by
  have hreach : Reach (step JsonText.backend Newline) always (connect .default) _ :=
    reach_of_run reconnected rfl
  obtain ⟨-, -, -, hshared⟩ := single_flight JsonText.backend Newline .default _ hreach
  refine ⟨_, _, _, rfl, rfl, rfl, hshared 1 _ _ rfl ?_⟩
  exact reach_of_run [.call 1 .resnapshot, .call 1 .recheck] rfl

/-- Where the new connection dies before the second test, the other call dials. -/
theorem not_hasShared_of_acquire : ¬ ∀ policy s n s₁ s₂,
    Reach (step JsonText.backend Newline) always (connect policy) s →
      s.step JsonText.backend Newline (.call n .acquire) = some s₁ → s.isConnected s.current →
        Reach (step JsonText.backend Newline) always s₁ s₂ →
          s₂.HasShared n s.current (s.dials.count n) := by
  intro h
  have hshared := h .default _ 1 _ _ (reach_of_run reconnected rfl) rfl rfl
    (reach_of_run [.transport 1 (.reader .stop), .call 1 .resnapshot, .call 1 .recheck] rfl)
  cases hshared.2

end Sample

end ReconnectingUds

end Jasonrpc
