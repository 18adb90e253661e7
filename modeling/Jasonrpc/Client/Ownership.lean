import Jasonrpc.Client.Registry
import Jasonrpc.Json.Text
import Mathlib.Data.Set.Card

/-!
# Who owns an entry of the pending map

Every entry of the map is the sender of a call between its registration and its end, so the map is
no larger than the number of these calls (`pending_bounded`).  The map and the guard know a call by
its id alone.  So a call that registers an id takes it from another call that still guards it, and
gets the reply that is still to come to another call that has sent it; calls own their entries as
long as no call registers such an id (`owned`).
-/

namespace Jasonrpc

open ByteString Machine

namespace MultiplexTransport

variable {B : Backend} {f : Framing} {s s' : MultiplexTransport}

/-! ## No leaks -/

/-- A call is between its registration and its end. -/
def Registered (s : MultiplexTransport) (c : ℕ) : Prop :=
  ∃ call, s.calls c = some call ∧ call.operation = .roundTrip ∧ call.phase.registered

theorem registry_of_reach (h : Reach (step B f) always new s) : Registry B s :=
  h.invariant .new fun _ _ _ hregistry _ hstep => hregistry.step hstep

/-- The calls started so far are finitely many. -/
theorem finite_calls (h : Reach (step B f) always new s) : {c | s.calls c ≠ none}.Finite := by
  refine h.invariant (I := fun s => {c | s.calls c ≠ none}.Finite) ?_ fun s a s' hs _ hstep => ?_
  · exact Set.finite_empty.subset fun c hc => hc rfl
  · have hone {c : ℕ} (hother : ∀ x, x ≠ c → s'.calls x = s.calls x) :
        {x | s'.calls x ≠ none}.Finite := by
      refine (hs.insert c).subset fun x hx => ?_
      rcases eq_or_ne x c with rfl | hne
      · exact Set.mem_insert _ _
      · have hx : s'.calls x ≠ none := hx
        rw [hother x hne] at hx
        exact Set.mem_insert_of_mem _ hx
    cases Step.of_step hstep with
    | start => exact hone fun x hx => Function.update_of_ne hx _ _
    | call _ hcallStep =>
      obtain ⟨phase, hcalls⟩ := hcallStep.calls_eq
      exact hone fun x hx => by rw [hcalls, Function.update_of_ne hx]
    | reader hreaderStep =>
      rw [hreaderStep.calls_eq]
      exact hs

/-- The map holds only senders of registered calls, at most one for each, and none when there are
no registered calls. -/
theorem pending_bounded (B : Backend) (f : Framing) (s : MultiplexTransport)
    (h : Reach (step B f) always new s) :
    (∀ id c, s.pending id = some c → s.Registered c) ∧
      {c | s.Registered c}.Finite ∧ {id | s.pending id ≠ none}.Finite ∧
      {id | s.pending id ≠ none}.ncard ≤ {c | s.Registered c}.ncard ∧
      ((∀ c, ¬ s.Registered c) → ∀ id, s.pending id = none) := by
  have hregistry := registry_of_reach h
  have hregistered (id : Id) (c : ℕ) (hid : s.pending id = some c) : s.Registered c := by
    obtain ⟨⟨call, hcall, -⟩, -⟩ := hregistry.stored hid
    obtain ⟨hop, -, hphase⟩ := hregistry.of_pending hcall hid
    exact ⟨call, hcall, hop, hphase⟩
  have hfinite : {c | s.Registered c}.Finite := by
    refine (finite_calls h).subset ?_
    rintro c ⟨call, hcall, -⟩ hnone
    cases hcall.symm.trans hnone
  -- the sender determines the id, which is that of its call
  let owner (id : Id) : ℕ := (s.pending id).getD 0
  have howner {id : Id} {c : ℕ} (hid : s.pending id = some c) : owner id = c := by
    rw [show owner id = (s.pending id).getD 0 from rfl, hid, Option.getD_some]
  have hmaps : Set.MapsTo owner {id | s.pending id ≠ none} {c | s.Registered c} := by
    intro id hid
    obtain ⟨c, hc⟩ := Option.ne_none_iff_exists'.1 hid
    rw [howner hc]
    exact hregistered id c hc
  have hinjective : Set.InjOn owner {id | s.pending id ≠ none} := by
    intro id hid id' hid' heq
    obtain ⟨c, hc⟩ := Option.ne_none_iff_exists'.1 hid
    obtain ⟨c', hc'⟩ := Option.ne_none_iff_exists'.1 hid'
    rw [howner hc, howner hc'] at heq
    obtain rfl := heq
    obtain ⟨⟨call, hcall, hcallId, -⟩, -⟩ := hregistry.stored hc
    exact Option.some.inj (hcallId.symm.trans (hregistry.of_pending hcall hc').2.1)
  refine ⟨hregistered, hfinite, hfinite.of_injOn hmaps hinjective,
    Set.ncard_le_ncard_of_injOn owner hmaps hinjective hfinite, fun hnone id => ?_⟩
  cases hid : s.pending id with
  | none => rfl
  | some c => exact absurd (hregistered id c hid) (hnone c)

/-- A call is cancelled, and its guard is not dropped yet. -/
def cancelledOnly : List Action :=
  [.start 0 .roundTrip (ascii "\x7b\"id\":1\x7d"), .call 0 .check, .call 0 .insert, .call 0 .cancel]

theorem pending_bounded_cancelledOnly : ∃ s,
    run (step JsonText.backend Newline) always new cancelledOnly = some s ∧
      {id | s.pending id ≠ none}.ncard ≤ {c | s.Registered c}.ncard :=
  ⟨_, rfl, (pending_bounded JsonText.backend Newline _ (reach_of_run cancelledOnly rfl)).2.2.2.1⟩

end MultiplexTransport

/-! ## Replies to requests -/

/-- A transport with its peer: the calls whose whole frame the socket has taken, and for each frame
received the call whose request it answers, if any. -/
structure Exchange where
  transport : MultiplexTransport := {}
  sent : ℕ → Bool := fun _ => false
  origins : List (Option ℕ) := []

/-- An action of the transport, or a frame that the peer sends. -/
inductive ExchangeAction where
  /-- A call acts, or the reader does without receiving a frame. -/
  | task (a : Action)
  /-- The reader receives the reply to the request of the call `c`. -/
  | answer (c : ℕ) (frame : Bytes)
  /-- The reader receives a frame that answers no request. -/
  | stray (frame : Bytes)
deriving DecidableEq, Repr

/-- The action of the transport. -/
def ExchangeAction.toAction : ExchangeAction → Action
  | task a => a
  | answer _ frame => .reader (.take frame)
  | stray frame => .reader (.take frame)

/-- The reader has not met the end of the stream. -/
def ReaderTask.running : ReaderTask → Bool
  | receiving | holding _ _ => true
  | flagged | returned => false

namespace MultiplexTransport

/-- The socket has taken the whole frame of a call. -/
def written (s : MultiplexTransport) (c : ℕ) : Bool :=
  match s.calls c with
  | some call => call.phase == .writing s.writeBuf.length
  | none => false

variable {B : Backend} {f : Framing} {s t : MultiplexTransport} {a : Action} {c : ℕ} {call : Call}

theorem registered_of_written (h : s.written c) :
    ∃ call, s.calls c = some call ∧ call.phase.registered := by
  rw [written] at h
  split at h
  · rename_i call hcall
    refine ⟨call, hcall, ?_⟩
    rw [eq_of_beq h]
    rfl
  · cases h

theorem started_step (hstep : s.step B f a = some t) (h : s.calls c ≠ none) : t.calls c ≠ none := by
  intro hnone
  cases Step.of_step hstep with
  | start => exact h (Table.of_update_none hnone).2
  | call _ hcallStep =>
    obtain ⟨phase, hcalls⟩ := hcallStep.calls_eq
    rw [hcalls] at hnone
    exact h (Table.of_update_none hnone).2
  | reader hreaderStep =>
    rw [hreaderStep.calls_eq] at hnone
    exact h hnone

theorem id_step (hstep : s.step B f a = some t) (hcall : t.calls c = some call) :
    s.calls c = none ∨ ∃ call₀, s.calls c = some call₀ ∧ call₀.id B = call.id B := by
  rcases (Step.of_step hstep).call_cases hcall with ⟨hfresh, -⟩ |
    ⟨call₀, -, phase, hcall₀, -, -, rfl⟩ | ⟨hbefore, -⟩
  · exact .inl hfresh
  · exact .inr ⟨call₀, hcall₀, rfl⟩
  · exact .inr ⟨call, hbefore, rfl⟩

/-- A `round_trip` is registered by its insertion only. -/
theorem CallStep.registered {a : CallAction} {phase : Phase} {id : Id} {t : MultiplexTransport}
    (h : CallStep B f s c call a t) (hcalls : t.calls c = some { call with phase })
    (hid : call.id B = some id) (hphase : phase.registered) :
    call.phase.registered ∨ a = .insert := by
  have hmoved {s₁ : MultiplexTransport} {phase' : Phase} (ht : t = s₁.setPhase c call phase') :
      phase' = phase := by
    rw [ht] at hcalls
    exact (congrArg Call.phase (eq_of_calls_setPhase hcalls)).symm
  cases h with
  | check =>
    obtain rfl := hmoved rfl
    rcases s.afterCheck_cases (B := B) call with ⟨hop, -⟩ | hafter | ⟨e, hafter⟩
    · rw [Call.id, hop] at hid
      cases hid
    · rw [hafter] at hphase
      cases hphase
    · rw [hafter] at hphase
      cases hphase
  | insert => exact .inr rfl
  | cancelReady =>
    obtain rfl := hmoved rfl
    cases hphase
  | cancel hbefore =>
    rcases hbefore with hbefore | hbefore <;> rw [hbefore] <;> exact .inl rfl
  | acquire hbefore | write hbefore | flushed hbefore | fail hbefore | reply hbefore
    | closed hbefore | cancelWriting hbefore | unguard hbefore =>
    rw [hbefore]
    exact .inl rfl

theorem registered_step {id : Id} (hstep : s.step B f a = some t) (hcall : t.calls c = some call)
    (hid : call.id B = some id) (hphase : call.phase.registered) :
    (∃ call₀, s.calls c = some call₀ ∧ call₀.id B = some id ∧ call₀.phase.registered) ∨
      a = .call c .insert := by
  rcases (Step.of_step hstep).call_cases hcall with ⟨-, operation, message, -, rfl⟩ |
    ⟨call₀, ca, phase, hcall₀, rfl, hcallStep, rfl⟩ | ⟨hbefore, -⟩
  · cases hphase
  · rcases hcallStep.registered hcall hid hphase with hbefore | rfl
    · exact .inl ⟨call₀, hcall₀, hid, hbefore⟩
    · exact .inr rfl
  · exact .inl ⟨call, hbefore, hid, hphase⟩

end MultiplexTransport

namespace Exchange

variable (B : Backend) (f : Framing)

/-- A new transport. -/
def new : Exchange := {}

/-- One action: the peer answers a request that it has been sent, with its id, and once. -/
def step (x : Exchange) (a : ExchangeAction) : Option Exchange :=
  let moved := x.transport.step B f a.toAction
  let sent (t : MultiplexTransport) (c : ℕ) : Bool := x.sent c || t.written c
  match a with
  | .task (.reader (.take _)) => none
  | .task _ => moved.map fun t => { x with transport := t, sent := sent t }
  | .answer c frame =>
    if x.sent c ∧ some c ∉ x.origins ∧ (parseId B frame).isSome ∧
        (x.transport.calls c).bind (Call.id B) = parseId B frame then
      moved.map fun t => { transport := t, sent := sent t, origins := x.origins ++ [some c] }
    else none
  | .stray _ =>
    moved.map fun t => { transport := t, sent := sent t, origins := x.origins ++ [none] }

/-- What an action does. -/
inductive Step (x : Exchange) : ExchangeAction → Exchange → Prop where
  | task {a : Action} {t : MultiplexTransport} (other : ∀ frame, a ≠ .reader (.take frame))
    (stepped : x.transport.step B f a = some t) :
    Step x (.task a) { x with transport := t, sent := fun c => x.sent c || t.written c }
  | answer {c : ℕ} {call : Call} {frame : Bytes} {t : MultiplexTransport} (sent : x.sent c)
    (unanswered : some c ∉ x.origins) (call_eq : x.transport.calls c = some call)
    (answers : Answers B call frame)
    (stepped : x.transport.step B f (.reader (.take frame)) = some t) :
    Step x (.answer c frame)
      { transport := t, sent := fun c => x.sent c || t.written c, origins := x.origins ++ [some c] }
  | stray {frame : Bytes} {t : MultiplexTransport}
    (stepped : x.transport.step B f (.reader (.take frame)) = some t) :
    Step x (.stray frame)
      { transport := t, sent := fun c => x.sent c || t.written c, origins := x.origins ++ [none] }

variable {B f} {x x' : Exchange} {a : ExchangeAction}

theorem Step.of_step (h : x.step B f a = some x') : Step B f x a x' := by
  cases a with
  | task a =>
    have hother : ∀ frame, a ≠ .reader (.take frame) := by
      rintro frame rfl
      cases h
    have hmap : (x.transport.step B f a).map (fun t =>
        { x with transport := t, sent := fun c => x.sent c || t.written c }) = some x' := by
      rw [← h, step]
      · rfl
      · exact hother
    obtain ⟨t, hstepped, rfl⟩ := Option.map_eq_some_iff.1 hmap
    exact .task hother hstepped
  | answer c frame =>
    rw [step, Option.ite_none_right_eq_some] at h
    obtain ⟨⟨hsent, hunanswered, hid, heq⟩, h⟩ := h
    obtain ⟨t, hstepped, rfl⟩ := Option.map_eq_some_iff.1 h
    obtain ⟨id, hid⟩ := Option.isSome_iff_exists.1 hid
    rw [hid] at heq
    obtain ⟨call, hcall, hcallId⟩ := Option.bind_eq_some_iff.1 heq
    exact .answer hsent hunanswered hcall ⟨id, hid, hcallId⟩ hstepped
  | stray frame =>
    obtain ⟨t, hstepped, rfl⟩ := Option.map_eq_some_iff.1 h
    exact .stray hstepped

/-! ## Settled calls -/

open MultiplexTransport (Registry Kept Exclusive)

/-- A call is settled: it is not registered, and it has been answered if its frame was sent. -/
def Settled (x : Exchange) (c : ℕ) : Prop :=
  (∀ call, x.transport.calls c = some call → call.phase.registered = false) ∧
    (x.sent c → some c ∈ x.origins)

variable (B) in
/-- A call registers an id only when every other call with this id is settled. -/
def RegistersFree (x : Exchange) : ExchangeAction → Prop
  | .task (.call c .insert) => ∀ call id y cally, x.transport.calls c = some call →
      call.id B = some id → y ≠ c → x.transport.calls y = some cally → cally.id B = some id →
        x.Settled y
  | _ => True

theorem Step.transport (h : Step B f x a x') :
    x.transport.step B f a.toAction = some x'.transport ∧
      (∀ c, x'.sent c = (x.sent c || x'.transport.written c)) ∧
      ∃ later, x'.origins = x.origins ++ later := by
  cases h with
  | task _ hstepped => exact ⟨hstepped, fun _ => rfl, [], (List.append_nil _).symm⟩
  | answer _ _ _ _ hstepped => exact ⟨hstepped, fun _ => rfl, _, rfl⟩
  | stray hstepped => exact ⟨hstepped, fun _ => rfl, _, rfl⟩

/-- A settled call stays settled until it registers. -/
theorem Settled.step {c : ℕ} {id : Id} (h : x.Settled c) (hstep : Step B f x a x')
    (hid : ∀ call, x'.transport.calls c = some call → call.id B = some id)
    (hother : a.toAction ≠ .call c .insert) : x'.Settled c := by
  obtain ⟨hstepped, hsent, later, horigins⟩ := hstep.transport
  have hunregistered : ∀ call, x'.transport.calls c = some call → call.phase.registered = false := by
    intro call hcall
    by_contra hphase
    rw [Bool.not_eq_false] at hphase
    rcases MultiplexTransport.registered_step hstepped hcall (hid call hcall) hphase with
      ⟨call₀, hcall₀, -, hphase₀⟩ | hinsert
    · rw [h.1 call₀ hcall₀] at hphase₀
      cases hphase₀
    · exact hother hinsert
  refine ⟨hunregistered, fun hsent' => ?_⟩
  rw [hsent, Bool.or_eq_true] at hsent'
  rcases hsent' with hsent' | hwritten
  · rw [horigins]
    exact List.mem_append_left _ (h.2 hsent')
  · obtain ⟨call, hcall, hphase⟩ := MultiplexTransport.registered_of_written hwritten
    rw [hunregistered call hcall] at hphase
    cases hphase

/-- What holds in every state of a run in which the ids that are registered are free. -/
structure Claimed (B : Backend) (x : Exchange) : Prop where
  registry : Registry B x.transport
  kept : Kept B x.transport
  started {c : ℕ} : x.sent c → x.transport.calls c ≠ none
  settled {c y : ℕ} {call cally : Call} {id : Id} : c ≠ y → x.transport.calls c = some call →
    x.transport.calls y = some cally → call.id B = some id → cally.id B = some id →
      x.Settled c ∨ x.Settled y

namespace Claimed

theorem new : Claimed B new where
  registry := .new
  kept := ⟨fun hcall => by cases hcall⟩
  started h := by cases h
  settled _ h := by cases h

theorem exclusive (h : Claimed B x) : Exclusive B x.transport := by
  intro c y call cally id hcall hcally hid hid' hphase hphase'
  by_contra hne
  rcases h.settled hne hcall hcally hid hid' with hsettled | hsettled
  · rw [hsettled.1 call hcall] at hphase
    cases hphase
  · rw [hsettled.1 cally hcally] at hphase'
    cases hphase'

theorem settled_of_none (h : Claimed B x) {c : ℕ} (hnone : x.transport.calls c = none) :
    x.Settled c := by
  refine ⟨fun call hcall => ?_, fun hsent => absurd hnone (h.started hsent)⟩
  cases hnone.symm.trans hcall

theorem before (h : Claimed B x) (hstep : Step B f x a x') {c : ℕ} {call : Call} {id : Id}
    (hcall : x'.transport.calls c = some call) (hid : call.id B = some id) :
    x.Settled c ∨ ∃ call₀, x.transport.calls c = some call₀ ∧ call₀.id B = some id := by
  rcases MultiplexTransport.id_step hstep.transport.1 hcall with hnone | ⟨call₀, hcall₀, hid₀⟩
  · exact .inl (h.settled_of_none hnone)
  · exact .inr ⟨call₀, hcall₀, hid₀.trans hid⟩

/-- A call that registers leaves the others with its id settled. -/
theorem settled_of_insert (h : Claimed B x) (hok : x.RegistersFree B a) (hstep : Step B f x a x')
    {c y : ℕ} {cally : Call} {id : Id} (hne : c ≠ y) (haction : a.toAction = .call c .insert)
    (hid : ∀ call, x'.transport.calls c = some call → call.id B = some id)
    (hcally : x'.transport.calls y = some cally) (hid' : cally.id B = some id) :
    x'.Settled y := by
  have hsettled : x.Settled y := by
    cases hstep with
    | @task a t _ hstepped =>
      obtain rfl : a = .call c .insert := haction
      rcases h.before (.task ‹_› hstepped) hcally hid' with hsettled | ⟨cally₀, hcally₀, hid₀'⟩
      · exact hsettled
      · cases MultiplexTransport.Step.of_step hstepped with
        | @call _ call _ _ hcall hcallStep =>
          obtain ⟨phase, hcalls⟩ := hcallStep.calls_eq
          have hmoved : t.calls c = some { call with phase } := by rw [hcalls, Function.update_self]
          have hcallId : call.id B = some id := hid { call with phase } hmoved
          exact hok call id y cally₀ hcall hcallId hne.symm hcally₀ hid₀'
    | answer => cases haction
    | stray => cases haction
  have hidy : ∀ callz, x'.transport.calls y = some callz → callz.id B = some id := by
    intro callz hcallz
    obtain rfl := Option.some.inj (hcally.symm.trans hcallz)
    exact hid'
  refine hsettled.step hstep hidy fun heq => ?_
  exact hne (Action.call.inj (haction.symm.trans heq)).1

/-- Of two calls with one id, one stays settled. -/
theorem settled_step (h : Claimed B x) (hok : x.RegistersFree B a) (hstep : Step B f x a x')
    {c y : ℕ} {call cally : Call} {id : Id} (hne : c ≠ y) (hcall : x'.transport.calls c = some call)
    (hcally : x'.transport.calls y = some cally) (hid : call.id B = some id)
    (hid' : cally.id B = some id) : x'.Settled c ∨ x'.Settled y := by
  have hidc : ∀ callz, x'.transport.calls c = some callz → callz.id B = some id := by
    intro callz hcallz
    obtain rfl := Option.some.inj (hcall.symm.trans hcallz)
    exact hid
  have hidy : ∀ callz, x'.transport.calls y = some callz → callz.id B = some id := by
    intro callz hcallz
    obtain rfl := Option.some.inj (hcally.symm.trans hcallz)
    exact hid'
  by_cases hc : a.toAction = .call c .insert
  · exact .inr (h.settled_of_insert hok hstep hne hc hidc hcally hid')
  · by_cases hy : a.toAction = .call y .insert
    · exact .inl (h.settled_of_insert hok hstep hne.symm hy hidy hcall hid)
    · rcases h.before hstep hcall hid with hsettled | ⟨call₀, hcall₀, hid₀⟩
      · exact .inl (hsettled.step hstep hidc hc)
      · rcases h.before hstep hcally hid' with hsettled | ⟨cally₀, hcally₀, hid₀'⟩
        · exact .inr (hsettled.step hstep hidy hy)
        · exact (h.settled hne hcall₀ hcally₀ hid₀ hid₀').imp
            (fun hsettled => hsettled.step hstep hidc hc) fun hsettled => hsettled.step hstep hidy hy

theorem origin_eq (h : Claimed B x) {c c' : ℕ} {call' : Call} {frame : Bytes} {id : Id}
    (hstored : x.transport.pending id = some c) (hframe : parseId B frame = some id)
    (hsent : x.sent c') (hunanswered : some c' ∉ x.origins)
    (hcall' : x.transport.calls c' = some call') (hanswers : Answers B call' frame) : c' = c := by
  obtain ⟨⟨call, hcall, hid, hphase⟩, -⟩ := h.registry.stored hstored
  obtain ⟨id', hframe', hid'⟩ := hanswers
  obtain rfl := Option.some.inj (hframe.symm.trans hframe')
  by_contra hne
  rcases h.settled hne hcall' hcall hid' hid with hsettled | hsettled
  · exact hunanswered (hsettled.2 hsent)
  · rw [hsettled.1 call hcall] at hphase
    cases hphase

theorem step (h : Claimed B x) (hok : x.RegistersFree B a) (hstep : Step B f x a x') :
    Claimed B x' := by
  have hstepped := hstep.transport.1
  have hsettled {c y : ℕ} {call cally : Call} {id : Id} (hne : c ≠ y)
      (hcall : x'.transport.calls c = some call) (hcally : x'.transport.calls y = some cally)
      (hid : call.id B = some id) (hid' : cally.id B = some id) : x'.Settled c ∨ x'.Settled y :=
    h.settled_step hok hstep hne hcall hcally hid hid'
  have hexclusive' : Exclusive B x'.transport := by
    intro c y call cally id hcall hcally hid hid' hphase hphase'
    by_contra hne
    rcases hsettled hne hcall hcally hid hid' with hc | hy
    · rw [hc.1 call hcall] at hphase
      cases hphase
    · rw [hy.1 cally hcally] at hphase'
      cases hphase'
  refine ⟨h.registry.step hstepped, h.kept.step h.exclusive hexclusive' hstepped, ?_, hsettled⟩
  intro c hsent
  rw [hstep.transport.2.1, Bool.or_eq_true] at hsent
  rcases hsent with hsent | hwritten
  · exact MultiplexTransport.started_step hstepped (h.started hsent)
  · obtain ⟨call, hcall, -⟩ := MultiplexTransport.registered_of_written hwritten
    rw [hcall]
    exact Option.some_ne_none _

end Claimed

/-! ## Which replies calls get -/

/-- A frame answers the request of the call `c`, or no request. -/
def MeantFor (origin : Option ℕ) (c : ℕ) : Prop := ∀ c', origin = some c' → c' = c

/-- The frame that the reader holds, and those that it has handed over, are meant for their calls. -/
structure Traced (x : Exchange) : Prop where
  length_eq : x.origins.length = x.transport.received.length
  held {c : ℕ} {frame : Bytes} : x.transport.reader = .holding c frame →
    ∃ origin, x.origins.getLast? = some origin ∧ MeantFor origin c
  handed {n c : ℕ} : (n, c) ∈ x.transport.handed →
    ∃ origin, x.origins[n]? = some origin ∧ MeantFor origin c

namespace Traced

theorem new : Traced new where
  length_eq := rfl
  held h := by cases h
  handed h := by cases h

/-- The reader takes a frame. -/
theorem take (h : Traced x) {frame : Bytes} {t : MultiplexTransport} {origin : Option ℕ}
    {sent : ℕ → Bool} (hstepped : x.transport.step B f (.reader (.take frame)) = some t)
    (hfor : ∀ id c, x.transport.pending id = some c → parseId B frame = some id → MeantFor origin c) :
    Traced { transport := t, sent := sent, origins := x.origins ++ [origin] } := by
  have hhanded {n c : ℕ} (hmem : (n, c) ∈ x.transport.handed) :
      ∃ o, (x.origins ++ [origin])[n]? = some o ∧ MeantFor o c := by
    obtain ⟨o, ho, hfor⟩ := h.handed hmem
    exact ⟨o, by rw [List.getElem?_append_left (List.getElem?_eq_some_iff.1 ho).1, ho], hfor⟩
  cases MultiplexTransport.Step.of_step hstepped with
  | reader hreaderStep =>
    cases hreaderStep with
    | @take _ id c hreceiving hid hstored =>
      refine ⟨?_, fun hholding => ⟨origin, List.getLast?_concat .., ?_⟩, hhanded⟩
      · simp [h.length_eq]
      · obtain ⟨rfl, -⟩ := ReaderTask.holding.inj hholding
        exact hfor id _ hstored hid
    | stray hreceiving =>
      refine ⟨?_, fun hholding => ?_, hhanded⟩
      · simp [h.length_eq]
      · cases hreceiving.symm.trans hholding

theorem step (h : Traced x) (hclaimed : Claimed B x) (hstep : Step B f x a x') : Traced x' := by
  cases hstep with
  | @task a t hother hstepped =>
    cases MultiplexTransport.Step.of_step hstepped with
    | start => exact ⟨h.length_eq, h.held, h.handed⟩
    | call _ hcallStep =>
      obtain ⟨hreader, -, hreceived, hhanded⟩ := hcallStep.reader_eq
      refine ⟨?_, fun hholding => h.held (hreader ▸ hholding), fun hmem => h.handed (hhanded ▸ hmem)⟩
      show x.origins.length = t.received.length
      rw [hreceived, h.length_eq]
    | reader hreaderStep =>
      cases hreaderStep with
      | take => exact absurd rfl (hother _)
      | stray => exact absurd rfl (hother _)
      | @deliver c frame hholding =>
        refine ⟨h.length_eq, fun hholding' => (by cases hholding'), fun {n c'} hmem => ?_⟩
        have hmem : (n, c') ∈ x.transport.handed ++ [(x.transport.received.length - 1, c)] := hmem
        rcases List.mem_append.1 hmem with hmem | hmem
        · exact h.handed hmem
        · obtain ⟨rfl, rfl⟩ := Prod.mk.inj (List.mem_singleton.1 hmem)
          obtain ⟨origin, hlast, hfor⟩ := h.held hholding
          rw [List.getLast?_eq_getElem?, h.length_eq] at hlast
          exact ⟨origin, hlast, hfor⟩
      | stop => exact ⟨h.length_eq, fun hholding => (by cases hholding), h.handed⟩
      | clear => exact ⟨h.length_eq, fun hholding => (by cases hholding), h.handed⟩
  | answer hsent hunanswered hcall hanswers hstepped =>
    refine h.take hstepped fun id c hstored hframe c' heq => ?_
    obtain rfl := Option.some.inj heq
    exact hclaimed.origin_eq hstored hframe hsent hunanswered hcall hanswers
  | stray hstepped =>
    refine h.take hstepped fun id c _ _ c' heq => ?_
    cases heq

end Traced

end Exchange

/-! ## Ownership -/

namespace MultiplexTransport

variable {B : Backend} {f : Framing} {s t : MultiplexTransport} {a : Action} {c : ℕ} {call : Call}
  {id : Id}

/-- Where no two calls guard the same id, the sender of a call leaves the map only when the reader
takes a frame for it, when its guard is dropped, or when the reader drops every sender. -/
theorem entry_step (hregistry : Registry B s) (hexclusive : Exclusive B s)
    (hexclusive' : Exclusive B t) (hstep : s.step B f a = some t) (hrunning : s.reader.running)
    (hstored : s.pending id = some c) :
    t.pending id = some c ∨ (∃ frame, a = .reader (.take frame) ∧ t.reader = .holding c frame) ∨
      a = .call c .unguard := by
  obtain ⟨⟨call, hcall, hid, hphase⟩, -⟩ := hregistry.stored hstored
  cases Step.of_step hstep with
  | start => exact .inl hstored
  | @call y cally b _ hcally hcallStep =>
    cases hcallStep with
    | @insert id' hbefore hid' =>
      rcases eq_or_ne id id' with rfl | hne
      · rcases eq_or_ne y c with rfl | hy
        · exact .inl (Function.update_self ..)
        · -- both calls would guard the id after the insertion
          have hcall' : Function.update s.calls y (some { cally with phase := .locking }) c =
              some call := (Function.update_of_ne hy.symm _ _).trans hcall
          exact absurd (hexclusive' (Function.update_self ..) hcall' hid' hid rfl hphase) hy
      · exact .inl ((Function.update_of_ne hne _ _).trans hstored)
    | @unguard id' r hbefore hid' =>
      rcases eq_or_ne id id' with rfl | hne
      · obtain rfl := hexclusive hcally hcall hid' hid (by rw [hbefore]; rfl) hphase
        exact .inr (.inr rfl)
      · exact .inl ((Function.update_of_ne hne _ _).trans hstored)
    | _ => exact .inl hstored
  | reader hreaderStep =>
    cases hreaderStep with
    | @take frame id' c' _ _ hstored' =>
      rcases eq_or_ne id id' with rfl | hne
      · obtain rfl := Option.some.inj (hstored.symm.trans hstored')
        exact .inr (.inl ⟨frame, rfl, rfl⟩)
      · exact .inl ((Function.update_of_ne hne _ _).trans hstored)
    | stray => exact .inl hstored
    | deliver => exact .inl hstored
    | stop => exact .inl hstored
    | clear hflagged =>
      rw [hflagged] at hrunning
      cases hrunning

/-- Where the calls in flight keep their senders, a registered call fails with `ConnectionClosed`
only after the reader has ended. -/
theorem not_closed_step (hregistry : Registry B s) (hkept : Kept B s)
    (hstep : s.step B f a = some t) (hrunning : s.reader.running) (hcall : s.calls c = some call)
    (hid : call.id B = some id) (hphase : call.phase.registered) {call' : Call}
    (hcall' : t.calls c = some call') : call'.phase ≠ .done (.error .connectionClosed) := by
  intro hdone
  rcases (Step.of_step hstep).call_cases hcall' with ⟨hfresh, -⟩ |
    ⟨call₀, ca, phase, hcall₀, -, hcallStep, -⟩ | ⟨hbefore, -⟩
  · cases hfresh.symm.trans hcall
  · obtain rfl := Option.some.inj (hcall.symm.trans hcall₀)
    rcases hcallStep.done_cases (operation_of_id hid) hcall' hdone with
      hready | ⟨frame, -, heq⟩ | ⟨hwaiting, hunsent, hdropped, -⟩ | hunwinding
    · rw [hready] at hphase
      cases hphase
    · cases heq
    · have hreader : s.reader ≠ .returned := by
        intro hreturned
        rw [hreturned] at hrunning
        cases hrunning
      have halive : s.senderAlive B c call = true := by
        rw [senderAlive, hid, Option.bind_some]
        rcases hkept.registered hcall hid (by rw [hwaiting]; rfl) hunsent hreader with
          hstored | ⟨frame, hholding⟩
        · rw [hstored, BEq.rfl, Bool.true_or]
        · rw [hholding, ReaderTask.holds, BEq.rfl, Bool.or_true]
      cases hdropped.symm.trans halive
    · rcases hregistry.unwound hcall hunwinding with haborted | ⟨e, haborted⟩ <;> cases haborted
  · obtain rfl := Option.some.inj (hcall.symm.trans hbefore)
    rw [hdone] at hphase
    cases hphase

end MultiplexTransport

namespace Exchange

variable {B : Backend} {f : Framing} {x x' : Exchange} {a : ExchangeAction}

/-- What an action leaves to the calls while the reader is running. -/
structure Owned (B : Backend) (x : Exchange) (a : ExchangeAction) (x' : Exchange) : Prop where
  /-- The sender of a call leaves the map when the reader takes a frame for this call, or when this
  call ends. -/
  entry {id : Id} {c : ℕ} : x.transport.reader.running → x.transport.pending id = some c →
    x'.transport.pending id = some c ∨
      (∃ frame, a.toAction = .reader (.take frame) ∧ x'.transport.reader = .holding c frame) ∨
        a.toAction = .call c .unguard
  /-- A registered call does not fail with `ConnectionClosed`. -/
  not_closed {c : ℕ} {call call' : Call} {id : Id} : x.transport.reader.running →
    x.transport.calls c = some call → call.id B = some id → call.phase.registered →
      x'.transport.calls c = some call' → call'.phase ≠ .done (.error .connectionClosed)
  /-- No call is handed the reply to the request of another call. -/
  replies {n c c' : ℕ} : (n, c) ∈ x'.transport.handed → x'.origins[n]? = some (some c') → c' = c

/-- In a run in which every id that is registered is free, calls own their entries. -/
theorem owned (B : Backend) (f : Framing) (x x' : Exchange) (a : ExchangeAction)
    (hreach : Reach (step B f) (RegistersFree B) new x) (hok : x.RegistersFree B a)
    (hstep : x.step B f a = some x') : Owned B x a x' := by
  have hboth : Claimed B x ∧ Traced x := by
    refine hreach.invariant (I := fun x => Claimed B x ∧ Traced x) ⟨.new, .new⟩ ?_
    rintro x a x' ⟨hclaimed, htraced⟩ hok hstep
    exact ⟨hclaimed.step hok (.of_step hstep), htraced.step hclaimed (.of_step hstep)⟩
  obtain ⟨hclaimed, htraced⟩ := hboth
  have hdone := Step.of_step hstep
  have hclaimed' := hclaimed.step hok hdone
  have hstepped := hdone.transport.1
  constructor
  · intro id c hrunning hstored
    exact MultiplexTransport.entry_step hclaimed.registry hclaimed.exclusive hclaimed'.exclusive
      hstepped hrunning hstored
  · intro c call call' id hrunning hcall hid hphase hcall'
    exact MultiplexTransport.not_closed_step hclaimed.registry hclaimed.kept hstepped hrunning
      hcall hid hphase hcall'
  · intro n c c' hmem horigin
    obtain ⟨origin, hlast, hmeant⟩ := (htraced.step hclaimed hdone).handed hmem
    obtain rfl := Option.some.inj (hlast.symm.trans horigin)
    exact hmeant c' rfl

/-! ## Two calls with one id -/

section Sample

/-- A request with id 1, or the reply to it. -/
def sampleFrame : Bytes := ascii "\x7b\"id\":1\x7d"

/-- A call starts, and passes its first test. -/
def starts (c : ℕ) : List ExchangeAction :=
  [.task (.start c .roundTrip sampleFrame), .task (.call c .check)]

/-- A registered call sends its request. -/
def sends (c : ℕ) : List ExchangeAction :=
  [.task (.call c .acquire), .task (.call c (.write 9)), .task (.call c .flushed)]

/-- An action that is not an insertion. -/
def InsertsNone (_ : Exchange) (a : ExchangeAction) : Prop := ∀ c, a ≠ .task (.call c .insert)

instance (x : Exchange) (a : ExchangeAction) : Decidable (x.InsertsNone a) :=
  match a with
  | .task (.call c .insert) => isFalse fun h => h c rfl
  | .task (.call _ .check) | .task (.call _ .acquire) | .task (.call _ (.write _))
  | .task (.call _ .flushed) | .task (.call _ (.fail _)) | .task (.call _ .receive)
  | .task (.call _ .cancel) | .task (.call _ .unguard) | .task (.start _ _ _) | .task (.reader _)
  | .answer _ _ | .stray _ => isTrue fun _ h => by cases h

theorem InsertsNone.registersFree {B : Backend} {x : Exchange} {a : ExchangeAction}
    (h : x.InsertsNone a) : x.RegistersFree B a := by
  unfold RegistersFree
  split
  · exact absurd rfl (h _)
  · trivial

theorem reach_of_inserts_none {B : Backend} {f : Framing} {x x' : Exchange}
    (as : List ExchangeAction) (h : run (step B f) InsertsNone x as = some x') :
    Reach (step B f) (RegistersFree B) x x' :=
  (reach_of_run as h).mono fun _ _ hok => hok.registersFree

theorem registersFree_only {B : Backend} {x : Exchange} {c : ℕ}
    (h : ∀ y, y ≠ c → x.transport.calls y = none) : x.RegistersFree B (.task (.call c .insert)) := by
  intro call id y cally _ _ hne hcally _
  cases (h y hne).symm.trans hcally

/-- The reply to the only call takes its sender out of the map. -/
theorem owned_answered : ∃ x x',
    x.step JsonText.backend Newline (.answer 0 sampleFrame) = some x' ∧
      x.transport.pending (.number 1) = some 0 ∧
        Owned JsonText.backend x (.answer 0 sampleFrame) x' := by
  have hstarted : Reach (step JsonText.backend Newline) (RegistersFree JsonText.backend) new _ :=
    reach_of_inserts_none (starts 0) rfl
  have hinserted := hstarted.tail (registersFree_only fun y hne =>
    (Function.update_of_ne hne _ _).trans (Function.update_of_ne hne _ _)) rfl
  have hsent := hinserted.trans (reach_of_inserts_none (sends 0) rfl)
  exact ⟨_, _, rfl, rfl, owned _ _ _ _ _ hsent trivial rfl⟩

/-- The second call registers the id that the first one guards. -/
def overlapping : List ExchangeAction :=
  starts 0 ++ starts 1 ++ [.task (.call 0 .insert)] ++ sends 0

/-- The first call, which has sent its request, then loses its entry to the second one. -/
theorem not_owned : ¬ ∀ x a x', Reach (step JsonText.backend Newline) always new x →
    x.step JsonText.backend Newline a = some x' → Owned JsonText.backend x a x' := by
  intro h
  have hreach : Reach (step JsonText.backend Newline) always new _ := reach_of_run overlapping rfl
  have howned := h _ (.task (.call 1 .insert)) _ hreach rfl
  rcases @Owned.entry _ _ _ _ howned (.number 1) 0 rfl rfl with
    hentry | ⟨frame, haction, -⟩ | haction
  · cases hentry
  · cases haction
  · cases haction

end Sample

end Exchange

end Jasonrpc
