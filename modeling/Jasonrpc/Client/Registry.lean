import Jasonrpc.Client.Multiplex
import Mathlib.Data.List.Nodup

/-!
# The pending map, the reader and the one-shot channels

The sender of a call is in one place at a time: with the call, in the map under the id of the call,
with the reader, or used up (`Registry`).  So a frame that the reader takes for a call can only
reach this call (`Promised`), and no call is handed two frames (`History`).
-/

namespace Jasonrpc

open ByteString

/-- A call that has not made its channel yet. -/
def Phase.early : Phase → Bool
  | ready | checked => true
  | _ => false

/-- A call whose guard is not dropped yet. -/
def Phase.registered : Phase → Bool
  | locking | writing _ | waiting | unwinding _ => true
  | _ => false

/-- A call that has made its channel, and may still receive on it. -/
def Phase.inFlight : Phase → Bool
  | locking | writing _ | waiting => true
  | _ => false

theorem Phase.early_of_registered {phase : Phase} (h : phase.registered) :
    phase.early = false := by
  cases phase <;> first | rfl | cases h

theorem Phase.registered_of_inFlight {phase : Phase} (h : phase.inFlight) : phase.registered := by
  cases phase <;> first | rfl | cases h

/-- The call was cancelled, or its own write failed. -/
def Outcome.Aborted (r : Outcome) : Prop := r = .cancelled ∨ ∃ e, r = .error (.transport e)

/-- The frame has the id of the call. -/
def Answers (B : Backend) (call : Call) (frame : Bytes) : Prop :=
  ∃ id, parseId B frame = some id ∧ call.id B = some id

namespace MultiplexTransport

variable {B : Backend} {f : Framing} {s s' : MultiplexTransport} {c : ℕ} {call : Call}
  {frame : Bytes} {phase : Phase}

/-- Where the senders are. -/
structure Registry (B : Backend) (s : MultiplexTransport) : Prop where
  stored {id : Id} {c : ℕ} : s.pending id = some c →
    (∃ call, s.calls c = some call ∧ call.id B = some id ∧ call.phase.registered) ∧
      s.replies c = none
  held {c : ℕ} {frame : Bytes} : s.reader = .holding c frame →
    (∃ call, s.calls c = some call ∧ call.phase.early = false ∧ Answers B call frame) ∧
      s.replies c = none ∧ ∀ id, s.pending id ≠ some c
  answered {c : ℕ} {frame : Bytes} : s.replies c = some frame →
    ∃ call, s.calls c = some call ∧ call.phase.early = false ∧ Answers B call frame
  returned {c : ℕ} {call : Call} {frame : Bytes} :
    s.calls c = some call → call.phase = .done (.reply frame) → s.replies c = some frame
  unwound {c : ℕ} {call : Call} {r : Outcome} :
    s.calls c = some call → call.phase = .unwinding r → r.Aborted

namespace Registry

theorem new : Registry B new where
  stored h := by cases h
  held h := by cases h
  answered h := by cases h
  returned h := by cases h
  unwound h := by cases h

/-- A call that has made no channel has no sender anywhere. -/
theorem early (h : Registry B s) (hcall : s.calls c = some call) (hearly : call.phase.early) :
    s.replies c = none ∧ (∀ id, s.pending id ≠ some c) ∧ ∀ frame, s.reader ≠ .holding c frame := by
  have hne {call' : Call} (hcall' : s.calls c = some call') : call'.phase.early ≠ false := by
    obtain rfl := Option.some.inj (hcall.symm.trans hcall')
    rw [hearly]
    exact Bool.noConfusion
  refine ⟨?_, fun id hid => ?_, fun frame hframe => ?_⟩
  · cases hreplies : s.replies c with
    | none => rfl
    | some frame =>
      obtain ⟨call', hcall', hlate, -⟩ := h.answered hreplies
      exact absurd hlate (hne hcall')
  · obtain ⟨⟨call', hcall', -, hregistered⟩, -⟩ := h.stored hid
    exact hne hcall' (Phase.early_of_registered hregistered)
  · obtain ⟨⟨call', hcall', hlate, -⟩, -⟩ := h.held hframe
    exact hne hcall' hlate

/-- A call moves on, and the map may lose senders. -/
theorem setPhase (h : Registry B s) (hcall : s.calls c = some call)
    (hcalls : s'.calls = Function.update s.calls c (some { call with phase }))
    (hpending : ∀ id x, s'.pending id = some x → s.pending id = some x)
    (hreplies : s'.replies = s.replies) (hreader : s'.reader = s.reader)
    (hregistered : ∀ id, s'.pending id = some c → phase.registered)
    (hearly : call.phase.early = false → phase.early = false)
    (hreturned : ∀ frame, phase = .done (.reply frame) → s.replies c = some frame)
    (hunwound : ∀ r, phase = .unwinding r → r.Aborted) : Registry B s' := by
  -- any call, with what is kept of it
  have hkeep {x : ℕ} {callx : Call} (hcallx : s.calls x = some callx) : ∃ callx',
      s'.calls x = some callx' ∧ callx'.id B = callx.id B ∧
        (callx.phase.early = false → callx'.phase.early = false) ∧
        (x ≠ c → callx' = callx) ∧ (x = c → callx' = { call with phase }) := by
    rcases eq_or_ne x c with rfl | hne
    · obtain rfl := Option.some.inj (hcall.symm.trans hcallx)
      refine ⟨{ call with phase }, ?_, rfl, hearly, fun hx => absurd rfl hx, fun _ => rfl⟩
      rw [hcalls, Function.update_self]
    · refine ⟨callx, ?_, rfl, fun h => h, fun _ => rfl, fun hx => absurd hx hne⟩
      rwa [hcalls, Function.update_of_ne hne]
  have hanswers {x : ℕ} {frame : Bytes}
      (hx : ∃ callx, s.calls x = some callx ∧ callx.phase.early = false ∧ Answers B callx frame) :
      ∃ callx, s'.calls x = some callx ∧ callx.phase.early = false ∧ Answers B callx frame := by
    obtain ⟨callx, hcallx, hlate, id, hframe, hid⟩ := hx
    obtain ⟨callx', hcallx', hid', hlate', -⟩ := hkeep hcallx
    exact ⟨callx', hcallx', hlate' hlate, id, hframe, hid'.trans hid⟩
  constructor
  · intro id x hx
    obtain ⟨⟨callx, hcallx, hid, hphase⟩, hnone⟩ := h.stored (hpending id x hx)
    obtain ⟨callx', hcallx', hid', -, hother, hself⟩ := hkeep hcallx
    refine ⟨⟨callx', hcallx', hid'.trans hid, ?_⟩, by rwa [hreplies]⟩
    rcases eq_or_ne x c with rfl | hne
    · rw [hself rfl]
      exact hregistered id hx
    · rwa [hother hne]
  · intro x frame hx
    obtain ⟨hcallx, hnone, hnot⟩ := h.held (hreader ▸ hx)
    exact ⟨hanswers hcallx, by rwa [hreplies], fun id hid => hnot id (hpending id x hid)⟩
  · intro x frame hx
    exact hanswers (h.answered (hreplies ▸ hx))
  · intro x callx frame hcallx hphase
    rw [hcalls] at hcallx
    rw [hreplies]
    rcases Table.of_update hcallx with ⟨rfl, rfl⟩ | ⟨-, hcallx⟩
    · exact hreturned frame hphase
    · exact h.returned hcallx hphase
  · intro x callx r hcallx hphase
    rw [hcalls] at hcallx
    rcases Table.of_update hcallx with ⟨-, rfl⟩ | ⟨-, hcallx⟩
    · exact hunwound r hphase
    · exact h.unwound hcallx hphase

/-- A call inserts its sender. -/
theorem insert (h : Registry B s) {id : Id} (hcall : s.calls c = some call)
    (hid : call.id B = some id) (hphase : call.phase.registered) (hreplies : s.replies c = none)
    (hreader : ∀ frame, s.reader ≠ .holding c frame) :
    Registry B { s with pending := Function.update s.pending id (some c) } := by
  constructor
  · intro id' x hx
    rcases Table.of_update hx with ⟨rfl, rfl⟩ | ⟨-, hx⟩
    · exact ⟨⟨call, hcall, hid, hphase⟩, hreplies⟩
    · exact h.stored hx
  · intro x frame hx
    obtain ⟨hcallx, hnone, hnot⟩ := h.held hx
    refine ⟨hcallx, hnone, fun id' hid' => ?_⟩
    rcases Table.of_update hid' with ⟨-, rfl⟩ | ⟨-, hid'⟩
    · exact hreader frame hx
    · exact hnot id' hid'
  · exact h.answered
  · exact h.returned
  · exact h.unwound

theorem of_pending (h : Registry B s) (hcall : s.calls c = some call) {id : Id}
    (hid : s.pending id = some c) :
    call.operation = .roundTrip ∧ call.id B = some id ∧ call.phase.registered := by
  obtain ⟨⟨call', hcall', hid', hregistered⟩, -⟩ := h.stored hid
  obtain rfl := Option.some.inj (hcall.symm.trans hcall')
  refine ⟨?_, hid', hregistered⟩
  cases hop : call.operation with
  | roundTrip => rfl
  | sendNotification =>
    rw [Call.id, hop] at hid'
    cases hid'

/-- A call is cancelled, or its own write fails. -/
theorem abort (h : Registry B s) (hcall : s.calls c = some call) {r : Outcome} (hr : r.Aborted)
    (hcalls : s'.calls = Function.update s.calls c (some { call with phase := call.exit r }))
    (hpending : s'.pending = s.pending) (hreplies : s'.replies = s.replies)
    (hreader : s'.reader = s.reader) : Registry B s' := by
  have hexit : call.operation = .roundTrip ∧ call.exit r = .unwinding r ∨
      call.operation = .sendNotification ∧ call.exit r = .done r := by
    unfold Call.exit
    cases call.operation with
    | roundTrip => exact .inl ⟨rfl, rfl⟩
    | sendNotification => exact .inr ⟨rfl, rfl⟩
  apply h.setPhase hcall hcalls (fun _ _ hx => hpending ▸ hx) hreplies hreader
  · intro id hid
    rcases hexit with ⟨-, hexit⟩ | ⟨hop, -⟩
    · rw [hexit]
      rfl
    · cases hop.symm.trans (h.of_pending hcall (hpending ▸ hid)).1
  · rcases hexit with ⟨-, hexit⟩ | ⟨-, hexit⟩ <;> rw [hexit] <;> exact fun _ => rfl
  · intro frame hframe
    rcases hexit with ⟨-, hexit⟩ | ⟨-, hexit⟩ <;> rw [hexit] at hframe
    · cases hframe
    · rcases hr with rfl | ⟨e, rfl⟩ <;> cases hframe
  · intro r' hr'
    rcases hexit with ⟨-, hexit⟩ | ⟨-, hexit⟩ <;> rw [hexit] at hr'
    · obtain rfl := Phase.unwinding.inj hr'
      exact hr
    · cases hr'

theorem callStep {a : CallAction} (h : Registry B s) (hcall : s.calls c = some call)
    (hstep : CallStep B f s c call a s') : Registry B s' := by
  cases hstep with
  | check hphase =>
    have hnot := (h.early hcall (by rw [hphase]; rfl)).2.1
    have hafter := s.afterCheck_cases (B := B) call
    refine h.setPhase hcall rfl (fun _ _ hx => hx) rfl rfl (fun id hid => absurd hid (hnot id))
      ?_ ?_ ?_
    · rw [hphase]
      exact fun h => by cases h
    · rintro frame hframe
      rcases hafter with ⟨-, hafter⟩ | hafter | ⟨e, hafter⟩ <;> cases hafter.symm.trans hframe
    · rintro r hr
      rcases hafter with ⟨-, hafter⟩ | hafter | ⟨e, hafter⟩ <;> cases hafter.symm.trans hr
  | @insert id hphase hid =>
    obtain ⟨hreplies, -, hreader⟩ := h.early hcall (by rw [hphase]; rfl)
    have hmoved : Registry B (s.setPhase c call .locking) :=
      h.setPhase hcall rfl (fun _ _ hx => hx) rfl rfl (fun _ _ => rfl) (fun _ => rfl)
        (fun _ h => by cases h) fun _ h => by cases h
    exact hmoved.insert (Function.update_self ..) hid rfl hreplies hreader
  | acquire =>
    exact h.setPhase hcall rfl (fun _ _ hx => hx) rfl rfl (fun _ _ => rfl) (fun _ => rfl)
      (fun _ h => by cases h) fun _ h => by cases h
  | write =>
    exact h.setPhase hcall rfl (fun _ _ hx => hx) rfl rfl (fun _ _ => rfl) (fun _ => rfl)
      (fun _ h => by cases h) fun _ h => by cases h
  | flushed =>
    refine h.setPhase hcall rfl (fun _ _ hx => hx) rfl rfl ?_ ?_ ?_ ?_
    · intro id hid
      rw [Call.released, (h.of_pending hcall hid).1]
      rfl
    · intro _
      rw [Call.released]
      cases call.operation <;> rfl
    · intro frame hframe
      rw [Call.released] at hframe
      cases hop : call.operation <;> rw [hop] at hframe <;> cases hframe
    · intro r hr
      rw [Call.released] at hr
      cases hop : call.operation <;> rw [hop] at hr <;> cases hr
  | fail => exact h.abort hcall (.inr ⟨_, rfl⟩) rfl rfl rfl rfl
  | reply hphase hsent =>
    refine h.setPhase hcall rfl (fun _ _ hx => hx) rfl rfl ?_ ?_ ?_ ?_
    · intro id hid
      cases (h.stored hid).2.symm.trans hsent
    · exact fun _ => rfl
    · intro frame hframe
      rw [hsent, Outcome.reply.inj (Phase.done.inj hframe)]
    · exact fun r hr => by cases hr
  | closed hphase hunsent hdropped =>
    refine h.setPhase hcall rfl (fun _ _ hx => hx) rfl rfl ?_ ?_ ?_ ?_
    · intro id hid
      have hid : s.pending id = some c := hid
      have halive : s.senderAlive B c call = true := by
        rw [senderAlive, (h.of_pending hcall hid).2.1, Option.bind_some, hid, BEq.rfl]
        rfl
      cases hdropped.symm.trans halive
    · exact fun _ => rfl
    · exact fun frame hframe => by cases hframe
    · exact fun r hr => by cases hr
  | cancelReady hphase =>
    have hnot := (h.early hcall (by rw [hphase]; rfl)).2.1
    exact h.setPhase hcall rfl (fun _ _ hx => hx) rfl rfl (fun id hid => absurd hid (hnot id))
      (fun _ => rfl) (fun _ h => by cases h) fun _ h => by cases h
  | cancel => exact h.abort hcall (.inl rfl) rfl rfl rfl rfl
  | cancelWriting => exact h.abort hcall (.inl rfl) rfl rfl rfl rfl
  | @unguard id r hphase hid =>
    refine h.setPhase hcall rfl (fun _ _ hx => (Table.of_remove hx).2) rfl rfl ?_ ?_ ?_ ?_
    · intro id' hid'
      obtain ⟨hne, hstored⟩ := Table.of_remove hid'
      exact absurd (Option.some.inj ((h.of_pending hcall hstored).2.1.symm.trans hid)) hne
    · exact fun _ => rfl
    · intro frame hframe
      rcases h.unwound hcall hphase with rfl | ⟨e, rfl⟩ <;> cases hframe
    · exact fun r hr => by cases hr

theorem readerStep {a : ReaderAction} (h : Registry B s) (hstep : ReaderStep B s a s') :
    Registry B s' := by
  cases hstep with
  | @take frame id c hreceiving hid hstored =>
    obtain ⟨⟨call, hcall, hcallId, hregistered⟩, hnone⟩ := h.stored hstored
    constructor
    · exact fun {id' x} hx => h.stored (Table.of_remove hx).2
    · intro x frame' hx
      obtain ⟨rfl, rfl⟩ := ReaderTask.holding.inj hx
      refine ⟨⟨call, hcall, Phase.early_of_registered hregistered, id, hid, hcallId⟩, hnone, ?_⟩
      intro id' hid'
      obtain ⟨hne, hstored'⟩ := Table.of_remove hid'
      exact hne (Option.some.inj ((h.of_pending hcall hstored').2.1.symm.trans hcallId))
    · exact h.answered
    · exact h.returned
    · exact h.unwound
  | stray => exact ⟨h.stored, h.held, h.answered, h.returned, h.unwound⟩
  | @deliver c frame hholding =>
    obtain ⟨hcall, hnone, hnot⟩ := h.held hholding
    constructor
    · intro id x hx
      refine ⟨(h.stored hx).1, ?_⟩
      have hne : x ≠ c := fun heq => hnot id (heq ▸ hx)
      exact (Function.update_of_ne hne _ _).trans (h.stored hx).2
    · exact fun hx => by cases hx
    · intro x frame' hx
      rcases Table.of_update hx with ⟨rfl, rfl⟩ | ⟨-, hx⟩
      · exact hcall
      · exact h.answered hx
    · intro x callx frame' hcallx hphase
      have hx := h.returned hcallx hphase
      have hne : x ≠ c := by
        rintro rfl
        cases hnone.symm.trans hx
      exact (Function.update_of_ne hne _ _).trans hx
    · exact h.unwound
  | stop => exact ⟨h.stored, (fun hx => nomatch hx), h.answered, h.returned, h.unwound⟩
  | clear =>
    exact ⟨(fun hx => nomatch hx), (fun hx => nomatch hx), h.answered, h.returned, h.unwound⟩

theorem start (h : Registry B s) (hfresh : s.calls c = none) (operation : Operation)
    (message : Bytes) :
    Registry B
      { s with calls := Function.update s.calls c (some { operation, message }) } := by
  have hold {x : ℕ} {callx : Call} (hcallx : s.calls x = some callx) :
      Function.update s.calls c (some { operation, message }) x = some callx := by
    rw [Function.update_of_ne, hcallx]
    rintro rfl
    cases hfresh.symm.trans hcallx
  have hold' {x : ℕ} {P : Call → Prop} (hx : ∃ callx, s.calls x = some callx ∧ P callx) :
      ∃ callx, Function.update s.calls c (some { operation, message }) x = some callx ∧
        P callx := by
    obtain ⟨callx, hcallx, hP⟩ := hx
    exact ⟨callx, hold hcallx, hP⟩
  have hnew {x : ℕ} {callx : Call}
      (hcallx : Function.update s.calls c (some { operation, message }) x = some callx) :
      callx.phase = .ready ∨ s.calls x = some callx := by
    rcases Table.of_update hcallx with ⟨-, rfl⟩ | ⟨-, hcallx⟩
    · exact .inl rfl
    · exact .inr hcallx
  constructor
  · exact fun hx => ⟨hold' (h.stored hx).1, (h.stored hx).2⟩
  · exact fun hx => ⟨hold' (h.held hx).1, (h.held hx).2⟩
  · exact fun hx => hold' (h.answered hx)
  · intro x callx frame hcallx hphase
    rcases hnew hcallx with hready | hcallx
    · cases hready.symm.trans hphase
    · exact h.returned hcallx hphase
  · intro x callx r hcallx hphase
    rcases hnew hcallx with hready | hcallx
    · cases hready.symm.trans hphase
    · exact h.unwound hcallx hphase

theorem step {a : Action} (h : Registry B s) (hstep : s.step B f a = some s') : Registry B s' := by
  cases Step.of_step hstep with
  | start hfresh => exact h.start hfresh _ _
  | call hcall hcallStep => exact h.callStep hcall hcallStep
  | reader hreaderStep => exact h.readerStep hreaderStep

end Registry

/-! ## The frames handed over -/

/-- The record of the frames handed over agrees with the channels. -/
structure History (s : MultiplexTransport) : Prop where
  handed {n c : ℕ} : (n, c) ∈ s.handed →
    ∃ frame, s.received[n]? = some frame ∧ s.replies c = some frame
  answered {c : ℕ} {frame : Bytes} : s.replies c = some frame → ∃ n, (n, c) ∈ s.handed
  frames_nodup : (s.handed.map Prod.fst).Nodup
  calls_nodup : (s.handed.map Prod.snd).Nodup
  holding {c : ℕ} {frame : Bytes} : s.reader = .holding c frame →
    s.received.getLast? = some frame ∧ ∀ p ∈ s.handed, p.1 + 1 < s.received.length

namespace History

theorem new : History new where
  handed h := by cases h
  answered h := by cases h
  frames_nodup := List.nodup_nil
  calls_nodup := List.nodup_nil
  holding h := by cases h

theorem of_eq (h : History s) (hreplies : s'.replies = s.replies) (hreader : s'.reader = s.reader)
    (hreceived : s'.received = s.received) (hhanded : s'.handed = s.handed) : History s' := by
  constructor
  · rw [hhanded, hreceived, hreplies]
    exact h.handed
  · rw [hhanded, hreplies]
    exact h.answered
  · rw [hhanded]
    exact h.frames_nodup
  · rw [hhanded]
    exact h.calls_nodup
  · rw [hhanded, hreceived, hreader]
    exact h.holding

/-- A frame is received. -/
theorem receive (h : History s) (frame : Bytes) (hreplies : s'.replies = s.replies)
    (hreceived : s'.received = s.received ++ [frame]) (hhanded : s'.handed = s.handed)
    (hreader : ∀ c frame', s'.reader = .holding c frame' → frame' = frame) : History s' := by
  have hlt {n c : ℕ} (hmem : (n, c) ∈ s.handed) : n < s.received.length := by
    obtain ⟨frame', hframe, -⟩ := h.handed hmem
    exact (List.getElem?_eq_some_iff.1 hframe).1
  constructor
  · intro n c hmem
    rw [hhanded] at hmem
    rw [hreceived, hreplies, List.getElem?_append_left (hlt hmem)]
    exact h.handed hmem
  · rw [hhanded, hreplies]
    exact h.answered
  · rw [hhanded]
    exact h.frames_nodup
  · rw [hhanded]
    exact h.calls_nodup
  · intro c frame' hholding
    obtain rfl := hreader c frame' hholding
    rw [hreceived, hhanded]
    refine ⟨List.getLast?_concat, fun p hp => ?_⟩
    have hp' := hlt hp
    rw [List.length_append, List.length_singleton]
    omega

/-- The frame that the reader holds is handed over. -/
theorem deliver (h : History s) {frame : Bytes} (hholding : s.reader = .holding c frame)
    (hnone : s.replies c = none) :
    History { s with
      replies := Function.update s.replies c (some frame)
      reader := .receiving
      handed := s.handed ++ [(s.received.length - 1, c)] } := by
  obtain ⟨hlast, hlt⟩ := h.holding hholding
  have hnot : c ∉ s.handed.map Prod.snd := by
    intro hmem
    obtain ⟨⟨n, c'⟩, hpair, heq⟩ := List.mem_map.1 hmem
    obtain ⟨frame', -, hframe'⟩ := h.handed hpair
    rw [show c' = c from heq] at hframe'
    cases hnone.symm.trans hframe'
  constructor
  · intro n c' hmem
    rcases List.mem_append.1 hmem with hmem | hmem
    · have hne : c' ≠ c := fun heq => hnot (heq ▸ List.mem_map_of_mem hmem)
      obtain ⟨frame', hreceived, hreplies⟩ := h.handed hmem
      exact ⟨frame', hreceived, (Function.update_of_ne hne _ _).trans hreplies⟩
    · obtain ⟨rfl, rfl⟩ := Prod.mk.inj (List.mem_singleton.1 hmem)
      refine ⟨frame, ?_, Function.update_self ..⟩
      rw [← List.getLast?_eq_getElem?]
      exact hlast
  · intro c' frame' hreplies
    rcases Table.of_update hreplies with ⟨rfl, -⟩ | ⟨-, hreplies⟩
    · exact ⟨_, List.mem_append_right _ (List.mem_singleton_self _)⟩
    · obtain ⟨n, hmem⟩ := h.answered hreplies
      exact ⟨n, List.mem_append_left _ hmem⟩
  · rw [List.map_append]
    refine List.Nodup.append h.frames_nodup (List.nodup_singleton _) ?_
    refine List.disjoint_singleton.2 fun hmem => ?_
    obtain ⟨p, hp, heq⟩ := List.mem_map.1 hmem
    have hp' := hlt p hp
    rw [heq] at hp'
    omega
  · rw [List.map_append]
    exact List.Nodup.append h.calls_nodup (List.nodup_singleton _) (List.disjoint_singleton.2 hnot)
  · exact fun hx => by cases hx

theorem step {a : Action} (h : History s) (hregistry : Registry B s)
    (hstep : s.step B f a = some s') : History s' := by
  cases Step.of_step hstep with
  | start => exact h.of_eq rfl rfl rfl rfl
  | call hcall hcallStep =>
    obtain ⟨hreader, hreplies, hreceived, hhanded⟩ := hcallStep.reader_eq
    exact h.of_eq hreplies hreader hreceived hhanded
  | reader hreaderStep =>
    cases hreaderStep with
    | @take frame =>
      exact h.receive frame rfl rfl rfl fun _ _ hx => (ReaderTask.holding.inj hx).2.symm
    | @stray frame hreceiving =>
      exact h.receive frame rfl rfl rfl fun _ _ hx => by cases hreceiving.symm.trans hx
    | deliver hholding => exact h.deliver hholding (hregistry.held hholding).2.1
    | stop => exact ⟨h.handed, h.answered, h.frames_nodup, h.calls_nodup, fun hx => nomatch hx⟩
    | clear => exact ⟨h.handed, h.answered, h.frames_nodup, h.calls_nodup, fun hx => nomatch hx⟩

end History

/-! ## A frame taken for a call -/

/-- A frame is promised to a call: the reader holds it with the sender of the call, or it is in the
channel, and the call returns nothing else unless it is cancelled or its own write fails. -/
structure Promised (s : MultiplexTransport) (c : ℕ) (frame : Bytes) : Prop where
  sender : s.reader = .holding c frame ∨ s.replies c = some frame
  outcome {call : Call} {r : Outcome} :
    s.calls c = some call → call.phase = .done r → r = .reply frame ∨ r.Aborted

/-- A waiting call returns the frame at its next action, or at its next action after the reader has
delivered. -/
def Resolves (B : Backend) (f : Framing) (s : MultiplexTransport) (c : ℕ) (frame : Bytes) : Prop :=
  ∀ call, s.calls c = some call → call.phase = .waiting →
    ∃ s₁ s₂, (s₁ = s ∨ s.step B f (.reader .deliver) = some s₁) ∧
      s₁.step B f (.call c .receive) = some s₂ ∧
        s₂.calls c = some { call with phase := .done (.reply frame) }

namespace Promised

theorem take (h : Registry B s) {id : Id} (hid : parseId B frame = some id)
    (hstored : s.pending id = some c) (hstep : ReaderStep B s (.take frame) s') :
    s'.Promised c frame := by
  cases hstep with
  | take hreceiving hid' hstored' =>
    obtain rfl := Option.some.inj (hid.symm.trans hid')
    obtain rfl := Option.some.inj (hstored.symm.trans hstored')
    refine ⟨.inl rfl, fun hcall hphase => ?_⟩
    have hregistered := (h.of_pending hcall hstored).2.2
    rw [hphase] at hregistered
    cases hregistered
  | stray _ hunknown => cases hstored.symm.trans (hunknown id hid)

theorem late (h : s.Promised c frame) (hregistry : Registry B s) (hcall : s.calls c = some call) :
    call.phase.early = false ∧ call.operation = .roundTrip := by
  have hanswers : ∃ call, s.calls c = some call ∧ call.phase.early = false ∧
      Answers B call frame := by
    rcases h.sender with hholding | hreplies
    · exact (hregistry.held hholding).1
    · exact hregistry.answered hreplies
  obtain ⟨call', hcall', hlate, id, -, hid⟩ := hanswers
  obtain rfl := Option.some.inj (hcall.symm.trans hcall')
  exact ⟨hlate, operation_of_id hid⟩

/-- Where a promised call goes from here. -/
theorem callStep {a : CallAction} (h : s.Promised c frame) (hregistry : Registry B s)
    (hcall : s.calls c = some call) (hstep : CallStep B f s c call a s') {r : Outcome}
    {call' : Call} (hcall' : s'.calls c = some call') (hphase' : call'.phase = .done r) :
    r = .reply frame ∨ r.Aborted := by
  obtain ⟨hlate, hop⟩ := h.late hregistry hcall
  rcases hstep.done_cases hop hcall' hphase' with
    hready | ⟨frame', hsent, rfl⟩ | ⟨-, hunsent, hdropped, -⟩ | hunwinding
  · rw [hready] at hlate
    cases hlate
  · rcases h.sender with hholding | hreplies
    · cases (hregistry.held hholding).2.1.symm.trans hsent
    · rw [Option.some.inj (hreplies.symm.trans hsent)]
      exact .inl rfl
  · rcases h.sender with hholding | hreplies
    · have halive : s.senderAlive B c call = true := by
        rw [senderAlive, hholding, ReaderTask.holds, BEq.rfl, Bool.or_true]
      cases hdropped.symm.trans halive
    · cases hunsent.symm.trans hreplies
  · exact .inr (hregistry.unwound hcall hunwinding)

theorem step {a : Action} (h : s.Promised c frame) (hregistry : Registry B s)
    (hstep : s.step B f a = some s') : s'.Promised c frame := by
  cases Step.of_step hstep with
  | @start x operation message hfresh =>
    refine ⟨h.sender, fun {call r} hcall hphase => ?_⟩
    rcases Table.of_update hcall with ⟨-, rfl⟩ | ⟨-, hcall⟩
    · cases hphase
    · exact h.outcome hcall hphase
  | @call x callx a _ hcallx hcallStep =>
    constructor
    · rw [hcallStep.reader_eq.1, hcallStep.reader_eq.2.1]
      exact h.sender
    · intro call' r hcall' hphase'
      rcases eq_or_ne c x with rfl | hne
      · exact h.callStep hregistry hcallx hcallStep hcall' hphase'
      · obtain ⟨phase, hcalls⟩ := hcallStep.calls_eq
        rw [hcalls, Function.update_of_ne hne] at hcall'
        exact h.outcome hcall' hphase'
  | reader hreaderStep =>
    cases hreaderStep with
    | take hreceiving =>
      refine ⟨.inr ?_, h.outcome⟩
      exact h.sender.resolve_left fun hholding => by cases hreceiving.symm.trans hholding
    | stray => exact ⟨h.sender, h.outcome⟩
    | @deliver x frame' hholding' =>
      refine ⟨.inr ?_, h.outcome⟩
      rcases h.sender with hholding | hreplies
      · obtain ⟨rfl, rfl⟩ := ReaderTask.holding.inj (hholding.symm.trans hholding')
        exact Function.update_self ..
      · have hne : c ≠ x := by
          rintro rfl
          cases (hregistry.held hholding').2.1.symm.trans hreplies
        exact (Function.update_of_ne hne _ _).trans hreplies
    | stop hreceiving =>
      refine ⟨.inr ?_, h.outcome⟩
      exact h.sender.resolve_left fun hholding => by cases hreceiving.symm.trans hholding
    | clear hflagged =>
      refine ⟨.inr ?_, h.outcome⟩
      exact h.sender.resolve_left fun hholding => by cases hflagged.symm.trans hholding

theorem resolves (h : s.Promised c frame) (B : Backend) (f : Framing) :
    s.Resolves B f c frame := by
  intro call hcall hwaiting
  have hreceive {s₁ : MultiplexTransport} (hcall : s₁.calls c = some call)
      (hreply : s₁.replies c = some frame) : ∃ s₂, s₁.step B f (.call c .receive) = some s₂ ∧
        s₂.calls c = some { call with phase := .done (.reply frame) } := by
    refine ⟨s₁.setPhase c call (.done (.reply frame)), ?_, Function.update_self ..⟩
    rw [MultiplexTransport.step, hcall, Option.bind_some, MultiplexTransport.callStep,
      if_pos hwaiting, hreply]
  rcases h.sender with hholding | hreply
  · let s₁ : MultiplexTransport :=
      { s with
        replies := Function.update s.replies c (some frame)
        reader := .receiving
        handed := s.handed ++ [(s.received.length - 1, c)] }
    have hdeliver : s.step B f (.reader .deliver) = some s₁ := by
      rw [MultiplexTransport.step, MultiplexTransport.readerStep, hholding]
    have hcall : s₁.calls c = some call := hcall
    have hreply : s₁.replies c = some frame := Function.update_self ..
    obtain ⟨s₂, hstep, hdone⟩ := hreceive hcall hreply
    exact ⟨s₁, s₂, .inr hdeliver, hstep, hdone⟩
  · obtain ⟨s₂, hstep, hdone⟩ := hreceive hcall hreply
    exact ⟨s, s₂, .inl rfl, hstep, hdone⟩

end Promised

/-! ## Calls with different ids -/

/-- No two calls register the same id. -/
def DistinctIds (B : Backend) (s : MultiplexTransport) : Prop :=
  ∀ ⦃c c' : ℕ⦄ ⦃call call' : Call⦄ ⦃id : Id⦄, s.calls c = some call → s.calls c' = some call' →
    call.id B = some id → call'.id B = some id → c = c'

/-- No two calls guard the same id at once. -/
def Exclusive (B : Backend) (s : MultiplexTransport) : Prop :=
  ∀ ⦃c c' : ℕ⦄ ⦃call call' : Call⦄ ⦃id : Id⦄, s.calls c = some call → s.calls c' = some call' →
    call.id B = some id → call'.id B = some id → call.phase.registered → call'.phase.registered →
      c = c'

theorem DistinctIds.exclusive (h : DistinctIds B s) : Exclusive B s :=
  fun _ _ _ _ _ hcall hcall' hid hid' _ _ => h hcall hcall' hid hid'

/-- A call in flight that has no frame yet is registered under its id, or the reader holds a frame
for it, until the reader returns. -/
structure Kept (B : Backend) (s : MultiplexTransport) : Prop where
  registered {c : ℕ} {call : Call} {id : Id} : s.calls c = some call → call.id B = some id →
    call.phase.inFlight → s.replies c = none → s.reader ≠ .returned →
      s.pending id = some c ∨ ∃ frame, s.reader = .holding c frame

namespace Kept

/-- A call moves on, and what the map holds under the ids of the other calls in flight stays. -/
theorem setPhase (h : Kept B s) (hcall : s.calls c = some call)
    (hcalls : s'.calls = Function.update s.calls c (some { call with phase }))
    (hreplies : s'.replies = s.replies) (hreader : s'.reader = s.reader)
    (hother : ∀ x callx id, x ≠ c → s.calls x = some callx → callx.id B = some id →
      callx.phase.inFlight → s'.pending id = s.pending id)
    (hself : ∀ id, call.id B = some id → phase.inFlight →
      s'.pending id = some c ∨ call.phase.inFlight ∧ s'.pending id = s.pending id) : Kept B s' := by
  refine ⟨fun {x callx id} hcallx hid hflight hnone hreturned => ?_⟩
  rw [hcalls] at hcallx
  rw [hreplies] at hnone
  rw [hreader] at hreturned ⊢
  rcases Table.of_update hcallx with ⟨rfl, rfl⟩ | ⟨hx, hcallx⟩
  · rcases hself id hid hflight with hstored | ⟨hbefore, hsame⟩
    · exact .inl hstored
    · rw [hsame]
      exact h.registered hcall hid hbefore hnone hreturned
  · rw [hother x callx id hx hcallx hid hflight]
    exact h.registered hcallx hid hflight hnone hreturned

theorem callStep {a : CallAction} (h : Kept B s) (hexclusive : Exclusive B s)
    (hexclusive' : Exclusive B s') (hcall : s.calls c = some call)
    (hstep : CallStep B f s c call a s') : Kept B s' := by
  have hexit (r : Outcome) : (call.exit r).inFlight = false := by
    rw [Call.exit]
    cases call.operation <;> rfl
  cases hstep with
  | check =>
    refine h.setPhase hcall rfl rfl rfl (fun _ _ _ _ _ _ _ => rfl) fun id hid hflight => ?_
    rcases s.afterCheck_cases (B := B) call with ⟨hop, -⟩ | hafter | ⟨e, hafter⟩
    · rw [Call.id, hop] at hid
      cases hid
    · rw [hafter] at hflight
      cases hflight
    · rw [hafter] at hflight
      cases hflight
  | @insert id _ hid =>
    refine h.setPhase hcall rfl rfl rfl (fun x callx id' hx hcallx hid' hflight => ?_)
      fun id' hid' _ => .inl ?_
    · apply Function.update_of_ne
      rintro rfl
      have hcallx' : Function.update s.calls c (some { call with phase := .locking }) x =
          some callx := (Function.update_of_ne hx _ _).trans hcallx
      exact hx (hexclusive' hcallx' (Function.update_self ..) hid' hid
        (Phase.registered_of_inFlight hflight) rfl)
    · obtain rfl := Option.some.inj (hid.symm.trans hid')
      exact Function.update_self ..
  | acquire hphase =>
    refine h.setPhase hcall rfl rfl rfl (fun _ _ _ _ _ _ _ => rfl) fun _ _ _ => .inr ⟨?_, rfl⟩
    rw [hphase]
    rfl
  | write hphase =>
    refine h.setPhase hcall rfl rfl rfl (fun _ _ _ _ _ _ _ => rfl) fun _ _ _ => .inr ⟨?_, rfl⟩
    rw [hphase]
    rfl
  | flushed hphase =>
    refine h.setPhase hcall rfl rfl rfl (fun _ _ _ _ _ _ _ => rfl) fun _ _ _ => .inr ⟨?_, rfl⟩
    rw [hphase]
    rfl
  | @unguard id _ hphase hid =>
    refine h.setPhase hcall rfl rfl rfl (fun x callx id' hx hcallx hid' hflight => ?_)
      fun _ _ h => by cases h
    apply Function.update_of_ne
    rintro rfl
    exact hx (hexclusive hcallx hcall hid' hid (Phase.registered_of_inFlight hflight)
      (by rw [hphase]; rfl))
  | fail | cancel | cancelWriting =>
    refine h.setPhase hcall rfl rfl rfl (fun _ _ _ _ _ _ _ => rfl) fun _ _ hflight => ?_
    rw [hexit] at hflight
    cases hflight
  | reply | closed | cancelReady =>
    exact h.setPhase hcall rfl rfl rfl (fun _ _ _ _ _ _ _ => rfl) fun _ _ h => by cases h

theorem readerStep {a : ReaderAction} (h : Kept B s) (hstep : ReaderStep B s a s') : Kept B s' := by
  refine ⟨fun {x callx id} hcallx hid hflight hnone hreturned => ?_⟩
  cases hstep with
  | @take frame id' c hreceiving _ hstored =>
    have hx : s.pending id = some x := by
      refine (h.registered hcallx hid hflight hnone ?_).resolve_right ?_
      · rw [hreceiving]
        exact fun h => by cases h
      · rw [hreceiving]
        exact fun ⟨_, h⟩ => by cases h
    rcases eq_or_ne id id' with rfl | hne
    · obtain rfl := Option.some.inj (hstored.symm.trans hx)
      exact .inr ⟨frame, rfl⟩
    · exact .inl ((Function.update_of_ne hne _ _).trans hx)
  | stray => exact h.registered hcallx hid hflight hnone hreturned
  | @deliver c frame hholding =>
    have hne : x ≠ c := by
      rintro rfl
      cases (Function.update_self ..).symm.trans hnone
    have hnone : s.replies x = none := (Function.update_of_ne hne _ _).symm.trans hnone
    rcases h.registered hcallx hid hflight hnone (by rw [hholding]; exact fun h => by cases h) with
      hstored | ⟨frame', hheld⟩
    · exact .inl hstored
    · exact absurd (ReaderTask.holding.inj (hheld.symm.trans hholding)).1 hne
  | stop hreceiving =>
    refine (h.registered hcallx hid hflight hnone ?_).imp_right ?_
    · rw [hreceiving]
      exact fun h => by cases h
    · rintro ⟨frame, hheld⟩
      cases hreceiving.symm.trans hheld
  | clear => exact absurd rfl hreturned

theorem step {a : Action} (h : Kept B s) (hexclusive : Exclusive B s)
    (hexclusive' : Exclusive B s') (hstep : s.step B f a = some s') : Kept B s' := by
  cases Step.of_step hstep with
  | @start c operation message hfresh =>
    refine ⟨fun {x callx id} hcallx => ?_⟩
    rcases Table.of_update hcallx with ⟨-, rfl⟩ | ⟨-, hcallx⟩
    · exact fun _ hflight => by cases hflight
    · exact h.registered hcallx
  | call hcall hcallStep => exact h.callStep hexclusive hexclusive' hcall hcallStep
  | reader hreaderStep => exact h.readerStep hreaderStep

end Kept

end MultiplexTransport

end Jasonrpc
