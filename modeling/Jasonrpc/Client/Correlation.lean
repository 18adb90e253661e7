import Jasonrpc.Client.Registry
import Jasonrpc.Json.Text

/-!
# Reply correlation

The calls of one `Client` over one multiplexed connection, with ids from its allocator.  Whatever
frames the peer sends, and however the calls, their cancellations and the reader interleave, a call
returns only a frame with its own id, and the frame that the reader takes for it (`correlated`).
-/

namespace Jasonrpc

open ByteString Machine MultiplexTransport

/-- A client over a multiplexed transport. -/
structure Client where
  transport : MultiplexTransport := .new
  ids : IdGen := {}
  /-- The id that a call was given. -/
  idOf : ℕ → Option Id := fun _ => none
  /-- The number of ids allocated so far. -/
  issued : ℕ := 0

/-- An atomic action of a client: the params of a call are given by the text that they serialize
to. -/
inductive ClientAction (B : Backend) where
  /-- `Client::call` up to its `round_trip`. -/
  | call (c : ℕ) (method : String) (params : Except JsonError B.Raw)
  /-- `Client::notify` up to its `send_notification`. -/
  | notify (c : ℕ) (method : String) (params : Except JsonError B.Raw)
  /-- An action of a call; a request timeout is a `cancel`. -/
  | poll (c : ℕ) (a : CallAction)
  | reader (a : ReaderAction)

namespace Client

variable (B : Backend) (f : Framing)

/-- A new client. -/
def new : Client := {}

/-- One atomic action of the system. -/
def step (s : Client) : ClientAction B → Option Client
  | .call c method params =>
    let (id, ids) := s.ids.nextId
    match encodeCall MultiplexError method (fun params => params) params id with
    | .error _ => some { s with ids, issued := s.issued + 1 }
    | .ok (bytes, id) =>
      (s.transport.step B f (.start c .roundTrip bytes)).map fun transport =>
        { transport, ids, idOf := Function.update s.idOf c (some id), issued := s.issued + 1 }
  | .notify c method params =>
    match encodeNotification MultiplexError method (fun params => params) params with
    | .error _ => some s
    | .ok bytes =>
      (s.transport.step B f (.start c .sendNotification bytes)).map fun transport =>
        { s with transport }
  | .poll c a => (s.transport.step B f (.call c a)).map fun transport => { s with transport }
  | .reader a => (s.transport.step B f (.reader a)).map fun transport => { s with transport }

/-- What an action does. -/
inductive Step (s : Client) : ClientAction B → Client → Prop where
  | failed {c : ℕ} {method : String} {params : Except JsonError B.Raw} :
    Step s (.call c method params) { s with ids := s.ids.nextId.2, issued := s.issued + 1 }
  | call {c : ℕ} {method : String} {params : Except JsonError B.Raw} {bytes : Bytes} {id : Id}
    {transport : MultiplexTransport}
    (encoded : encodeCall MultiplexError method (fun params => params) params s.ids.nextId.1 =
      .ok (bytes, id))
    (started : s.transport.step B f (.start c .roundTrip bytes) = some transport) :
    Step s (.call c method params)
      { transport
        ids := s.ids.nextId.2
        idOf := Function.update s.idOf c (some id)
        issued := s.issued + 1 }
  | skipped {c : ℕ} {method : String} {params : Except JsonError B.Raw} :
    Step s (.notify c method params) s
  | notify {c : ℕ} {method : String} {params : Except JsonError B.Raw} {bytes : Bytes}
    {transport : MultiplexTransport}
    (started : s.transport.step B f (.start c .sendNotification bytes) = some transport) :
    Step s (.notify c method params) { s with transport }
  | poll {c : ℕ} {a : CallAction} {transport : MultiplexTransport}
    (stepped : s.transport.step B f (.call c a) = some transport) :
    Step s (.poll c a) { s with transport }
  | reader {a : ReaderAction} {transport : MultiplexTransport}
    (stepped : s.transport.step B f (.reader a) = some transport) :
    Step s (.reader a) { s with transport }

variable {B f} {s s' : Client} {a : ClientAction B}

theorem Step.of_step (h : s.step B f a = some s') : Step B f s a s' := by
  cases a with
  | call c method params =>
    rw [step] at h
    dsimp only at h
    split at h
    · obtain rfl := Option.some.inj h
      exact .failed
    · rename_i bytes id hencoded
      obtain ⟨transport, hstarted, rfl⟩ := Option.map_eq_some_iff.1 h
      exact .call hencoded hstarted
  | notify c method params =>
    rw [step] at h
    split at h
    · obtain rfl := Option.some.inj h
      exact .skipped
    · obtain ⟨transport, hstarted, rfl⟩ := Option.map_eq_some_iff.1 h
      exact .notify hstarted
  | poll c a =>
    obtain ⟨transport, hstepped, rfl⟩ := Option.map_eq_some_iff.1 h
    exact .poll hstepped
  | reader a =>
    obtain ⟨transport, hstepped, rfl⟩ := Option.map_eq_some_iff.1 h
    exact .reader hstepped

theorem Step.transport {I : MultiplexTransport → Prop} (h : Step B f s a s')
    (keep : ∀ t a t', I t → t.step B f a = some t' → I t') (hI : I s.transport) :
    I s'.transport := by
  cases h with
  | failed => exact hI
  | call _ hstarted => exact keep _ _ _ hI hstarted
  | skipped => exact hI
  | notify hstarted => exact keep _ _ _ hI hstarted
  | poll hstepped => exact keep _ _ _ hI hstepped
  | reader hstepped => exact keep _ _ _ hI hstepped

/-! ## The ids of the calls -/

/-- The ids come from the allocator, each of them once, and the requests carry them. -/
structure Numbered (B : Backend) (s : Client) : Prop where
  next_eq : s.ids.next = 1 + UInt64.ofNat s.issued
  id_eq {c : ℕ} {call : Call} : s.transport.calls c = some call → call.id B = s.idOf c
  fresh {c : ℕ} : s.transport.calls c = none → s.idOf c = none
  nth {c : ℕ} {id : Id} : s.idOf c = some id → ∃ n < s.issued, id = IdGen.nth n
  unique {c c' : ℕ} {id : Id} :
    s.issued ≤ 2 ^ 64 → s.idOf c = some id → s.idOf c' = some id → c = c'

namespace Numbered

theorem new : Numbered B new where
  next_eq := rfl
  id_eq h := by cases h
  fresh _ := rfl
  nth h := by cases h
  unique _ h := by cases h

theorem nextId_eq (h : Numbered B s) : s.ids.nextId.1 = IdGen.nth s.issued := by
  rw [IdGen.nextId, IdGen.nth, h.next_eq]

theorem next_succ (h : Numbered B s) : s.ids.nextId.2.next = 1 + UInt64.ofNat (s.issued + 1) := by
  show s.ids.next + 1 = _
  rw [h.next_eq]
  apply UInt64.toNat_inj.1
  simp only [UInt64.toNat_add, UInt64.toNat_ofNat']
  have hone : (1 : UInt64).toNat = 1 := rfl
  omega

theorem transport (h : Numbered B s) {t : MultiplexTransport}
    (hid : ∀ {c call}, t.calls c = some call → call.id B = s.idOf c)
    (hstarted : ∀ {c}, t.calls c = none → s.transport.calls c = none) :
    Numbered B { s with transport := t } where
  next_eq := h.next_eq
  id_eq := hid
  fresh hnone := h.fresh (hstarted hnone)
  nth := h.nth
  unique := h.unique

theorem step (law : B.Lawful) (h : Numbered B s) (hstep : Step B f s a s') : Numbered B s' := by
  cases hstep with
  | failed =>
    constructor
    · exact h.next_succ
    · exact h.id_eq
    · exact h.fresh
    · intro c id hid
      obtain ⟨n, hn, hnth⟩ := h.nth hid
      exact ⟨n, Nat.lt_succ_of_lt hn, hnth⟩
    · exact fun hle => h.unique (Nat.le_of_succ_le hle)
  | @call c method params bytes id t hencoded hstarted =>
    obtain ⟨rfl, hparse⟩ := parseId_encodeCall law hencoded
    cases MultiplexTransport.Step.of_step hstarted with
    | start hfresh =>
      have hnth {c' : ℕ} {id : Id} (hid : Function.update s.idOf c (some s.ids.nextId.1) c' = some id) :
          c' = c ∧ id = IdGen.nth s.issued ∨ c' ≠ c ∧ s.idOf c' = some id := by
        rcases Table.of_update hid with ⟨hc, heq⟩ | ⟨hc, hid⟩
        · exact .inl ⟨hc, heq.trans h.nextId_eq⟩
        · exact .inr ⟨hc, hid⟩
      constructor
      · exact h.next_succ
      · intro c' call hcall
        have hcall : Function.update s.transport.calls c
          (some { operation := .roundTrip, message := bytes }) c' = some call := hcall
        show call.id B = Function.update s.idOf c (some s.ids.nextId.1) c'
        rw [Function.update_apply] at hcall ⊢
        split_ifs at hcall ⊢
        · obtain rfl := Option.some.inj hcall
          exact hparse
        · exact h.id_eq hcall
      · intro c' hnone
        have hnone : Function.update s.transport.calls c
          (some { operation := .roundTrip, message := bytes }) c' = none := hnone
        show Function.update s.idOf c (some s.ids.nextId.1) c' = none
        rw [Function.update_apply] at hnone ⊢
        split_ifs at hnone ⊢
        exact h.fresh hnone
      · intro c' id hid
        rcases hnth hid with ⟨-, hid⟩ | ⟨-, hid⟩
        · exact ⟨s.issued, Nat.lt_succ_self _, hid⟩
        · obtain ⟨n, hn, hnth⟩ := h.nth hid
          exact ⟨n, Nat.lt_succ_of_lt hn, hnth⟩
      · intro c₁ c₂ id hle hid₁ hid₂
        have hle : s.issued + 1 ≤ 2 ^ 64 := hle
        -- an older id is not the new one
        have hold {c' : ℕ} (hid : s.idOf c' = some id) : id ≠ IdGen.nth s.issued := by
          rintro rfl
          obtain ⟨n, hn, hnth⟩ := h.nth hid
          have heq := IdGen.nth_injective (by omega) (by omega) hnth
          omega
        rcases hnth hid₁ with ⟨rfl, hnew₁⟩ | ⟨-, hold₁⟩ <;>
          rcases hnth hid₂ with ⟨rfl, hnew₂⟩ | ⟨-, hold₂⟩
        · rfl
        · exact absurd hnew₁ (hold hold₂)
        · exact absurd hnew₂ (hold hold₁)
        · exact h.unique (by omega) hold₁ hold₂
  | skipped => exact h
  | @notify c method params bytes t hstarted =>
    cases MultiplexTransport.Step.of_step hstarted with
    | start hfresh =>
      apply h.transport
      · intro c' call hcall
        rcases Table.of_update hcall with ⟨rfl, rfl⟩ | ⟨-, hcall⟩
        · rw [h.fresh hfresh]
          rfl
        · exact h.id_eq hcall
      · intro c' hnone
        exact (Table.of_update_none hnone).2
  | @poll c _ _ hstepped =>
    cases MultiplexTransport.Step.of_step hstepped with
    | @call _ call _ _ hcall hcallStep =>
      obtain ⟨phase, hcalls⟩ := hcallStep.calls_eq
      have hid : call.id B = s.idOf c := h.id_eq hcall
      apply h.transport
      · intro c' call' hcall'
        rw [hcalls] at hcall'
        rcases Table.of_update hcall' with ⟨rfl, rfl⟩ | ⟨-, hcall'⟩
        · exact hid
        · exact h.id_eq hcall'
      · intro c' hnone
        rw [hcalls] at hnone
        exact (Table.of_update_none hnone).2
  | reader hstepped =>
    cases MultiplexTransport.Step.of_step hstepped with
    | reader hreaderStep =>
      apply h.transport
      · rw [hreaderStep.calls_eq]
        exact h.id_eq
      · rw [hreaderStep.calls_eq]
        exact fun hnone => hnone

theorem distinctIds (h : Numbered B s) (hfew : s.issued ≤ 2 ^ 64) : s.transport.DistinctIds B := by
  intro c c' call call' id hcall hcall' hid hid'
  exact h.unique hfew ((h.id_eq hcall).symm.trans hid) ((h.id_eq hcall').symm.trans hid')

end Numbered

/-! ## The frames that calls return -/

/-- What holds of a client in every state. -/
structure Sound (B : Backend) (s : Client) : Prop where
  numbered : Numbered B s
  registry : Registry B s.transport
  history : History s.transport
  kept : s.issued ≤ 2 ^ 64 → Kept B s.transport

namespace Sound

theorem step (law : B.Lawful) (h : Sound B s) (hstep : s.step B f a = some s') : Sound B s' := by
  have hdone := Step.of_step hstep
  have hboth : Registry B s'.transport ∧ History s'.transport :=
    hdone.transport (I := fun t => Registry B t ∧ History t)
      (fun _ _ _ h hstep => ⟨h.1.step hstep, h.2.step h.1 hstep⟩) ⟨h.registry, h.history⟩
  have hnumbered := h.numbered.step law hdone
  refine ⟨hnumbered, hboth.1, hboth.2, fun hfew => ?_⟩
  have hfew' : s.issued ≤ 2 ^ 64 := by
    cases hdone <;> first | exact hfew | exact Nat.le_of_succ_le hfew
  have hexclusive := (h.numbered.distinctIds hfew').exclusive
  have hexclusive' := (hnumbered.distinctIds hfew).exclusive
  have hkept := h.kept hfew'
  cases hdone with
  | failed => exact hkept
  | call _ hstarted => exact hkept.step hexclusive hexclusive' hstarted
  | skipped => exact hkept
  | notify hstarted => exact hkept.step hexclusive hexclusive' hstarted
  | poll hstepped => exact hkept.step hexclusive hexclusive' hstepped
  | reader hstepped => exact hkept.step hexclusive hexclusive' hstepped

theorem of_reach (law : B.Lawful) (hreach : Reach (Client.step B f) always new s) : Sound B s := by
  refine hreach.invariant ?_ fun _ _ _ h _ hstep => h.step law hstep
  refine ⟨.new, .new, .new, fun _ => ⟨?_⟩⟩
  exact fun hcall => by cases hcall

end Sound

/-- The replies of a client are correlated in a state. -/
structure Correlated (B : Backend) (f : Framing) (s : Client) : Prop where
  /-- A call returns only a frame with the id that it was given. -/
  reply_id {c : ℕ} {call : Call} {frame : Bytes} : s.transport.calls c = some call →
    call.phase = .done (.reply frame) → ∃ id, s.idOf c = some id ∧ parseId B frame = some id
  /-- A call returns a frame that was received and handed to it. -/
  reply_handed {c : ℕ} {call : Call} {frame : Bytes} : s.transport.calls c = some call →
    call.phase = .done (.reply frame) →
      ∃ n, (n, c) ∈ s.transport.handed ∧ s.transport.received[n]? = some frame
  /-- No received frame is handed to two calls. -/
  frames_nodup : (s.transport.handed.map Prod.fst).Nodup
  /-- No call is handed two frames. -/
  calls_nodup : (s.transport.handed.map Prod.snd).Nodup
  /-- A call in flight without a frame is registered under the id that it was given, or the reader
  holds a frame for it, until the reader returns. -/
  registered {c : ℕ} {call : Call} {id : Id} : s.transport.calls c = some call →
    s.idOf c = some id → call.phase.inFlight → s.transport.replies c = none →
      s.transport.reader ≠ .returned →
        s.transport.pending id = some c ∨ ∃ frame, s.transport.reader = .holding c frame
  /-- A frame that the reader takes while a call with its id is registered is promised to the call
  from then on, and is what the call returns once it waits. -/
  taken {c : ℕ} {id : Id} {frame : Bytes} {s' t : Client} : s.transport.pending id = some c →
    parseId B frame = some id → s.step B f (.reader (.take frame)) = some s' →
      Reach (Client.step B f) always s' t → s.idOf c = some id ∧
        t.transport.Promised c frame ∧ t.transport.Resolves B f c frame
  /-- A frame for which no call is registered changes nothing. -/
  stray {frame : Bytes} {s' : Client} :
    (∀ id, parseId B frame = some id → s.transport.pending id = none) →
      s.step B f (.reader (.take frame)) = some s' →
        s' = { s with
          transport := { s.transport with received := s.transport.received ++ [frame] } }

theorem promised_of_reach {c : ℕ} {frame : Bytes} {s t : Client} (hregistry : Registry B s.transport)
    (hpromised : s.transport.Promised c frame) (hreach : Reach (Client.step B f) always s t) :
    t.transport.Promised c frame := by
  let I (t : MultiplexTransport) : Prop := Registry B t ∧ t.Promised c frame
  have hboth : I t.transport := by
    refine hreach.invariant (I := fun t => I t.transport) ⟨hregistry, hpromised⟩ ?_
    intro _ _ _ h _ hstep
    apply (Step.of_step hstep).transport _ h
    exact fun _ _ _ h hstep => ⟨h.1.step hstep, h.2.step h.1 hstep⟩
  exact hboth.2

/-- In every run of fewer than `2 ^ 64` calls of a client, replies are correlated. -/
theorem correlated (law : B.Lawful) (f : Framing) (s : Client)
    (hreach : Reach (Client.step B f) always new s) (hfew : s.issued < 2 ^ 64) :
    s.Correlated B f := by
  have h := Sound.of_reach law hreach
  have hid {c : ℕ} {call : Call} (hcall : s.transport.calls c = some call) :
      call.id B = s.idOf c := h.numbered.id_eq hcall
  constructor
  · intro c call frame hcall hphase
    obtain ⟨call', hcall', -, id, hframe, hid'⟩ :=
      h.registry.answered (h.registry.returned hcall hphase)
    exact ⟨id, (hid hcall').symm.trans hid', hframe⟩
  · intro c call frame hcall hphase
    have hreply := h.registry.returned hcall hphase
    obtain ⟨n, hmem⟩ := h.history.answered hreply
    obtain ⟨frame', hreceived, hreply'⟩ := h.history.handed hmem
    obtain rfl := Option.some.inj (hreply.symm.trans hreply')
    exact ⟨n, hmem, hreceived⟩
  · exact h.history.frames_nodup
  · exact h.history.calls_nodup
  · intro c call id hcall hidOf
    exact (h.kept hfew.le).registered hcall ((hid hcall).trans hidOf)
  · intro c id frame s' t hstored hframe hstep hrun
    obtain ⟨transport, htake, rfl⟩ := Option.map_eq_some_iff.1 hstep
    obtain ⟨⟨call, hcall, hcallId, -⟩, -⟩ := h.registry.stored hstored
    have hpromised : t.transport.Promised c frame := by
      apply promised_of_reach (h.registry.step htake) _ hrun
      exact .take h.registry hframe hstored (.of_readerStep htake)
    exact ⟨(hid hcall).symm.trans hcallId, hpromised, hpromised.resolves B f⟩
  · intro frame s' hunknown hstep
    obtain ⟨transport, htake, rfl⟩ := Option.map_eq_some_iff.1 hstep
    have htake : s.transport.readerStep B (.take frame) = some transport := htake
    cases ReaderStep.of_readerStep htake with
    | take _ hframe hstored => cases (hunknown _ hframe).symm.trans hstored
    | stray => rfl

/-! ## A run of two calls -/

section Sample

open JsonText

/-- The second of two calls is answered first, and then the first one. -/
def answeredInReverse : List (ClientAction backend) :=
  [.call 0 "get" (.ok backend.null), .call 1 "get" (.ok backend.null), .poll 0 .check,
    .poll 1 .check, .poll 0 .insert, .poll 1 .insert,
    .reader (.take (ascii "\x7b\"id\":2,\"result\":7\x7d")), .reader .deliver,
    .reader (.take (ascii "\x7b\"id\":1,\"result\":8\x7d")), .reader .deliver]

theorem correlated_answeredInReverse :
    ∃ s, run (Client.step backend Newline) always new answeredInReverse = some s ∧
      s.transport.handed = [(0, 1), (1, 0)] ∧ s.Correlated backend Newline := by
  refine ⟨_, rfl, rfl, ?_⟩
  apply correlated lawful
  · exact reach_of_run answeredInReverse rfl
  · decide

end Sample

end Client

end Jasonrpc
