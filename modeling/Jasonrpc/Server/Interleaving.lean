import Jasonrpc.Lib.Resumption
import Jasonrpc.Server.Batch

/-!
# Dispatch that interleaves

The dispatch of a message is an async function: it may be suspended at each handler that it awaits,
and the other tasks of the runtime run handlers of their own meanwhile.  Here it is a task over the
`World`, whose operations are the requests of the message (`handleBytesTask`); alone it does what
`handleBytesWithContext` does (`eval_handleBytesTask`).

However such tasks interleave (`interleaved`), the handlers run as in one sequential run of the
requests in the order of the log; a task runs those of its message in order, each once; and it is
answered as `handleBytesWithContext` answers alone, if between its own handlers the others leave the
state as it is.
-/

namespace Jasonrpc

open ByteString Machine Resumption

variable {B : Backend} {C σ : Type}

/-- A task that dispatches requests, with their contexts. -/
abbrev DispatchTask (B : Backend) (C ρ : Type) :=
  Resumption (Request B × C) (Option (Response B)) ρ

namespace Router

/-! ## The dispatch of one message -/

/-- Run the handler of a request. -/
def handle (router : Router B C σ) (op : Request B × C) (w : World B C σ) :
    Option (Response B) × World B C σ :=
  router.handleRequestWithContext op.1 op.2 w

/-- The batch elements one at a time, in order, with the responses so far. -/
def handleElementsTask (ctx : C) :
    List Bytes → List (Response B) → DispatchTask B C (List (Response B))
  | [], responses => .done responses
  | item :: items, responses =>
    match fromSlice Request.deserialize item with
    | .ok req => .perform (req, ctx) fun resp => handleElementsTask ctx items (responses ++ resp.toList)
    | .error _ => handleElementsTask ctx items (responses ++ [.ofError .null .invalidRequest])

/-- Process a batch. -/
def handleBatchBytesTask (router : Router B C σ) (bytes : Bytes) (ctx : C) :
    DispatchTask B C (Output B) :=
  match splitArray B bytes with
  | .error _ => .done (rejection B bytes)
  | .ok items =>
    if items.isEmpty then .done (.single (.ofError .null .invalidRequest))
    else
      match router.maxBatchLen.filter (items.length > ·) with
      | some max =>
        let data := "batch of " ++ toString items.length ++ " entries exceeds maximum of " ++
          toString max
        .done (.single (.ofError .null (Error.invalidRequest.withData serializeString data)))
      | none =>
        (handleElementsTask ctx items []).bind fun responses =>
          .done (if responses.isEmpty then .empty else .batch responses)

/-- Parse raw bytes and process them with per-request context. -/
def handleBytesTask (router : Router B C σ) (bytes : Bytes) (ctx : C) : DispatchTask B C (Output B) :=
  match firstByte bytes with
  | none => .done (.single (.ofError .null .invalidRequest))
  | some first =>
    if first = lbracket then router.handleBatchBytesTask bytes ctx
    else if first = lbrace then
      match fromSlice Request.deserialize bytes with
      | .ok req => .perform (req, ctx) fun resp => .done (.ofOption resp)
      | .error _ => .done (rejection B bytes)
    else .done (rejection B bytes)

theorem eval_handleElementsTask (router : Router B C σ) (ctx : C) (items : List Bytes)
    (responses : List (Response B)) (w : World B C σ) :
    (handleElementsTask ctx items responses).eval router.handle w =
      router.handleElements ctx items responses w := by
  induction items generalizing responses w with
  | nil => rfl
  | cons item items ih =>
    rw [handleElementsTask, handleElements, handleElementBytesWithContext]
    cases fromSlice Request.deserialize item with
    | error _ => exact ih _ _
    | ok req => exact ih _ _

theorem eval_handleBatchBytesTask (router : Router B C σ) (bytes : Bytes) (ctx : C)
    (w : World B C σ) :
    (router.handleBatchBytesTask bytes ctx).eval router.handle w =
      router.handleBatchBytesWithContext bytes ctx w := by
  rw [handleBatchBytesTask, handleBatchBytesWithContext]
  cases splitArray B bytes with
  | error _ => rfl
  | ok items =>
    dsimp only
    by_cases hempty : items.isEmpty
    · rw [if_pos hempty, if_pos hempty]
      rfl
    · rw [if_neg hempty, if_neg hempty]
      cases router.maxBatchLen.filter (items.length > ·) with
      | some max => rfl
      | none =>
        dsimp only
        rw [eval_bind, eval_handleElementsTask]
        rfl

/-- A message that is dispatched alone. -/
theorem eval_handleBytesTask (router : Router B C σ) (bytes : Bytes) (ctx : C) (w : World B C σ) :
    (router.handleBytesTask bytes ctx).eval router.handle w =
      router.handleBytesWithContext bytes ctx w := by
  rw [handleBytesTask, handleBytesWithContext]
  cases firstByte bytes with
  | none => rfl
  | some first =>
    dsimp only
    by_cases hbatch : first = lbracket
    · rw [if_pos hbatch, if_pos hbatch]
      exact router.eval_handleBatchBytesTask bytes ctx w
    · rw [if_neg hbatch, if_neg hbatch]
      by_cases hobj : first = lbrace
      · rw [if_pos hobj, if_pos hobj]
        cases fromSlice Request.deserialize bytes with
        | error _ => rfl
        | ok req =>
          show (Output.ofOption (router.handleRequestWithContext req ctx w).1,
            (router.handleRequestWithContext req ctx w).2) = _
          dsimp only
          rcases router.handleRequestWithContext req ctx w with ⟨_ | resp, w'⟩ <;> rfl
      · rw [if_neg hobj, if_neg hobj]
        rfl

/-! ## The requests of one message -/

/-- The requests among the elements of a batch. -/
def elementRequests (items : List Bytes) : List (Request B) :=
  items.filterMap fun item => (fromSlice Request.deserialize item).toOption

/-- The requests of a message, in order. -/
def requests (router : Router B C σ) (bytes : Bytes) : List (Request B) :=
  if firstByte bytes = some lbracket then
    match splitArray B bytes with
    | .error _ => []
    | .ok items =>
      if (router.maxBatchLen.filter (items.length > ·)).isSome then [] else elementRequests items
  else if firstByte bytes = some lbrace then (fromSlice Request.deserialize bytes).toOption.toList
  else []

theorem performs_handleElementsTask (ctx : C) (items : List Bytes) (responses : List (Response B)) :
    (handleElementsTask ctx items responses).Performs ((elementRequests items).map (·, ctx)) := by
  induction items generalizing responses with
  | nil => rfl
  | cons item items ih =>
    rw [handleElementsTask, elementRequests, List.filterMap_cons]
    cases fromSlice Request.deserialize item with
    | error _ => exact ih _
    | ok req => exact ⟨_, rfl, fun resp => ih _⟩

theorem performs_handleBytesTask (router : Router B C σ) (bytes : Bytes) (ctx : C) :
    (router.handleBytesTask bytes ctx).Performs ((router.requests bytes).map (·, ctx)) := by
  rw [handleBytesTask, requests]
  cases firstByte bytes with
  | none => rfl
  | some first =>
    simp only [Option.some.injEq]
    by_cases hbatch : first = lbracket
    · rw [if_pos hbatch, if_pos hbatch, handleBatchBytesTask]
      cases splitArray B bytes with
      | error _ => rfl
      | ok items =>
        dsimp only
        cases items with
        | nil =>
          have hnone : (elementRequests [] : List (Request B)) = [] := rfl
          rw [hnone, ite_self]
          rfl
        | cons item items =>
          rw [if_neg (by simp)]
          cases router.maxBatchLen.filter ((item :: items).length > ·) with
          | some max => rfl
          | none => exact (performs_handleElementsTask ctx _ []).bind_done _
    · rw [if_neg hbatch, if_neg hbatch]
      by_cases hobj : first = lbrace
      · rw [if_pos hobj, if_pos hobj]
        cases fromSlice Request.deserialize bytes with
        | error _ => rfl
        | ok req => exact ⟨[], rfl, fun resp => rfl⟩
      · rw [if_neg hobj, if_neg hobj]
        rfl

theorem handle_congr (router : Router B C σ) (op : Request B × C) (w w' : World B C σ)
    (h : w.state = w'.state) :
    (router.handle op w).1 = (router.handle op w').1 ∧
      (router.handle op w).2.state = (router.handle op w').2.state := by
  unfold handle handleRequestWithContext
  cases router.methods.lookup op.1.method with
  | none => exact ⟨rfl, h⟩
  | some m =>
    dsimp only [Method.call]
    rw [h]
    exact ⟨rfl, rfl⟩

end Router

/-! ## The dispatch of many messages -/

/-- The messages that are being dispatched, or have been, with their contexts. -/
abbrev Dispatches (B : Backend) (C σ : Type) :=
  Pool (Bytes × C) (Request B × C) (Option (Response B)) (Output B) (World B C σ)

namespace Router

/-- One action of one of the tasks. -/
abbrev dispatchStep (router : Router B C σ) :
    Dispatches B C σ → PoolAction (Bytes × C) → Option (Dispatches B C σ) :=
  Pool.step (fun job => router.handleBytesTask job.1 job.2) router.handle

/-- The messages are dispatched in a state. -/
structure Interleaved (router : Router B C σ) (w : World B C σ) (s : Dispatches B C σ) : Prop where
  /-- The handlers have run as in one sequential run of the requests. -/
  world_eq : s.world = execAll router.handle s.log w
  /-- A task has run those of its message, in order: each once, and all of them if it has ended. -/
  requests {k : ℕ} {bytes : Bytes} {ctx : C} {t : DispatchTask B C (Output B)} :
    s.tasks k = some ((bytes, ctx), t) → ∃ rest,
      (router.requests bytes).map (·, ctx) =
        (s.log.filter fun entry => entry.1 = k).map Prod.snd ++ rest ∧
      ((∃ output, t = .done output) → rest = [])
  /-- It has gone on with the responses of that run. -/
  answered {k : ℕ} {bytes : Bytes} {ctx : C} {t : DispatchTask B C (Output B)} :
    s.tasks k = some ((bytes, ctx), t) →
      Advances (router.handleBytesTask bytes ctx) (history router.handle k s.log w) t
  /-- Where the others leave the state as it is while it runs, it is answered as alone. -/
  undisturbed {k : ℕ} {bytes : Bytes} {ctx : C} {output : Output B}
    {before between after : List (ℕ × (Request B × C))} :
    s.tasks k = some ((bytes, ctx), .done output) → s.log = before ++ between ++ after →
      (∀ entry ∈ before ++ after, entry.1 ≠ k) →
      Undisturbed router.handle World.state k between (execAll router.handle before w) →
      (router.handleBytesWithContext bytes ctx (execAll router.handle before w)).1 = output
  /-- A message of at most one request is dispatched at once. -/
  atOnce {k : ℕ} {bytes : Bytes} {ctx : C} {output : Output B} :
    s.tasks k = some ((bytes, ctx), .done output) → (router.requests bytes).length ≤ 1 →
      ∃ before after, s.log = before ++ (router.requests bytes).map (k, ·, ctx) ++ after ∧
        router.handleBytesWithContext bytes ctx (execAll router.handle before w) =
          (output, execAll router.handle (before ++ (router.requests bytes).map (k, ·, ctx)) w)

variable {router : Router B C σ} {w : World B C σ} {k : ℕ} {bytes : Bytes} {ctx : C}
  {output : Output B} {log before between after : List (ℕ × (Request B × C))}

theorem advances_between
    (h : Advances (router.handleBytesTask bytes ctx) (history router.handle k log w) (.done output))
    (hlog : log = before ++ between ++ after) (hothers : ∀ entry ∈ before ++ after, entry.1 ≠ k) :
    Advances (router.handleBytesTask bytes ctx)
      (history router.handle k between (execAll router.handle before w)) (.done output) := by
  have hbefore : ∀ entry ∈ before, entry.1 ≠ k :=
    fun entry hentry => hothers entry (List.mem_append_left _ hentry)
  have hafter : ∀ entry ∈ after, entry.1 ≠ k :=
    fun entry hentry => hothers entry (List.mem_append_right _ hentry)
  rwa [hlog, history_append, history_append, history_eq_nil hbefore, history_eq_nil hafter,
    List.nil_append, List.append_nil] at h

/-- Requests that nothing comes between are those of a message that is dispatched alone. -/
theorem handleBytesWithContext_of_advances
    (h : Advances (router.handleBytesTask bytes ctx) (history router.handle k log w) (.done output))
    (hlog : log = before ++ between ++ after) (hothers : ∀ entry ∈ before ++ after, entry.1 ≠ k)
    (hown : ∀ entry ∈ between, entry.1 = k) :
    router.handleBytesWithContext bytes ctx (execAll router.handle before w) =
      (output, execAll router.handle (before ++ between) w) := by
  obtain ⟨w₂, heval, hw⟩ := (advances_between h hlog hothers).eval_eq id
    (fun o w w' hw => by rw [show w = w' from hw]; exact ⟨rfl, rfl⟩)
    (undisturbed_of_own id hown _) rfl
  rw [eval_handleBytesTask] at heval
  rw [heval, execAll_append]
  exact congrArg _ hw.symm

/-- However the dispatches interleave; what has ended runs nothing more. -/
theorem interleaved (router : Router B C σ) (w : World B C σ) (s₁ s₂ : Dispatches B C σ)
    (h₁ : Reach router.dispatchStep always (.new w) s₁) (h₂ : Reach router.dispatchStep always s₁ s₂) :
    Interleaved router w s₂ ∧
      ∀ k job output, s₁.tasks k = some (job, .done output) →
        s₂.tasks k = some (job, .done output) ∧
          ∃ later, s₂.log = s₁.log ++ later ∧ ∀ op, (k, op) ∉ later := by
  have h := Pool.Sound.of_reach (h₁.trans h₂)
  have hrequests {k : ℕ} {bytes : Bytes} {ctx : C} {t : DispatchTask B C (Output B)}
      (htask : s₂.tasks k = some ((bytes, ctx), t)) : ∃ rest,
        (router.requests bytes).map (·, ctx) =
          (s₂.log.filter fun entry => entry.1 = k).map Prod.snd ++ rest ∧ t.Performs rest := by
    rw [← history_map_fst router.handle k s₂.log w]
    exact (router.performs_handleBytesTask bytes ctx).of_advances (h.advances htask)
  refine ⟨⟨h.world_eq, ?_, h.advances, ?_, ?_⟩, fun k job output hended =>
    Pool.ended_of_reach hended h₂⟩
  · intro k bytes ctx t htask
    obtain ⟨rest, heq, hrest⟩ := hrequests htask
    refine ⟨rest, heq, ?_⟩
    rintro ⟨output, rfl⟩
    exact hrest
  · intro k bytes ctx output before between after htask hlog hothers hquiet
    obtain ⟨w₂, heval, -⟩ := (advances_between (h.advances htask) hlog hothers).eval_eq
      World.state router.handle_congr hquiet rfl
    rw [← eval_handleBytesTask, heval]
    rfl
  · intro k bytes ctx output htask hle
    obtain ⟨rest, heq, hrest⟩ := hrequests htask
    obtain rfl : rest = [] := hrest
    rw [List.append_nil] at heq
    obtain ⟨before, after, hlog, hothers⟩ := exists_place heq (by rwa [List.length_map])
    rw [List.map_map] at hlog
    refine ⟨before, after, hlog, ?_⟩
    apply handleBytesWithContext_of_advances (h.advances htask) hlog hothers
    intro entry hentry
    obtain ⟨req, -, rfl⟩ := List.mem_map.1 hentry
    rfl

section Sample

open JsonText

/-- A batch of a call and a notification, and the same batch again, whose call comes between them. -/
def interleavedRun : List (PoolAction (Bytes × Unit)) :=
  [.spawn 0 (batchText callAndNotification, ()), .advance 0,
    .spawn 1 (batchText callAndNotification, ()), .advance 1, .advance 0]

theorem interleaved_interleavedRun : ∃ s₁ s₂,
    run getRouter.dispatchStep always (.new ⟨(), []⟩) interleavedRun = some s₁ ∧
      run getRouter.dispatchStep always s₁ [.advance 1] = some s₂ ∧
      s₂.log.map Prod.fst = [0, 1, 0, 1] ∧
      Interleaved getRouter ⟨(), []⟩ s₂ ∧
        ∀ k job output, s₁.tasks k = some (job, .done output) →
          s₂.tasks k = some (job, .done output) ∧
            ∃ later, s₂.log = s₁.log ++ later ∧ ∀ op, (k, op) ∉ later := by
  have hlog : ((run getRouter.dispatchStep always (.new ⟨(), []⟩) interleavedRun).bind fun s =>
      (run getRouter.dispatchStep always s [.advance 1]).map fun s => s.log.map Prod.fst) =
        some [0, 1, 0, 1] := by
    decide +kernel
  obtain ⟨s₁, hrun₁, hlog⟩ := Option.bind_eq_some_iff.1 hlog
  obtain ⟨s₂, hrun₂, hlog⟩ := Option.map_eq_some_iff.1 hlog
  exact ⟨s₁, s₂, hrun₁, hrun₂, hlog,
    interleaved getRouter ⟨(), []⟩ s₁ s₂ (reach_of_run _ hrun₁) (reach_of_run _ hrun₂)⟩

end Sample

end Router

end Jasonrpc
