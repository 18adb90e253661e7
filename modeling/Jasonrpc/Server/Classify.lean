import Jasonrpc.Server.Batch

/-!
# What the router makes of bytes

The first byte that is no ASCII white space decides how bytes are read.  Bytes that are no JSON text
are answered by a parse error, unless they are blank; JSON that is neither a request object nor a
batch within the limit is answered by an invalid request (`answersError_iff`).  Bytes that begin like
a batch are one, or they are answered by one error before any handler is invoked
(`handleBytes_lbracket`).
-/

namespace Jasonrpc

open ByteString

variable {B : Backend} {C σ : Type}

/-- The bytes are a JSON text. -/
def IsJson (B : Backend) (bytes : Bytes) : Prop := ∃ r, B.parse bytes = .ok r

/-- The bytes are a JSON object that is read as a request. -/
def IsRequestObject (B : Backend) (bytes : Bytes) : Prop :=
  ∃ r, B.parse bytes = .ok r ∧ IsObject r ∧ (Request.deserialize r).isSome

theorem rejection_of_not_isJson {bytes : Bytes} (h : ¬ IsJson B bytes) :
    rejection B bytes = .single (.ofError .null .parseError) := by
  cases hparse : B.parse bytes with
  | ok r => exact absurd ⟨r, hparse⟩ h
  | error e =>
    rw [rejection, fromSlice, hparse]
    rfl

namespace Router

variable [Inhabited C] {router : Router B C σ} {bytes : Bytes} {w : World B C σ}

/-- The router answers with one error of the code `code` and a null id by itself: no handler is
invoked, and the state is left as it is. -/
def AnswersError (router : Router B C σ) (bytes : Bytes) (w : World B C σ) (code : Int64) : Prop :=
  ∃ e : Error B, e.code = code ∧ router.handleBytes bytes w = (.single (.ofError .null e), w)

theorem AnswersError.code_unique {code code' : Int64} (h : router.AnswersError bytes w code)
    (h' : router.AnswersError bytes w code') : code = code' := by
  obtain ⟨e, rfl, heq⟩ := h
  obtain ⟨e', rfl, heq'⟩ := h'
  have hout := congrArg Prod.fst (heq.symm.trans heq')
  have herror := congrArg Response.error (Output.single.inj hout)
  exact congrArg Error.code (Option.some.inj herror)

theorem answersError_of_blank (h : firstByte bytes = none) :
    router.AnswersError bytes w codes.invalidRequest := by
  refine ⟨.invalidRequest, rfl, ?_⟩
  rw [handleBytes, handleBytesWithContext, h]

/-- Bytes that are neither blank nor JSON are a parse error, whatever they begin with. -/
theorem answersError_of_not_isJson (router : Router B C σ) (w : World B C σ)
    (hfirst : firstByte bytes ≠ none) (h : ¬ IsJson B bytes) :
    router.AnswersError bytes w codes.parseError := by
  refine ⟨.parseError, rfl, ?_⟩
  have hslice {T : Type} (d : Deserialize B T) : ∃ e, fromSlice d bytes = .error e := by
    cases hparse : B.parse bytes with
    | ok r => exact absurd ⟨r, hparse⟩ h
    | error e =>
      rw [fromSlice, hparse]
      exact ⟨e, rfl⟩
  obtain ⟨first, hfirst⟩ := Option.ne_none_iff_exists'.1 hfirst
  rw [handleBytes, handleBytesWithContext, hfirst]
  dsimp only
  split_ifs
  · obtain ⟨e, he⟩ := hslice (deserializeVec some)
    rw [handleBatchBytesWithContext, splitArray, he, rejection_of_not_isJson h]
    rfl
  · obtain ⟨e, he⟩ := hslice Request.deserialize
    rw [he, rejection_of_not_isJson h]
  · rw [rejection_of_not_isJson h]

theorem handleBytes_of_lbracket (hfirst : firstByte bytes = some lbracket) :
    router.handleBytes bytes w = router.handleBatchBytesWithContext bytes default w := by
  rw [handleBytes, handleBytesWithContext, hfirst]
  rfl

theorem answersError_of_not_isBatch (law : B.Lawful) {r : B.Raw} {items : List B.Raw}
    (hparse : B.parse bytes = .ok r) (hshape : B.shape r = .seq items)
    (h : ¬ router.IsBatch bytes items) : router.AnswersError bytes w codes.invalidRequest := by
  have hfirst : firstByte bytes = some lbracket :=
    (law.firstByte_eq_lbracket hparse).2 ⟨items, hshape⟩
  rw [AnswersError, handleBytes_of_lbracket hfirst, handleBatchBytesWithContext,
    splitArray_of_parse hparse hshape]
  dsimp only
  cases items with
  | nil => exact ⟨.invalidRequest, rfl, rfl⟩
  | cons item items =>
    rw [if_neg (by simp)]
    cases hmax : router.maxBatchLen.filter (((item :: items).map B.get).length > ·) with
    | some max => exact ⟨_, rfl, rfl⟩
    | none =>
      refine absurd ⟨⟨r, hparse, hshape⟩, List.cons_ne_nil _ _, fun max hlimit => ?_⟩ h
      rw [hlimit, Option.filter_some] at hmax
      by_contra hlt
      rw [if_pos (by simpa using hlt)] at hmax
      cases hmax

theorem answersError_of_scalar (law : B.Lawful) {r : B.Raw} (hparse : B.parse bytes = .ok r)
    (hseq : ∀ items, B.shape r ≠ .seq items) (hobj : ¬ IsObject r) :
    router.AnswersError bytes w codes.invalidRequest := by
  have hlbracket : firstByte bytes ≠ some lbracket := fun h =>
    ((law.firstByte_eq_lbracket hparse).1 h).elim hseq
  have hlbrace : firstByte bytes ≠ some lbrace := fun h =>
    hobj ((law.firstByte_eq_lbrace hparse).1 h)
  cases hfirst : firstByte bytes with
  | none => exact answersError_of_blank hfirst
  | some first =>
    refine ⟨.invalidRequest, rfl, ?_⟩
    rw [handleBytes, handleBytesWithContext, hfirst]
    dsimp only
    rw [if_neg fun h => hlbracket (by rw [hfirst, h]),
      if_neg fun h => hlbrace (by rw [hfirst, h]), rejection_of_parse hparse]

theorem answersError_of_object (law : B.Lawful) {r : B.Raw} (hparse : B.parse bytes = .ok r)
    (hobj : IsObject r) (hnone : Request.deserialize r = none) :
    router.AnswersError bytes w codes.invalidRequest := by
  refine ⟨.invalidRequest, rfl, ?_⟩
  rw [handleBytes, router.handleBytesWithContext_object law hparse hobj,
    router.handleElementBytesWithContext_parse hparse, hnone]
  rfl

/-- JSON that is neither a request object nor a batch within the limit is an invalid request. -/
theorem answersError_invalidRequest (law : B.Lawful) (hjson : IsJson B bytes)
    (hrequest : ¬ IsRequestObject B bytes) (hbatch : ∀ items, ¬ router.IsBatch bytes items) :
    router.AnswersError bytes w codes.invalidRequest := by
  obtain ⟨r, hparse⟩ := hjson
  by_cases hobj : IsObject r
  · refine answersError_of_object law hparse hobj ?_
    rw [← Option.not_isSome_iff_eq_none]
    exact fun hsome => hrequest ⟨r, hparse, hobj, hsome⟩
  · by_cases hseq : ∃ items, B.shape r = .seq items
    · obtain ⟨items, hshape⟩ := hseq
      exact answersError_of_not_isBatch law hparse hshape (hbatch items)
    · exact answersError_of_scalar law hparse (fun items h => hseq ⟨items, h⟩) hobj

/-- A request object is not answered by a parse error of the router. -/
theorem not_parseError_of_isRequestObject (law : B.Lawful) (h : IsRequestObject B bytes) :
    ¬ router.AnswersError bytes w codes.parseError := by
  obtain ⟨r, hparse, hobj, hsome⟩ := h
  obtain ⟨req, hreq⟩ := Option.isSome_iff_exists.1 hsome
  rintro ⟨e, hcode, heq⟩
  rw [handleBytes, router.handleBytesWithContext_object law hparse hobj,
    router.handleElementBytesWithContext_parse hparse, hreq] at heq
  obtain ⟨hout, hworld⟩ := Prod.mk.inj heq
  dsimp only at hout hworld
  rw [handleRequestWithContext_of_same hworld] at hout
  cases hid : req.id with
  | none =>
    rw [hid] at hout
    cases hout
  | some id =>
    rw [hid] at hout
    have herror := congrArg Response.error (Output.single.inj hout)
    have hne : codes.methodNotFound ≠ codes.parseError := by decide
    exact hne ((congrArg Error.code (Option.some.inj herror)).trans hcode)

theorem not_answersError_of_isBatch (law : B.Lawful) {items : List B.Raw}
    (h : router.IsBatch bytes items) (code : Int64) : ¬ router.AnswersError bytes w code := by
  rintro ⟨e, -, heq⟩
  rw [h.handleBytes law, Output.ofResponses] at heq
  have hout := congrArg Prod.fst heq
  dsimp only at hout
  split_ifs at hout

/-- The router answers by itself with a parse error just when the bytes are neither blank nor JSON;
blank bytes, and JSON that is neither a request object nor a batch within the limit, are an invalid
request. -/
theorem answersError_iff (law : B.Lawful) (router : Router B C σ) (bytes : Bytes)
    (w : World B C σ) :
    (router.AnswersError bytes w codes.parseError ↔
      firstByte bytes ≠ none ∧ ¬ IsJson B bytes) ∧
    (firstByte bytes = none → router.AnswersError bytes w codes.invalidRequest) ∧
    (IsJson B bytes → ¬ IsRequestObject B bytes → (∀ items, ¬ router.IsBatch bytes items) →
      router.AnswersError bytes w codes.invalidRequest) := by
  have hne : codes.parseError ≠ codes.invalidRequest := by decide
  refine ⟨⟨fun h => ⟨fun hblank => ?_, fun hjson => ?_⟩, ?_⟩, answersError_of_blank,
    answersError_invalidRequest law⟩
  · exact hne (h.code_unique (answersError_of_blank hblank))
  · by_cases hrequest : IsRequestObject B bytes
    · exact not_parseError_of_isRequestObject law hrequest h
    · by_cases hbatch : ∃ items, router.IsBatch bytes items
      · obtain ⟨items, hbatch⟩ := hbatch
        exact not_answersError_of_isBatch law hbatch _ h
      · exact hne (h.code_unique (answersError_invalidRequest law hjson hrequest
          fun items hitems => hbatch ⟨items, hitems⟩))
  · rintro ⟨hfirst, hjson⟩
    exact answersError_of_not_isJson router w hfirst hjson

/-- A truncated object is a parse error of the router. -/
theorem answersError_iff_truncated :
    getRouter.AnswersError (ascii "\x7b") ⟨(), []⟩ codes.parseError :=
  (answersError_iff JsonText.lawful getRouter (ascii "\x7b") ⟨(), []⟩).1.2
    ⟨by decide, by rintro ⟨r, h⟩; cases h⟩

/-- No bytes at all are no JSON, but an invalid request. -/
theorem not_answersError_parseError_nil :
    ¬ IsJson JsonText.backend [] ∧
      ¬ getRouter.AnswersError [] ⟨(), []⟩ codes.parseError := by
  refine ⟨?_, fun h => ?_⟩
  · rintro ⟨r, h⟩
    cases h
  · have hne : codes.parseError ≠ codes.invalidRequest := by decide
    exact hne (h.code_unique (answersError_of_blank rfl))

end Router

/-! ## Batches -/

namespace Router

/-- The elements of a batch are processed once each, in order, every one from the world that those
before it leave. -/
inductive Dispatched (router : Router B C σ) (ctx : C) :
    List B.Raw → World B C σ → List (Option (Response B)) → World B C σ → Prop
  | nil (w : World B C σ) : Dispatched router ctx [] w [] w
  | cons {item : B.Raw} {items : List B.Raw} {w w₁ w₂ : World B C σ} {resp : Option (Response B)}
      {resps : List (Option (Response B))}
      (head : router.handleElementBytesWithContext (B.get item) ctx w = (resp, w₁))
      (tail : Dispatched router ctx items w₁ resps w₂) :
      Dispatched router ctx (item :: items) w (resp :: resps) w₂

theorem exists_dispatched (router : Router B C σ) (ctx : C) (items : List B.Raw)
    (w : World B C σ) :
    ∃ resps w', router.Dispatched ctx items w resps w' ∧
      router.handleElements ctx (items.map B.get) [] w = (resps.flatMap Option.toList, w') := by
  induction items generalizing w with
  | nil => exact ⟨[], w, .nil w, rfl⟩
  | cons item items ih =>
    obtain ⟨resps, w', hdispatched, heq⟩ :=
      ih (router.handleElementBytesWithContext (B.get item) ctx w).2
    refine ⟨_, w', .cons rfl hdispatched, ?_⟩
    rw [List.map_cons, handleElements_cons, heq]
    rfl

/-- Bytes that begin with `[` are a batch within the limit, whose elements are processed once each
and in order, or they are answered by one error with a null id, without a handler being invoked and
with the state left as it is. -/
theorem handleBytes_lbracket [Inhabited C] (law : B.Lawful) (router : Router B C σ) (bytes : Bytes)
    (hfirst : firstByte bytes = some lbracket) (w : World B C σ) :
    (∃ items resps w', router.IsBatch bytes items ∧ router.Dispatched default items w resps w' ∧
      router.handleBytes bytes w = (.ofResponses (resps.flatMap Option.toList), w')) ∨
    ((∀ items, ¬ router.IsBatch bytes items) ∧
      ∃ e : Error B, router.handleBytes bytes w = (.single (.ofError .null e), w)) := by
  by_cases hbatch : ∃ items, router.IsBatch bytes items
  · obtain ⟨items, hbatch⟩ := hbatch
    obtain ⟨resps, w', hdispatched, heq⟩ := router.exists_dispatched default items w
    refine .inl ⟨items, resps, w', hbatch, hdispatched, ?_⟩
    rw [hbatch.handleBytes law, heq]
  · have hnot : ∀ items, ¬ router.IsBatch bytes items := fun items h => hbatch ⟨items, h⟩
    refine .inr ⟨hnot, ?_⟩
    by_cases hjson : IsJson B bytes
    · obtain ⟨r, hparse⟩ := hjson
      obtain ⟨items, hshape⟩ := (law.firstByte_eq_lbracket hparse).1 hfirst
      obtain ⟨e, -, heq⟩ := answersError_of_not_isBatch (w := w) law hparse hshape (hnot items)
      exact ⟨e, heq⟩
    · have hblank : firstByte bytes ≠ none := by
        rw [hfirst]
        exact Option.some_ne_none _
      obtain ⟨e, -, heq⟩ := answersError_of_not_isJson router w hblank hjson
      exact ⟨e, heq⟩

/-- The text of a batch of a call and a notification that is not closed. -/
def truncatedBatch : Bytes := (batchText callAndNotification).dropLast

/-- Closed, the batch is processed; not closed, it is refused although its elements are requests. -/
theorem handleBytes_lbracket_truncated :
    (∃ items resps w', getRouter.IsBatch (batchText callAndNotification) items ∧
      getRouter.Dispatched default items ⟨(), []⟩ resps w' ∧
      getRouter.handleBytes (batchText callAndNotification) ⟨(), []⟩ =
        (.ofResponses (resps.flatMap Option.toList), w')) ∧
    (∀ items, ¬ getRouter.IsBatch truncatedBatch items) ∧
      ∃ e : Error JsonText.backend,
        getRouter.handleBytes truncatedBatch ⟨(), []⟩ = (.single (.ofError .null e), ⟨(), []⟩) := by
  have hbatch := isBatch_batchText (List.cons_ne_nil _ _ : callAndNotification ≠ [])
  have hbroken : (JsonText.backend.parse truncatedBatch).toBool = false := by decide +kernel
  constructor
  · rcases handleBytes_lbracket JsonText.lawful getRouter (batchText callAndNotification)
      (by decide +kernel) ⟨(), []⟩ with h | ⟨hnot, -⟩
    · exact h
    · exact absurd hbatch (hnot _)
  · rcases handleBytes_lbracket JsonText.lawful getRouter truncatedBatch (by decide +kernel)
      ⟨(), []⟩ with ⟨items, -, -, hitems, -⟩ | h
    · obtain ⟨r, hparse, -⟩ := hitems.text
      rw [hparse] at hbroken
      cases hbroken
    · exact h

end Router

end Jasonrpc
