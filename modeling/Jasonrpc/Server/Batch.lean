import Jasonrpc.Client
import Jasonrpc.Json.Text
import Jasonrpc.Server

/-!
# Batches

The elements of a batch are dispatched one at a time.  A batch of objects does what handling each
object alone does (`handleBytes_batch`).  Of the other elements, the router takes an array for a
request when it lists the fields of one, and rejects the rest (`rejectsNonObjects_iff`).
-/

namespace Jasonrpc

open ByteString

variable {B : Backend} {C σ : Type}

/-- The output of a batch with the given responses. -/
def Output.ofResponses (responses : List (Response B)) : Output B :=
  if responses.isEmpty then .empty else .batch responses

/-- The responses that an output sends. -/
def Output.responses : Output B → List (Response B)
  | empty => []
  | single resp => [resp]
  | batch resps => resps

@[simp] theorem Output.responses_ofOption (resp : Option (Response B)) :
    (Output.ofOption resp).responses = resp.toList := by
  cases resp <;> rfl

theorem splitArray_of_parse {bytes : Bytes} {r : B.Raw} {items : List B.Raw}
    (hparse : B.parse bytes = .ok r) (hshape : B.shape r = .seq items) :
    splitArray B bytes = .ok (items.map B.get) := by
  have hvec : deserializeVec some r = some items := by
    rw [deserializeVec, hshape]
    simpa using List.mapM_pure (m := Option) (l := items) (f := id)
  rw [splitArray, fromSlice_of_parse _ hparse, deserializeFrom, hvec]
  rfl

namespace Router

/-- The bytes are a batch of the elements `items`, within the limit of the router. -/
structure IsBatch (router : Router B C σ) (bytes : Bytes) (items : List B.Raw) : Prop where
  text : ∃ r, B.parse bytes = .ok r ∧ B.shape r = .seq items
  ne_nil : items ≠ []
  length_le (max : ℕ) : router.maxBatchLen = some max → items.length ≤ max

/-- Handle messages one after the other. -/
def handleEach [Inhabited C] (router : Router B C σ) :
    List Bytes → World B C σ → List (Output B) × World B C σ
  | [], w => ([], w)
  | bytes :: rest, w =>
    let (out, w) := router.handleBytes bytes w
    let (outs, w) := router.handleEach rest w
    (out :: outs, w)

theorem handleElements_eq (router : Router B C σ) (ctx : C) (items : List Bytes)
    (responses : List (Response B)) (w : World B C σ) :
    router.handleElements ctx items responses w =
      (responses ++ (router.handleElements ctx items [] w).1,
        (router.handleElements ctx items [] w).2) := by
  induction items generalizing responses w with
  | nil => simp [handleElements]
  | cons item items ih =>
    rw [handleElements, handleElements]
    dsimp only
    rw [ih, ih ([] ++ _), List.nil_append, List.append_assoc]

theorem handleElements_cons (router : Router B C σ) (ctx : C) (item : Bytes) (items : List Bytes)
    (w : World B C σ) :
    router.handleElements ctx (item :: items) [] w =
      ((router.handleElementBytesWithContext item ctx w).1.toList ++
          (router.handleElements ctx items []
            (router.handleElementBytesWithContext item ctx w).2).1,
        (router.handleElements ctx items []
          (router.handleElementBytesWithContext item ctx w).2).2) := by
  rw [handleElements]
  dsimp only
  rw [handleElements_eq, List.nil_append]

theorem handleElements_append (router : Router B C σ) (ctx : C) (before items : List Bytes)
    (responses : List (Response B)) (w : World B C σ) :
    router.handleElements ctx (before ++ items) responses w =
      router.handleElements ctx items (router.handleElements ctx before responses w).1
        (router.handleElements ctx before responses w).2 := by
  induction before generalizing responses w with
  | nil => rfl
  | cons item before ih => exact ih _ _

/-- A batch is dispatched element by element. -/
theorem IsBatch.handleBytes [Inhabited C] (law : B.Lawful) {router : Router B C σ} {bytes : Bytes}
    {items : List B.Raw} (hbatch : router.IsBatch bytes items) (w : World B C σ) :
    router.handleBytes bytes w =
      (.ofResponses (router.handleElements default (items.map B.get) [] w).1,
        (router.handleElements default (items.map B.get) [] w).2) := by
  obtain ⟨r, hparse, hshape⟩ := hbatch.text
  have hfirst : firstByte bytes = some lbracket :=
    (law.firstByte_eq_lbracket hparse).2 ⟨items, hshape⟩
  have hempty : (items.map B.get).isEmpty = false := by
    rw [List.isEmpty_eq_false_iff, Ne, List.map_eq_nil_iff]
    exact hbatch.ne_nil
  have hmax : router.maxBatchLen.filter ((items.map B.get).length > ·) = none := by
    rw [Option.filter_eq_none_iff]
    intro max hmax
    have hle := hbatch.length_le max hmax
    simpa using hle
  rw [Router.handleBytes, handleBytesWithContext, hfirst]
  dsimp only
  rw [if_pos rfl, handleBatchBytesWithContext, splitArray_of_parse hparse hshape]
  dsimp only
  rw [hempty, hmax]
  rfl

end Router

/-! ## Objects -/

/-- What an element contributes to the responses: a notification nothing, any other request one
response with its id, and what is no request one invalid request with a null id. -/
def Contributes (item : B.Raw) (out : Output B) : Prop :=
  match Request.deserialize item with
  | none => out = .single (.ofError .null .invalidRequest)
  | some req =>
    match req.id with
    | none => out = .empty
    | some id => ∃ resp, out = .single resp ∧ resp.id = id

@[simp] theorem respond_id (id : Id) (outcome : Except (Error B) B.Raw) :
    (respond id outcome).id = id := by
  cases outcome <;> rfl

theorem Router.handleRequestWithContext_id (router : Router B C σ) (req : Request B) (ctx : C)
    (w : World B C σ) :
    (router.handleRequestWithContext req ctx w).1.map Response.id = req.id := by
  rw [handleRequestWithContext]
  dsimp only
  cases hid : req.id <;> simp [Request.isNotification, hid]

section Law

variable (law : B.Lawful)
include law

theorem Router.handleElementBytesWithContext_get (router : Router B C σ) (item : B.Raw) (ctx : C)
    (w : World B C σ) :
    router.handleElementBytesWithContext (B.get item) ctx w =
      match Request.deserialize item with
      | some req => router.handleRequestWithContext req ctx w
      | none => (some (.ofError .null .invalidRequest), w) :=
  router.handleElementBytesWithContext_parse (law.parse_get item) ctx w

theorem contributes_element (router : Router B C σ) (item : B.Raw) (ctx : C) (w : World B C σ) :
    Contributes item (.ofOption (router.handleElementBytesWithContext (B.get item) ctx w).1) := by
  rw [router.handleElementBytesWithContext_get law, Contributes]
  cases Request.deserialize item with
  | none => rfl
  | some req =>
    dsimp only
    have hmap := router.handleRequestWithContext_id req ctx w
    cases hresp : (router.handleRequestWithContext req ctx w).1 with
    | none =>
      rw [hresp] at hmap
      rw [← hmap]
      rfl
    | some resp =>
      rw [hresp] at hmap
      rw [← hmap]
      exact ⟨resp, rfl, rfl⟩

/-- Objects handled one after the other. -/
theorem Router.handleEach_objects [Inhabited C] (router : Router B C σ) (items : List B.Raw)
    (hobj : ∀ item ∈ items, IsObject item) (w : World B C σ) :
    ((router.handleEach (items.map B.get) w).1.flatMap Output.responses,
        (router.handleEach (items.map B.get) w).2) =
      router.handleElements default (items.map B.get) [] w ∧
    List.Forall₂ Contributes items (router.handleEach (items.map B.get) w).1 := by
  induction items generalizing w with
  | nil => exact ⟨rfl, .nil⟩
  | cons item items ih =>
    have hitem := router.handleBytesWithContext_object law (law.parse_get item)
      (hobj item List.mem_cons_self) default w
    obtain ⟨heq, hcontributes⟩ := ih (fun x hx => hobj x (List.mem_cons_of_mem _ hx))
      (router.handleElementBytesWithContext (B.get item) default w).2
    rw [List.map_cons, handleElements_cons, handleEach, Router.handleBytes, hitem]
    dsimp only
    refine ⟨?_, .cons (contributes_element law router item default w) hcontributes⟩
    rw [List.flatMap_cons, Output.responses_ofOption, ← heq]

/-- A batch of objects makes the invocations that handling each object alone makes, in order and
from the same states, and answers with the responses of those. -/
theorem handleBytes_batch [Inhabited C] (router : Router B C σ) (bytes : Bytes)
    (items : List B.Raw) (hbatch : router.IsBatch bytes items)
    (hobj : ∀ item ∈ items, IsObject item) (w : World B C σ) :
    ∃ outs w', router.handleEach (items.map B.get) w = (outs, w') ∧
      router.handleBytes bytes w = (.ofResponses (outs.flatMap Output.responses), w') ∧
      List.Forall₂ Contributes items outs := by
  obtain ⟨heq, hcontributes⟩ := router.handleEach_objects law items hobj w
  refine ⟨_, _, rfl, ?_, hcontributes⟩
  rw [hbatch.handleBytes law, ← heq]

end Law

/-! ## Arrays in the place of objects -/

/-- A JSON text that can be an id. -/
def IsId (r : B.Raw) : Prop :=
  match B.shape r with
  | .null | .i64 _ | .u64 _ | .str _ => True
  | _ => False

/-- An array that lists the fields of a request: the version, the method, and possibly params, and
after them an id. -/
def IsRequestArray (item : B.Raw) : Prop :=
  ∃ version method rest, B.shape item = .seq (version :: method :: rest) ∧
    B.shape version = .str "2.0" ∧ (∃ name, B.shape method = .str name) ∧
    (rest = [] ∨ (∃ params, rest = [params]) ∨ ∃ params id, rest = [params, id] ∧ IsId id)

theorem Id.deserialize_isSome (r : B.Raw) : (Id.deserialize r).isSome ↔ IsId r := by
  rw [Id.deserialize, IsId]
  cases B.shape r with
  | u64 n =>
    dsimp only
    cases i64TryFrom n <;> simp
  | _ => simp

theorem Version.deserialize_isSome (r : B.Raw) :
    (Version.deserialize r).isSome ↔ B.shape r = .str "2.0" := by
  rw [Option.isSome_iff_exists]
  constructor
  · rintro ⟨v, hv⟩
    exact Version.deserialize_eq_some_iff.1 hv
  · intro h
    exact ⟨.version, Version.deserialize_eq_some_iff.2 h⟩

theorem deserializeString_isSome (r : B.Raw) :
    (deserializeString r).isSome ↔ ∃ s, B.shape r = .str s := by
  rw [deserializeString]
  cases B.shape r <;> simp

/-- The fields of a text that is read as a request. -/
theorem Request.deserialize_isSome_iff (r : B.Raw) :
    (Request.deserialize r).isSome ↔ ∃ members, structFields fields (B.shape r) = some members ∧
      (∃ version, members "jsonrpc" = some version ∧ B.shape version = .str "2.0") ∧
      (∃ method, members "method" = some method ∧ ∃ name, B.shape method = .str name) ∧
      ∀ id, members "id" = some id → IsId id := by
  rw [Request.deserialize]
  cases structFields fields (B.shape r) with
  | none => simp
  | some members =>
    have hparams : (optional members "params" (deserializeOption deserializeValue)).isSome := by
      rw [optional_value rfl]
      rfl
    have hid : (optional members "id" dePresentId).isSome ↔
        ∀ id, members "id" = some id → IsId id := by
      rw [optional]
      cases members "id" with
      | none => simp
      | some raw => simp [dePresentId, ← Id.deserialize_isSome]
    have hversion : (required members "jsonrpc" Version.deserialize).isSome ↔
        ∃ version, members "jsonrpc" = some version ∧ B.shape version = .str "2.0" := by
      rw [required]
      cases members "jsonrpc" <;> simp [← Version.deserialize_isSome]
    have hmethod : (required members "method" deserializeString).isSome ↔
        ∃ method, members "method" = some method ∧ ∃ name, B.shape method = .str name := by
      rw [required]
      cases members "method" <;> simp [← deserializeString_isSome]
    obtain ⟨params, hparams⟩ := Option.isSome_iff_exists.1 hparams
    simp only [Option.bind_eq_bind, Option.bind_some, hparams, Option.some.injEq, exists_eq_left',
      ← hversion, ← hmethod, ← hid]
    cases required members "jsonrpc" Version.deserialize <;>
      cases required members "method" deserializeString <;>
      cases optional members "id" dePresentId <;> simp

theorem Request.deserialize_isSome {item : B.Raw} (hobj : ¬ IsObject item) :
    (Request.deserialize item).isSome ↔ IsRequestArray item := by
  rw [Request.deserialize_isSome_iff, IsRequestArray]
  cases hshape : B.shape item with
  | map entries => exact absurd ⟨entries, hshape⟩ hobj
  | seq items =>
    rcases items with _ | ⟨version, _ | ⟨method, _ | ⟨params, _ | ⟨id, _ | ⟨extra, items⟩⟩⟩⟩⟩
    all_goals simp [structFields, fields, List.lookup_cons]
  | _ => simp [structFields]

/-- The answer to an element that is no request. -/
def rejected : Response B := .ofError .null .invalidRequest

namespace Router

/-- Every element of the batch that is no object invokes no handler and contributes one invalid
request with a null id, between the responses to the elements before it and those to the elements
after it. -/
def RejectsNonObjects [Inhabited C] (router : Router B C σ) (bytes : Bytes) (items : List B.Raw)
    (w : World B C σ) : Prop :=
  ∀ before item after, items = before ++ item :: after → ¬ IsObject item →
    let (responses, w₁) := router.handleElements default (before.map B.get) [] w
    let (rest, w₂) := router.handleElements default (after.map B.get) [] w₁
    router.handleElementBytesWithContext (B.get item) default w₁ = (some rejected, w₁) ∧
      router.handleBytes bytes w = (.batch (responses ++ rejected :: rest), w₂)

theorem handleRequestWithContext_of_same {router : Router B C σ} {req : Request B} {ctx : C}
    {w : World B C σ} (h : (router.handleRequestWithContext req ctx w).2 = w) :
    (router.handleRequestWithContext req ctx w).1 =
      req.id.map fun id => .ofError id .methodNotFound := by
  rw [handleRequestWithContext] at h ⊢
  cases hlookup : router.methods.lookup req.method with
  | some m =>
    -- the invocation is recorded
    rw [hlookup] at h
    have hcalls := congrArg (fun w => w.calls.length) h
    simp [Method.call] at hcalls
  | none =>
    dsimp only
    cases hid : req.id <;> simp [Request.isNotification, hid, respond]

theorem handleRequestWithContext_ne (router : Router B C σ) (req : Request B) (ctx : C)
    (w : World B C σ) :
    router.handleRequestWithContext req ctx w ≠ (some rejected, w) := by
  intro h
  have hsame : (router.handleRequestWithContext req ctx w).2 = w := by rw [h]
  have hresp := handleRequestWithContext_of_same hsame
  rw [h] at hresp
  obtain ⟨id, -, hid⟩ := Option.map_eq_some_iff.1 hresp.symm
  have hcode := congrArg (fun resp => resp.error.map Error.code) hid
  have hne : codes.methodNotFound ≠ codes.invalidRequest := by decide
  exact hne (Option.some.inj hcode)

variable (law : B.Lawful)
include law

theorem not_rejectsNonObjects [Inhabited C] (router : Router B C σ) {items : List B.Raw}
    {item : B.Raw} (hitem : item ∈ items) (harray : IsRequestArray item) (bytes : Bytes)
    (w : World B C σ) : ¬ router.RejectsNonObjects bytes items w := by
  intro h
  obtain ⟨before, after, rfl⟩ := List.append_of_mem hitem
  have hobj : ¬ IsObject item := by
    rintro ⟨entries, hmap⟩
    obtain ⟨version, method, rest, hseq, -⟩ := harray
    cases hmap.symm.trans hseq
  obtain ⟨req, hreq⟩ :=
    Option.isSome_iff_exists.1 ((Request.deserialize_isSome hobj).2 harray)
  have hstep := (h before item after rfl hobj).1
  rw [router.handleElementBytesWithContext_get law, hreq] at hstep
  exact router.handleRequestWithContext_ne req default _ hstep

/-- The elements of a batch that are no objects are all rejected just when none of them is an array
that lists the fields of a request. -/
theorem rejectsNonObjects_iff [Inhabited C] (router : Router B C σ) (bytes : Bytes)
    (items : List B.Raw) (hbatch : router.IsBatch bytes items) (w : World B C σ) :
    router.RejectsNonObjects bytes items w ↔ ∀ item ∈ items, ¬ IsRequestArray item := by
  constructor
  · intro h item hitem harray
    exact router.not_rejectsNonObjects law hitem harray bytes w h
  · rintro h before item after rfl hobj
    have hnone : Request.deserialize item = none := by
      rw [← Option.not_isSome_iff_eq_none, Request.deserialize_isSome hobj]
      exact h item (List.mem_append_right _ List.mem_cons_self)
    have hstep (w' : World B C σ) :
        router.handleElementBytesWithContext (B.get item) default w' = (some rejected, w') := by
      rw [router.handleElementBytesWithContext_get law, hnone]
      rfl
    refine ⟨hstep _, ?_⟩
    rw [hbatch.handleBytes law, List.map_append, List.map_cons, handleElements_append,
      handleElements_eq, handleElements_cons, hstep]
    simp [Output.ofResponses]

end Router

/-! ## A router with one method -/

section Sample

open JsonText

/-- A router whose method `get` answers `null`. -/
def getRouter : Router backend Unit Unit :=
  { methods := [("get", .handler fun _ state => (.ok backend.null, state))] }

/-- The text of a batch. -/
def batchText (items : List backend.Raw) : Bytes := backend.get (backend.seq items)

theorem isBatch_batchText {items : List backend.Raw} (hne : items ≠ []) :
    getRouter.IsBatch (batchText items) items where
  text := ⟨backend.seq items, lawful.parse_get _, lawful.shape_seq items⟩
  ne_nil := hne
  length_le _ h := by cases h

/-- A call, and a notification. -/
def callAndNotification : List backend.Raw :=
  [Request.serialize { method := "get", id := some (.number 1) },
    Request.serialize { method := "get" }]

theorem isObject_callAndNotification : ∀ item ∈ callAndNotification, IsObject item := by
  intro item hitem
  simp only [callAndNotification, List.mem_cons, List.not_mem_nil, or_false] at hitem
  rcases hitem with rfl | rfl
  · exact ⟨_, lawful.shape_map _⟩
  · exact ⟨_, lawful.shape_map _⟩

theorem handleBytes_batch_callAndNotification :
    ∃ outs w', getRouter.handleEach (callAndNotification.map backend.get) ⟨(), []⟩ = (outs, w') ∧
      getRouter.handleBytes (batchText callAndNotification) ⟨(), []⟩ =
        (.ofResponses (outs.flatMap Output.responses), w') ∧
      List.Forall₂ Contributes callAndNotification outs :=
  handleBytes_batch lawful getRouter _ callAndNotification
    (isBatch_batchText (List.cons_ne_nil _ _)) isObject_callAndNotification ⟨(), []⟩

/-- The members of an object with an id, but with another version than `"2.0"`. -/
def oldVersion : List (String × backend.Raw) :=
  [("jsonrpc", backend.str "1.0"), ("method", backend.str "get"), ("id", backend.int 7)]

theorem deserialize_oldVersion : Request.deserialize (backend.map oldVersion) = none := by
  rw [← Option.not_isSome_iff_eq_none, Request.deserialize_isSome_iff]
  rintro ⟨members, hmembers, ⟨version, hversion, hshape⟩, -⟩
  have hfields : structFields Request.fields (backend.shape (backend.map oldVersion)) =
      some fun name => oldVersion.lookup name := by
    apply structFields_map lawful <;> simp [oldVersion, Request.fields]
  obtain rfl := Option.some.inj (hfields.symm.trans hmembers)
  have hstr : version = backend.str "1.0" := (Option.some.inj hversion).symm
  rw [hstr, lawful.shape_str] at hshape
  exact absurd (Shape.str.inj hshape) (by decide)

theorem parseId_oldVersion :
    parseId backend (backend.get (backend.map oldVersion)) = some (.number 7) := by
  have hfields : structFields ["id"] (backend.shape (backend.map oldVersion)) =
      some fun name => [("id", backend.int 7)].lookup name := by
    rw [lawful.shape_map]
    rfl
  have hid : deserializeIdOnly (backend.map oldVersion) = some (.number 7) := by
    rw [deserializeIdOnly, hfields]
    exact Id.deserialize_serialize lawful (.number 7)
  rw [parseId, fromSlice_get lawful, deserializeFrom, hid]
  rfl

/-- The one response to such an element does not carry its id. -/
theorem not_contributes_id :
    getRouter.IsBatch (batchText [backend.map oldVersion]) [backend.map oldVersion] ∧
      IsObject (backend.map oldVersion) ∧
      parseId backend (backend.get (backend.map oldVersion)) = some (.number 7) ∧
      ¬ ∃ resp, (getRouter.handleBytes (batchText [backend.map oldVersion]) ⟨(), []⟩).1 =
        .batch [resp] ∧ resp.id = .number 7 := by
  have hbatch := isBatch_batchText (List.cons_ne_nil (backend.map oldVersion) [])
  refine ⟨hbatch, ⟨_, lawful.shape_map _⟩, parseId_oldVersion, ?_⟩
  rintro ⟨resp, hresp, hid⟩
  rw [hbatch.handleBytes lawful, List.map_cons, Router.handleElements_cons,
    Router.handleElementBytesWithContext_get lawful, deserialize_oldVersion] at hresp
  obtain rfl := (List.singleton_inj.1 (Output.batch.inj hresp)).symm
  cases hid

/-- A batch of one `null`. -/
theorem rejectsNonObjects_null :
    getRouter.RejectsNonObjects (batchText [backend.null]) [backend.null] ⟨(), []⟩ := by
  apply (getRouter.rejectsNonObjects_iff lawful _ _
    (isBatch_batchText (List.cons_ne_nil _ _)) _).2
  rintro item hitem ⟨version, method, rest, hseq, -⟩
  obtain rfl := List.mem_singleton.1 hitem
  cases (lawful.shape_eq_null.2 rfl).symm.trans hseq

/-- An array that lists the fields of a call. -/
def callArray : backend.Raw :=
  backend.seq [backend.str "2.0", backend.str "get", backend.null, backend.int 1]

theorem isRequestArray_callArray : IsRequestArray callArray := by
  refine ⟨_, _, _, lawful.shape_seq _, lawful.shape_str _, ⟨_, lawful.shape_str _⟩, ?_⟩
  refine .inr (.inr ⟨_, _, rfl, ?_⟩)
  rw [IsId, lawful.shape_int]
  trivial

/-- A batch of such an array does not reject it. -/
theorem not_rejectsNonObjects_callArray :
    getRouter.IsBatch (batchText [callArray]) [callArray] ∧
      ¬ getRouter.RejectsNonObjects (batchText [callArray]) [callArray] ⟨(), []⟩ :=
  ⟨isBatch_batchText (List.cons_ne_nil _ _),
    getRouter.not_rejectsNonObjects lawful List.mem_cons_self isRequestArray_callArray _ _⟩

end Sample

end Jasonrpc
