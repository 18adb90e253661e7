import Jasonrpc.Lib.Decimal
import Jasonrpc.Protocol

/-!
# Method router and request dispatch

A handler runs on a parsed request and on the state `σ` that all handlers share, and leaves a raw
result or a protocol error.  Dispatch threads a `World` through the handlers it invokes: that state,
and the record of the invocations made.
-/

namespace Jasonrpc

open ByteString

variable {B : Backend} {C σ T : Type}

/-! ## Handlers -/

/-- A handler of requests. -/
abbrev Handler (B : Backend) (σ : Type) := Request B → σ → Except (Error B) B.Raw × σ

/-- A handler that receives the per-request context alongside. -/
abbrev HandlerWithContext (B : Backend) (C σ : Type) :=
  Request B → C → σ → Except (Error B) B.Raw × σ

/-- Serialize a handler's value once; a failure is an internal error with the message as data. -/
def serializeValue (s : Serialize B T) : Except (Error B) T → Except (Error B) B.Raw
  | .error e => .error e
  | .ok value =>
    match toRawValue s value with
    | .error e => .error (Error.internalError.withData serializeString e.message)
    | .ok raw => .ok raw

/-- A closure whose value is serializable is a handler. -/
def Handler.ofClosure (s : Serialize B T) (f : Request B → σ → Except (Error B) T × σ) :
    Handler B σ := fun req state => ((f req state).map (serializeValue s) id)

/-- A closure that receives the context is a handler as well. -/
def HandlerWithContext.ofClosure (s : Serialize B T)
    (f : Request B → C → σ → Except (Error B) T × σ) : HandlerWithContext B C σ :=
  fun req ctx state => ((f req ctx state).map (serializeValue s) id)

/-- A registered method, either context-free or context-aware. -/
inductive Method (B : Backend) (C σ : Type) where
  | handler (h : Handler B σ)
  | withContext (h : HandlerWithContext B C σ)

/-- One invocation of a handler. -/
structure Invocation (B : Backend) (C : Type) where
  req : Request B
  ctx : Option C

/-- The handlers' shared state and the invocations so far. -/
structure World (B : Backend) (C σ : Type) where
  state : σ
  calls : List (Invocation B C) := []

/-- What a handler makes of a request in a state. -/
def Method.outcome (m : Method B C σ) (req : Request B) (ctx : C) (state : σ) :
    Except (Error B) B.Raw × σ :=
  match m with
  | handler h => h req state
  | withContext h => h req ctx state

/-- The invocation of a method, with the context where the handler receives it. -/
def Method.invocation (m : Method B C σ) (req : Request B) (ctx : C) : Invocation B C :=
  match m with
  | handler _ => ⟨req, none⟩
  | withContext _ => ⟨req, some ctx⟩

theorem Method.invocation_injective (m : Method B C σ) {ctx : C} {req req' : Request B}
    (h : m.invocation req ctx = m.invocation req' ctx) : req = req' := by
  cases m <;> exact congrArg Invocation.req h

/-- Invoke a method: the invocation is recorded, and the state is what the handler leaves. -/
def Method.call (m : Method B C σ) (req : Request B) (ctx : C) (w : World B C σ) :
    Except (Error B) B.Raw × World B C σ :=
  let (result, state) := m.outcome req ctx w.state
  (result, ⟨state, w.calls ++ [m.invocation req ctx]⟩)

/-! ## The router -/

/-- A method registry. -/
structure Router (B : Backend) (C σ : Type) where
  methods : List (String × Method B C σ) := []
  /-- Maximum number of entries allowed in a single batch. -/
  maxBatchLen : Option ℕ := none

namespace Router

/-- Cap the number of entries accepted in a single batch request. -/
def withMaxBatchLen (router : Router B C σ) (max : ℕ) : Router B C σ :=
  { router with maxBatchLen := some max }

/-- Register a method; `none` is the panic at a name registered twice. -/
def insert (router : Router B C σ) (name : String) (m : Method B C σ) : Option (Router B C σ) :=
  match router.methods.lookup name with
  | some _ => none
  | none => some { router with methods := (name, m) :: router.methods }

/-- Register a handler. -/
def register (router : Router B C σ) (name : String) (h : Handler B σ) :
    Option (Router B C σ) :=
  router.insert name (.handler h)

/-- Register a handler that receives the context. -/
def registerWithContext (router : Router B C σ) (name : String) (h : HandlerWithContext B C σ) :
    Option (Router B C σ) :=
  router.insert name (.withContext h)

end Router

/-! ## Dispatch -/

/-- The output of processing one or more requests. -/
inductive Output (B : Backend) where
  /-- No response should be sent. -/
  | empty
  | single (resp : Response B)
  /-- Never empty. -/
  | batch (resps : List (Response B))

namespace Output

/-- Serialize this output to wire bytes: `none` when there is nothing to send. -/
def toBytes (out : Output B) : Except (Error B) (Option Bytes) :=
  let mapErr (e : JsonError) : Error B := Error.internalError.withData serializeString e.message
  match out with
  | empty => .ok none
  | single r =>
    ((toVec (fun r : Response B => .ok r.serialize) r).map some).mapError mapErr
  | batch rs =>
    ((toVec (fun rs : List (Response B) => .ok (B.seq (rs.map Response.serialize))) rs).map
      some).mapError mapErr

end Output

/-- The answer to bytes that are no request: an invalid request if they are JSON, a parse error if
not. -/
def rejection (B : Backend) (bytes : Bytes) : Output B :=
  let isJson := (fromSlice (B := B) deserializeValue bytes).toBool
  .single (.ofError .null (if isJson then .invalidRequest else .parseError))

/-- The response with id `id` to what a handler returns. -/
def respond (id : Id) : Except (Error B) B.Raw → Response B
  | .ok raw => .fromRawResult id raw
  | .error error => .ofError id error

namespace Router

/-- Process a single request with per-request context; `none` for a notification. -/
def handleRequestWithContext (router : Router B C σ) (req : Request B) (ctx : C)
    (w : World B C σ) : Option (Response B) × World B C σ :=
  let id := if req.isNotification then none else some (req.id.getD .null)
  let (result, w) :=
    match router.methods.lookup req.method with
    | some handler => handler.call req ctx w
    | none => (.error .methodNotFound, w)
  (id.map fun id => respond id result, w)

/-- Process one batch element, given its raw JSON bytes. -/
def handleElementBytesWithContext (router : Router B C σ) (bytes : Bytes) (ctx : C)
    (w : World B C σ) : Option (Response B) × World B C σ :=
  match fromSlice Request.deserialize bytes with
  | .ok req => router.handleRequestWithContext req ctx w
  | .error _ => (some (.ofError .null .invalidRequest), w)

/-- The batch elements one at a time, in order, with the responses so far. -/
def handleElements (router : Router B C σ) (ctx : C) :
    List Bytes → List (Response B) → World B C σ → List (Response B) × World B C σ
  | [], responses, w => (responses, w)
  | item :: items, responses, w =>
    let (resp, w) := router.handleElementBytesWithContext item ctx w
    router.handleElements ctx items (responses ++ resp.toList) w

/-- Process a batch. -/
def handleBatchBytesWithContext (router : Router B C σ) (bytes : Bytes) (ctx : C)
    (w : World B C σ) : Output B × World B C σ :=
  match splitArray B bytes with
  | .error _ => (rejection B bytes, w)
  | .ok items =>
    if items.isEmpty then (.single (.ofError .null .invalidRequest), w)
    else
      match router.maxBatchLen.filter (items.length > ·) with
      | some max =>
        let data := "batch of " ++ toString items.length ++ " entries exceeds maximum of " ++
          toString max
        (.single (.ofError .null (Error.invalidRequest.withData serializeString data)), w)
      | none =>
        let (responses, w) := router.handleElements ctx items [] w
        (if responses.isEmpty then .empty else .batch responses, w)

/-- Parse raw bytes and process them with per-request context. -/
def handleBytesWithContext (router : Router B C σ) (bytes : Bytes) (ctx : C) (w : World B C σ) :
    Output B × World B C σ :=
  match firstByte bytes with
  | none => (.single (.ofError .null .invalidRequest), w)
  | some first =>
    if first = lbracket then router.handleBatchBytesWithContext bytes ctx w
    else if first = lbrace then
      match fromSlice Request.deserialize bytes with
      | .ok req =>
        match router.handleRequestWithContext req ctx w with
        | (some resp, w) => (.single resp, w)
        | (none, w) => (.empty, w)
      | .error _ => (rejection B bytes, w)
    else (rejection B bytes, w)

/-- Parse raw bytes and process them. -/
def handleBytes [Inhabited C] (router : Router B C σ) (bytes : Bytes) (w : World B C σ) :
    Output B × World B C σ :=
  router.handleBytesWithContext bytes default w

end Router

/-! ## One message -/

/-- A JSON text is an object. -/
def IsObject (r : B.Raw) : Prop := ∃ entries, B.shape r = .map entries

/-- The output of a message that is answered or not. -/
def Output.ofOption : Option (Response B) → Output B
  | none => .empty
  | some resp => .single resp

theorem rejection_of_parse {bytes : Bytes} {r : B.Raw} (h : B.parse bytes = .ok r) :
    rejection B bytes = .single (.ofError .null .invalidRequest) := by
  rw [rejection, fromSlice_of_parse _ h]
  rfl

namespace Router

theorem handleElementBytesWithContext_parse (router : Router B C σ) {bytes : Bytes} {item : B.Raw}
    (h : B.parse bytes = .ok item) (ctx : C) (w : World B C σ) :
    router.handleElementBytesWithContext bytes ctx w =
      match Request.deserialize item with
      | some req => router.handleRequestWithContext req ctx w
      | none => (some (.ofError .null .invalidRequest), w) := by
  rw [handleElementBytesWithContext, fromSlice_of_parse _ h, deserializeFrom]
  cases Request.deserialize item <;> rfl

/-- An object is handled alone as it is within a batch. -/
theorem handleBytesWithContext_object (law : B.Lawful) (router : Router B C σ) {bytes : Bytes}
    {r : B.Raw} (h : B.parse bytes = .ok r) (hobj : IsObject r) (ctx : C) (w : World B C σ) :
    router.handleBytesWithContext bytes ctx w =
      (.ofOption (router.handleElementBytesWithContext bytes ctx w).1,
        (router.handleElementBytesWithContext bytes ctx w).2) := by
  have hfirst : firstByte bytes = some lbrace := (law.firstByte_eq_lbrace h).2 hobj
  rw [handleBytesWithContext, handleElementBytesWithContext, hfirst]
  dsimp only
  rw [if_neg (by decide), if_pos rfl]
  cases fromSlice Request.deserialize bytes with
  | error _ =>
    dsimp only
    rw [rejection_of_parse h]
    rfl
  | ok req =>
    dsimp only
    rcases router.handleRequestWithContext req ctx w with ⟨_ | resp, w'⟩ <;> rfl

end Router

end Jasonrpc
