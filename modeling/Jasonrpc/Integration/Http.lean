import Jasonrpc.Server

/-!
# HTTP dispatch

What the HTTP adapters share: a request body is dispatched through the router, and the outcome is a
status with a response body.  Requests on one connection are dispatched one after another
(`dispatchAll`); each gets its context from the closure of the adapter, which may read and change the
state that the handlers share.
-/

namespace Jasonrpc

open ByteString

variable {B : Backend} {C σ : Type}

/-- The body of an error response with a `null` id; empty if it cannot be serialized. -/
def errorBody (e : Error B) : Bytes :=
  (toVec (fun resp : Response B => .ok resp.serialize) (.ofError .null e)).toOption.getD []

/-- The closure that builds the context of each request. -/
abbrev MakeContext (C σ : Type) := σ → C × σ

/-- The context of the next request. -/
def MakeContext.next (makeCtx : MakeContext C σ) (w : World B C σ) : C × World B C σ :=
  let (ctx, state) := makeCtx w.state
  (ctx, { w with state })

/-- The outcome of dispatching an HTTP request body through the router. -/
structure HttpOutcome where
  /-- The HTTP status code to send. -/
  status : UInt16
  /-- The response body bytes.  Empty when `status` is 204. -/
  body : Bytes
deriving DecidableEq, Repr

namespace Http

/-- The body of a top-level internal error. -/
def internalErrorBody (B : Backend) : Bytes := errorBody (B := B) .internalError

/-- Dispatch a request body with per-request context. -/
def dispatchWithContext (router : Router B C σ) (body : Bytes) (ctx : C) (w : World B C σ) :
    HttpOutcome × World B C σ :=
  let (output, w) := router.handleBytesWithContext body ctx w
  match output.toBytes with
  | .ok (some bytes) => ({ status := 200, body := bytes }, w)
  | .ok none => ({ status := 204, body := [] }, w)
  | .error _ => ({ status := 200, body := internalErrorBody B }, w)

/-- Dispatch the next request body of a connection. -/
def dispatchNext (router : Router B C σ) (makeCtx : MakeContext C σ) (body : Bytes)
    (w : World B C σ) : HttpOutcome × World B C σ :=
  let (ctx, w) := makeCtx.next w
  dispatchWithContext router body ctx w

/-- Request bodies dispatched one after another. -/
def dispatchAll (router : Router B C σ) (makeCtx : MakeContext C σ) :
    List Bytes → World B C σ → List HttpOutcome × World B C σ
  | [], w => ([], w)
  | body :: bodies, w =>
    let (outcome, w) := dispatchNext router makeCtx body w
    let (outcomes, w) := dispatchAll router makeCtx bodies w
    (outcome :: outcomes, w)

/-- The bodies sent with the status 200. -/
def okBodies (outcomes : List HttpOutcome) : List Bytes :=
  (outcomes.filter fun outcome => outcome.status = 200).map HttpOutcome.body

theorem okBodies_cons (outcome : HttpOutcome) (outcomes : List HttpOutcome) :
    okBodies (outcome :: outcomes) = okBodies [outcome] ++ okBodies outcomes := by
  unfold okBodies
  rw [← List.map_append, ← List.filter_append, List.singleton_append]

end Http

end Jasonrpc
