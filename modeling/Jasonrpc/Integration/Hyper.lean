import Jasonrpc.Integration.Http
import Jasonrpc.Lib.Http

/-!
# The HTTP services

What the `hyper` and the `tower` adapter make of a request: its body is collected, dispatched through
the router with the context of the request, and the outcome becomes a response.  A service answers
every request with a success (`isSuccess_serveRequest`).
-/

namespace Jasonrpc

open ByteString

variable {B : Backend} {C σ : Type}

namespace Http

/-- The body of a top-level parse error. -/
def parseErrorBody (B : Backend) : Bytes := errorBody (B := B) .parseError

/-- A response with a JSON body. -/
def jsonResponse (status : UInt16) (body : Bytes) : HttpResponse :=
  { status, headers := (∅ : HeaderMap).insert "content-type" (ascii "application/json"), body }

/-- The status code of a number, or 200. -/
def statusOf (n : UInt16) : UInt16 := if 100 ≤ n ∧ n < 1000 then n else 200

/-- Dispatch an HTTP request through the router; its body is `none` if it could not be read. -/
def serveRequest (router : Router B C σ) (body : Option Bytes) (ctx : C) (w : World B C σ) :
    HttpResponse × World B C σ :=
  match body with
  | none => (jsonResponse 200 (parseErrorBody B), w)
  | some body =>
    let (outcome, w) := dispatchWithContext router body ctx w
    if outcome.status = 204 then ({ status := 204, headers := ∅, body := [] }, w)
    else (jsonResponse (statusOf outcome.status) outcome.body, w)

/-- The `tower` service does the same. -/
def RpcService.call (router : Router B C σ) (body : Option Bytes) (ctx : C) (w : World B C σ) :
    HttpResponse × World B C σ :=
  serveRequest router body ctx w

/-- What is sent for a request body: its response has the body, and a status to match. -/
theorem serveRequest_some (router : Router B C σ) (body : Bytes) (ctx : C) (w : World B C σ) :
    serveRequest router (some body) ctx w =
      (match (router.handleBytesWithContext body ctx w).1.toBytes with
        | .ok (some bytes) => jsonResponse 200 bytes
        | .ok none => { status := 204, headers := ∅, body := [] }
        | .error _ => jsonResponse 200 (internalErrorBody B),
      (router.handleBytesWithContext body ctx w).2) := by
  rw [serveRequest, dispatchWithContext]
  rcases router.handleBytesWithContext body ctx w with ⟨output, w'⟩
  dsimp only
  rcases output.toBytes with e | _ | bytes <;> rfl

theorem body_serveRequest (router : Router B C σ) (body : Bytes) (ctx : C) (w : World B C σ) :
    (serveRequest router (some body) ctx w).1.body =
      (dispatchWithContext router body ctx w).1.body := by
  rw [serveRequest_some, dispatchWithContext]
  rcases router.handleBytesWithContext body ctx w with ⟨output, w'⟩
  dsimp only
  rcases output.toBytes with e | _ | bytes <;> rfl

theorem isSuccess_serveRequest (router : Router B C σ) (body : Option Bytes) (ctx : C)
    (w : World B C σ) : (serveRequest router body ctx w).1.isSuccess := by
  cases body with
  | none => rfl
  | some body =>
    rw [serveRequest_some]
    rcases (router.handleBytesWithContext body ctx w).1.toBytes with e | _ | bytes <;> rfl

end Http

end Jasonrpc
