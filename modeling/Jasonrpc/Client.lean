import Jasonrpc.Lib.Duration
import Jasonrpc.Protocol

/-!
# Client helpers

Construction of request bytes and matching of response bytes back to typed results, without I/O.
-/

namespace Jasonrpc

open ByteString

variable {B : Backend} {P T : Type}

/-- Errors surfaced by the client; `E` are the transport's own errors. -/
inductive ClientError (B : Backend) (E : Type) where
  /-- (De)serialization or other protocol-level failure. -/
  | protocol (e : JsonError)
  /-- The peer returned a JSON-RPC error object. -/
  | rpc (e : Error B)
  /-- The response id did not match the request id. -/
  | idMismatch
  /-- The response had neither/both of `result` and `error`. -/
  | malformedResponse
  /-- The underlying transport failed. -/
  | transport (e : E)
  /-- The request timed out before a response was received. -/
  | timeout (d : Duration)

/-- Monotonic request-id allocator. -/
structure IdGen where
  next : UInt64 := 1

/-- Allocate the next numeric id: the counter is cast to `i64`, and wraps. -/
def IdGen.nextId (ids : IdGen) : Id × IdGen := (.number ids.next.toInt64, ⟨ids.next + 1⟩)

/-- The `n`-th id, from 0, of an allocator whose counter stands at `start`. -/
def IdGen.nthFrom (start : UInt64) (n : ℕ) : Id := .number (start + UInt64.ofNat n).toInt64

/-- The `n`-th id of an allocator, from 0. -/
def IdGen.nth (n : ℕ) : Id := .number (1 + UInt64.ofNat n).toInt64

theorem IdGen.nthFrom_injective {start : UInt64} {i j : ℕ} (hi : i < 2 ^ 64) (hj : j < 2 ^ 64)
    (h : nthFrom start i = nthFrom start j) : i = j := by
  have hadd : start + UInt64.ofNat i = start + UInt64.ofNat j :=
    Int64.ofUInt64.inj (Id.number.inj h)
  have hcount := congrArg UInt64.toNat ((UInt64.add_right_inj start).1 hadd)
  rwa [UInt64.toNat_ofNat_of_lt' hi, UInt64.toNat_ofNat_of_lt' hj] at hcount

theorem IdGen.nth_injective {i j : ℕ} (hi : i < 2 ^ 64) (hj : j < 2 ^ 64) (h : nth i = nth j) :
    i = j :=
  nthFrom_injective hi hj h

/-- Serialize a call request to bytes, returning the id used for correlation. -/
def encodeCall (E : Type) (method : String) (s : Serialize B P) (params : P) (id : Id) :
    Except (ClientError B E) (Bytes × Id) := do
  let req ← (Request.tryCall method s params id).mapError .protocol
  let bytes ← (toVec (fun req : Request B => .ok req.serialize) req).mapError .protocol
  return (bytes, id)

/-- Serialize a notification to bytes. -/
def encodeNotification (E : Type) (method : String) (s : Serialize B P) (params : P) :
    Except (ClientError B E) Bytes := do
  let req ← (Request.tryNotification method s params).mapError .protocol
  (toVec (fun req : Request B => .ok req.serialize) req).mapError .protocol

/-- Parse response bytes, verify the id matches, and deserialize the result. -/
def decodeResult (E : Type) (d : Deserialize B T) (bytes : Bytes) (expected : Id) :
    Except (ClientError B E) T := do
  let resp ← (fromSlice Response.deserialize bytes).mapError .protocol
  if resp.id ≠ expected then throw .idMismatch
  match resp.result, resp.error with
  | some raw, none => (fromRawValue d raw).mapError .protocol
  | none, some e => throw (.rpc e)
  | _, _ => throw .malformedResponse

/-- The derived deserializer of a struct with the one field `id`. -/
def deserializeIdOnly : Deserialize B Id := fun r => do
  let members ← structFields ["id"] (B.shape r)
  required members "id" Id.deserialize

/-- Parse just the `id` field out of a frame, without fully typing it. -/
def parseId (B : Backend) (frame : Bytes) : Option Id :=
  (fromSlice (B := B) deserializeIdOnly frame).toOption

/-! ## Calls and their ids -/

theorem encodeCall_eq_ok {E : Type} {method : String} {s : Serialize B P} {params : P}
    {id : Id} {raw : B.Raw} (h : s params = .ok raw) :
    encodeCall E method s params id =
      .ok (B.get { method, params := some raw, id := some id : Request B }.serialize, id) := by
  rw [encodeCall, Request.tryCall, toRawValue, h]
  rfl

section Law

variable (law : B.Lawful)
include law

/-- The id of an encoded request is recovered from its bytes. -/
theorem parseId_request {req : Request B} {id : Id} (h : req.id = some id) :
    parseId B (B.get req.serialize) = some id := by
  have hknown : (req.members.filter fun entry => ["id"].contains entry.1) =
      [("id", id.serialize B)] := by
    rw [Request.members, h]
    cases req.params <;> rfl
  have hfields : structFields ["id"] (B.shape req.serialize) =
      some fun name => [("id", id.serialize B)].lookup name := by
    rw [Request.serialize, law.shape_map, structFields]
    simp only [hknown]
    rfl
  have hid : deserializeIdOnly req.serialize = some id := by
    rw [deserializeIdOnly, hfields]
    exact Id.deserialize_serialize law id
  rw [parseId, fromSlice_get law, deserializeFrom, hid]
  rfl

/-- The id of an encoded response is recovered from its bytes. -/
theorem parseId_response (resp : Response B) :
    parseId B (B.get resp.serialize) = some resp.id := by
  have hknown : (resp.members.filter fun entry => ["id"].contains entry.1) =
      [("id", resp.id.serialize B)] := by
    rw [Response.members]
    cases resp.result <;> cases resp.error <;> rfl
  have hfields : structFields ["id"] (B.shape resp.serialize) =
      some fun name => [("id", resp.id.serialize B)].lookup name := by
    rw [Response.serialize, law.shape_map, structFields]
    simp only [hknown]
    rfl
  have hid : deserializeIdOnly resp.serialize = some resp.id := by
    rw [deserializeIdOnly, hfields]
    exact Id.deserialize_serialize law resp.id
  rw [parseId, fromSlice_get law, deserializeFrom, hid]
  rfl

theorem parseId_encodeCall {E : Type} {method : String} {s : Serialize B P} {params : P}
    {id id' : Id} {bytes : Bytes} (h : encodeCall E method s params id = .ok (bytes, id')) :
    id' = id ∧ parseId B bytes = some id := by
  cases hparams : s params with
  | error e =>
    rw [encodeCall, Request.tryCall, toRawValue, hparams] at h
    cases h
  | ok raw =>
    rw [encodeCall_eq_ok hparams] at h
    obtain ⟨rfl, rfl⟩ := Prod.mk.inj (Except.ok.inj h)
    exact ⟨rfl, parseId_request law rfl⟩

end Law

end Jasonrpc
