import Jasonrpc.Json.Backend

/-!
# The JSON-RPC 2.0 data model

Pure data types with their JSON forms: `Version`, `Id`, `Error`, `Request` and `Response`.  A
deserializer follows the `Visitor` of its type or what serde derives for it; a serializer gives the
members in declaration order.
-/

namespace Jasonrpc

/-! ## Error codes -/

namespace codes

/-- Invalid JSON was received by the server. -/
def parseError : Int64 := -32700

/-- The JSON sent is not a valid Request object. -/
def invalidRequest : Int64 := -32600

/-- The method does not exist / is not available. -/
def methodNotFound : Int64 := -32601

/-- Internal JSON-RPC error. -/
def internalError : Int64 := -32603

end codes

variable {B : Backend} {T : Type}

/-! ## Version -/

/-- The `jsonrpc` version marker. -/
inductive Version where
  | version
deriving DecidableEq, Repr

/-- The version is the string `"2.0"`. -/
def Version.serialize (B : Backend) (_ : Version) : B.Raw := B.str "2.0"

/-- Any other string than `"2.0"` is rejected. -/
def Version.deserialize : Deserialize B Version := fun r =>
  match B.shape r with
  | .str s => if s = "2.0" then some .version else none
  | _ => none

/-! ## Id -/

/-- A request/response identifier.  `"1"` and `1` are distinct. -/
inductive Id where
  /-- A null id.  Discouraged by the spec, but accepted. -/
  | null
  | number (n : Int64)
  | string (s : String)
deriving DecidableEq, Repr

/-- The JSON form of an id. -/
def Id.serialize (B : Backend) : Id → B.Raw
  | null => B.null
  | number n => B.int n
  | string s => B.str s

/-- An integer beyond the range of `i64` becomes a string. -/
def Id.deserialize : Deserialize B Id := fun r =>
  match B.shape r with
  | .i64 n => some (.number n)
  | .u64 n =>
    match i64TryFrom n with
    | some n => some (.number n)
    | none => some (.string (toString n.toNat))
  | .str s => some (.string s)
  | .null => some .null
  | _ => none

/-- The request `id` field: present but null is `some .null`, absent is `none`. -/
def dePresentId : Deserialize B (Option Id) := fun r => (Id.deserialize r).map some

/-! ## Error -/

/-- The JSON-RPC 2.0 error object. -/
structure Error (B : Backend) where
  code : Int64
  message : String
  data : Option B.Raw := none

namespace Error

/-- Two errors are equal when their code, message, and data match; data is compared by its
bytes. -/
def eq (e other : Error B) : Prop :=
  e.code = other.code ∧ e.message = other.message ∧ e.data.map B.get = other.data.map B.get

/-- An error with the given code and message, and no data. -/
def new (code : Int64) (message : String) : Error B := { code, message }

/-- Attach data; if it cannot be serialized the error has no data. -/
def withData (e : Error B) (s : Serialize B T) (data : T) : Error B :=
  { e with data := (toRawValue s data).toOption }

/-- Attach data, or fail if it cannot be serialized. -/
def tryWithData (e : Error B) (s : Serialize B T) (data : T) : Except JsonError (Error B) :=
  (toRawValue s data).map fun raw => { e with data := some raw }

/-- Read the data as a type of the caller. -/
def dataAs (e : Error B) (d : Deserialize B T) : Option T :=
  e.data.bind fun raw => (fromRawValue d raw).toOption

/-- The answer to bytes that are no JSON. -/
def parseError : Error B := new codes.parseError "Parse error"

/-- The answer to JSON that is no request. -/
def invalidRequest : Error B := new codes.invalidRequest "Invalid Request"

/-- The answer to a call of an unknown method. -/
def methodNotFound : Error B := new codes.methodNotFound "Method not found"

/-- The answer to a failure of the server. -/
def internalError : Error B := new codes.internalError "Internal error"

/-- The fields that serde knows. -/
def fields : List String := ["code", "message", "data"]

/-- The members in declaration order; absent data is left out. -/
def members (e : Error B) : List (String × B.Raw) :=
  [("code", B.int e.code), ("message", B.str e.message)] ++ skipNone "data" e.data

/-- The JSON form of an error. -/
def serialize (e : Error B) : B.Raw := B.map e.members

/-- What serde derives: `null` data is absent. -/
def deserialize : Deserialize B (Error B) := fun r => do
  let members ← structFields fields (B.shape r)
  let code ← required members "code" deserializeI64
  let message ← required members "message" deserializeString
  let data ← optional members "data" (deserializeOption deserializeValue)
  return { code, message, data }

end Error

/-- A string as data. -/
def serializeString : Serialize B String := fun s => .ok (B.str s)

/-! ## Request -/

/-- A request, or a notification when it has no id. -/
structure Request (B : Backend) where
  jsonrpc : Version := .version
  method : String
  params : Option B.Raw := none
  id : Option Id := none

namespace Request

/-- Build a request; if the params cannot be serialized it has none. -/
def call (method : String) (s : Serialize B T) (params : T) (id : Id) : Request B :=
  { method, params := (toRawValue s params).toOption, id := some id }

/-- Build a request, or fail if the params cannot be serialized. -/
def tryCall (method : String) (s : Serialize B T) (params : T) (id : Id) :
    Except JsonError (Request B) :=
  (toRawValue s params).map fun raw => { method, params := some raw, id := some id }

/-- Build a notification; if the params cannot be serialized it has none. -/
def notification (method : String) (s : Serialize B T) (params : T) : Request B :=
  { method, params := (toRawValue s params).toOption }

/-- Build a notification, or fail if the params cannot be serialized. -/
def tryNotification (method : String) (s : Serialize B T) (params : T) :
    Except JsonError (Request B) :=
  (toRawValue s params).map fun raw => { method, params := some raw }

/-- A request without an id is a notification. -/
def isNotification (req : Request B) : Bool := req.id.isNone

/-- Set the request id, as a gateway does to rewrite it. -/
def setId (req : Request B) (id : Id) : Request B := { req with id := some id }

/-- Read the params; missing params are read as JSON `null`. -/
def paramsAs (req : Request B) (d : Deserialize B T) : Option T :=
  match req.params with
  | some raw => (fromRawValue d raw).toOption
  | none => (fromSlice d (ByteString.ascii "null")).toOption

/-- Read a single positional parameter: `[value]`, or a bare `value`. -/
def paramAs (req : Request B) (d : Deserialize B T) : Option T :=
  match req.paramsAs (deserializeTuple1 d) with
  | some value => some value
  | none => req.paramsAs d

/-- The fields that serde knows. -/
def fields : List String := ["jsonrpc", "method", "params", "id"]

/-- The members in declaration order; absent ones are left out. -/
def members (req : Request B) : List (String × B.Raw) :=
  [("jsonrpc", req.jsonrpc.serialize B), ("method", B.str req.method)] ++
    skipNone "params" req.params ++ skipNone "id" (req.id.map (Id.serialize B))

/-- The JSON form of a request. -/
def serialize (req : Request B) : B.Raw := B.map req.members

/-- What serde derives: `null` params are absent, a `null` id is present. -/
def deserialize : Deserialize B (Request B) := fun r => do
  let members ← structFields fields (B.shape r)
  let jsonrpc ← required members "jsonrpc" Version.deserialize
  let method ← required members "method" deserializeString
  let params ← optional members "params" (deserializeOption deserializeValue)
  let id ← optional members "id" dePresentId
  return { jsonrpc, method, params, id }

end Request

/-! ## Response -/

/-- A response.  The constructors set exactly one of `result` and `error`; a deserialized response
may have both or neither. -/
structure Response (B : Backend) where
  jsonrpc : Version := .version
  result : Option B.Raw := none
  error : Option (Error B) := none
  id : Id

namespace Response

/-- A successful response; if the value cannot be serialized it has no result. -/
def ofResult (id : Id) (s : Serialize B T) (value : T) : Response B :=
  { id, result := (toRawValue s value).toOption }

/-- A successful response, or a failure if the value cannot be serialized. -/
def tryResult (id : Id) (s : Serialize B T) (value : T) : Except JsonError (Response B) :=
  (toRawValue s value).map fun raw => { id, result := some raw }

/-- An error response. -/
def ofError (id : Id) (error : Error B) : Response B := { id, error := some error }

/-- A successful response from an already-serialized raw JSON result. -/
def fromRawResult (id : Id) (result : B.Raw) : Response B := { id, result := some result }

/-- The response carries an error. -/
def isError (resp : Response B) : Bool := resp.error.isSome

/-- Exactly one of `result` and `error` is set. -/
def isValid (resp : Response B) : Bool := resp.result.isSome ^^ resp.error.isSome

/-- Set the response id. -/
def setId (resp : Response B) (id : Id) : Response B := { resp with id }

/-- Read the result as a type of the caller. -/
def resultAs (resp : Response B) (d : Deserialize B T) : Option T :=
  resp.result.bind fun raw => (fromRawValue d raw).toOption

/-- The fields that serde knows. -/
def fields : List String := ["jsonrpc", "result", "error", "id"]

/-- The members in declaration order; absent ones are left out. -/
def members (resp : Response B) : List (String × B.Raw) :=
  [("jsonrpc", resp.jsonrpc.serialize B)] ++ skipNone "result" resp.result ++
    skipNone "error" (resp.error.map Error.serialize) ++ [("id", resp.id.serialize B)]

/-- The JSON form of a response. -/
def serialize (resp : Response B) : B.Raw := B.map resp.members

/-- What serde derives: a `null` result or error is absent. -/
def deserialize : Deserialize B (Response B) := fun r => do
  let members ← structFields fields (B.shape r)
  let jsonrpc ← required members "jsonrpc" Version.deserialize
  let result ← optional members "result" (deserializeOption deserializeValue)
  let error ← optional members "error" (deserializeOption Error.deserialize)
  let id ← required members "id" Id.deserialize
  return { jsonrpc, result, error, id }

end Response

/-! ## What is read -/

theorem Version.deserialize_eq_some_iff {r : B.Raw} {v : Version} :
    Version.deserialize r = some v ↔ B.shape r = .str "2.0" := by
  unfold Version.deserialize
  cases B.shape r with
  | str s => simp
  | null | bool | i64 | u64 | f64 | seq | map => simp

theorem Error.deserialize_eq_some_iff {r : B.Raw} {e : Error B} :
    Error.deserialize r = some e ↔ ∃ members, structFields Error.fields (B.shape r) = some members ∧
      required members "code" deserializeI64 = some e.code ∧
      required members "message" deserializeString = some e.message ∧
      optional members "data" (deserializeOption deserializeValue) = some e.data := by
  simp only [Error.deserialize, Option.bind_eq_bind, Option.bind_eq_some_iff]
  constructor
  · rintro ⟨members, hmembers, code, hcode, message, hmessage, data, hdata, he⟩
    obtain rfl := Option.some.inj he
    exact ⟨members, hmembers, hcode, hmessage, hdata⟩
  · rintro ⟨members, hmembers, hcode, hmessage, hdata⟩
    exact ⟨members, hmembers, _, hcode, _, hmessage, _, hdata, rfl⟩

theorem Request.deserialize_eq_some_iff {r : B.Raw} {req : Request B} :
    Request.deserialize r = some req ↔
      ∃ members, structFields Request.fields (B.shape r) = some members ∧
        required members "jsonrpc" Version.deserialize = some req.jsonrpc ∧
        required members "method" deserializeString = some req.method ∧
        optional members "params" (deserializeOption deserializeValue) = some req.params ∧
        optional members "id" dePresentId = some req.id := by
  simp only [Request.deserialize, Option.bind_eq_bind, Option.bind_eq_some_iff]
  constructor
  · rintro ⟨members, hmembers, jsonrpc, hjsonrpc, method, hmethod, params, hparams, id, hid, hreq⟩
    obtain rfl := Option.some.inj hreq
    exact ⟨members, hmembers, hjsonrpc, hmethod, hparams, hid⟩
  · rintro ⟨members, hmembers, hjsonrpc, hmethod, hparams, hid⟩
    exact ⟨members, hmembers, _, hjsonrpc, _, hmethod, _, hparams, _, hid, rfl⟩

theorem Response.deserialize_eq_some_iff {r : B.Raw} {resp : Response B} :
    Response.deserialize r = some resp ↔
      ∃ members, structFields Response.fields (B.shape r) = some members ∧
        required members "jsonrpc" Version.deserialize = some resp.jsonrpc ∧
        optional members "result" (deserializeOption deserializeValue) = some resp.result ∧
        optional members "error" (deserializeOption Error.deserialize) = some resp.error ∧
        required members "id" Id.deserialize = some resp.id := by
  simp only [Response.deserialize, Option.bind_eq_bind, Option.bind_eq_some_iff]
  constructor
  · rintro ⟨members, hmembers, jsonrpc, hjsonrpc, result, hresult, error, herror, id, hid, hresp⟩
    obtain rfl := Option.some.inj hresp
    exact ⟨members, hmembers, hjsonrpc, hresult, herror, hid⟩
  · rintro ⟨members, hmembers, hjsonrpc, hresult, herror, hid⟩
    exact ⟨members, hmembers, _, hjsonrpc, _, hresult, _, herror, _, hid, rfl⟩

/-! ## What is written -/

theorem Error.lookup_members (e : Error B) :
    e.members.lookup "code" = some (B.int e.code) ∧
      e.members.lookup "message" = some (B.str e.message) ∧ e.members.lookup "data" = e.data := by
  rw [members]
  cases e.data <;> exact ⟨rfl, rfl, rfl⟩

theorem Request.lookup_members (req : Request B) :
    req.members.lookup "jsonrpc" = some (req.jsonrpc.serialize B) ∧
      req.members.lookup "method" = some (B.str req.method) ∧
      req.members.lookup "params" = req.params ∧
      req.members.lookup "id" = req.id.map (Id.serialize B) := by
  rw [members]
  cases req.params <;> cases req.id <;> exact ⟨rfl, rfl, rfl, rfl⟩

theorem Response.lookup_members (resp : Response B) :
    resp.members.lookup "jsonrpc" = some (resp.jsonrpc.serialize B) ∧
      resp.members.lookup "result" = resp.result ∧
      resp.members.lookup "error" = resp.error.map Error.serialize ∧
      resp.members.lookup "id" = some (resp.id.serialize B) := by
  rw [members]
  cases resp.result <;> cases resp.error <;> exact ⟨rfl, rfl, rfl, rfl⟩

/-! ## Round trips -/

section RoundTrip

variable (law : B.Lawful)
include law

theorem Version.deserialize_serialize (v : Version) :
    Version.deserialize (v.serialize B) = some v := by
  rw [Version.deserialize, Version.serialize, law.shape_str]
  rfl

/-- Every id is read back as it was written. -/
theorem Id.deserialize_serialize (id : Id) : Id.deserialize (id.serialize B) = some id := by
  cases id with
  | null => rw [Id.serialize, Id.deserialize, law.shape_eq_null.2 rfl]
  | number n =>
    rw [Id.serialize, Id.deserialize, law.shape_int]
    by_cases h : n < 0
    · rw [if_pos h]
    · rw [if_neg h]
      dsimp only
      rw [i64TryFrom_toUInt64 h]
  | string s => rw [Id.serialize, Id.deserialize, law.shape_str]

/-- What an error reads back as. -/
def Error.readBack (e : Error B) : Error B := { e with data := Jasonrpc.readBack e.data }

theorem Error.deserialize_serialize (e : Error B) :
    Error.deserialize e.serialize = some e.readBack := by
  have hfields : structFields Error.fields (B.shape e.serialize) =
      some fun name => e.members.lookup name := by
    apply structFields_map law <;> rw [Error.members] <;> cases e.data <;>
      simp [skipNone, Error.fields]
  obtain ⟨hcode, hmessage, hdata⟩ := e.lookup_members
  rw [Error.deserialize_eq_some_iff]
  refine ⟨_, hfields, ?_, ?_, optional_value hdata⟩
  · rw [required, hcode]
    exact deserializeI64_int law e.code
  · rw [required, hmessage]
    exact deserializeString_str law e.message

/-- What a request reads back as. -/
def Request.readBack (req : Request B) : Request B :=
  { req with params := Jasonrpc.readBack req.params }

/-- A request is read back up to `null` params, with its id: present stays present, absent stays
absent. -/
theorem Request.deserialize_serialize (req : Request B) :
    Request.deserialize req.serialize = some req.readBack := by
  have hfields : structFields Request.fields (B.shape req.serialize) =
      some fun name => req.members.lookup name := by
    apply structFields_map law <;> rw [Request.members] <;> cases req.params <;> cases req.id <;>
      simp [skipNone, Request.fields]
  obtain ⟨hjsonrpc, hmethod, hparams, hid⟩ := req.lookup_members
  rw [Request.deserialize_eq_some_iff]
  refine ⟨_, hfields, ?_, ?_, optional_value hparams, ?_⟩
  · rw [required, hjsonrpc]
    exact Version.deserialize_serialize law req.jsonrpc
  · rw [required, hmethod]
    exact deserializeString_str law req.method
  · rw [optional, hid, readBack]
    cases req.id with
    | none => rfl
    | some id =>
      simp only [Option.map_some]
      rw [dePresentId, Id.deserialize_serialize law, Option.map_some]

/-- Params are read as they were written: lost `null` params are read as `null`. -/
theorem Request.paramsAs_readBack (req : Request B) (d : Deserialize B T) :
    req.readBack.paramsAs d = req.paramsAs d := by
  unfold Request.paramsAs Request.readBack
  cases req.params with
  | none => rfl
  | some raw =>
    rw [Jasonrpc.readBack, Option.filter_some]
    by_cases hnull : (B.shape raw).isNull = true
    · obtain rfl := (isNull_iff law).1 hnull
      simp only [hnull, Bool.not_true, Bool.false_eq_true, if_false]
      rw [← law.get_null]
      rfl
    · simp [hnull]

/-- What a response reads back as. -/
def Response.readBack (resp : Response B) : Response B :=
  { resp with
    result := Jasonrpc.readBack resp.result
    error := resp.error.map Error.readBack }

/-- A response is read back up to a `null` result and `null` error data. -/
theorem Response.deserialize_serialize (resp : Response B) :
    Response.deserialize resp.serialize = some resp.readBack := by
  have hfields : structFields Response.fields (B.shape resp.serialize) =
      some fun name => resp.members.lookup name := by
    apply structFields_map law <;> rw [Response.members] <;> cases resp.result <;>
      cases resp.error <;> simp [skipNone, Response.fields]
  obtain ⟨hjsonrpc, hresult, herror, hid⟩ := resp.lookup_members
  rw [Response.deserialize_eq_some_iff]
  refine ⟨_, hfields, ?_, optional_value hresult, ?_, ?_⟩
  · rw [required, hjsonrpc]
    exact Version.deserialize_serialize law resp.jsonrpc
  · rw [optional, herror, readBack]
    cases resp.error with
    | none => rfl
    | some e =>
      simp only [Option.map_some]
      rw [deserializeOption_eq, Error.serialize, law.shape_map, ← Error.serialize,
        Error.deserialize_serialize law]
      rfl
  · rw [required, hid]
    exact Id.deserialize_serialize law resp.id

end RoundTrip

end Jasonrpc
