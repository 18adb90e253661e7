import Jasonrpc.Client
import Jasonrpc.Server.Echo

/-!
# What is accepted as a success response

`decode_result` accepts an object with a result and without an error, of the expected id.  The
deserializers that serde derives accept more: an array of the fields in their order, and an error
that is `null`; and the integers beyond `i64::MAX` are accepted as the ids that they are read as
(`accepted_of_decodeResult`).
-/

namespace Jasonrpc

open ByteString

variable {B : Backend} {T E : Type}

/-- The text presents the fields of a response: as an object in which none of them stands twice, or
as an array of all of them in their order. -/
inductive Presents (r : B.Raw) :
    Option B.Raw → Option B.Raw → Option B.Raw → Option B.Raw → Prop where
  | object {entries : List (String × B.Raw)} (shape_eq : B.shape r = .map entries)
    (once : Once Response.fields entries) :
    Presents r (entries.lookup "jsonrpc") (entries.lookup "result") (entries.lookup "error")
      (entries.lookup "id")
  | array {jsonrpc result error id : B.Raw}
    (shape_eq : B.shape r = .seq [jsonrpc, result, error, id]) :
    Presents r (some jsonrpc) (some result) (some error) (some id)

/-- The bytes present a success response of the id `expected` with the result `x`: the version is
`"2.0"`, the id is a value that is read as `expected`, the result is not `null` and is read as `x`,
and the error is absent or `null`. -/
def Accepted (d : Deserialize B T) (bytes : Bytes) (expected : Id) (x : T) : Prop :=
  ∃ r jsonrpc result error id v, B.parse bytes = .ok r ∧
    Presents r (some jsonrpc) (some result) error (some id) ∧ B.shape jsonrpc = .str "2.0" ∧
      IdValue.ofRaw id = some v ∧ v.echo = IdValue.ofId expected ∧
        result ≠ B.null ∧ d result = some x ∧ ∀ e, error = some e → e = B.null

/-- The bytes are an object that is a success response of the id `expected` with the result `x`, and
has no error member. -/
def Genuine (d : Deserialize B T) (bytes : Bytes) (expected : Id) (x : T) : Prop :=
  ∃ r entries jsonrpc result id, B.parse bytes = .ok r ∧ B.shape r = .map entries ∧
    entries.lookup "jsonrpc" = some jsonrpc ∧ B.shape jsonrpc = .str "2.0" ∧
      entries.lookup "id" = some id ∧ IdValue.ofRaw id = some (IdValue.ofId expected) ∧
        entries.lookup "result" = some result ∧ d result = some x ∧ entries.lookup "error" = none

/-! ## What the deserializers accept -/

/-- The fields of a response are presented by the text they are read from. -/
theorem presents_of_structFields {r : B.Raw} {members : String → Option B.Raw}
    (h : structFields Response.fields (B.shape r) = some members) (hid : (members "id").isSome) :
    Presents r (members "jsonrpc") (members "result") (members "error") (members "id") := by
  cases hshape : B.shape r with
  | map entries =>
    rw [hshape, structFields] at h
    rw [Option.ite_none_right_eq_some] at h
    obtain ⟨honce, h⟩ := h
    obtain rfl := Option.some.inj h
    have hlookup (name : String) (hname : name ∈ Response.fields) :=
      lookup_filter_contains hname entries
    dsimp only
    rw [hlookup "jsonrpc" (by decide), hlookup "result" (by decide), hlookup "error" (by decide),
      hlookup "id" (by decide)]
    exact .object hshape honce
  | seq items =>
    rw [hshape, structFields] at h
    rw [Option.ite_none_right_eq_some] at h
    obtain ⟨hle, h⟩ := h
    obtain rfl := Option.some.inj h
    rcases items with _ | ⟨jsonrpc, _ | ⟨result, _ | ⟨error, _ | ⟨id, _ | ⟨extra, items⟩⟩⟩⟩⟩
    · cases hid
    · cases hid
    · cases hid
    · cases hid
    · exact .array hshape
    · simp only [Response.fields, List.length_cons, List.length_nil] at hle
      omega
  | null | bool | i64 | u64 | f64 | str =>
    rw [hshape] at h
    cases h

theorem Presents.structFields {r : B.Raw} {jsonrpc result error id : Option B.Raw}
    (h : Presents r jsonrpc result error id) :
    ∃ members, structFields Response.fields (B.shape r) = some members ∧
      members "jsonrpc" = jsonrpc ∧ members "result" = result ∧ members "error" = error ∧
        members "id" = id := by
  cases h with
  | object hshape honce =>
    obtain ⟨members, hmembers, hlookup⟩ := structFields_of_shape_map hshape honce
    exact ⟨members, hmembers, hlookup _ (by decide), hlookup _ (by decide), hlookup _ (by decide),
      hlookup _ (by decide)⟩
  | array hshape =>
    rw [hshape]
    exact ⟨_, rfl, rfl, rfl, rfl, rfl⟩

/-- A value is decoded from a response of the id with a result and no error. -/
theorem decodeResult_eq_ok_iff {d : Deserialize B T} {bytes : Bytes} {expected : Id} {x : T} :
    decodeResult E d bytes expected = .ok x ↔ ∃ resp raw,
      fromSlice Response.deserialize bytes = .ok resp ∧ resp.id = expected ∧
        resp.result = some raw ∧ resp.error = none ∧ fromRawValue d raw = .ok x := by
  unfold decodeResult
  simp only [bind, Except.bind]
  cases fromSlice Response.deserialize bytes with
  | error e => simp [Except.mapError]
  | ok resp =>
    simp only [Except.mapError]
    by_cases hid : resp.id = expected
    · cases hresult : resp.result with
      | none => cases resp.error <;> simp [hid, hresult, throw, throwThe, MonadExceptOf.throw]
      | some raw =>
        cases herror : resp.error with
        | none => cases hvalue : fromRawValue d raw <;> simp [hid, hresult, herror, hvalue]
        | some e => simp [hid, hresult, herror, throw, throwThe, MonadExceptOf.throw]
    · simp [hid, throw, throwThe, MonadExceptOf.throw]

section Law

variable (law : B.Lawful)
include law

/-- The result of what is accepted is decoded. -/
theorem Accepted.decodeResult {d : Deserialize B T} {bytes : Bytes} {expected : Id} {x : T}
    (h : Accepted d bytes expected x) : decodeResult E d bytes expected = .ok x := by
  obtain ⟨r, jsonrpc, result, error, id, v, hparse, hpresents, hversion, hid, hecho, hresult, hx,
    herror⟩ := h
  obtain ⟨members, hmembers, hjsonrpc, hres, herr, hidMember⟩ := hpresents.structFields
  have hresp : Response.deserialize r = some { result := some result, id := expected } := by
    rw [Response.deserialize_eq_some_iff]
    refine ⟨members, hmembers, ?_, ?_, ?_, ?_⟩
    · rw [required, hjsonrpc]
      exact Version.deserialize_eq_some_iff.2 hversion
    · apply optional_eq_some_some_iff.2
      exact ⟨result, hres, Bool.eq_false_iff.2 (mt (isNull_iff law).1 hresult), rfl⟩
    · apply optional_eq_some_none_iff.2
      rw [herr]
      exact fun e he => (isNull_iff law).2 (herror e he)
    · rw [required, hidMember]
      exact Id.deserialize_eq_some_iff.2 ⟨v, hid, hecho⟩
  apply decodeResult_eq_ok_iff.2
  refine ⟨_, result, fromSlice_eq_ok_iff.2 ⟨r, hparse, hresp⟩, rfl, rfl, rfl, ?_⟩
  rw [fromRawValue_eq law, deserializeFrom_eq_ok_iff]
  exact hx

/-- What is decoded is accepted. -/
theorem accepted_of_decodeResult {d : Deserialize B T} {bytes : Bytes} {expected : Id} {x : T}
    (h : decodeResult E d bytes expected = .ok x) : Accepted d bytes expected x := by
  obtain ⟨resp, result, hresp, rfl, hresult, herror, hx⟩ := decodeResult_eq_ok_iff.1 h
  obtain ⟨r, hparse, hdeserialize⟩ := fromSlice_eq_ok_iff.1 hresp
  obtain ⟨members, hmembers, hjsonrpc, hres, herr, hid⟩ :=
    Response.deserialize_eq_some_iff.1 hdeserialize
  obtain ⟨jsonrpc, hjsonrpc, hversion⟩ := Option.bind_eq_some_iff.1 hjsonrpc
  obtain ⟨id, hid, hread⟩ := Option.bind_eq_some_iff.1 hid
  obtain ⟨v, hv, hecho⟩ := Id.deserialize_eq_some_iff.1 hread
  rw [hresult, optional_eq_some_some_iff] at hres
  obtain ⟨_, hres, hnull, hraw⟩ := hres
  obtain rfl := Option.some.inj hraw
  rw [herror, optional_eq_some_none_iff] at herr
  rw [fromRawValue_eq law, deserializeFrom_eq_ok_iff] at hx
  have hpresents := presents_of_structFields hmembers (by rw [hid]; rfl)
  rw [hjsonrpc, hres, hid] at hpresents
  refine ⟨r, jsonrpc, _, members "error", id, v, hparse, hpresents,
    Version.deserialize_eq_some_iff.1 hversion, hv, hecho, ?_, hx, ?_⟩
  · intro h
    rw [(isNull_iff law).2 h] at hnull
    cases hnull
  · exact fun e he => (isNull_iff law).1 (herr e he)

/-- `decode_result` gives the result of what is accepted, and of nothing else. -/
theorem decodeResult_eq_ok_iff_accepted (d : Deserialize B T) (bytes : Bytes) (expected : Id)
    (x : T) : decodeResult E d bytes expected = .ok x ↔ Accepted d bytes expected x :=
  ⟨accepted_of_decodeResult law, Accepted.decodeResult law⟩

end Law

section Sample

open JsonText

abbrev readI64 : Deserialize backend Int64 := deserializeI64

/-- A success response with the id text `id` and the result 42, and more members at the end. -/
def answer (id : backend.Raw) (more : List (String × backend.Raw)) : backend.Raw :=
  backend.map ([("jsonrpc", backend.str "2.0"), ("result", backend.int 42), ("id", id)] ++ more)

theorem accepted_answer {id : backend.Raw} {more : List (String × backend.Raw)} {v : IdValue}
    {expected : Id} (hid : IdValue.ofRaw id = some v) (hecho : v.echo = IdValue.ofId expected)
    (hmore : more = [] ∨ more = [("error", backend.null)]) :
    Accepted readI64 (backend.get (answer id more)) expected 42 := by
  refine ⟨_, backend.str "2.0", backend.int 42, more.lookup "error", id, v, lawful.parse_get _, ?_,
    lawful.shape_str _, hid, hecho, ?_, deserializeI64_int lawful 42, ?_⟩
  · obtain rfl | rfl := hmore
    · exact .object (lawful.shape_map _) (by simp [Once, Response.fields])
    · exact .object (lawful.shape_map _) (by simp [Once, Response.fields])
  · intro h
    cases congrArg Text.bytes h
  · obtain rfl | rfl := hmore
    · rintro _ ⟨⟩
    · rintro e he
      exact (Option.some.inj he).symm

theorem Genuine.lookup {r : backend.Raw} {entries : List (String × backend.Raw)} {expected : Id}
    {x : Int64} (h : Genuine readI64 (backend.get r) expected x)
    (hshape : backend.shape r = .map entries) :
    (entries.lookup "id").bind IdValue.ofRaw = some (IdValue.ofId expected) ∧
      entries.lookup "error" = none := by
  obtain ⟨r', entries', _, _, id, hparse, hshape', -, -, hid, hread, -, -, herror⟩ := h
  obtain rfl := Except.ok.inj (hparse.symm.trans (lawful.parse_get r))
  obtain rfl := Shape.map.inj (hshape'.symm.trans hshape)
  rw [hid]
  exact ⟨hread, herror⟩

/-- The result of a response to the call 7. -/
theorem decodeResult_seven :
    decodeResult Empty readI64 (backend.get (answer (backend.int 7) [])) (.number 7) = .ok 42 :=
  (decodeResult_eq_ok_iff_accepted lawful _ _ _ _).2
    (accepted_answer (IdValue.ofRaw_serialize lawful (.number 7)) rfl (.inl rfl))

/-- The fields of a response in an array. -/
def answerArray : backend.Raw :=
  backend.seq [backend.str "2.0", backend.int 42, backend.null, backend.int 1]

/-- Three texts whose result is decoded, and that are no success responses of the id: an array, an
object with an error member that is `null`, and an object whose id is a number where a string is
expected. -/
theorem not_genuine_of_decodeResult :
    (decodeResult Empty readI64 (backend.get answerArray) (.number 1) = .ok 42 ∧
      ¬ Genuine readI64 (backend.get answerArray) (.number 1) 42) ∧
    (decodeResult Empty readI64 (backend.get (answer (backend.int 1) [("error", backend.null)]))
        (.number 1) = .ok 42 ∧
      ¬ Genuine readI64 (backend.get (answer (backend.int 1) [("error", backend.null)]))
        (.number 1) 42) ∧
    (decodeResult Empty readI64 (backend.get (answer bigId [])) (.string "9223372036854775808") =
        .ok 42 ∧
      ¬ Genuine readI64 (backend.get (answer bigId [])) (.string "9223372036854775808") 42) := by
  have hone : IdValue.ofRaw (backend.int 1) = some (.int 1) :=
    IdValue.ofRaw_serialize lawful (.number 1)
  have hbig : IdValue.ofRaw bigId = some (.int (2 ^ 63)) := rfl
  refine ⟨⟨?_, ?_⟩, ⟨?_, ?_⟩, ?_, ?_⟩
  · apply Accepted.decodeResult lawful
    refine ⟨_, _, _, _, _, _, lawful.parse_get _, .array (lawful.shape_seq _), lawful.shape_str _,
      hone, rfl, ?_, deserializeI64_int lawful 42, fun e he => (Option.some.inj he).symm⟩
    intro h
    cases congrArg Text.bytes h
  · rintro ⟨r, entries, _, _, _, hparse, hshape, -⟩
    obtain rfl := Except.ok.inj (hparse.symm.trans (lawful.parse_get _))
    cases hshape.symm.trans (lawful.shape_seq _)
  · apply Accepted.decodeResult lawful
    exact accepted_answer hone rfl (.inr rfl)
  · intro h
    cases (h.lookup (lawful.shape_map _)).2
  · apply Accepted.decodeResult lawful
    exact accepted_answer hbig (by decide) (.inl rfl)
  · intro h
    cases hbig.symm.trans (h.lookup (lawful.shape_map _)).1

end Sample

end Jasonrpc
