import Jasonrpc.Client.Decode
import Jasonrpc.RoundTrip

/-!
# Messages that pass through

A proxy reads a message of a peer, sets its id, and hands it on.  A response object as the
specification has it arrives with its result, or with the code, the message and the data of its
error, if the id is no float, the code fits an `i64`, and neither the result nor the data is `null`
(`transparent_iff`); the text of the message may be escaped differently.  A request arrives with its
method and its params.
-/

namespace Jasonrpc

open ByteString

variable {B : Backend}

/-! ## Response objects -/

/-- What a response reports: a result, or an error with the texts of its members. -/
inductive Report (B : Backend) where
  | result (raw : B.Raw)
  | error (code message : B.Raw) (data : Option B.Raw)

def Shape.isNumber {R : Type} : Shape R → Bool
  | i64 _ | u64 _ | f64 => true
  | _ => false

/-- An id of the specification: a string, a number, or null. -/
def Shape.isId {R : Type} : Shape R → Bool
  | null | str _ => true
  | s => s.isNumber

/-- The text is an error object with the members `code`, `message` and `data`. -/
def IsErrorObject (r code message : B.Raw) (data : Option B.Raw) : Prop :=
  ∃ entries, B.shape r = .map entries ∧ Once Error.fields entries ∧
    entries.lookup "code" = some code ∧ (B.shape code).isNumber ∧
      entries.lookup "message" = some message ∧ (∃ s, B.shape message = .str s) ∧
        entries.lookup "data" = data

/-- The members report it: there is a result and no error, or there is an error and no
result. -/
def Report.Stands (entries : List (String × B.Raw)) : Report B → Prop
  | result raw => entries.lookup "result" = some raw ∧ entries.lookup "error" = none
  | error code message data => entries.lookup "result" = none ∧
      ∃ e, entries.lookup "error" = some e ∧ IsErrorObject e code message data

/-- The text is a response object with the id `id` and the report. -/
def IsResponseObject (r id : B.Raw) (report : Report B) : Prop :=
  ∃ entries version, B.shape r = .map entries ∧ Once Response.fields entries ∧
    entries.lookup "jsonrpc" = some version ∧ B.shape version = .str "2.0" ∧
      entries.lookup "id" = some id ∧ (B.shape id).isId ∧ report.Stands entries

/-- A response object has one report. -/
theorem IsResponseObject.unique {r id id' : B.Raw} {report report' : Report B}
    (h : IsResponseObject r id report) (h' : IsResponseObject r id' report') :
    report = report' := by
  obtain ⟨entries, -, hshape, -, -, -, -, -, hstands⟩ := h
  obtain ⟨entries', -, hshape', -, -, -, -, -, hstands'⟩ := h'
  obtain rfl := Shape.map.inj (hshape.symm.trans hshape')
  cases report with
  | result raw =>
    cases report' with
    | result raw' => rw [Option.some.inj (hstands.1.symm.trans hstands'.1)]
    | error => cases hstands.1.symm.trans hstands'.1
  | error code message data =>
    cases report' with
    | result raw' => cases hstands.1.symm.trans hstands'.1
    | error code' message' data' =>
      obtain ⟨-, e, he, members, hmembers, -, hcode, -, hmessage, -, hdata⟩ := hstands
      obtain ⟨-, e', he', members', hmembers', -, hcode', -, hmessage', -, hdata'⟩ := hstands'
      obtain rfl := Option.some.inj (he.symm.trans he')
      obtain rfl := Shape.map.inj (hmembers.symm.trans hmembers')
      rw [Option.some.inj (hcode.symm.trans hcode'),
        Option.some.inj (hmessage.symm.trans hmessage'), hdata.symm.trans hdata']

/-- The reports are the same, up to the text of the message. -/
def Report.Same : Report B → Report B → Prop
  | result raw, result raw' => raw' = raw
  | error code message data, error code' message' data' =>
    code' = code ∧ deserializeString message' = deserializeString message ∧ data' = data
  | _, _ => False

/-- Neither the result nor the data is `null`. -/
def Report.NotNull : Report B → Prop
  | result raw => raw ≠ B.null
  | error _ _ data => data ≠ some B.null

/-- The code of an error is an integer of an `i64`. -/
def Report.CodeFits : Report B → Prop
  | result _ => True
  | error code _ _ => ∃ n, IdValue.ofRaw code = some (.int n) ∧ n < 2 ^ 63

/-- The bytes are read as a response, and with the id `x` it is written as a response object of this
id, with a report that `same` relates to `report`. -/
def Transparent (same : Report B → Report B → Prop) (bytes : Bytes) (report : Report B) (x : Id) :
    Prop :=
  ∃ resp text r id report', fromSlice Response.deserialize bytes = .ok resp ∧
    toVec (fun resp : Response B => .ok resp.serialize) (resp.setId x) = .ok text ∧
      B.parse text = .ok r ∧ IsResponseObject r id report' ∧
        IdValue.ofRaw id = some (.ofId x) ∧ same report report'

/-- An integer of an `i64` has one text. -/
def Backend.IntegersHaveOneText (B : Backend) : Prop :=
  ∀ (r : B.Raw) n, deserializeI64 r = some n → r = B.int n

/-! ## What is read -/

/-- The response is what an object with this report is read as. -/
def Report.Reads (resp : Response B) : Report B → Prop
  | result raw => resp.result = some raw ∧ resp.error = none
  | error code message data => resp.result = none ∧ ∃ e, resp.error = some e ∧
      deserializeI64 code = some e.code ∧ deserializeString message = some e.message ∧ e.data = data

theorem exists_deserializeI64_iff {r : B.Raw} :
    (∃ n, deserializeI64 r = some n) ↔ ∃ n, IdValue.ofRaw r = some (.int n) ∧ n < 2 ^ 63 := by
  unfold deserializeI64 IdValue.ofRaw
  cases B.shape r with
  | i64 n => simpa [IdValue.ofShape] using Int64.toInt_lt n
  | u64 n => simp [IdValue.ofShape, i64TryFrom]
  | null | bool | f64 | str | seq | map => simp [IdValue.ofShape]

theorem exists_id_deserialize_iff {r : B.Raw} :
    (∃ id, Id.deserialize r = some id) ↔ (IdValue.ofRaw r).isSome := by
  have h := congrArg Option.isSome (Id.deserialize_map_ofId r)
  rw [Option.isSome_map, Option.isSome_map] at h
  rw [← h, Option.isSome_iff_exists]

theorem optional_eq_self {members : String → Option B.Raw} {name : String} {raw : Option B.Raw}
    (law : B.Lawful) (hmembers : members name = raw) (hnull : raw ≠ some B.null) :
    optional members name (deserializeOption deserializeValue) = some raw := by
  rw [optional_value hmembers]
  cases raw with
  | none => rfl
  | some r =>
    have hr : (B.shape r).isNull = false :=
      Bool.eq_false_iff.2 fun h => hnull (congrArg some ((isNull_iff law).1 h))
    rw [readBack, Option.filter_some, hr]
    rfl

theorem IsErrorObject.optional_eq_some_iff {r code message : B.Raw} {data : Option B.Raw}
    (h : IsErrorObject r code message data) {members : String → Option B.Raw}
    (hmembers : members "error" = some r) {error : Option (Error B)} :
    optional members "error" (deserializeOption Error.deserialize) = some error ↔
      ∃ e, error = some e ∧ Error.deserialize r = some e := by
  obtain ⟨entries, hshape, -⟩ := h
  have hnull : (B.shape r).isNull = false := by rw [hshape]; rfl
  cases error with
  | none => simp [optional_eq_some_none_iff, hmembers, hnull]
  | some e => simp [optional_eq_some_some_iff, hmembers, hnull]

section Law

variable (law : B.Lawful)
include law

/-- An error object is read with its code, its message and its data. -/
theorem IsErrorObject.deserialize_eq_some_iff {r code message : B.Raw} {data : Option B.Raw}
    (h : IsErrorObject r code message data) (hnull : data ≠ some B.null) {e : Error B} :
    Error.deserialize r = some e ↔ deserializeI64 code = some e.code ∧
      deserializeString message = some e.message ∧ e.data = data := by
  obtain ⟨entries, hshape, honce, hcode, -, hmessage, -, hdata⟩ := h
  obtain ⟨members, hmembers, hlookup⟩ := structFields_of_shape_map hshape honce
  have hread : optional members "data" (deserializeOption deserializeValue) = some data :=
    optional_eq_self law ((hlookup _ (by decide)).trans hdata) hnull
  have hcodeRead : required members "code" deserializeI64 = deserializeI64 code := by
    rw [required, hlookup _ (by decide), hcode, Option.bind_some]
  have hmessageRead : required members "message" deserializeString = deserializeString message := by
    rw [required, hlookup _ (by decide), hmessage, Option.bind_some]
  rw [Error.deserialize_eq_some_iff, hmembers]
  constructor
  · rintro ⟨members', hmembers', h⟩
    obtain rfl := Option.some.inj hmembers'
    rw [hread, hcodeRead, hmessageRead] at h
    exact ⟨h.1, h.2.1, (Option.some.inj h.2.2).symm⟩
  · rintro ⟨hcode, hmessage, rfl⟩
    exact ⟨members, rfl, hcodeRead.trans hcode, hmessageRead.trans hmessage, hread⟩

/-- The members that report it are read as it is. -/
theorem Report.Stands.reads_iff {entries : List (String × B.Raw)} {report : Report B}
    (h : report.Stands entries) (hnull : report.NotNull) {members : String → Option B.Raw}
    (hlookup : ∀ name ∈ Response.fields, members name = entries.lookup name) {resp : Response B} :
    report.Reads resp ↔
      optional members "result" (deserializeOption deserializeValue) = some resp.result ∧
        optional members "error" (deserializeOption Error.deserialize) = some resp.error := by
  have hresult := hlookup "result" (by decide)
  have herror := hlookup "error" (by decide)
  cases report with
  | result raw =>
    have hread : optional members "result" (deserializeOption deserializeValue) = some (some raw) :=
      optional_eq_self law (hresult.trans h.1) fun heq => hnull (Option.some.inj heq)
    have hnone : optional members "error" (deserializeOption Error.deserialize) = some none := by
      rw [optional, herror, h.2]
    rw [hread, hnone, Option.some_inj, Option.some_inj, Reads, eq_comm (a := some raw),
      eq_comm (a := none)]
  | error code message data =>
    obtain ⟨hnone, r, hr, hobject⟩ := h
    have hread : optional members "result" (deserializeOption deserializeValue) = some none := by
      rw [optional, hresult, hnone]
    rw [hread, hobject.optional_eq_some_iff (herror.trans hr), Option.some_inj, Reads,
      eq_comm (a := none)]
    simp only [hobject.deserialize_eq_some_iff law hnull]

/-- A response object is read with its id and its report. -/
theorem IsResponseObject.deserialize_eq_some_iff {r id : B.Raw} {report : Report B}
    (h : IsResponseObject r id report) (hnull : report.NotNull) {resp : Response B} :
    Response.deserialize r = some resp ↔ Id.deserialize id = some resp.id ∧ report.Reads resp := by
  obtain ⟨entries, version, hshape, honce, hjsonrpc, hversion, hid, -, hstands⟩ := h
  obtain ⟨members, hmembers, hlookup⟩ := structFields_of_shape_map hshape honce
  have hversionRead : required members "jsonrpc" Version.deserialize = some resp.jsonrpc := by
    rw [required, hlookup _ (by decide), hjsonrpc]
    exact Version.deserialize_eq_some_iff.2 hversion
  have hidRead : required members "id" Id.deserialize = Id.deserialize id := by
    rw [required, hlookup _ (by decide), hid, Option.bind_some]
  rw [Response.deserialize_eq_some_iff, hmembers, hstands.reads_iff law hnull hlookup]
  constructor
  · rintro ⟨members', hmembers', -, hresult, herror, hid⟩
    obtain rfl := Option.some.inj hmembers'
    exact ⟨hidRead.symm.trans hid, hresult, herror⟩
  · rintro ⟨hid, hresult, herror⟩
    exact ⟨members, rfl, hversionRead, hresult, herror, hidRead.trans hid⟩

/-! ## What is written -/

theorem Error.isErrorObject_serialize (e : Error B) :
    IsErrorObject e.serialize (B.int e.code) (B.str e.message) e.data := by
  obtain ⟨hcode, hmessage, hdata⟩ := e.lookup_members
  refine ⟨e.members, law.shape_map _, ?_, hcode, ?_, hmessage, ⟨e.message, law.shape_str _⟩, hdata⟩
  · rw [Once, members]
    cases e.data <;> simp [skipNone, fields]
  · rw [law.shape_int]
    split_ifs <;> rfl

theorem Id.isId_serialize (id : Id) : (B.shape (id.serialize B)).isId = true := by
  cases id with
  | null => rw [serialize, law.shape_eq_null.2 rfl]; rfl
  | number n =>
    rw [serialize, law.shape_int]
    split_ifs <;> rfl
  | string s => rw [serialize, law.shape_str]; rfl

/-- A response is written as a response object with its id and what it was read from. -/
theorem Response.isResponseObject_serialize (hint : B.IntegersHaveOneText) {resp : Response B}
    {report : Report B} (h : report.Reads resp) :
    ∃ report', report.Same report' ∧
      IsResponseObject resp.serialize (resp.id.serialize B) report' := by
  obtain ⟨hjsonrpc, hresultMember, herrorMember, hid⟩ := resp.lookup_members
  have honce : Once fields resp.members := by
    rw [Once, members]
    cases resp.result <;> cases resp.error <;> simp [skipNone, fields]
  have hobject {report' : Report B} (hstands : report'.Stands resp.members) :
      IsResponseObject resp.serialize (resp.id.serialize B) report' :=
    ⟨resp.members, B.str "2.0", law.shape_map _, honce, hjsonrpc, law.shape_str _, hid,
      Id.isId_serialize law _, hstands⟩
  cases report with
  | result raw =>
    obtain ⟨hresult, herror⟩ := h
    rw [hresult] at hresultMember
    rw [herror] at herrorMember
    exact ⟨.result raw, rfl, hobject ⟨hresultMember, herrorMember⟩⟩
  | error code message data =>
    obtain ⟨hresult, e, herror, hcode, hmessage, rfl⟩ := h
    rw [hresult] at hresultMember
    rw [herror] at herrorMember
    refine ⟨.error (B.int e.code) (B.str e.message) e.data, ⟨(hint _ _ hcode).symm, ?_, rfl⟩,
      hobject ⟨hresultMember, e.serialize, herrorMember, e.isErrorObject_serialize law⟩⟩
    rw [hmessage, deserializeString_str law]

end Law

/-! ## What passes through -/

/-- There is a response that the report is read as, just when its code fits. -/
theorem IsResponseObject.exists_reads_iff {r idText : B.Raw} {report : Report B}
    (h : IsResponseObject r idText report) (id : Id) :
    (∃ resp : Response B, resp.id = id ∧ report.Reads resp) ↔ report.CodeFits := by
  obtain ⟨entries, -, -, -, -, -, -, -, hstands⟩ := h
  cases report with
  | result raw => exact ⟨fun _ => trivial, fun _ => ⟨{ result := some raw, id }, rfl, rfl, rfl⟩⟩
  | error code message data =>
    obtain ⟨-, e, -, _, -, -, -, -, -, ⟨s, hs⟩, -⟩ := hstands
    rw [Report.CodeFits, ← exists_deserializeI64_iff]
    constructor
    · rintro ⟨resp, -, -, e, -, hcode, -⟩
      exact ⟨e.code, hcode⟩
    · rintro ⟨n, hn⟩
      have hmessage : deserializeString message = some s := by rw [deserializeString, hs]
      exact ⟨{ error := some { code := n, message := s, data }, id }, rfl, rfl, _, rfl, hn,
        hmessage, rfl⟩

theorem IsResponseObject.of_transparent (law : B.Lawful) {bytes : Bytes} {r id : B.Raw}
    {report : Report B} (h : IsResponseObject r id report) (hparse : B.parse bytes = .ok r)
    (hnull : report.NotNull) {same : Report B → Report B → Prop} {x : Id}
    (htransparent : Transparent same bytes report x) :
    (IdValue.ofRaw id).isSome ∧ report.CodeFits := by
  obtain ⟨resp, -, -, -, -, hresp, -⟩ := htransparent
  obtain ⟨r', hparse', hresp⟩ := fromSlice_eq_ok_iff.1 hresp
  obtain rfl := Except.ok.inj (hparse.symm.trans hparse')
  rw [h.deserialize_eq_some_iff law hnull] at hresp
  exact ⟨exists_id_deserialize_iff.1 ⟨_, hresp.1⟩, (h.exists_reads_iff _).1 ⟨resp, rfl, hresp.2⟩⟩

/-- The request is written with the id `x`, and then read with this id, the same method, and params
that are read the same. -/
def Request.PassesWith (req : Request B) (x : Id) : Prop :=
  ∃ text req', toVec (fun req : Request B => .ok req.serialize) (req.setId x) = .ok text ∧
    fromSlice Request.deserialize text = .ok req' ∧ req'.id = some x ∧ req'.method = req.method ∧
      ∀ {T : Type} (d : Deserialize B T), req'.paramsAs d = req.paramsAs d

/-- A response object without a `null` result or `null` data passes through just when its id has a
value and its code fits; a request that is read always does. -/
theorem transparent_iff (law : B.Lawful) (hint : B.IntegersHaveOneText) (x : Id) :
    (∀ bytes r id report, B.parse bytes = .ok r → IsResponseObject r id report → report.NotNull →
      (Transparent Report.Same bytes report x ↔ (IdValue.ofRaw id).isSome ∧ report.CodeFits)) ∧
    ∀ bytes (req : Request B), fromSlice Request.deserialize bytes = .ok req →
      req.PassesWith x := by
  refine ⟨fun bytes r id report hparse hobject hnull => ⟨?_, ?_⟩, fun bytes req _ => ?_⟩
  · exact hobject.of_transparent law hparse hnull
  · rintro ⟨hid, hcode⟩
    obtain ⟨id', hid'⟩ := exists_id_deserialize_iff.2 hid
    obtain ⟨resp, rfl, hreads⟩ := (hobject.exists_reads_iff id').2 hcode
    have hresp : Response.deserialize r = some resp :=
      (hobject.deserialize_eq_some_iff law hnull).2 ⟨hid', hreads⟩
    have hset : report.Reads (resp.setId x) := by cases report <;> exact hreads
    obtain ⟨report', hsame, hwritten⟩ := Response.isResponseObject_serialize law hint hset
    exact ⟨resp, _, _, _, report', fromSlice_eq_ok_iff.2 ⟨r, hparse, hresp⟩, rfl, law.parse_get _,
      hwritten, IdValue.ofRaw_serialize law x, hsame⟩
  · obtain ⟨text, req', htext, hread, hmethod, hid, -, hparams⟩ :=
      (req.setId x).survivesWire law
    exact ⟨text, req', htext, hread, hid, hmethod, hparams⟩

section Sample

open JsonText

/-- A response object with the id text `id` and one more member. -/
def foreign (id : backend.Raw) (name : String) (r : backend.Raw) : backend.Raw :=
  backend.map [("jsonrpc", backend.str "2.0"), (name, r), ("id", id)]

/-- An error object without data. -/
def foreignError (code message : backend.Raw) : backend.Raw :=
  backend.map [("code", code), ("message", message)]

theorem isResponseObject_foreign_result (id raw : backend.Raw) (hid : (backend.shape id).isId) :
    IsResponseObject (foreign id "result" raw) id (.result raw) :=
  ⟨_, _, lawful.shape_map _, by simp [Once, Response.fields], rfl, lawful.shape_str _, rfl, hid,
    rfl, rfl⟩

theorem isResponseObject_foreign_error (id code message : backend.Raw)
    (hid : (backend.shape id).isId) (hcode : (backend.shape code).isNumber)
    (hmessage : ∃ s, backend.shape message = .str s) :
    IsResponseObject (foreign id "error" (foreignError code message)) id
      (.error code message none) :=
  ⟨_, _, lawful.shape_map _, by simp [Once, Response.fields], rfl, lawful.shape_str _, rfl, hid,
    rfl, _, rfl, _, lawful.shape_map _, by simp [Once, Error.fields], rfl, hcode, rfl, hmessage, rfl⟩

/-- The id 1.5. -/
def floatId : backend.Raw := ⟨ascii "1.5", by decide⟩

/-- The message `a/b`, with an escaped slash. -/
def escapedMessage : backend.Raw := ⟨ascii "\"a\\/b\"", by decide⟩

theorem shape_escapedMessage : backend.shape escapedMessage = .str "a/b" := rfl

/-- An error whose message has an escaped slash reaches the peer that called with the id `up`. -/
theorem transparent_escapedMessage :
    Transparent Report.Same
      (backend.get
        (foreign (backend.int 9) "error" (foreignError (backend.int (-32601)) escapedMessage)))
      (.error (backend.int (-32601)) escapedMessage none) (.string "up") :=
  ((transparent_iff lawful (fun _ _ => eq_int_of_deserializeI64) (.string "up")).1 _ _ _ _
    (lawful.parse_get _)
    (isResponseObject_foreign_error _ _ _ (Id.isId_serialize lawful (.number 9)) rfl
      ⟨_, shape_escapedMessage⟩) nofun).2
    ⟨by rw [IdValue.ofRaw_serialize lawful (.number 9)]; rfl, _,
      IdValue.ofRaw_serialize lawful (.number (-32601)), by decide⟩

/-- The text is a response object, and with the id 1 it does not arrive with the report it had. -/
def IsAltered (r id : backend.Raw) (report : Report backend) : Prop :=
  IsResponseObject r id report ∧
    ¬ Transparent (fun report report' => report' = report) (backend.get r) report (.number 1)

/-- A response object is altered if it is read as a response that is written with another report. -/
theorem isAltered_of_written {r id : backend.Raw} {report : Report backend}
    {resp : Response backend} (h : IsResponseObject r id report)
    (hread : Response.deserialize r = some resp)
    (hwritten : ∀ id', ¬ IsResponseObject (resp.setId (.number 1)).serialize id' report) :
    IsAltered r id report := by
  refine ⟨h, ?_⟩
  rintro ⟨resp', text, r', id', report', hresp', htext, hparse', hobject, -, rfl⟩
  obtain ⟨_, hparse, hread'⟩ := fromSlice_eq_ok_iff.1 hresp'
  obtain rfl := Except.ok.inj (hparse.symm.trans (lawful.parse_get r))
  obtain rfl := Option.some.inj (hread'.symm.trans hread)
  obtain rfl := Except.ok.inj htext
  obtain rfl := Except.ok.inj (hparse'.symm.trans (lawful.parse_get _))
  exact hwritten _ hobject

/-- Four response objects that are altered: an id that is a float is not read, nor is a code beyond
`i64::MAX`; a message is written without its escape; and a result that is `null` is lost. -/
theorem not_transparent :
    IsAltered (foreign floatId "result" (backend.int 42)) floatId (.result (backend.int 42)) ∧
    IsAltered (foreign (backend.int 9) "error" (foreignError bigId (backend.str "no")))
      (backend.int 9) (.error bigId (backend.str "no") none) ∧
    IsAltered
      (foreign (backend.int 9) "error" (foreignError (backend.int (-32601)) escapedMessage))
      (backend.int 9) (.error (backend.int (-32601)) escapedMessage none) ∧
    IsAltered (foreign (backend.int 9) "result" backend.null) (backend.int 9)
      (.result backend.null) := by
  have hnine : (backend.shape (backend.int 9)).isId := Id.isId_serialize lawful (.number 9)
  have hcode : (backend.shape (backend.int (-32601))).isNumber := by
    rw [lawful.shape_int]
    rfl
  refine ⟨?_, ?_, ?_, ?_⟩
  · have hobject := isResponseObject_foreign_result floatId (backend.int 42) rfl
    refine ⟨hobject, fun h => ?_⟩
    have hread := hobject.of_transparent lawful (lawful.parse_get _) (fun h => ?_) h
    · cases hread.1
    · cases congrArg Text.bytes h
  · have hobject := isResponseObject_foreign_error _ bigId (backend.str "no") hnine rfl
      ⟨_, lawful.shape_str _⟩
    refine ⟨hobject, fun h => ?_⟩
    obtain ⟨-, n, hn, hlt⟩ := hobject.of_transparent lawful (lawful.parse_get _) nofun h
    have hbig : IdValue.ofRaw bigId = some (.int (2 ^ 63)) := rfl
    cases hbig.symm.trans hn
    exact absurd hlt (by decide)
  · have hobject := isResponseObject_foreign_error _ _ escapedMessage hnine hcode
      ⟨_, shape_escapedMessage⟩
    have hread : Response.deserialize
        (foreign (backend.int 9) "error" (foreignError (backend.int (-32601)) escapedMessage)) =
          some (Response.ofError (.number 9) (Error.new (-32601) "a/b")) := by
      rw [hobject.deserialize_eq_some_iff lawful nofun]
      exact ⟨Id.deserialize_serialize lawful (.number 9), rfl, _, rfl, deserializeI64_int lawful _,
        by rw [deserializeString, shape_escapedMessage]; rfl, rfl⟩
    refine isAltered_of_written hobject hread fun id' h => ?_
    have hplain := isResponseObject_foreign_error _ _ (backend.str "a/b")
      (Id.isId_serialize lawful (.number 1)) hcode ⟨_, lawful.shape_str _⟩
    cases congrArg Text.bytes (Report.error.inj (hplain.unique h)).2.1
  · have hobject := isResponseObject_foreign_result _ backend.null hnine
    refine isAltered_of_written hobject
      (Response.deserialize_serialize lawful (Response.fromRawResult (.number 9) backend.null))
      fun id' h => ?_
    obtain ⟨entries, -, hshape, -, -, -, -, -, hstands⟩ := h
    obtain rfl := Shape.map.inj (hshape.symm.trans (lawful.shape_map _))
    cases hstands.1

end Sample

end Jasonrpc
