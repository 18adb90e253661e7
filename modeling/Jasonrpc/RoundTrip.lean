import Jasonrpc.Json.Text
import Jasonrpc.Protocol

/-!
# Messages on the wire

A request is the same at both ends of the wire, however it was built (`requests_survive`).  A
response that a constructor built is valid at both ends just when its value was serialized, and not
as `null` (`responses_valid_iff`): a value that cannot be serialized leaves the response without a
result, and a result that is `null` is lost when the response is read.
-/

namespace Jasonrpc

open ByteString

variable {B : Backend} {P T : Type}

/-! ## Requests -/

namespace Request

/-- A request is read from its text with its method, its id state and its params. -/
def SurvivesWire (req : Request B) : Prop :=
  ∃ text req', toVec (fun req : Request B => .ok req.serialize) req = .ok text ∧
    fromSlice Request.deserialize text = .ok req' ∧ req'.method = req.method ∧ req'.id = req.id ∧
      req'.isNotification = req.isNotification ∧
        ∀ {T : Type} (d : Deserialize B T), req'.paramsAs d = req.paramsAs d

/-- The ids are set one after the other. -/
def setIds (req : Request B) (ids : List Id) : Request B := ids.foldl setId req

theorem survivesWire (law : B.Lawful) (req : Request B) : req.SurvivesWire := by
  refine ⟨B.get req.serialize, req.readBack, rfl, ?_, rfl, rfl, rfl, ?_⟩
  · rw [fromSlice_get law, deserializeFrom, Request.deserialize_serialize law]
  · intro T d
    exact req.paramsAs_readBack law d

end Request

/-- Every request survives the wire: a call or a notification, whether its params are serialized or
not, and after any changes of its id. -/
theorem requests_survive (law : B.Lawful) (method : String) (s : Serialize B P) (params : P) (id : Id)
    (ids : List Id) :
    ((Request.call method s params id).setIds ids).SurvivesWire ∧
      (∀ req, Request.tryCall method s params id = .ok req → (req.setIds ids).SurvivesWire) ∧
      ((Request.notification method s params).setIds ids).SurvivesWire ∧
      ∀ req, Request.tryNotification method s params = .ok req → (req.setIds ids).SurvivesWire :=
  ⟨Request.survivesWire law _, fun _ _ => Request.survivesWire law _, Request.survivesWire law _,
    fun _ _ => Request.survivesWire law _⟩

/-- A notification whose params are not serialized, and the same with an id set to `null`. -/
theorem requests_survive_unserialized :
    (Request.notification (B := JsonText.backend) "tick" (fun _ : Unit => .error ⟨"NaN"⟩)
        ()).SurvivesWire ∧
      ((Request.notification (B := JsonText.backend) "tick" (fun _ : Unit => .error ⟨"NaN"⟩)
        ()).setId .null).SurvivesWire :=
  ⟨(requests_survive JsonText.lawful "tick" (fun _ : Unit => .error ⟨"NaN"⟩) () .null []).2.2.1,
    (requests_survive JsonText.lawful "tick" (fun _ : Unit => .error ⟨"NaN"⟩) () .null
      [.null]).2.2.1⟩

/-! ## Responses -/

/-- The text is an object with exactly one of the members `result` and `error`. -/
def HasOneMember (B : Backend) (text : Bytes) : Prop :=
  ∃ r entries, B.parse text = .ok r ∧ B.shape r = .map entries ∧
    Xor ("result" ∈ entries.map Prod.fst) ("error" ∈ entries.map Prod.fst)

namespace Response

/-- A response is valid, its text has exactly one of the two members, and what is read from this text
is valid. -/
def StaysValid (resp : Response B) : Prop :=
  resp.isValid ∧ ∃ (text : Bytes) (resp' : Response B),
    toVec (fun resp : Response B => .ok resp.serialize) resp = .ok text ∧ HasOneMember B text ∧
      fromSlice Response.deserialize text = .ok resp' ∧ resp'.isValid

/-- The ids are set one after the other. -/
def setIds (resp : Response B) (ids : List Id) : Response B := ids.foldl setId resp

theorem result_setIds (resp : Response B) (ids : List Id) :
    (resp.setIds ids).result = resp.result ∧ (resp.setIds ids).error = resp.error := by
  induction ids generalizing resp with
  | nil => exact ⟨rfl, rfl⟩
  | cons id ids ih => exact ih (resp.setId id)

theorem isValid_iff {resp : Response B} :
    resp.isValid ↔ Xor resp.result.isSome resp.error.isSome := by
  unfold isValid
  cases resp.result <;> cases resp.error <;> simp [Xor]

section Law

variable (law : B.Lawful)
include law

theorem hasOneMember_iff (resp : Response B) :
    HasOneMember B (B.get resp.serialize) ↔ resp.isValid := by
  have hmembers : Xor ("result" ∈ resp.members.map Prod.fst) ("error" ∈ resp.members.map Prod.fst) ↔
      resp.isValid := by
    rw [isValid_iff, members]
    cases resp.result <;> cases resp.error <;> simp [skipNone, Xor]
  rw [← hmembers]
  constructor
  · rintro ⟨r, entries, hparse, hshape, hone⟩
    obtain rfl := Except.ok.inj (hparse.symm.trans (law.parse_get _))
    obtain rfl := Shape.map.inj (hshape.symm.trans (law.shape_map _))
    exact hone
  · intro hone
    exact ⟨_, _, law.parse_get _, law.shape_map _, hone⟩

/-- A response stays valid just when it is read back as a valid one. -/
theorem staysValid_iff (resp : Response B) :
    resp.StaysValid ↔ resp.isValid ∧ resp.readBack.isValid := by
  have hread : fromSlice Response.deserialize (B.get resp.serialize) = .ok resp.readBack := by
    rw [fromSlice_get law, deserializeFrom, Response.deserialize_serialize law]
  constructor
  · rintro ⟨hvalid, text, resp', htext, -, hresp', hvalid'⟩
    obtain rfl := Except.ok.inj htext
    obtain rfl := Except.ok.inj (hread.symm.trans hresp')
    exact ⟨hvalid, hvalid'⟩
  · rintro ⟨hvalid, hvalid'⟩
    exact ⟨hvalid, _, _, rfl, (hasOneMember_iff law resp).2 hvalid, hread, hvalid'⟩

theorem staysValid_iff_of_error_eq_none {resp : Response B} (h : resp.error = none) :
    resp.StaysValid ↔ ∃ raw, resp.result = some raw ∧ raw ≠ B.null := by
  rw [staysValid_iff law]
  unfold isValid readBack
  rw [h]
  cases hresult : resp.result with
  | none => simp
  | some raw =>
    have hnull : (B.shape raw).isNull = true ↔ raw = B.null := isNull_iff law
    rw [Jasonrpc.readBack, Option.filter_some]
    by_cases h : raw = B.null
    · rw [hnull.2 h, h]
      simp
    · simp [h, Bool.eq_false_iff.2 (mt hnull.1 h)]

theorem staysValid_of_error {resp : Response B} (hresult : resp.result = none)
    (herror : resp.error.isSome) : resp.StaysValid := by
  rw [staysValid_iff law]
  unfold isValid readBack
  rw [hresult, Option.isSome_map, herror]
  exact ⟨rfl, rfl⟩

end Law

end Response

/-- A response that a constructor built stays valid, whatever ids it is given then, just when its
value was serialized, and not as `null`.  An error response always does. -/
theorem responses_valid_iff (law : B.Lawful) (id : Id) (ids : List Id) :
    (∀ {T : Type} (s : Serialize B T) (value : T),
      ((Response.ofResult id s value).setIds ids).StaysValid ↔
        ∃ raw, s value = .ok raw ∧ raw ≠ B.null) ∧
    (∀ {T : Type} (s : Serialize B T) (value : T) resp, Response.tryResult id s value = .ok resp →
      ((resp.setIds ids).StaysValid ↔ s value ≠ .ok B.null)) ∧
    (∀ e : Error B, ((Response.ofError id e).setIds ids).StaysValid) ∧
    ∀ raw : B.Raw, ((Response.fromRawResult id raw).setIds ids).StaysValid ↔ raw ≠ B.null := by
  have hsuccess {resp : Response B} (h : resp.error = none) :
      (resp.setIds ids).StaysValid ↔ ∃ raw, resp.result = some raw ∧ raw ≠ B.null := by
    obtain ⟨hresult, herror⟩ := resp.result_setIds ids
    rw [Response.staysValid_iff_of_error_eq_none law (herror.trans h), hresult]
  refine ⟨fun s value => ?_, fun s value resp hresp => ?_, fun e => ?_, fun raw => ?_⟩
  · rw [hsuccess rfl]
    unfold Response.ofResult toRawValue
    cases s value <;> simp [Except.toOption]
  · unfold Response.tryResult toRawValue at hresp
    cases hvalue : s value with
    | error e =>
      rw [hvalue] at hresp
      cases hresp
    | ok raw =>
      rw [hvalue] at hresp
      obtain rfl := Except.ok.inj hresp
      rw [hsuccess rfl]
      simp
  · obtain ⟨hresult, herror⟩ := (Response.ofError id e).result_setIds ids
    apply Response.staysValid_of_error law hresult
    rw [herror]
    rfl
  · rw [hsuccess rfl]
    simp [Response.fromRawResult]

section Sample

open JsonText

/-- The result 42. -/
theorem responses_valid_answer :
    ((Response.ofResult (.number 1) (fun n : Int64 => .ok (backend.int n)) 42).setIds
      [.string "up"]).StaysValid := by
  refine ((responses_valid_iff lawful (.number 1) [.string "up"]).1 _ 42).2 ⟨_, rfl, fun h => ?_⟩
  cases congrArg Text.bytes h

/-- A value that is not serialized leaves a response that is not valid; a value that is serialized as
`null`, and a raw result that is `null`, one that is not read back as a valid one. -/
theorem not_responses_valid :
    ¬ (Response.ofResult (B := backend) (.number 1) (fun _ : Unit => .error ⟨"NaN"⟩) ()).isValid ∧
      ¬ (Response.ofResult (.number 1) (fun _ : Unit => .ok backend.null) ()).StaysValid ∧
        ¬ (Response.fromRawResult (.number 1) backend.null).StaysValid := by
  have hnull {resp : Response backend} (hresult : resp.result = some backend.null)
      (herror : resp.error = none) : ¬ resp.StaysValid := by
    rw [Response.staysValid_iff_of_error_eq_none lawful herror]
    rintro ⟨raw, hraw, hne⟩
    exact hne (Option.some.inj (hraw.symm.trans hresult))
  have hunset : (Response.ofResult (B := backend) (.number 1) (fun _ : Unit => .error ⟨"NaN"⟩)
      ()).isValid = false := rfl
  exact ⟨by rw [hunset]; decide, hnull rfl rfl, hnull rfl rfl⟩

end Sample

end Jasonrpc
