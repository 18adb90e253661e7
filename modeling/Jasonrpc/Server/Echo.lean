import Jasonrpc.Server.Classify

/-!
# Ids that come back

An `Id` holds null, a string, or an integer of an `i64`.  A larger integer becomes the string of its
digits.  So a response carries the id of its request up to this change (`IdValue.echo`).
-/

namespace Jasonrpc

open ByteString

variable {B : Backend} {C σ : Type}

/-! ## Values of ids -/

/-- The JSON values that an id can have. -/
inductive IdValue where
  | null
  | int (n : ℤ)
  | str (s : String)
deriving DecidableEq

namespace IdValue

/-- The value of a JSON text, whichever integer type the backend hands it in. -/
def ofShape {R : Type} : Shape R → Option IdValue
  | .null => some null
  | .i64 n => some (int n.toInt)
  | .u64 n => some (int n.toNat)
  | .str s => some (str s)
  | _ => none

/-- The value of a raw text. -/
def ofRaw (r : B.Raw) : Option IdValue := ofShape (B.shape r)

/-- The value that an id stands for. -/
def ofId : Id → IdValue
  | .null => null
  | .number n => int n.toInt
  | .string s => str s

/-- The value as which an id comes back: an integer beyond `i64::MAX` as the string of its
digits. -/
def echo : IdValue → IdValue
  | null => null
  | int n => if n < 2 ^ 63 then int n else str (toString n.toNat)
  | str s => str s

theorem echo_eq_self_iff (v : IdValue) : v.echo = v ↔ ∀ n, v = int n → n < 2 ^ 63 := by
  cases v with
  | null => simp [echo]
  | int n =>
    rw [echo]
    split_ifs with h
    · simpa using h
    · simpa using h
  | str s => simp [echo]

end IdValue

/-- An id is read as the value that comes back. -/
theorem Id.deserialize_map_ofId (r : B.Raw) :
    (Id.deserialize r).map IdValue.ofId = (IdValue.ofRaw r).map IdValue.echo := by
  rw [Id.deserialize, IdValue.ofRaw]
  cases B.shape r with
  | i64 n =>
    have hlt : n.toInt < 2 ^ 63 := Int64.toInt_lt n
    simp only [IdValue.ofShape, Option.map_some, IdValue.ofId, IdValue.echo]
    rw [if_pos hlt]
  | u64 n =>
    dsimp only [IdValue.ofShape, Option.map_some, IdValue.echo]
    rw [i64TryFrom]
    by_cases h : n.toNat < 2 ^ 63
    · rw [if_pos h, if_pos (by exact_mod_cast h)]
      exact congrArg (fun n => some (IdValue.int n)) (toInt_toInt64 h)
    · rw [if_neg h, if_neg (by omega)]
      rfl
  | null | str | bool | f64 | seq | map => rfl

theorem IdValue.ofId_injective : Function.Injective IdValue.ofId := by
  intro id id' h
  cases id with
  | null => cases id' <;> simp_all [ofId]
  | number n =>
    cases id' with
    | number n' => rw [Int64.toInt_inj.1 (IdValue.int.inj h)]
    | null | string => cases h
  | string s => cases id' <;> simp_all [ofId]

theorem Id.deserialize_eq_some_iff {r : B.Raw} {id : Id} :
    Id.deserialize r = some id ↔ ∃ v, IdValue.ofRaw r = some v ∧ v.echo = IdValue.ofId id := by
  rw [← Option.map_eq_some_iff, ← Id.deserialize_map_ofId]
  constructor
  · intro h
    rw [h, Option.map_some]
  · intro h
    obtain ⟨id', hid', hvalue⟩ := Option.map_eq_some_iff.1 h
    rw [hid', IdValue.ofId_injective hvalue]

section Law

variable (law : B.Lawful)
include law

/-- An id is written as its value. -/
theorem IdValue.ofRaw_serialize (id : Id) :
    IdValue.ofRaw (id.serialize B) = some (IdValue.ofId id) := by
  cases id with
  | null => rw [Id.serialize, ofRaw, law.shape_eq_null.2 rfl]; rfl
  | string s => rw [Id.serialize, ofRaw, law.shape_str]; rfl
  | number n =>
    rw [Id.serialize, ofRaw, law.shape_int]
    split_ifs with h
    · rfl
    · have hnat := Int64.toNat_toUInt64_of_le (Int64.not_lt.1 h)
      have hlt := Int64.toNatClampNeg_lt n
      have hint := toInt_toInt64 (n := n.toUInt64) (by omega)
      rw [Int64.toInt64_toUInt64] at hint
      rw [ofId, hint]
      rfl

theorem Id.ofRaw_serialize_deserialize {r : B.Raw} {id : Id} (h : Id.deserialize r = some id) :
    ∃ v, IdValue.ofRaw r = some v ∧ IdValue.ofId id = v.echo ∧
      IdValue.ofRaw (id.serialize B) = some v.echo := by
  have hmap := Id.deserialize_map_ofId r
  rw [h, Option.map_some] at hmap
  obtain ⟨v, hv, hecho⟩ := Option.map_eq_some_iff.1 hmap.symm
  exact ⟨v, hv, hecho.symm, by rw [IdValue.ofRaw_serialize law, hecho]⟩

end Law

/-! ## Responses -/

/-- A text is read as a request, and has an id member of the value `v`. -/
def IsRequestWithId (r : B.Raw) (v : IdValue) : Prop :=
  ∃ members raw, (Request.deserialize r).isSome ∧
    structFields Request.fields (B.shape r) = some members ∧ members "id" = some raw ∧
      IdValue.ofRaw raw = some v

/-- The text of a response is an object with an id member of the value `v`. -/
def Response.HasId (resp : Response B) (v : IdValue) : Prop :=
  ∃ entries raw, B.shape resp.serialize = .map entries ∧ entries.lookup "id" = some raw ∧
    IdValue.ofRaw raw = some v

theorem Request.deserialize_id {r : B.Raw} {req : Request B} {members : String → Option B.Raw}
    (h : Request.deserialize r = some req)
    (hmembers : structFields fields (B.shape r) = some members) :
    optional members "id" dePresentId = some req.id := by
  obtain ⟨members', hmembers', -, -, -, hid⟩ := Request.deserialize_eq_some_iff.1 h
  obtain rfl := Option.some.inj (hmembers.symm.trans hmembers')
  exact hid

theorem Response.hasId (law : B.Lawful) (resp : Response B) :
    resp.HasId (IdValue.ofId resp.id) := by
  obtain ⟨-, -, -, hid⟩ := resp.lookup_members
  exact ⟨resp.members, resp.id.serialize B, law.shape_map _, hid, IdValue.ofRaw_serialize law _⟩

theorem Response.HasId.unique {resp : Response B} {v v' : IdValue} (h : resp.HasId v)
    (h' : resp.HasId v') : v = v' := by
  obtain ⟨entries, raw, hshape, hlookup, hraw⟩ := h
  obtain ⟨entries', raw', hshape', hlookup', hraw'⟩ := h'
  obtain rfl := Shape.map.inj (hshape.symm.trans hshape')
  obtain rfl := Option.some.inj (hlookup.symm.trans hlookup')
  exact Option.some.inj (hraw.symm.trans hraw')

namespace Router

variable (law : B.Lawful)
include law

/-- A request with an id is answered with the value that comes back. -/
theorem handleElement_hasId (router : Router B C σ) {bytes : Bytes} {item : B.Raw} {v : IdValue}
    (hparse : B.parse bytes = .ok item) (h : IsRequestWithId item v) (ctx : C) (w : World B C σ) :
    ∃ resp w', router.handleElementBytesWithContext bytes ctx w = (some resp, w') ∧
      resp.HasId v.echo := by
  obtain ⟨members, raw, hsome, hmembers, hraw, hv⟩ := h
  obtain ⟨req, hreq⟩ := Option.isSome_iff_exists.1 hsome
  have hid := Request.deserialize_id hreq hmembers
  rw [optional, hraw] at hid
  obtain ⟨id, hdeserialize, hsomeId⟩ := Option.map_eq_some_iff.1 hid
  obtain ⟨v', hv', hecho, -⟩ := Id.ofRaw_serialize_deserialize law hdeserialize
  obtain rfl := Option.some.inj (hv.symm.trans hv')
  rw [router.handleElementBytesWithContext_parse hparse, hreq]
  dsimp only
  have hmap := router.handleRequestWithContext_id req ctx w
  rw [← hsomeId] at hmap
  obtain ⟨resp, hresp, hrespId⟩ := Option.map_eq_some_iff.1 hmap
  refine ⟨resp, _, Prod.ext hresp rfl, ?_⟩
  rw [← hecho, ← hrespId]
  exact resp.hasId law

theorem Dispatched.hasId {router : Router B C σ} {ctx : C} {items : List B.Raw}
    {w w' : World B C σ} {resps : List (Option (Response B))}
    (h : router.Dispatched ctx items w resps w') :
    List.Forall₂ (fun item resp => ∀ v, IsRequestWithId item v →
      ∃ r : Response B, resp = some r ∧ r.HasId v.echo) items resps := by
  induction h with
  | nil => exact .nil
  | cons head _ ih =>
    refine .cons (fun v hv => ?_) ih
    obtain ⟨resp, w₁, heq, hid⟩ := router.handleElement_hasId law (law.parse_get _) hv ctx _
    exact ⟨resp, congrArg Prod.fst (head.symm.trans heq), hid⟩

/-- A single request, and each request of a batch, is answered with its id up to the change that
`echo` makes; an id is read and written up to that change; and two texts are read as one id only if
they come back as one value. -/
theorem id_echoed [Inhabited C] (router : Router B C σ) (w : World B C σ) :
    (∀ bytes r v, B.parse bytes = .ok r → IsObject r → IsRequestWithId r v →
      ∃ resp w', router.handleBytes bytes w = (.single resp, w') ∧ resp.HasId v.echo) ∧
    (∀ bytes items, router.IsBatch bytes items → ∃ resps w',
      router.handleBytes bytes w = (.ofResponses (resps.flatMap Option.toList), w') ∧
      List.Forall₂ (fun item resp => ∀ v, IsRequestWithId item v →
        ∃ r : Response B, resp = some r ∧ r.HasId v.echo) items resps) ∧
    (∀ (r : B.Raw) id, Id.deserialize r = some id →
      ∃ v, IdValue.ofRaw r = some v ∧ IdValue.ofRaw (id.serialize B) = some v.echo) ∧
    ∀ (r r' : B.Raw) id, Id.deserialize r = some id → Id.deserialize r' = some id →
      (IdValue.ofRaw r).map IdValue.echo = (IdValue.ofRaw r').map IdValue.echo := by
  refine ⟨fun bytes r v hparse hobj hv => ?_, fun bytes items hbatch => ?_, fun r id h => ?_,
    fun r r' id h h' => ?_⟩
  · obtain ⟨resp, w', heq, hid⟩ := router.handleElement_hasId law hparse hv default w
    refine ⟨resp, w', ?_, hid⟩
    rw [handleBytes, router.handleBytesWithContext_object law hparse hobj, heq]
    rfl
  · obtain ⟨resps, w', hdispatched, heq⟩ := router.exists_dispatched default items w
    refine ⟨resps, w', ?_, hdispatched.hasId law⟩
    rw [hbatch.handleBytes law, heq]
  · obtain ⟨v, hv, -, hecho⟩ := Id.ofRaw_serialize_deserialize law h
    exact ⟨v, hv, hecho⟩
  · rw [← Id.deserialize_map_ofId, ← Id.deserialize_map_ofId, h, h']

end Router

section Sample

open JsonText

/-- The members of a call of `get` with the id text `id`. -/
def getMembers (id : backend.Raw) : List (String × backend.Raw) :=
  [("jsonrpc", backend.str "2.0"), ("method", backend.str "get"), ("id", id)]

theorem isRequestWithId_getMembers {id : backend.Raw} {v : IdValue} (hid : IsId id)
    (hv : IdValue.ofRaw id = some v) : IsRequestWithId (backend.map (getMembers id)) v := by
  have hfields : structFields Request.fields (backend.shape (backend.map (getMembers id))) =
      some fun name => (getMembers id).lookup name := by
    apply structFields_map lawful <;> simp [getMembers, Request.fields]
  refine ⟨_, id, (Request.deserialize_isSome_iff _).2 ⟨_, hfields, ⟨_, rfl, lawful.shape_str _⟩,
    ⟨_, rfl, _, lawful.shape_str _⟩, fun id' hid' => ?_⟩, hfields, rfl, hv⟩
  obtain rfl := Option.some.inj hid'
  exact hid

/-- The id `"7"` comes back as a string. -/
theorem id_echoed_seven : ∃ resp w',
    getRouter.handleBytes (backend.get (backend.map (getMembers (backend.str "7")))) ⟨(), []⟩ =
      (.single resp, w') ∧ resp.HasId (.str "7") := by
  have hshape := lawful.shape_str "7"
  exact (Router.id_echoed lawful getRouter ⟨(), []⟩).1 _ _ (.str "7") (lawful.parse_get _)
    ⟨_, lawful.shape_map _⟩ (isRequestWithId_getMembers (by rw [IsId, hshape]; trivial)
      (by rw [IdValue.ofRaw, hshape]; rfl))

/-- The integer `2 ^ 63`, one beyond `i64::MAX`. -/
def bigId : backend.Raw := ⟨ascii "9223372036854775808", by decide⟩

/-- The integer `2 ^ 63` as an id comes back as a string, and it is read as the same id as this
string. -/
theorem not_id_echoed_bigId :
    IsRequestWithId (backend.map (getMembers bigId)) (.int (2 ^ 63)) ∧
      (∃ resp w', getRouter.handleBytes (backend.get (backend.map (getMembers bigId))) ⟨(), []⟩ =
        (.single resp, w') ∧ ¬ resp.HasId (.int (2 ^ 63))) ∧
      Id.deserialize bigId = Id.deserialize (backend.str "9223372036854775808") := by
  have hshape : backend.shape bigId = .u64 9223372036854775808 := rfl
  have hreq : IsRequestWithId (backend.map (getMembers bigId)) (.int (2 ^ 63)) :=
    isRequestWithId_getMembers (by rw [IsId, hshape]; trivial)
      (by rw [IdValue.ofRaw, hshape]; rfl)
  refine ⟨hreq, ?_, ?_⟩
  · obtain ⟨resp, w', heq, hid⟩ :=
      getRouter.handleElement_hasId lawful (lawful.parse_get _) hreq default ⟨(), []⟩
    refine ⟨resp, w', ?_, fun h => ?_⟩
    · rw [Router.handleBytes, getRouter.handleBytesWithContext_object lawful (lawful.parse_get _)
        ⟨_, lawful.shape_map _⟩, heq]
      rfl
    · cases h.unique hid
  · rw [Id.deserialize, hshape, Id.deserialize, lawful.shape_str]
    decide

end Sample

end Jasonrpc
