import Jasonrpc.Json.Text
import Jasonrpc.Protocol

/-!
# A single parameter

`param_as` reads a parameter that stands alone in an array, or by itself.  It makes a second attempt
at the whole params whenever the first one fails, so a type that takes arrays reads an array that is
not one element of it, and a type that takes `null` reads missing params.  For all other types and
params it extracts a single parameter (`extractsParam_iff`).
-/

namespace Jasonrpc

open ByteString

variable {B : Backend} {T : Type}

namespace Request

/-- A value is read just when it is the one element of an array, or the params themselves and these
are no array.  So nothing is read when there are no params, or an array of none or of several
elements. -/
structure ExtractsParam (req : Request B) (d : Deserialize B T) : Prop where
  eq_some_iff (x : T) : req.paramAs d = some x ↔
    (∃ raw item, req.params = some raw ∧ B.shape raw = .seq [item] ∧ d item = some x) ∨
      ∃ raw, req.params = some raw ∧ (∀ items, B.shape raw ≠ .seq items) ∧ d raw = some x
  eq_none : req.params = none → req.paramAs d = none
  eq_none_of_length_ne {raw : B.Raw} {items : List B.Raw} : req.params = some raw →
    B.shape raw = .seq items → items.length ≠ 1 → req.paramAs d = none

/-- The type takes neither `null`, when there are no params, nor the array itself, when the params are
an array other than of one element of the type. -/
structure TakesNoOther (req : Request B) (d : Deserialize B T) : Prop where
  null : req.params = none → d B.null = none
  array {raw : B.Raw} {items : List B.Raw} : req.params = some raw → B.shape raw = .seq items →
    (∀ item, items = [item] → d item = none) → d raw = none

theorem deserializeTuple1_seq (d : Deserialize B T) {r : B.Raw} {items : List B.Raw}
    (h : B.shape r = .seq items) :
    (∃ item, items = [item] ∧ deserializeTuple1 d r = d item) ∨
      (∀ item, items ≠ [item]) ∧ deserializeTuple1 d r = none := by
  unfold deserializeTuple1
  rw [h]
  rcases items with _ | ⟨first, _ | ⟨second, items⟩⟩
  · exact .inr ⟨nofun, rfl⟩
  · exact .inl ⟨first, rfl, rfl⟩
  · exact .inr ⟨nofun, rfl⟩

theorem deserializeTuple1_eq_none (d : Deserialize B T) {r : B.Raw}
    (h : ∀ items, B.shape r ≠ .seq items) : deserializeTuple1 d r = none := by
  unfold deserializeTuple1
  split
  · rename_i item hshape
    exact absurd hshape (h [item])
  · rfl

section Law

variable (law : B.Lawful)
include law

theorem paramsAs_of_none {req : Request B} (h : req.params = none) (d : Deserialize B T) :
    req.paramsAs d = d B.null := by
  rw [paramsAs, h]
  dsimp only
  rw [← law.get_null, fromSlice_get law, toOption_deserializeFrom]

theorem paramsAs_of_some {req : Request B} {raw : B.Raw} (h : req.params = some raw)
    (d : Deserialize B T) : req.paramsAs d = d raw := by
  rw [paramsAs, h]
  dsimp only
  rw [fromRawValue_eq law, toOption_deserializeFrom]

theorem paramAs_of_none {req : Request B} (h : req.params = none) (d : Deserialize B T) :
    req.paramAs d = d B.null := by
  have hnull : deserializeTuple1 d B.null = none := by
    apply deserializeTuple1_eq_none
    intro items
    rw [law.shape_eq_null.2 rfl]
    exact nofun
  rw [paramAs, paramsAs_of_none law h, paramsAs_of_none law h, hnull]

theorem paramAs_of_ne_seq {req : Request B} {raw : B.Raw} (h : req.params = some raw)
    (hne : ∀ items, B.shape raw ≠ .seq items) (d : Deserialize B T) : req.paramAs d = d raw := by
  rw [paramAs, paramsAs_of_some law h, paramsAs_of_some law h, deserializeTuple1_eq_none d hne]

/-- Of an array the one element is asked for first, and then the array. -/
theorem paramAs_of_seq {req : Request B} {raw : B.Raw} {items : List B.Raw}
    (h : req.params = some raw) (hshape : B.shape raw = .seq items) (d : Deserialize B T) :
    (∃ item x, items = [item] ∧ d item = some x ∧ req.paramAs d = some x) ∨
      (∀ item, items = [item] → d item = none) ∧ req.paramAs d = d raw := by
  rw [paramAs, paramsAs_of_some law h, paramsAs_of_some law h]
  rcases deserializeTuple1_seq d hshape with ⟨item, rfl, htuple⟩ | ⟨hne, htuple⟩
  · rw [htuple]
    cases hitem : d item with
    | some x => exact .inl ⟨item, x, rfl, hitem, rfl⟩
    | none =>
      refine .inr ⟨fun item' heq => ?_, rfl⟩
      obtain rfl := List.singleton_inj.1 heq
      exact hitem
  · rw [htuple]
    exact .inr ⟨fun item heq => absurd heq (hne item), rfl⟩

/-- A type that takes something else that the params may be reads that. -/
theorem ExtractsParam.takesNoOther {req : Request B} {d : Deserialize B T}
    (h : req.ExtractsParam d) : req.TakesNoOther d := by
  constructor
  · intro hparams
    have hnone := h.eq_none hparams
    rwa [paramAs_of_none law hparams] at hnone
  · intro raw items hparams hshape hitem
    rcases paramAs_of_seq law hparams hshape d with ⟨item, x, heq, hx, -⟩ | ⟨-, hwhole⟩
    · rw [hitem item heq] at hx
      cases hx
    · refine Option.eq_none_iff_forall_ne_some.2 fun x hx => ?_
      rcases (h.eq_some_iff x).1 (hwhole.trans hx) with
        ⟨raw', item, hraw, hsingle, hread⟩ | ⟨raw', hraw, hne, -⟩
      · obtain rfl := Option.some.inj (hparams.symm.trans hraw)
        rw [hitem item (Shape.seq.inj (hshape.symm.trans hsingle))] at hread
        cases hread
      · obtain rfl := Option.some.inj (hparams.symm.trans hraw)
        exact hne items hshape

/-- Of an array the type reads its one element, and nothing else. -/
theorem TakesNoOther.paramAs_eq_some_iff {req : Request B} {d : Deserialize B T}
    (h : req.TakesNoOther d) {raw : B.Raw} {items : List B.Raw} (hparams : req.params = some raw)
    (hshape : B.shape raw = .seq items) {x : T} :
    req.paramAs d = some x ↔ ∃ item, items = [item] ∧ d item = some x := by
  rcases paramAs_of_seq law hparams hshape d with ⟨item, y, rfl, hy, hread⟩ | ⟨hitem, hread⟩
  · rw [hread, ← hy]
    simp
  · rw [hread, h.array hparams hshape hitem]
    refine iff_of_false nofun ?_
    rintro ⟨item, heq, hx⟩
    rw [hitem item heq] at hx
    cases hx

theorem TakesNoOther.extractsParam {req : Request B} {d : Deserialize B T}
    (h : req.TakesNoOther d) : req.ExtractsParam d := by
  constructor
  · intro x
    cases hparams : req.params with
    | none =>
      rw [paramAs_of_none law hparams, h.null hparams]
      simp
    | some raw =>
      by_cases hseq : ∃ items, B.shape raw = .seq items
      · obtain ⟨items, hshape⟩ := hseq
        rw [h.paramAs_eq_some_iff law hparams hshape]
        simp [hshape]
      · rw [paramAs_of_ne_seq law hparams (not_exists.1 hseq)]
        simp [not_exists.1 hseq]
  · intro hparams
    rw [paramAs_of_none law hparams, h.null hparams]
  · intro raw items hparams hshape hlength
    refine Option.eq_none_iff_forall_ne_some.2 fun x hx => hlength ?_
    obtain ⟨item, rfl, -⟩ := (h.paramAs_eq_some_iff law hparams hshape).1 hx
    rfl

/-- A single parameter is extracted just when the type takes nothing else that the params may be. -/
theorem extractsParam_iff (req : Request B) (d : Deserialize B T) :
    req.ExtractsParam d ↔ req.TakesNoOther d :=
  ⟨fun h => h.takesNoOther law, fun h => h.extractsParam law⟩

end Law

section Sample

open JsonText

/-- A request with the params `[7]` of which an integer is asked for. -/
theorem extractsParam_seven :
    ExtractsParam (B := backend) { method := "get", params := some (backend.seq [backend.int 7]) }
      deserializeI64 := by
  refine (extractsParam_iff lawful _ _).2 ⟨nofun, fun {raw items} hparams hshape _ => ?_⟩
  rw [deserializeI64, hshape]

/-- A vector of integers is read from two params, and an optional integer from no params. -/
theorem not_extractsParam :
    ¬ ExtractsParam (B := backend)
        { method := "get", params := some (backend.seq [backend.int 1, backend.int 2]) }
        (deserializeVec deserializeI64) ∧
      ¬ ExtractsParam (B := backend) { method := "get" } (deserializeOption deserializeI64) := by
  constructor
  · intro h
    have hnone := (h.takesNoOther lawful).array rfl (lawful.shape_seq _) nofun
    rw [deserializeVec, lawful.shape_seq] at hnone
    simp [deserializeI64_int lawful] at hnone
  · intro h
    have hnone := (h.takesNoOther lawful).null rfl
    rw [deserializeOption, lawful.shape_eq_null.2 rfl] at hnone
    cases hnone

end Sample

end Request

end Jasonrpc
