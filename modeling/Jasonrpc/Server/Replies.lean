import Jasonrpc.Server.Batch
import Jasonrpc.Transparent

/-!
# What the router sends

Whatever bytes it gets, and whatever its handlers return, the router sends nothing, or one response
object, or a non-empty array of response objects as the specification has them (`sends_replies`).  An
array answers a batch only, and has at most one element for each element of the batch.
-/

namespace Jasonrpc

open ByteString

variable {B : Backend} {C σ : Type}

/-- The text is a response object. -/
def IsReply (r : B.Raw) : Prop := ∃ id report, IsResponseObject r id report

/-- What is sent for the bytes: nothing, or a response object, or a non-empty array of response
objects, if the bytes are an array of at least as many elements. -/
def Replies (bytes : Bytes) (sent : Except (Error B) (Option Bytes)) : Prop :=
  sent = .ok none ∨ ∃ reply r, sent = .ok (some reply) ∧ B.parse reply = .ok r ∧
    (IsReply r ∨ ∃ items replies, splitArray B bytes = .ok items ∧ B.shape r = .seq replies ∧
      replies ≠ [] ∧ replies.length ≤ items.length ∧ ∀ item ∈ replies, IsReply item)

/-! ## The outputs of the router -/

/-- The responses of an output have a result or an error, and not both; a batch has one. -/
def Output.Valid : Output B → Prop
  | empty => True
  | single resp => resp.isValid
  | batch resps => resps ≠ [] ∧ ∀ resp ∈ resps, resp.isValid

theorem isValid_respond (id : Id) (outcome : Except (Error B) B.Raw) :
    (respond id outcome).isValid := by
  cases outcome <;> rfl

theorem valid_rejection (bytes : Bytes) : (rejection B bytes).Valid := rfl

namespace Router

theorem isValid_of_handleRequest {router : Router B C σ} {req : Request B} {ctx : C}
    {w : World B C σ} {resp : Response B}
    (h : (router.handleRequestWithContext req ctx w).1 = some resp) : resp.isValid := by
  obtain ⟨id, -, rfl⟩ := Option.map_eq_some_iff.1 h
  exact isValid_respond id _

theorem isValid_of_handleElement {router : Router B C σ} {bytes : Bytes} {ctx : C}
    {w : World B C σ} {resp : Response B}
    (h : (router.handleElementBytesWithContext bytes ctx w).1 = some resp) : resp.isValid := by
  rw [handleElementBytesWithContext] at h
  cases hreq : fromSlice Request.deserialize bytes with
  | ok req =>
    rw [hreq] at h
    exact isValid_of_handleRequest h
  | error e =>
    rw [hreq] at h
    obtain rfl := Option.some.inj h
    rfl

/-- The elements of a batch have at most one response each, and it is valid. -/
theorem handleElements_valid (router : Router B C σ) (ctx : C) (items : List Bytes)
    (w : World B C σ) : (router.handleElements ctx items [] w).1.length ≤ items.length ∧
      ∀ resp ∈ (router.handleElements ctx items [] w).1, resp.isValid := by
  induction items generalizing w with
  | nil => exact ⟨le_rfl, fun _ h => by cases h⟩
  | cons item items ih =>
    obtain ⟨hlength, hvalid⟩ := ih (router.handleElementBytesWithContext item ctx w).2
    rw [handleElements_cons]
    cases hitem : (router.handleElementBytesWithContext item ctx w).1 with
    | none => exact ⟨Nat.le_succ_of_le hlength, hvalid⟩
    | some resp =>
      refine ⟨Nat.succ_le_succ hlength, fun resp' hmem => ?_⟩
      rcases List.mem_cons.1 hmem with rfl | hmem
      · exact isValid_of_handleElement hitem
      · exact hvalid resp' hmem

/-- A batch is answered by at most as many responses as it has elements. -/
theorem handleBatch_valid (router : Router B C σ) (bytes : Bytes) (ctx : C) (w : World B C σ) :
    (router.handleBatchBytesWithContext bytes ctx w).1.Valid ∧
      ∀ resps, (router.handleBatchBytesWithContext bytes ctx w).1 = .batch resps →
        ∃ items, splitArray B bytes = .ok items ∧ resps.length ≤ items.length := by
  rw [handleBatchBytesWithContext]
  cases hsplit : splitArray B bytes with
  | error e => exact ⟨valid_rejection bytes, fun _ h => by cases h⟩
  | ok items =>
    dsimp only
    by_cases hempty : items.isEmpty
    · rw [if_pos hempty]
      exact ⟨rfl, fun _ h => by cases h⟩
    · rw [if_neg hempty]
      cases router.maxBatchLen.filter (items.length > ·) with
      | some max => exact ⟨rfl, fun _ h => by cases h⟩
      | none =>
        obtain ⟨hlength, hvalid⟩ := router.handleElements_valid ctx items w
        dsimp only
        by_cases hnone : (router.handleElements ctx items [] w).1.isEmpty
        · rw [if_pos hnone]
          exact ⟨trivial, fun _ h => by cases h⟩
        · rw [if_neg hnone]
          refine ⟨⟨fun h => hnone (List.isEmpty_iff.2 h), hvalid⟩, fun resps h => ?_⟩
          obtain rfl := Output.batch.inj h
          exact ⟨items, rfl, hlength⟩

/-- What the router makes of bytes is valid, and a batch only of a batch. -/
theorem handleBytes_valid (router : Router B C σ) (bytes : Bytes) (ctx : C) (w : World B C σ) :
    (router.handleBytesWithContext bytes ctx w).1.Valid ∧
      ∀ resps, (router.handleBytesWithContext bytes ctx w).1 = .batch resps →
        ∃ items, splitArray B bytes = .ok items ∧ resps.length ≤ items.length := by
  rw [handleBytesWithContext]
  cases firstByte bytes with
  | none => exact ⟨rfl, fun _ h => by cases h⟩
  | some first =>
    dsimp only
    split_ifs
    · exact router.handleBatch_valid bytes ctx w
    · cases hreq : fromSlice Request.deserialize bytes with
      | error e => exact ⟨valid_rejection bytes, fun _ h => by cases h⟩
      | ok req =>
        dsimp only
        rcases hresp : router.handleRequestWithContext req ctx w with ⟨_ | resp, w'⟩
        · exact ⟨trivial, fun _ h => by cases h⟩
        · refine ⟨?_, fun _ h => by cases h⟩
          show resp.isValid
          exact isValid_of_handleRequest (congrArg Prod.fst hresp)
    · exact ⟨valid_rejection bytes, fun _ h => by cases h⟩

end Router

/-! ## Their texts -/

section Law

variable (law : B.Lawful)
include law

/-- A valid response is written as a response object. -/
theorem Response.isReply_serialize {resp : Response B} (h : resp.isValid) :
    IsReply resp.serialize := by
  obtain ⟨hjsonrpc, hresult, herror, hid⟩ := resp.lookup_members
  have honce : Once fields resp.members := by
    rw [Once, members]
    cases resp.result <;> cases resp.error <;> simp [skipNone, fields]
  have hobject (report : Report B) (hstands : report.Stands resp.members) :
      IsReply resp.serialize :=
    ⟨resp.id.serialize B, report, resp.members, B.str "2.0", law.shape_map _, honce, hjsonrpc,
      law.shape_str _, hid, Id.isId_serialize law _, hstands⟩
  rw [isValid] at h
  cases hres : resp.result with
  | some raw =>
    cases herr : resp.error with
    | some e =>
      rw [hres, herr] at h
      cases h
    | none =>
      rw [hres] at hresult
      rw [herr] at herror
      exact hobject (.result raw) ⟨hresult, herror⟩
  | none =>
    cases herr : resp.error with
    | some e =>
      rw [hres] at hresult
      rw [herr] at herror
      exact hobject (.error (B.int e.code) (B.str e.message) e.data)
        ⟨hresult, e.serialize, herror, e.isErrorObject_serialize law⟩
    | none =>
      rw [hres, herr] at h
      cases h

/-- The router sends nothing, or one response object, or a non-empty array of response objects, which
answers an array of at least as many elements. -/
theorem Router.sends_replies [Inhabited C] (router : Router B C σ) (bytes : Bytes)
    (w : World B C σ) : Replies bytes (router.handleBytes bytes w).1.toBytes := by
  obtain ⟨hvalid, hbatch⟩ := router.handleBytes_valid bytes default w
  rw [Router.handleBytes]
  cases hout : (router.handleBytesWithContext bytes default w).1 with
  | empty => exact .inl rfl
  | single resp =>
    rw [hout] at hvalid
    exact .inr ⟨_, _, rfl, law.parse_get _, .inl (resp.isReply_serialize law hvalid)⟩
  | batch resps =>
    rw [hout] at hvalid
    obtain ⟨hne, hvalid⟩ := hvalid
    obtain ⟨items, hitems, hlength⟩ := hbatch resps hout
    refine .inr ⟨_, _, rfl, law.parse_get _,
      .inr ⟨items, _, hitems, law.shape_seq _, ?_, ?_, ?_⟩⟩
    · exact fun h => hne (List.map_eq_nil_iff.1 h)
    · rwa [List.length_map]
    · intro item hitem
      obtain ⟨resp, hresp, rfl⟩ := List.mem_map.1 hitem
      exact resp.isReply_serialize law (hvalid resp hresp)

end Law

open JsonText

/-- A batch of a call and a notification. -/
theorem Router.sends_replies_callAndNotification : Replies (batchText callAndNotification)
    (getRouter.handleBytes (batchText callAndNotification) ⟨(), []⟩).1.toBytes :=
  getRouter.sends_replies lawful _ _

end Jasonrpc
