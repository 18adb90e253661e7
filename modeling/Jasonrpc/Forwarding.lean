import Jasonrpc.Json.Text
import Jasonrpc.Protocol
import Jasonrpc.Transport.Codec

/-!
# Forwarded messages under newline framing

A proxy parses a message, replaces its id, and writes it again.  All parts of the message are then
written compactly, except the raw values, which keep the text they came with.  So the message stays
one frame just when no newline stands in a raw value of it (`forwarded_oneFrame_iff`).
-/

namespace Jasonrpc

open ByteString

variable {B : Backend}

/-- A text is decoded as one frame in front of the bytes `rest`. -/
def OneFrame (f : Framing) (text rest : Bytes) : Prop :=
  f.decode (f.encode text ++ rest) = .ok (some (text, text.length + 1))

theorem oneFrame_newline_iff {text rest : Bytes} : OneFrame Newline text rest ↔ lf ∉ text := by
  have hencode : Newline.encode text ++ rest = text ++ lf :: rest := by
    show [] ++ text ++ [lf] ++ rest = text ++ lf :: rest
    simp
  constructor
  · intro h
    obtain ⟨_, -, hmem, -⟩ := Delimited.decode_eq_some_iff.1 h
    exact hmem
  · intro hmem
    rw [OneFrame, hencode]
    exact Delimited.decode_eq_some_iff.2 ⟨rest, rfl, hmem, rfl⟩

/-! ## Texts without a newline -/

/-- A text is on one line. -/
def OneLine (r : B.Raw) : Prop := lf ∉ B.get r

section Law

variable (law : B.Lawful)
include law

theorem oneLine_map_iff (entries : List (String × B.Raw)) :
    OneLine (B.map entries) ↔ ∀ entry ∈ entries, OneLine entry.2 := by
  have hmember (entry : String × B.Raw) : lf ∈ B.member entry ↔ lf ∈ B.get entry.2 := by
    have hcolon : lf ∉ ascii ":" := by decide
    simp [Backend.member, law.notMem_str, hcolon]
  have hopen : lf ∉ ascii "\x7b" := by decide
  have hclose : lf ∉ ascii "\x7d" := by decide
  rw [OneLine, law.get_map, List.mem_append, List.mem_append, mem_intercalate_iff (by decide)]
  simp [hopen, hclose, hmember, OneLine]

theorem oneLine_str (s : String) : OneLine (B.str s) := law.notMem_str s

theorem oneLine_null : OneLine B.null := by
  rw [OneLine, law.get_null]
  decide

theorem Id.oneLine_serialize (id : Id) : OneLine (id.serialize B) := by
  cases id with
  | null => exact oneLine_null law
  | number n => exact law.notMem_int n
  | string s => exact oneLine_str law s

theorem Error.oneLine_serialize_iff (e : Error B) :
    OneLine e.serialize ↔ ∀ data, e.data = some data → OneLine data := by
  have hint : OneLine (B.int e.code) := law.notMem_int e.code
  rw [Error.serialize, oneLine_map_iff law, Error.members]
  cases e.data <;> simp [skipNone, hint, oneLine_str law]

theorem Request.oneLine_serialize_iff (req : Request B) :
    OneLine req.serialize ↔ ∀ params, req.params = some params → OneLine params := by
  have hversion : OneLine (req.jsonrpc.serialize B) := oneLine_str law _
  rw [Request.serialize, oneLine_map_iff law, Request.members]
  cases req.params <;> cases req.id <;>
    simp [skipNone, hversion, oneLine_str law, Id.oneLine_serialize law]

theorem Response.oneLine_serialize_iff (resp : Response B) :
    OneLine resp.serialize ↔ (∀ result, resp.result = some result → OneLine result) ∧
      ∀ e, resp.error = some e → ∀ data, e.data = some data → OneLine data := by
  have hversion : OneLine (resp.jsonrpc.serialize B) := oneLine_str law _
  rw [Response.serialize, oneLine_map_iff law, Response.members]
  cases resp.result <;> cases resp.error <;>
    simp [skipNone, hversion, Id.oneLine_serialize law, Error.oneLine_serialize_iff law]

/-! ## Forwarding -/

/-- A request or a response that is parsed, gets a new id and is written again is one frame, whatever
follows it, just when its raw values are on one line. -/
theorem forwarded_oneFrame_iff (bytes : Bytes) (id : Id) :
    (∀ req, fromSlice (B := B) Request.deserialize bytes = .ok req →
      ∃ text, toVec (fun req => .ok req.serialize) (req.setId id) = .ok text ∧
        ∀ rest, OneFrame Newline text rest ↔ ∀ params, req.params = some params → OneLine params) ∧
    ∀ resp, fromSlice (B := B) Response.deserialize bytes = .ok resp →
      ∃ text, toVec (fun resp => .ok resp.serialize) (resp.setId id) = .ok text ∧
        ∀ rest, OneFrame Newline text rest ↔
          (∀ result, resp.result = some result → OneLine result) ∧
            ∀ e, resp.error = some e → ∀ data, e.data = some data → OneLine data := by
  refine ⟨fun req _ => ⟨_, rfl, fun rest => ?_⟩, fun resp _ => ⟨_, rfl, fun rest => ?_⟩⟩
  · rw [oneFrame_newline_iff]
    exact (req.setId id).oneLine_serialize_iff law
  · rw [oneFrame_newline_iff]
    exact (resp.setId id).oneLine_serialize_iff law

end Law

/-! ## Two requests -/

section Sample

open JsonText

/-- The request of a peer with the given params. -/
def peerRequest (params : backend.Raw) : Request backend :=
  { method := "get", params := some params, id := some (.number 1) }

theorem fromSlice_peerRequest {params : backend.Raw} (h : (backend.shape params).isNull = false) :
    fromSlice Request.deserialize (backend.get (peerRequest params).serialize) =
      .ok (peerRequest params) := by
  have hparams : readBack (some params) = some params := by
    rw [readBack, Option.filter_some, h]
    rfl
  have hread : (peerRequest params).readBack = peerRequest params := by
    show ({ method := "get", params := readBack (some params), id := some (.number 1) } :
      Request backend) = peerRequest params
    rw [hparams]
    rfl
  rw [fromSlice_get lawful, deserializeFrom, Request.deserialize_serialize lawful, hread]

/-- `[42]` -/
def oneLineParams : backend.Raw := ⟨ascii "[42]", by decide⟩

theorem forwarded_oneFrame_oneLineParams : ∃ text,
    toVec (fun req : Request backend => .ok req.serialize)
        ((peerRequest oneLineParams).setId (.string "up")) = .ok text ∧
      ∀ rest, OneFrame Newline text rest := by
  have hnull : (backend.shape oneLineParams).isNull = false := rfl
  obtain ⟨text, htext, hiff⟩ :=
    (forwarded_oneFrame_iff lawful _ (.string "up")).1 _ (fromSlice_peerRequest hnull)
  refine ⟨text, htext, fun rest => (hiff rest).2 ?_⟩
  intro params hparams
  obtain rfl := Option.some.inj hparams
  show lf ∉ ascii "[42]"
  decide

/-- `[1,` and `2]` on two lines. -/
def twoLineParams : backend.Raw := ⟨ascii "[1,\n2]", by decide⟩

/-- A request with such params is split by the peer. -/
theorem not_forwarded_oneFrame :
    fromSlice Request.deserialize (backend.get (peerRequest twoLineParams).serialize) =
        .ok (peerRequest twoLineParams) ∧
      ∃ text, toVec (fun req : Request backend => .ok req.serialize)
          ((peerRequest twoLineParams).setId (.string "up")) = .ok text ∧
        ∀ rest, ¬ OneFrame Newline text rest := by
  refine ⟨fromSlice_peerRequest rfl, _, rfl, fun rest => ?_⟩
  rw [oneFrame_newline_iff]
  intro hmem
  have hparams := (((peerRequest twoLineParams).setId _).oneLine_serialize_iff lawful).1 hmem
  have hline : lf ∉ ascii "[1,\n2]" := hparams twoLineParams rfl
  exact hline (by decide)

end Sample

end Jasonrpc
