import Jasonrpc.Lib.Bytes

/-!
# The JSON backend

The crate leaves JSON to a backend.  Here a backend is a parameter: `Raw` are its raw values, that
is JSON texts, with the parser, the writer, and the view `shape` of a text through which serde
reads it one level at a time.  `Backend.Lawful` collects what the crate relies on.  Above it are
the functions of the module `json` and what serde derives for a struct.
-/

namespace Jasonrpc

open ByteString

/-- A JSON-level error: the backend's message. -/
structure JsonError where
  message : String
deriving DecidableEq, Repr

/-- One level of a JSON text, as a deserializer presents it to a visitor.  No type of the crate
reads a float, so its value is left out. -/
inductive Shape (R : Type) where
  | null
  | bool (b : Bool)
  | i64 (n : Int64)
  | u64 (n : UInt64)
  | f64
  | str (s : String)
  | seq (items : List R)
  | map (entries : List (String × R))

/-- A JSON backend. -/
structure Backend where
  /-- A JSON text without white space around it. -/
  Raw : Type
  get : Raw → Bytes
  /-- Parse bytes as one JSON text. -/
  parse : Bytes → Except JsonError Raw
  shape : Raw → Shape Raw
  /-- The error of a text that is not of the type asked for. -/
  mismatch : Raw → JsonError
  null : Raw
  int : Int64 → Raw
  str : String → Raw
  seq : List Raw → Raw
  map : List (String × Raw) → Raw

/-- The first byte that is no ASCII white space. -/
def firstByte (bytes : Bytes) : Option UInt8 := bytes.find? fun b => !isAsciiWhitespace b

/-- The byte `[`. -/
abbrev lbracket : UInt8 := 91

/-- The byte `{`. -/
abbrev lbrace : UInt8 := 123

namespace Backend

variable (B : Backend)

/-- The compact text of a member of an object. -/
def member (entry : String × B.Raw) : Bytes :=
  B.get (B.str entry.1) ++ ascii ":" ++ B.get entry.2

/-- What the crate relies on: texts are kept verbatim, what is written is read back, strings and
integers are written without a newline, and arrays and objects are written compactly. -/
structure Lawful : Prop where
  parse_get (r : B.Raw) : B.parse (B.get r) = .ok r
  firstByte_eq_lbracket {bytes : Bytes} {r : B.Raw} : B.parse bytes = .ok r →
    (firstByte bytes = some lbracket ↔ ∃ items, B.shape r = .seq items)
  firstByte_eq_lbrace {bytes : Bytes} {r : B.Raw} : B.parse bytes = .ok r →
    (firstByte bytes = some lbrace ↔ ∃ entries, B.shape r = .map entries)
  shape_eq_null {r : B.Raw} : B.shape r = .null ↔ r = B.null
  shape_int (n : Int64) : B.shape (B.int n) = if n < 0 then .i64 n else .u64 n.toUInt64
  shape_str (s : String) : B.shape (B.str s) = .str s
  shape_seq (items : List B.Raw) : B.shape (B.seq items) = .seq items
  shape_map (entries : List (String × B.Raw)) : B.shape (B.map entries) = .map entries
  get_null : B.get B.null = ascii "null"
  notMem_int (n : Int64) : (10 : UInt8) ∉ B.get (B.int n)
  notMem_str (s : String) : (10 : UInt8) ∉ B.get (B.str s)
  get_seq (items : List B.Raw) :
    B.get (B.seq items) = ascii "[" ++ (ascii ",").intercalate (items.map B.get) ++ ascii "]"
  get_map (entries : List (String × B.Raw)) :
    B.get (B.map entries) =
      ascii "\x7b" ++ (ascii ",").intercalate (entries.map B.member) ++ ascii "\x7d"

end Backend

variable {B : Backend} {T : Type}

/-- A `DeserializeOwned` type: how it is read from a JSON text. -/
abbrev Deserialize (B : Backend) (T : Type) := B.Raw → Option T

/-- A `Serialize` type: the JSON text it is written as, or the error of its own serializer. -/
abbrev Serialize (B : Backend) (T : Type) := T → Except JsonError B.Raw

/-! ## The module `json` -/

/-- Read a typed value from a JSON text. -/
def deserializeFrom (d : Deserialize B T) (r : B.Raw) : Except JsonError T :=
  match d r with
  | none => .error (B.mismatch r)
  | some v => .ok v

/-- Parse bytes as a value of the type `T`. -/
def fromSlice (d : Deserialize B T) (bytes : Bytes) : Except JsonError T :=
  (B.parse bytes).bind (deserializeFrom d)

/-- A `Value` is any JSON text. -/
def deserializeValue : Deserialize B B.Raw := some

/-- The bytes of a serialized value. -/
def toVec (s : Serialize B T) (v : T) : Except JsonError Bytes := (s v).map B.get

/-- Serialize a value once, to keep its text. -/
def toRawValue (s : Serialize B T) (v : T) : Except JsonError B.Raw := s v

/-- Read a value from a text that was kept. -/
def fromRawValue (d : Deserialize B T) (raw : B.Raw) : Except JsonError T := fromSlice d (B.get raw)

/-- A `Vec` is an array of any length. -/
def deserializeVec (d : Deserialize B T) : Deserialize B (List T) := fun r =>
  match B.shape r with
  | .seq items => items.mapM d
  | _ => none

/-- A one-element tuple `(T,)` is an array of one element. -/
def deserializeTuple1 (d : Deserialize B T) : Deserialize B T := fun r =>
  match B.shape r with
  | .seq [item] => d item
  | _ => none

/-- Split a JSON array into the raw bytes of each element. -/
def splitArray (B : Backend) (bytes : Bytes) : Except JsonError (List Bytes) :=
  (fromSlice (B := B) (deserializeVec some) bytes).map fun raws => raws.map B.get

/-! ## What serde derives -/

/-- The fields of a struct in a JSON text: an object, in which unknown members are skipped and no
field stands twice, or an array of the fields in declaration order, from which fields at the end may
be missing. -/
def structFields (names : List String) : Shape B.Raw → Option (String → Option B.Raw)
  | .map entries =>
    let known := entries.filter fun entry => names.contains entry.1
    if (known.map Prod.fst).Nodup then some fun name => known.lookup name else none
  | .seq items =>
    if items.length ≤ names.length then some fun name => (names.zip items).lookup name else none
  | _ => none

/-- A field that must be there. -/
def required (fields : String → Option B.Raw) (name : String) (d : Deserialize B T) : Option T :=
  (fields name).bind d

/-- A field of type `Option` with `#[serde(default)]`, read by `d` where it is there. -/
def optional (fields : String → Option B.Raw) (name : String) (d : Deserialize B (Option T)) :
    Option (Option T) :=
  match fields name with
  | none => some none
  | some r => d r

/-- An `Option` is `none` at `null`. -/
def deserializeOption (d : Deserialize B T) : Deserialize B (Option T) := fun r =>
  match B.shape r with
  | .null => some none
  | _ => (d r).map some

/-- A JSON string. -/
def deserializeString : Deserialize B String := fun r =>
  match B.shape r with
  | .str s => some s
  | _ => none

/-- `i64::try_from` a `u64`. -/
def i64TryFrom (n : UInt64) : Option Int64 :=
  if n.toNat < 2 ^ 63 then some n.toInt64 else none

/-- An integer in the range of `i64`. -/
def deserializeI64 : Deserialize B Int64 := fun r =>
  match B.shape r with
  | .i64 n => some n
  | .u64 n => i64TryFrom n
  | _ => none

/-- The text is `null`. -/
def Shape.isNull {R : Type} : Shape R → Bool
  | null => true
  | _ => false

/-- What an optional raw field reads back as: `null` is lost. -/
def readBack (raw : Option B.Raw) : Option B.Raw := raw.filter fun r => !(B.shape r).isNull

/-- A member that is left out when it is `none`. -/
def skipNone (name : String) : Option B.Raw → List (String × B.Raw)
  | none => []
  | some r => [(name, r)]

/-! ## Reading back -/

theorem deserializeOption_eq (d : Deserialize B T) (r : B.Raw) :
    deserializeOption d r = if (B.shape r).isNull then some none else (d r).map some := by
  unfold deserializeOption
  cases B.shape r <;> rfl

theorem optional_eq (fields : String → Option B.Raw) (name : String) (d : Deserialize B T) :
    optional fields name (deserializeOption d) =
      match fields name with
      | none => some none
      | some r => if (B.shape r).isNull then some none else (d r).map some := by
  unfold optional
  cases fields name with
  | none => rfl
  | some r => exact deserializeOption_eq d r

theorem optional_value {fields : String → Option B.Raw} {name : String} {raw : Option B.Raw}
    (h : fields name = raw) :
    optional fields name (deserializeOption deserializeValue) = some (readBack raw) := by
  rw [optional_eq, h]
  cases raw with
  | none => rfl
  | some r =>
    dsimp only
    rw [readBack, Option.filter_some]
    cases (B.shape r).isNull <;> rfl

theorem toInt_toInt64 {n : UInt64} (h : n.toNat < 2 ^ 63) : n.toInt64.toInt = n.toNat := by
  have hn : n.toInt64 = Int64.ofNat n.toNat := by
    rw [← UInt64.toInt64_ofNat', UInt64.ofNat_toNat]
  rw [hn, Int64.toInt_ofNat_of_lt h]

theorem i64TryFrom_toUInt64 {n : Int64} (h : ¬ n < 0) : i64TryFrom n.toUInt64 = some n := by
  have hnat := Int64.toNat_toUInt64_of_le (Int64.not_lt.1 h)
  have hlt := Int64.toNatClampNeg_lt n
  rw [i64TryFrom, if_pos (by omega), Int64.toInt64_toUInt64]

/-! ## What is read -/

theorem deserializeFrom_eq_ok_iff {d : Deserialize B T} {r : B.Raw} {v : T} :
    deserializeFrom d r = .ok v ↔ d r = some v := by
  unfold deserializeFrom
  cases d r <;> simp

theorem fromSlice_eq_ok_iff {d : Deserialize B T} {bytes : Bytes} {v : T} :
    fromSlice d bytes = .ok v ↔ ∃ r, B.parse bytes = .ok r ∧ d r = some v := by
  unfold fromSlice
  cases B.parse bytes with
  | error e => simp [Except.bind]
  | ok r => simp [Except.bind, deserializeFrom_eq_ok_iff]

theorem toOption_deserializeFrom (d : Deserialize B T) (r : B.Raw) :
    (deserializeFrom d r).toOption = d r := by
  unfold deserializeFrom
  cases d r <;> rfl

theorem optional_eq_some_none_iff {fields : String → Option B.Raw} {name : String}
    {d : Deserialize B T} :
    optional fields name (deserializeOption d) = some none ↔
      ∀ r, fields name = some r → (B.shape r).isNull = true := by
  rw [optional_eq]
  cases fields name with
  | none => simp
  | some r =>
    dsimp only
    split_ifs with hnull <;> simp [hnull]

theorem optional_eq_some_some_iff {fields : String → Option B.Raw} {name : String}
    {d : Deserialize B T} {v : T} :
    optional fields name (deserializeOption d) = some (some v) ↔
      ∃ r, fields name = some r ∧ (B.shape r).isNull = false ∧ d r = some v := by
  rw [optional_eq]
  cases fields name with
  | none => simp
  | some r =>
    dsimp only
    split_ifs with hnull <;> simp [hnull]

theorem fromSlice_of_parse (d : Deserialize B T) {bytes : Bytes} {r : B.Raw}
    (h : B.parse bytes = .ok r) : fromSlice d bytes = deserializeFrom d r := by
  rw [fromSlice, h]
  rfl

/-! ## Members of an object -/

/-- None of the names stands twice in an object. -/
def Once (names : List String) (entries : List (String × B.Raw)) : Prop :=
  ((entries.filter fun entry => names.contains entry.1).map Prod.fst).Nodup

theorem lookup_filter_contains {names : List String} {name : String} (h : name ∈ names)
    (entries : List (String × B.Raw)) :
    (entries.filter fun entry => names.contains entry.1).lookup name = entries.lookup name := by
  induction entries with
  | nil => rfl
  | cons entry entries ih =>
    rw [List.filter_cons]
    by_cases hname : entry.1 = name
    · have hknown : names.contains entry.1 = true := by simpa [hname] using h
      rw [if_pos hknown, List.lookup_cons, List.lookup_cons, ih]
    · have hother : (name == entry.1) = false := by simpa using fun heq => hname heq.symm
      split_ifs
      · rw [List.lookup_cons, List.lookup_cons, hother, ih]
      · rw [List.lookup_cons, hother, ih]

theorem structFields_of_shape_map {names : List String} {r : B.Raw}
    {entries : List (String × B.Raw)} (hshape : B.shape r = .map entries) (h : Once names entries) :
    ∃ members, structFields names (B.shape r) = some members ∧
      ∀ name ∈ names, members name = entries.lookup name := by
  rw [hshape]
  exact ⟨_, if_pos h, fun name hname => lookup_filter_contains hname entries⟩

section Law

variable (law : B.Lawful)
include law

theorem fromSlice_get (d : Deserialize B T) (r : B.Raw) :
    fromSlice d (B.get r) = deserializeFrom d r :=
  fromSlice_of_parse d (law.parse_get r)

theorem fromRawValue_eq (d : Deserialize B T) (raw : B.Raw) :
    fromRawValue d raw = deserializeFrom d raw :=
  fromSlice_get law d raw

theorem isNull_iff {r : B.Raw} : (B.shape r).isNull = true ↔ r = B.null := by
  rw [← law.shape_eq_null]
  cases B.shape r <;> simp [Shape.isNull]

theorem deserializeString_str (s : String) : deserializeString (B.str s) = some s := by
  rw [deserializeString, law.shape_str]

theorem deserializeI64_int (n : Int64) : deserializeI64 (B.int n) = some n := by
  rw [deserializeI64, law.shape_int]
  by_cases h : n < 0
  · rw [if_pos h]
  · rw [if_neg h]
    exact i64TryFrom_toUInt64 h

theorem structFields_map {names : List String} {entries : List (String × B.Raw)}
    (hknown : ∀ entry ∈ entries, entry.1 ∈ names) (hnodup : (entries.map Prod.fst).Nodup) :
    structFields names (B.shape (B.map entries)) = some fun name => entries.lookup name := by
  rw [law.shape_map, structFields]
  have hfilter : (entries.filter fun entry => names.contains entry.1) = entries :=
    List.filter_eq_self.2 fun entry hentry => by simpa using hknown entry hentry
  simp only [hfilter]
  rw [if_pos hnodup]

end Law

end Jasonrpc
