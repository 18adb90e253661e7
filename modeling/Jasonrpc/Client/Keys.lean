import Jasonrpc.Client
import Jasonrpc.Json.Text
import Jasonrpc.Lib.Machine
import Mathlib.Data.List.Nodup

/-!
# Correlation keys

Tasks that share an `IdGen` take ids from it and encode requests with them.  In whatever order these
actions take effect, and wherever the counter starts, the ids are pairwise distinct as long as there
are fewer than `2 ^ 64` of them, and so are the keys that the reader recovers from the requests
(`keys_distinct`).
-/

namespace Jasonrpc

open ByteString Machine

/-- An atomic action of a task: the params of a request are given by the text that they serialize
to. -/
inductive AllocAction (B : Backend) where
  /-- `IdGen::next_id`. -/
  | nextId
  /-- `encode_call` with the `n`-th id taken. -/
  | encode (n : ℕ) (method : String) (params : Except JsonError B.Raw)

/-- The action takes an id. -/
def AllocAction.takesId {B : Backend} : AllocAction B → Bool
  | nextId => true
  | encode .. => false

/-- An allocator with the tasks that share it. -/
structure Allocation where
  ids : IdGen
  /-- The ids taken, in the order of their allocation. -/
  taken : List Id := []
  /-- The requests encoded, each with the number of its id in `taken`. -/
  requests : List (ℕ × Bytes) := []

namespace Allocation

variable {B : Backend}

/-- Nothing has been taken, and the counter stands at `start`. -/
def new (start : UInt64) : Allocation := { ids := ⟨start⟩ }

/-- One atomic action; an id has to be taken before it is encoded. -/
def step (B : Backend) (s : Allocation) : AllocAction B → Option Allocation
  | .nextId =>
    let (id, ids) := s.ids.nextId
    some { s with ids, taken := s.taken ++ [id] }
  | .encode n method params =>
    match s.taken[n]? with
    | none => none
    | some id =>
      match encodeCall Empty method (fun params => params) params id with
      | .error _ => some s
      | .ok (bytes, _) => some { s with requests := s.requests ++ [(n, bytes)] }

/-- The ids are those from `start` on, and the requests have them as keys. -/
structure Drawn (B : Backend) (start : UInt64) (s : Allocation) : Prop where
  next_eq : s.ids.next = start + UInt64.ofNat s.taken.length
  taken_eq : s.taken = (List.range s.taken.length).map (IdGen.nthFrom start)
  key {n : ℕ} {bytes : Bytes} : (n, bytes) ∈ s.requests →
    ∃ id, s.taken[n]? = some id ∧ parseId B bytes = some id

namespace Drawn

variable {start : UInt64} {s s' : Allocation} {a : AllocAction B}

theorem new (start : UInt64) : Drawn B start (new start) where
  next_eq := (UInt64.add_zero start).symm
  taken_eq := rfl
  key h := by cases h

theorem nextId_eq (h : Drawn B start s) :
    s.ids.nextId.1 = IdGen.nthFrom start s.taken.length := by
  rw [IdGen.nextId, IdGen.nthFrom, h.next_eq]

theorem step (law : B.Lawful) (h : Drawn B start s) (hstep : s.step B a = some s') :
    Drawn B start s' := by
  cases a with
  | nextId =>
    obtain rfl := Option.some.inj hstep
    have hlength (id : Id) : (s.taken ++ [id]).length = s.taken.length + 1 := by simp
    constructor
    · show s.ids.next + 1 = start + UInt64.ofNat (s.taken ++ [_]).length
      rw [h.next_eq, hlength, UInt64.ofNat_add, UInt64.add_assoc]
      rfl
    · show s.taken ++ [s.ids.nextId.1] = (List.range (s.taken ++ [_]).length).map _
      rw [hlength, List.range_succ, List.map_append, ← h.taken_eq, h.nextId_eq]
      rfl
    · intro n bytes hmem
      obtain ⟨id, hid, hkey⟩ := h.key hmem
      have hlt := (List.getElem?_eq_some_iff.1 hid).1
      exact ⟨id, (List.getElem?_append_left hlt).trans hid, hkey⟩
  | encode n method params =>
    rw [Allocation.step] at hstep
    split at hstep
    · cases hstep
    · rename_i id hid
      split at hstep
      · obtain rfl := Option.some.inj hstep
        exact h
      · rename_i bytes _ hencoded
        obtain rfl := Option.some.inj hstep
        refine ⟨h.next_eq, h.taken_eq, fun {n' bytes'} hmem => ?_⟩
        rcases List.mem_append.1 hmem with hmem | hnew
        · exact h.key hmem
        · obtain ⟨rfl, rfl⟩ := Prod.mk.inj (List.mem_singleton.1 hnew)
          exact ⟨id, hid, (parseId_encodeCall law hencoded).2⟩

theorem nodup (h : Drawn B start s) (hfew : s.taken.length < 2 ^ 64) : s.taken.Nodup := by
  rw [h.taken_eq]
  refine List.Nodup.map_on (fun i hi j hj heq => ?_) List.nodup_range
  rw [List.mem_range] at hi hj
  exact IdGen.nthFrom_injective (hi.trans hfew) (hj.trans hfew) heq

end Drawn

theorem length_taken_step {s s' : Allocation} {a : AllocAction B} (hstep : s.step B a = some s') :
    s'.taken.length = s.taken.length + if a.takesId then 1 else 0 := by
  cases a with
  | nextId =>
    obtain rfl := Option.some.inj hstep
    simp [AllocAction.takesId]
  | encode n method params =>
    rw [step] at hstep
    split at hstep
    · cases hstep
    · split at hstep <;> obtain rfl := Option.some.inj hstep <;> rfl

theorem length_taken_of_run {start : UInt64} {actions : List (AllocAction B)} {s : Allocation}
    (h : run (step B) always (new start) actions = some s) :
    s.taken.length = actions.countP AllocAction.takesId := by
  refine run_invariant (I := fun actions s => s.taken.length = actions.countP AllocAction.takesId)
    rfl (fun actions s a s' hlen _ hstep => ?_) h
  rw [length_taken_step hstep, hlen, List.countP_append, List.countP_singleton]

/-- The key of a request is the id that it was encoded with; and whatever requests are encoded with
fewer than `2 ^ 64` ids of one allocator, in whatever order, the ids are pairwise distinct, and so are
the keys of the requests with different ids. -/
theorem keys_distinct (law : B.Lawful) :
    (∀ (E P : Type) (method : String) (s : Serialize B P) (params : P) (id id' : Id) (bytes : Bytes),
      encodeCall E method s params id = .ok (bytes, id') → id' = id ∧ parseId B bytes = some id) ∧
    ∀ (start : UInt64) (actions : List (AllocAction B)) (s : Allocation),
      run (step B) always (new start) actions = some s →
      actions.countP AllocAction.takesId < 2 ^ 64 →
      s.taken.length = actions.countP AllocAction.takesId ∧ s.taken.Nodup ∧
        (∀ n bytes, (n, bytes) ∈ s.requests →
          ∃ id, s.taken[n]? = some id ∧ parseId B bytes = some id) ∧
        ∀ n n' bytes bytes', (n, bytes) ∈ s.requests → (n', bytes') ∈ s.requests → n ≠ n' →
          parseId B bytes ≠ parseId B bytes' := by
  refine ⟨fun E P method s params id id' bytes h => parseId_encodeCall law h,
    fun start actions s hrun hfew => ?_⟩
  have hlen := length_taken_of_run hrun
  have hdrawn : Drawn B start s := (reach_of_run actions hrun).invariant (.new start)
    fun _ _ _ h _ hstep => h.step law hstep
  have hnodup := hdrawn.nodup (hlen ▸ hfew)
  refine ⟨hlen, hnodup, fun n bytes hmem => hdrawn.key hmem,
    fun n n' bytes bytes' hmem hmem' hne heq => hne ?_⟩
  obtain ⟨id, hid, hkey⟩ := hdrawn.key hmem
  obtain ⟨id', hid', hkey'⟩ := hdrawn.key hmem'
  rw [heq, hkey'] at hkey
  obtain rfl := Option.some.inj hkey
  obtain ⟨hn, hget⟩ := List.getElem?_eq_some_iff.1 hid
  obtain ⟨hn', hget'⟩ := List.getElem?_eq_some_iff.1 hid'
  exact (List.Nodup.getElem_inj_iff hnodup).1 (hget.trans hget'.symm)

section Sample

open JsonText

/-- The counter wraps between two ids, and the later one is encoded first. -/
def acrossWrap : List (AllocAction backend) :=
  [.nextId, .nextId, .encode 1 "get" (.ok backend.null), .encode 0 "put" (.ok backend.null)]

theorem keys_distinct_acrossWrap :
    ∃ s, run (step backend) always (new 18446744073709551615) acrossWrap = some s ∧
      s.taken = [.number (-1), .number 0] ∧ s.requests.length = 2 ∧ s.taken.Nodup := by
  refine ⟨_, rfl, by decide, rfl, ?_⟩
  exact ((keys_distinct lawful).2 18446744073709551615 acrossWrap _ rfl (by decide)).2.1

end Sample

end Allocation

end Jasonrpc
