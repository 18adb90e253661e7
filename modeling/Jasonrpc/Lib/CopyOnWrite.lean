import Jasonrpc.Lib.Table
import Mathlib.Data.Finset.Card

/-!
# Shared values that are copied on write

The owners of a `Heap` refer to cells.  A cell counts the references to it, and is freed with the last of
them.  An owner that writes does so in place where it is the only one, and to a copy of its own elsewhere.

`Counted` says that a cell counts its owners and is there as long as it has any.  Then every owner has, in
effect, a value of its own: `step` does to the values of the owners what `Values.step` does to a table of
plain values (`step_eq`).
-/

namespace CopyOnWrite

/-- A value, with the number of references to it. -/
structure Cell (α : Type*) where
  count : ℕ
  value : α

/-- The cells by their addresses, and the address to which an owner refers. -/
structure Heap (ι α : Type*) where
  cells : ℕ → Option (Cell α) := fun _ => none
  /-- No address from here on has been used. -/
  next : ℕ := 0
  refs : ι → Option ℕ := fun _ => none

/-- An action of an owner. -/
inductive Op (ι α : Type*) where
  /-- `x` becomes the owner of a new value. -/
  | alloc (x : ι) (v : α)
  /-- `y` becomes an owner of the value of `x`. -/
  | share (x y : ι)
  /-- `x` gives its value up. -/
  | release (x : ι)
  | write (x : ι) (f : α → α)

variable {ι α : Type*}

namespace Values

/-- The action where each owner has a value of its own. -/
def step [DecidableEq ι] (values : ι → Option α) : Op ι α → Option (ι → Option α)
  | .alloc x v => if (values x).isNone then some (Function.update values x (some v)) else none
  | .share x y =>
    if (values y).isNone then (values x).map fun v => Function.update values y (some v) else none
  | .release x => (values x).map fun _ => Function.update values x none
  | .write x f => (values x).map fun v => Function.update values x (some (f v))

end Values

namespace Heap

/-- The value of an owner. -/
def value (s : Heap ι α) (x : ι) : Option α :=
  (s.refs x).bind fun a => (s.cells a).map Cell.value

/-- The cell of an owner, with its address. -/
def cellOf (s : Heap ι α) (x : ι) : Option (ℕ × Cell α) :=
  (s.refs x).bind fun a => (s.cells a).map fun cell => (a, cell)

/-- The cells count the owners that there are, by their addresses. -/
structure Counts (owners : ℕ → Finset ι) (s : Heap ι α) : Prop where
  mem_iff {a : ℕ} {x : ι} : x ∈ owners a ↔ s.refs x = some a
  /-- A cell has an owner. -/
  count_eq {a : ℕ} {cell : Cell α} : s.cells a = some cell →
    cell.count = (owners a).card ∧ 0 < cell.count
  /-- An address that is not in use has none. -/
  free {a : ℕ} : s.cells a = none → owners a = ∅
  unused {a : ℕ} : s.next ≤ a → s.cells a = none

/-- A cell counts its owners, and is there as long as it has any. -/
def Counted (s : Heap ι α) : Prop := ∃ owners, Counts owners s

variable {s s' : Heap ι α} {owners : ℕ → Finset ι} {x y : ι} {a : ℕ} {cell : Cell α}

theorem cellOf_eq_some_iff :
    s.cellOf x = some (a, cell) ↔ s.refs x = some a ∧ s.cells a = some cell := by
  rw [cellOf, Option.bind_eq_some_iff]
  constructor
  · rintro ⟨a', hrefs, h⟩
    obtain ⟨cell', hcell, heq⟩ := Option.map_eq_some_iff.1 h
    obtain ⟨rfl, rfl⟩ := Prod.mk.inj heq
    exact ⟨hrefs, hcell⟩
  · rintro ⟨hrefs, hcell⟩
    exact ⟨a, hrefs, by rw [hcell, Option.map_some]⟩

theorem value_eq (s : Heap ι α) (x : ι) : s.value x = (s.cellOf x).map fun c => c.2.value := by
  rw [value, cellOf, Option.map_bind]
  congr 1
  funext a
  show _ = ((s.cells a).map fun cell => (a, cell)).map fun c => c.2.value
  rw [Option.map_map]
  rfl

namespace Counts

theorem new : Counts (fun _ => ∅) ({} : Heap ι α) where
  mem_iff := by simp
  count_eq h := by cases h
  free _ := rfl
  unused _ := rfl

theorem exists_cell (h : Counts owners s) (hrefs : s.refs x = some a) :
    ∃ cell, s.cells a = some cell := by
  rw [← Option.isSome_iff_exists, Option.isSome_iff_ne_none]
  intro hnone
  have hmem := h.mem_iff.2 hrefs
  rw [h.free hnone] at hmem
  exact absurd hmem (Finset.notMem_empty x)

theorem isNone_value (h : Counts owners s) : (s.value x).isNone = (s.refs x).isNone := by
  cases hrefs : s.refs x with
  | none =>
    rw [value, hrefs]
    rfl
  | some a =>
    obtain ⟨cell, hcell⟩ := h.exists_cell hrefs
    rw [value, hrefs, Option.bind_some, hcell]
    rfl

theorem eq_of_count (h : Counts owners s) (hcell : s.cells a = some cell) (hone : cell.count = 1)
    (hx : s.refs x = some a) (hy : s.refs y = some a) : y = x := by
  have hcard := (h.count_eq hcell).1
  rw [hone] at hcard
  obtain ⟨z, hz⟩ := Finset.card_eq_one.1 hcard.symm
  have hxz := h.mem_iff.2 hx
  have hyz := h.mem_iff.2 hy
  rw [hz, Finset.mem_singleton] at hxz hyz
  rw [hxz, hyz]

theorem ne_next (h : Counts owners s) (hx : s.refs x = some a) : a ≠ s.next := by
  rintro rfl
  obtain ⟨cell, hcell⟩ := h.exists_cell hx
  cases (h.unused le_rfl).symm.trans hcell

end Counts

theorem Counted.new : ({} : Heap ι α).Counted := ⟨_, .new⟩

theorem Counted.exists_cell_iff (h : s.Counted) :
    (∃ cell, s.cells a = some cell) ↔ ∃ x, s.refs x = some a := by
  obtain ⟨owners, h⟩ := h
  constructor
  · rintro ⟨cell, hcell⟩
    obtain ⟨hcount, hpos⟩ := h.count_eq hcell
    obtain ⟨x, hx⟩ := Finset.card_pos.1 (hcount ▸ hpos)
    exact ⟨x, h.mem_iff.1 hx⟩
  · rintro ⟨x, hx⟩
    exact h.exists_cell hx

/-! ## The actions -/

variable [DecidableEq ι]

def alloc (s : Heap ι α) (x : ι) (v : α) : Heap ι α where
  cells := Function.update s.cells s.next (some ⟨1, v⟩)
  next := s.next + 1
  refs := Function.update s.refs x (some s.next)

def share (s : Heap ι α) (y : ι) (a : ℕ) (cell : Cell α) : Heap ι α where
  cells := Function.update s.cells a (some { cell with count := cell.count + 1 })
  next := s.next
  refs := Function.update s.refs y (some a)

def release (s : Heap ι α) (x : ι) (a : ℕ) (cell : Cell α) : Heap ι α where
  cells := Function.update s.cells a
    (if cell.count = 1 then none else some { cell with count := cell.count - 1 })
  next := s.next
  refs := Function.update s.refs x none

/-- In place where the reference is the only one, and to a copy elsewhere. -/
def write (s : Heap ι α) (x : ι) (f : α → α) (a : ℕ) (cell : Cell α) : Heap ι α :=
  if cell.count = 1 then
    { s with cells := Function.update s.cells a (some { cell with value := f cell.value }) }
  else (s.release x a cell).alloc x (f cell.value)

/-- The action of an owner. -/
def step (s : Heap ι α) : Op ι α → Option (Heap ι α)
  | .alloc x v => if (s.refs x).isNone then some (s.alloc x v) else none
  | .share x y =>
    if (s.refs y).isNone then (s.cellOf x).map fun (a, cell) => s.share y a cell else none
  | .release x => (s.cellOf x).map fun (a, cell) => s.release x a cell
  | .write x f => (s.cellOf x).map fun (a, cell) => s.write x f a cell

namespace Counts

theorem alloc (h : Counts owners s) (hfresh : s.refs x = none) (v : α) :
    Counts (Function.update owners s.next {x}) (s.alloc x v) where
  mem_iff {a y} := by
    show y ∈ Function.update owners s.next {x} a ↔ Function.update s.refs x (some s.next) y = some a
    rw [Function.update_apply, Function.update_apply]
    split_ifs with ha hy hy
    · simp [ha, hy]
    · rw [Finset.mem_singleton]
      exact ⟨fun heq => absurd heq hy, fun hrefs => absurd ha (h.ne_next hrefs)⟩
    · rw [h.mem_iff, hy, hfresh]
      simp [Ne.symm ha]
    · exact h.mem_iff
  count_eq {a cell} hcell := by
    show cell.count = (Function.update owners s.next {x} a).card ∧ _
    rcases Table.of_update hcell with ⟨rfl, rfl⟩ | ⟨hne, hcell⟩
    · rw [Function.update_self]
      exact ⟨rfl, Nat.one_pos⟩
    · rw [Function.update_of_ne hne]
      exact h.count_eq hcell
  free {a} hnone := by
    obtain ⟨hne, hnone⟩ := Table.of_update_none hnone
    exact (Function.update_of_ne hne ..).trans (h.free hnone)
  unused {a} hle := by
    have hne : a ≠ s.next := fun heq => Nat.not_succ_le_self _ (heq ▸ hle)
    exact (Function.update_of_ne hne ..).trans (h.unused (Nat.le_of_succ_le hle))

theorem share (h : Counts owners s) (hfresh : s.refs y = none) (hcell : s.cells a = some cell) :
    Counts (Function.update owners a (insert y (owners a))) (s.share y a cell) where
  mem_iff {b z} := by
    show z ∈ Function.update owners a (insert y (owners a)) b ↔
      Function.update s.refs y (some a) z = some b
    rw [Function.update_apply, Function.update_apply]
    split_ifs with hb hz hz
    · simp [hb, hz]
    · rw [Finset.mem_insert, or_iff_right hz, hb]
      exact h.mem_iff
    · rw [h.mem_iff, hz, hfresh]
      simp [Ne.symm hb]
    · exact h.mem_iff
  count_eq {b cell'} hcell' := by
    show cell'.count = (Function.update owners a (insert y (owners a)) b).card ∧ _
    rcases Table.of_update hcell' with ⟨rfl, rfl⟩ | ⟨hne, hcell'⟩
    · have hnot : y ∉ owners b := fun hmem => by cases hfresh.symm.trans (h.mem_iff.1 hmem)
      rw [Function.update_self, Finset.card_insert_of_notMem hnot, ← (h.count_eq hcell).1]
      exact ⟨rfl, Nat.succ_pos _⟩
    · rw [Function.update_of_ne hne]
      exact h.count_eq hcell'
  free {b} hnone := by
    obtain ⟨hne, hnone⟩ := Table.of_update_none hnone
    exact (Function.update_of_ne hne ..).trans (h.free hnone)
  unused {b} hle := by
    have hne : b ≠ a := by
      rintro rfl
      cases (h.unused hle).symm.trans hcell
    exact (Function.update_of_ne hne ..).trans (h.unused hle)

theorem release (h : Counts owners s) (hrefs : s.refs x = some a) (hcell : s.cells a = some cell) :
    Counts (Function.update owners a ((owners a).erase x)) (s.release x a cell) := by
  have hcount := h.count_eq hcell
  have hcard : ((owners a).erase x).card = cell.count - 1 := by
    rw [Finset.card_erase_of_mem (h.mem_iff.2 hrefs), hcount.1]
  constructor
  · intro b z
    show z ∈ Function.update owners a ((owners a).erase x) b ↔
      Function.update s.refs x none z = some b
    rw [Function.update_apply, Function.update_apply]
    split_ifs with hb hz hz
    · simp [hz]
    · rw [Finset.mem_erase, hb, h.mem_iff]
      simp [hz]
    · rw [h.mem_iff, hz, hrefs]
      simp [Ne.symm hb]
    · exact h.mem_iff
  · intro b cell' hcell'
    show cell'.count = (Function.update owners a ((owners a).erase x) b).card ∧ _
    have hcell' : Function.update s.cells a
        (if cell.count = 1 then none else some { cell with count := cell.count - 1 }) b =
          some cell' := hcell'
    rw [Function.update_apply] at hcell' ⊢
    split_ifs at hcell' ⊢ with hb hone
    · obtain rfl := Option.some.inj hcell'
      exact ⟨hcard.symm, by show 0 < cell.count - 1; omega⟩
    · exact h.count_eq hcell'
  · intro b hnone
    show Function.update owners a ((owners a).erase x) b = ∅
    have hnone : Function.update s.cells a
        (if cell.count = 1 then none else some { cell with count := cell.count - 1 }) b =
          none := hnone
    rw [Function.update_apply] at hnone ⊢
    split_ifs at hnone ⊢ with hb hone
    · rw [← Finset.card_eq_zero, hcard, hone]
    · exact h.free hnone
  · intro b hle
    have hne : b ≠ a := by
      rintro rfl
      cases (h.unused hle).symm.trans hcell
    exact (Function.update_of_ne hne ..).trans (h.unused hle)

theorem write (h : Counts owners s) (hrefs : s.refs x = some a) (hcell : s.cells a = some cell)
    (f : α → α) : (s.write x f a cell).Counted := by
  rw [Heap.write]
  split_ifs with hone
  · refine ⟨owners, h.mem_iff, fun {b cell'} hcell' => ?_, fun {b} hnone => ?_, fun {b} hle => ?_⟩
    · rcases Table.of_update hcell' with ⟨rfl, rfl⟩ | ⟨-, hcell'⟩
      · exact ⟨(h.count_eq hcell).1, (h.count_eq hcell).2⟩
      · exact h.count_eq hcell'
    · exact h.free (Table.of_update_none hnone).2
    · have hne : b ≠ a := by
        rintro rfl
        cases (h.unused hle).symm.trans hcell
      exact (Function.update_of_ne hne ..).trans (h.unused hle)
  · have hfresh : (s.release x a cell).refs x = none := Function.update_self ..
    exact ⟨_, (h.release hrefs hcell).alloc hfresh _⟩

/-! ## The values of the owners -/

theorem value_alloc (h : Counts owners s) (x : ι) (v : α) :
    (s.alloc x v).value = Function.update s.value x (some v) := by
  funext y
  rw [Function.update_apply, value]
  show (Function.update s.refs x (some s.next) y).bind (fun a =>
    (Function.update s.cells s.next (some ⟨1, v⟩) a).map Cell.value) = _
  rw [Function.update_apply]
  split_ifs with hy
  · rw [Option.bind_some, Function.update_self, Option.map_some]
  · rw [value]
    cases hrefs : s.refs y with
    | none => rfl
    | some a => rw [Option.bind_some, Option.bind_some, Function.update_of_ne (h.ne_next hrefs)]

theorem value_share (hcell : s.cells a = some cell) :
    (s.share y a cell).value = Function.update s.value y (some cell.value) := by
  funext z
  rw [Function.update_apply, value]
  show (Function.update s.refs y (some a) z).bind (fun b =>
    (Function.update s.cells a (some { cell with count := cell.count + 1 }) b).map Cell.value) = _
  rw [Function.update_apply]
  split_ifs with hz
  · rw [Option.bind_some, Function.update_self, Option.map_some]
  · rw [value]
    congr 1
    funext b
    by_cases hb : b = a
    · rw [hb, Function.update_self, hcell]
      rfl
    · rw [Function.update_of_ne hb]

theorem value_release (h : Counts owners s) (hrefs : s.refs x = some a)
    (hcell : s.cells a = some cell) : (s.release x a cell).value = Function.update s.value x none := by
  funext y
  rw [Function.update_apply, value]
  show (Function.update s.refs x none y).bind (fun b => (Function.update s.cells a
    (if cell.count = 1 then none else some { cell with count := cell.count - 1 }) b).map
      Cell.value) = _
  rw [Function.update_apply]
  split_ifs with hy hone hone
  · rfl
  · rfl
  · -- the cell is freed, and no other owner refers to it
    rw [value]
    cases hy' : s.refs y with
    | none => rfl
    | some b =>
      have hb : b ≠ a := fun heq => hy (h.eq_of_count hcell hone hrefs (heq ▸ hy'))
      rw [Option.bind_some, Option.bind_some, Function.update_of_ne hb]
  · rw [value]
    congr 1
    funext b
    by_cases hb : b = a
    · rw [hb, Function.update_self, hcell]
      rfl
    · rw [Function.update_of_ne hb]

theorem value_write (h : Counts owners s) (hrefs : s.refs x = some a) (hcell : s.cells a = some cell)
    (f : α → α) : (s.write x f a cell).value = Function.update s.value x (some (f cell.value)) := by
  rw [Heap.write]
  split_ifs with hone
  · funext y
    rw [Function.update_apply, value, value]
    show (s.refs y).bind (fun b => (Function.update s.cells a
      (some { cell with value := f cell.value }) b).map Cell.value) = _
    split_ifs with hy
    · rw [hy, hrefs, Option.bind_some, Function.update_self, Option.map_some]
    · cases hy' : s.refs y with
      | none => rfl
      | some b =>
        have hb : b ≠ a := fun heq => hy (h.eq_of_count hcell hone hrefs (heq ▸ hy'))
        rw [Option.bind_some, Option.bind_some, Function.update_of_ne hb]
  · rw [(h.release hrefs hcell).value_alloc, h.value_release hrefs hcell, Function.update_idem]

end Counts

/-- Every action keeps the counts. -/
theorem Counted.step {op : Op ι α} (h : s.Counted) (hstep : s.step op = some s') : s'.Counted := by
  obtain ⟨owners, h⟩ := h
  cases op with
  | alloc x v =>
    rw [Heap.step, Option.ite_none_right_eq_some] at hstep
    obtain ⟨hfresh, hstep⟩ := hstep
    obtain rfl := Option.some.inj hstep
    exact ⟨_, h.alloc (Option.isNone_iff_eq_none.1 hfresh) v⟩
  | share x y =>
    rw [Heap.step, Option.ite_none_right_eq_some] at hstep
    obtain ⟨hfresh, hstep⟩ := hstep
    obtain ⟨⟨a, cell⟩, hof, rfl⟩ := Option.map_eq_some_iff.1 hstep
    exact ⟨_, h.share (Option.isNone_iff_eq_none.1 hfresh) (cellOf_eq_some_iff.1 hof).2⟩
  | release x =>
    obtain ⟨⟨a, cell⟩, hof, rfl⟩ := Option.map_eq_some_iff.1 hstep
    obtain ⟨hrefs, hcell⟩ := cellOf_eq_some_iff.1 hof
    exact ⟨_, h.release hrefs hcell⟩
  | write x f =>
    obtain ⟨⟨a, cell⟩, hof, rfl⟩ := Option.map_eq_some_iff.1 hstep
    obtain ⟨hrefs, hcell⟩ := cellOf_eq_some_iff.1 hof
    exact h.write hrefs hcell f

/-- An action does to the values of the owners what it does to values of their own. -/
theorem step_eq (h : s.Counted) (op : Op ι α) :
    (s.step op).map value = Values.step s.value op := by
  obtain ⟨owners, h⟩ := h
  cases op with
  | alloc x v =>
    rw [step, Values.step, h.isNone_value]
    split_ifs
    · rw [Option.map_some, h.value_alloc]
    · rfl
  | share x y =>
    rw [step, Values.step, h.isNone_value, value_eq]
    split_ifs
    · cases hof : s.cellOf x with
      | none => rfl
      | some c =>
        obtain ⟨hrefs, hcell⟩ := cellOf_eq_some_iff.1 hof
        simp only [Option.map_some]
        rw [Counts.value_share hcell]
    · rfl
  | release x =>
    rw [step, Values.step, value_eq]
    cases hof : s.cellOf x with
    | none => rfl
    | some c =>
      obtain ⟨hrefs, hcell⟩ := cellOf_eq_some_iff.1 hof
      simp only [Option.map_some]
      rw [h.value_release hrefs hcell]
  | write x f =>
    rw [step, Values.step, value_eq]
    cases hof : s.cellOf x with
    | none => rfl
    | some c =>
      obtain ⟨hrefs, hcell⟩ := cellOf_eq_some_iff.1 hof
      simp only [Option.map_some]
      rw [h.value_write hrefs hcell]

/-- So an owner can take an action exactly where it could with a value of its own. -/
theorem step_cases (h : s.Counted) (op : Op ι α) :
    s.step op = none ∧ Values.step s.value op = none ∨
      ∃ s', s.step op = some s' ∧ Values.step s.value op = some s'.value := by
  have heq := step_eq h op
  cases hstep : s.step op with
  | none =>
    rw [hstep] at heq
    exact .inl ⟨rfl, heq.symm⟩
  | some s' =>
    rw [hstep] at heq
    exact .inr ⟨s', rfl, heq.symm⟩

end Heap

end CopyOnWrite
