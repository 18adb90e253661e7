import Jasonrpc.Lib.CopyOnWrite
import Jasonrpc.Lib.Machine
import Jasonrpc.Server

/-!
# Routers that share a table

A clone of a router refers to the same table of methods, which is copied when one of the routers that
share it registers a method.  `Routers.step` is one action of the program that owns them, on the tables
and the references to them; in `OwnRouters` every router is a value of its own.  Nothing that a program
does with its routers tells the two apart, and a table lives as long as a router refers to it
(`unobservable`): a server that hands a clone to every connection can be modelled by one router.
-/

namespace Jasonrpc

open ByteString Machine CopyOnWrite

variable {B : Backend} {C σ : Type}

/-- The routers of a program, and what they have replied. -/
structure Routers (B : Backend) (C σ : Type) where
  /-- The tables, and which of them a router refers to. -/
  methods : Heap ℕ (List (String × Method B C σ)) := {}
  maxBatchLen : ℕ → Option ℕ := fun _ => none
  /-- The state that the handlers share. -/
  world : World B C σ
  outputs : List (ℕ × Output B) := []

/-- The routers of a program, each with a table of its own. -/
structure OwnRouters (B : Backend) (C σ : Type) where
  routers : ℕ → Option (Router B C σ) := fun _ => none
  world : World B C σ
  outputs : List (ℕ × Output B) := []

/-- What a program does with a router. -/
inductive RouterAction (B : Backend) (C σ : Type) where
  | withState (r : ℕ)
  | clone (r r' : ℕ)
  | withMaxBatchLen (r max : ℕ)
  /-- `register`, or `register_with_context`. -/
  | register (r : ℕ) (name : String) (m : Method B C σ)
  | drop (r : ℕ)
  | handleBytes (r : ℕ) (bytes : Bytes) (ctx : C)

namespace OwnRouters

def new (w : World B C σ) : OwnRouters B C σ := { world := w }

def set (s : OwnRouters B C σ) (r : ℕ) (router : Option (Router B C σ)) : OwnRouters B C σ :=
  { s with routers := Function.update s.routers r router }

/-- One action. -/
def step (s : OwnRouters B C σ) : RouterAction B C σ → Option (OwnRouters B C σ)
  | .withState r => if (s.routers r).isNone then some (s.set r (some {})) else none
  | .clone r r' => if (s.routers r').isNone then (s.routers r).map fun router => s.set r' router else none
  | .withMaxBatchLen r max => (s.routers r).map fun router => s.set r (router.withMaxBatchLen max)
  -- a router that panics is dropped
  | .register r name m => (s.routers r).map fun router => s.set r (router.insert name m)
  | .drop r => (s.routers r).map fun _ => s.set r none
  | .handleBytes r bytes ctx =>
    (s.routers r).map fun router =>
      let (output, world) := router.handleBytesWithContext bytes ctx s.world
      { s with world, outputs := s.outputs ++ [(r, output)] }

end OwnRouters

namespace Routers

def new (w : World B C σ) : Routers B C σ := { world := w }

/-- A router, as its methods are called. -/
def router (s : Routers B C σ) (r : ℕ) : Option (Router B C σ) :=
  (s.methods.value r).map fun methods => { methods, maxBatchLen := s.maxBatchLen r }

/-- One action. -/
def step (s : Routers B C σ) : RouterAction B C σ → Option (Routers B C σ)
  | .withState r =>
    (s.methods.step (.alloc r [])).map fun methods =>
      { s with methods, maxBatchLen := Function.update s.maxBatchLen r none }
  | .clone r r' =>
    (s.methods.step (.share r r')).map fun methods =>
      { s with methods, maxBatchLen := Function.update s.maxBatchLen r' (s.maxBatchLen r) }
  | .withMaxBatchLen r max =>
    (s.methods.value r).map fun _ =>
      { s with maxBatchLen := Function.update s.maxBatchLen r (some max) }
  | .register r name m =>
    (s.methods.value r).bind fun table =>
      (s.methods.step (.write r fun table => (name, m) :: table)).bind fun methods =>
        match table.lookup name with
        -- the panic drops the router, with the entry that it has stored
        | some _ => (methods.step (.release r)).map fun methods => { s with methods }
        | none => some { s with methods }
  | .drop r => (s.methods.step (.release r)).map fun methods => { s with methods }
  | .handleBytes r bytes ctx =>
    (s.router r).map fun router =>
      let (output, world) := router.handleBytesWithContext bytes ctx s.world
      { s with world, outputs := s.outputs ++ [(r, output)] }

/-- What can be seen of the routers. -/
def view (s : Routers B C σ) : OwnRouters B C σ where
  routers := s.router
  world := s.world
  outputs := s.outputs

variable {s s' : Routers B C σ} {a : RouterAction B C σ} {r : ℕ}

theorem isNone_router (s : Routers B C σ) (r : ℕ) :
    (s.router r).isNone = (s.methods.value r).isNone := by
  rw [router, Option.isNone_map]

/-- The routers after a router got other methods and another limit. -/
theorem view_update {methods : Heap ℕ (List (String × Method B C σ))}
    {table : Option (List (String × Method B C σ))} (limit : Option ℕ)
    (h : methods.value = Function.update s.methods.value r table) :
    view { s with methods, maxBatchLen := Function.update s.maxBatchLen r limit } =
      s.view.set r (table.map fun methods => { methods, maxBatchLen := limit }) := by
  have hrouter : router { s with methods, maxBatchLen := Function.update s.maxBatchLen r limit } =
      Function.update s.router r (table.map fun methods => { methods, maxBatchLen := limit }) := by
    funext r'
    rw [router, h]
    dsimp only
    by_cases hr : r' = r
    · rw [hr, Function.update_self, Function.update_self, Function.update_self]
    · rw [Function.update_of_ne hr, Function.update_of_ne hr, Function.update_of_ne hr, router]
  rw [view, hrouter]
  rfl

theorem view_methods {methods : Heap ℕ (List (String × Method B C σ))}
    {table : Option (List (String × Method B C σ))}
    (h : methods.value = Function.update s.methods.value r table) :
    view { s with methods } =
      s.view.set r (table.map fun methods => { methods, maxBatchLen := s.maxBatchLen r }) := by
  have hview := view_update (s := s) (s.maxBatchLen r) h
  rwa [Function.update_eq_self] at hview

/-- The tables are counted. -/
theorem counted_step (h : s.methods.Counted) (hstep : s.step a = some s') : s'.methods.Counted := by
  cases a with
  | withState r =>
    obtain ⟨methods, halloc, rfl⟩ := Option.map_eq_some_iff.1 hstep
    exact h.step halloc
  | clone r r' =>
    obtain ⟨methods, hshare, rfl⟩ := Option.map_eq_some_iff.1 hstep
    exact h.step hshare
  | withMaxBatchLen r max =>
    obtain ⟨_, -, rfl⟩ := Option.map_eq_some_iff.1 hstep
    exact h
  | register r name m =>
    obtain ⟨table, -, hstep⟩ := Option.bind_eq_some_iff.1 hstep
    obtain ⟨methods, hwrite, hstep⟩ := Option.bind_eq_some_iff.1 hstep
    split at hstep
    · obtain ⟨methods', hrelease, rfl⟩ := Option.map_eq_some_iff.1 hstep
      exact (h.step hwrite).step hrelease
    · obtain rfl := Option.some.inj hstep
      exact h.step hwrite
  | drop r =>
    obtain ⟨methods, hrelease, rfl⟩ := Option.map_eq_some_iff.1 hstep
    exact h.step hrelease
  | handleBytes r bytes ctx =>
    obtain ⟨_, -, rfl⟩ := Option.map_eq_some_iff.1 hstep
    exact h

/-- An action does to the routers what it does to routers with tables of their own. -/
theorem view_step (h : s.methods.Counted) (a : RouterAction B C σ) :
    (s.step a).map view = s.view.step a := by
  cases a with
  | withState r =>
    show ((s.methods.step (.alloc r [])).map _).map view =
      if (s.router r).isNone then some (s.view.set r (some {})) else none
    rw [isNone_router]
    obtain ⟨hstep, hvalues⟩ | ⟨methods, hstep, hvalues⟩ := Heap.step_cases h (.alloc r [])
    · rw [hstep]
      rw [Values.step] at hvalues
      split_ifs at hvalues with hnone
      rw [if_neg hnone]
      rfl
    · rw [hstep]
      rw [Values.step, Option.ite_none_right_eq_some] at hvalues
      obtain ⟨hnone, hvalues⟩ := hvalues
      rw [if_pos hnone]
      exact congrArg some (view_update none (Option.some.inj hvalues).symm)
  | clone r r' =>
    show ((s.methods.step (.share r r')).map _).map view = if (s.router r').isNone then
      (s.router r).map fun router => s.view.set r' router else none
    rw [isNone_router, router]
    obtain ⟨hstep, hvalues⟩ | ⟨methods, hstep, hvalues⟩ := Heap.step_cases h (.share r r')
    · rw [hstep]
      rw [Values.step] at hvalues
      split_ifs at hvalues ⊢ with hnone
      · rw [Option.map_eq_none_iff] at hvalues
        rw [hvalues]
        rfl
      · rfl
    · rw [hstep]
      rw [Values.step, Option.ite_none_right_eq_some] at hvalues
      obtain ⟨hnone, hvalues⟩ := hvalues
      obtain ⟨table, htable, hvalues⟩ := Option.map_eq_some_iff.1 hvalues
      rw [if_pos hnone, htable]
      exact congrArg some (view_update (s.maxBatchLen r) hvalues.symm)
  | withMaxBatchLen r max =>
    show ((s.methods.value r).map _).map view =
      (s.router r).map fun router => s.view.set r (router.withMaxBatchLen max)
    rw [router]
    cases htable : s.methods.value r with
    | none => rfl
    | some table =>
      have hsame : s.methods.value = Function.update s.methods.value r (some table) := by
        rw [← htable, Function.update_eq_self]
      exact congrArg some (view_update (some max) hsame)
  | register r name m =>
    show ((s.methods.value r).bind _).map view =
      (s.router r).map fun router => s.view.set r (router.insert name m)
    rw [router]
    cases htable : s.methods.value r with
    | none => rfl
    | some table =>
      rw [Option.bind_some]
      obtain ⟨-, hvalues⟩ | ⟨methods, hstep, hvalues⟩ :=
        Heap.step_cases h (.write r fun table => (name, m) :: table)
      · rw [Values.step, htable] at hvalues
        cases hvalues
      · rw [Values.step, htable, Option.map_some] at hvalues
        have hvalues := (Option.some.inj hvalues).symm
        rw [hstep, Option.bind_some, Option.map_some, Option.map_some]
        cases hlookup : table.lookup name with
        | none =>
          have hinsert : Router.insert { methods := table, maxBatchLen := s.maxBatchLen r } name m =
              some { methods := (name, m) :: table, maxBatchLen := s.maxBatchLen r } := by
            rw [Router.insert]
            dsimp only
            rw [hlookup]
          rw [hinsert]
          exact congrArg some (view_methods hvalues)
        | some old =>
          have hinsert : Router.insert { methods := table, maxBatchLen := s.maxBatchLen r } name m =
              none := by
            rw [Router.insert]
            dsimp only
            rw [hlookup]
          rw [hinsert]
          -- the stored entry goes with the router
          obtain ⟨-, hgone⟩ | ⟨methods', hrelease, hgone⟩ :=
            Heap.step_cases (h.step hstep) (.release r)
          · rw [Values.step, hvalues, Function.update_self] at hgone
            cases hgone
          · rw [Values.step, hvalues, Function.update_self, Option.map_some,
              Function.update_idem] at hgone
            show ((methods.step (.release r)).map _).map view = _
            rw [hrelease]
            exact congrArg some (view_methods (Option.some.inj hgone).symm)
  | drop r =>
    show ((s.methods.step (.release r)).map _).map view =
      (s.router r).map fun _ => s.view.set r none
    rw [router]
    obtain ⟨hstep, hvalues⟩ | ⟨methods, hstep, hvalues⟩ := Heap.step_cases h (.release r)
    · rw [Values.step, Option.map_eq_none_iff] at hvalues
      rw [hstep, hvalues]
      rfl
    · obtain ⟨table, htable, hvalues⟩ := Option.map_eq_some_iff.1 hvalues
      rw [hstep, htable]
      exact congrArg some (view_methods hvalues.symm)
  | handleBytes r bytes ctx =>
    show ((s.router r).map _).map view = (s.router r).map _
    rw [Option.map_map]
    rfl

/-- Whatever a program does with its routers, it sees routers with tables of their own; and a table is
there exactly as long as a router refers to it. -/
theorem unobservable (w : World B C σ) (actions : List (RouterAction B C σ)) :
    (run step always (new w) actions).map view = run OwnRouters.step always (.new w) actions ∧
      ∀ s, run step always (new w) actions = some s → ∀ table,
        (∃ cell, s.methods.cells table = some cell) ↔ ∃ r, s.methods.refs r = some table := by
  have hnew : (new w : Routers B C σ).methods.Counted := Heap.Counted.new
  constructor
  · exact run_map (fun _ _ _ h hstep => counted_step h hstep) (fun _ a h => view_step h a) hnew actions
  · intro s hrun table
    have hcounted := (reach_of_run actions hrun).invariant (I := fun s => s.methods.Counted) hnew
      fun _ _ _ h _ hstep => counted_step h hstep
    exact hcounted.exists_cell_iff

end Routers

end Jasonrpc
