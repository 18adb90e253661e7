import Jasonrpc.Lib.Machine
import Jasonrpc.Lib.Table

/-!
# Tasks that interleave

A `Resumption` is a task: it has ended with a result, or performs an operation on a world that it
shares with others and goes on with what this answers.  `eval` runs it alone, one operation after the
other.

In a `Pool` many tasks run over one world, one operation of one of them at a time.  However they
interleave, the world is that of the operations in the order of the log, and a task has gone on with
what they answer in that order (`Pool.Sound`).  A task that the operations of the others do not disturb
ends as it does alone (`Advances.eval_eq`).
-/

/-- A task of operations `ω` with answers `α`, whose result is a `ρ`. -/
inductive Resumption (ω α ρ : Type*) where
  | done (r : ρ)
  | perform (o : ω) (next : α → Resumption ω α ρ)

namespace Resumption

open Machine

variable {ω α ρ ρ' W V : Type*}

/-! ## One task -/

/-- Go on with a result. -/
def bind : Resumption ω α ρ → (ρ → Resumption ω α ρ') → Resumption ω α ρ'
  | done r, f => f r
  | perform o next, f => perform o fun a => (next a).bind f

/-- Run a task alone. -/
def eval (exec : ω → W → α × W) : Resumption ω α ρ → W → ρ × W
  | done r, w => (r, w)
  | perform o next, w => (next (exec o w).1).eval exec (exec o w).2

theorem eval_bind (exec : ω → W → α × W) (t : Resumption ω α ρ) (f : ρ → Resumption ω α ρ') (w : W) :
    (t.bind f).eval exec w = (f (t.eval exec w).1).eval exec (t.eval exec w).2 := by
  induction t generalizing w with
  | done r => rfl
  | perform o next ih => exact ih _ _

/-- A task goes on with the answers to the operations that it performs. -/
inductive Advances : Resumption ω α ρ → List (ω × α) → Resumption ω α ρ → Prop where
  | refl (t : Resumption ω α ρ) : Advances t [] t
  | perform {o : ω} {a : α} {next : α → Resumption ω α ρ} {h : List (ω × α)} {t : Resumption ω α ρ}
    (advances : Advances (next a) h t) : Advances (perform o next) ((o, a) :: h) t

namespace Advances

variable {t t' t'' : Resumption ω α ρ} {h h' : List (ω × α)}

theorem trans (h₁ : Advances t h t') (h₂ : Advances t' h' t'') : Advances t (h ++ h') t'' := by
  induction h₁ with
  | refl => exact h₂
  | perform _ ih => exact .perform (ih h₂)

theorem concat {o : ω} {next : α → Resumption ω α ρ} (h₁ : Advances t h (.perform o next)) (a : α) :
    Advances t (h ++ [(o, a)]) (next a) :=
  h₁.trans (.perform (.refl _))

end Advances

/-- Whatever the answers, the operations of a task are these. -/
def Performs : Resumption ω α ρ → List ω → Prop
  | done _, ops => ops = []
  | perform o next, ops => ∃ rest, ops = o :: rest ∧ ∀ a, (next a).Performs rest

theorem Performs.of_advances {t t' : Resumption ω α ρ} {h : List (ω × α)} {ops : List ω}
    (hops : t.Performs ops) (ht : Advances t h t') :
    ∃ rest, ops = h.map Prod.fst ++ rest ∧ t'.Performs rest := by
  induction ht generalizing ops with
  | refl => exact ⟨ops, rfl, hops⟩
  | @perform o a next h t _ ih =>
    obtain ⟨rest, rfl, hnext⟩ := hops
    obtain ⟨rest', rfl, ht⟩ := ih (hnext a)
    exact ⟨rest', rfl, ht⟩

theorem Performs.bind_done {t : Resumption ω α ρ} {ops : List ω} (h : t.Performs ops) (f : ρ → ρ') :
    (t.bind fun r => .done (f r)).Performs ops := by
  induction t generalizing ops with
  | done r => exact h
  | perform o next ih =>
    obtain ⟨rest, rfl, hnext⟩ := h
    exact ⟨rest, rfl, fun a => ih a (hnext a)⟩

/-! ## The operations of many tasks -/

section Log

variable (exec : ω → W → α × W)

/-- The world after the operations of a log. -/
def execAll : List (ℕ × ω) → W → W
  | [], w => w
  | (_, o) :: log, w => execAll log (exec o w).2

/-- The operations of the task `k` in a log, with their answers. -/
def history (k : ℕ) : List (ℕ × ω) → W → List (ω × α)
  | [], _ => []
  | (j, o) :: log, w =>
    if j = k then (o, (exec o w).1) :: history k log (exec o w).2
    else history k log (exec o w).2

/-- The operations of the tasks other than `k` leave the view of the world as it is. -/
def Undisturbed (view : W → V) (k : ℕ) : List (ℕ × ω) → W → Prop
  | [], _ => True
  | (j, o) :: log, w =>
    (j ≠ k → view (exec o w).2 = view w) ∧ Undisturbed view k log (exec o w).2

variable {exec}

theorem execAll_append (log log' : List (ℕ × ω)) (w : W) :
    execAll exec (log ++ log') w = execAll exec log' (execAll exec log w) := by
  induction log generalizing w with
  | nil => rfl
  | cons entry log ih => exact ih _

theorem history_append (k : ℕ) (log log' : List (ℕ × ω)) (w : W) :
    history exec k (log ++ log') w =
      history exec k log w ++ history exec k log' (execAll exec log w) := by
  induction log generalizing w with
  | nil => rfl
  | cons entry log ih =>
    obtain ⟨j, o⟩ := entry
    rw [List.cons_append, history, history, ih]
    by_cases hjk : j = k
    · rw [if_pos hjk, if_pos hjk]
      rfl
    · rw [if_neg hjk, if_neg hjk]
      rfl

theorem history_concat_self (k : ℕ) (log : List (ℕ × ω)) (o : ω) (w : W) :
    history exec k (log ++ [(k, o)]) w =
      history exec k log w ++ [(o, (exec o (execAll exec log w)).1)] := by
  rw [history_append, history, if_pos rfl]
  rfl

theorem history_concat_ne {j k : ℕ} (h : j ≠ k) (log : List (ℕ × ω)) (o : ω) (w : W) :
    history exec k (log ++ [(j, o)]) w = history exec k log w := by
  rw [history_append, history, if_neg h]
  exact List.append_nil _

theorem history_map_fst (exec : ω → W → α × W) (k : ℕ) (log : List (ℕ × ω)) (w : W) :
    (history exec k log w).map Prod.fst = (log.filter fun entry => entry.1 = k).map Prod.snd := by
  induction log generalizing w with
  | nil => rfl
  | cons entry log ih =>
    obtain ⟨j, o⟩ := entry
    rw [history]
    by_cases hjk : j = k
    · rw [if_pos hjk, List.filter_cons_of_pos (by simpa using hjk), List.map_cons, List.map_cons, ih]
    · rw [if_neg hjk, List.filter_cons_of_neg (by simpa using hjk), ih]

/-- A task of one operation at most performs it at one place of the log. -/
theorem exists_place {k : ℕ} {log : List (ℕ × ω)} {ops : List ω}
    (h : ops = (log.filter fun entry => entry.1 = k).map Prod.snd) (hle : ops.length ≤ 1) :
    ∃ before after, log = before ++ ops.map (k, ·) ++ after ∧
      ∀ entry ∈ before ++ after, entry.1 ≠ k := by
  cases hfilter : log.filter fun entry => entry.1 = k with
  | nil =>
    rw [hfilter] at h
    subst h
    refine ⟨log, [], by rw [List.map_nil, List.map_nil, List.append_nil, List.append_nil], ?_⟩
    intro entry hentry
    rw [List.append_nil] at hentry
    simpa using List.filter_eq_nil_iff.1 hfilter entry hentry
  | cons entry entries =>
    obtain ⟨before, after, rfl, hbefore, hk, hafter⟩ := List.filter_eq_cons_iff.1 hfilter
    obtain ⟨j, o⟩ := entry
    obtain rfl : j = k := by simpa using hk
    rw [hfilter] at h
    subst h
    obtain rfl : entries = [] := by
      rw [List.length_map, List.length_cons] at hle
      exact List.eq_nil_of_length_eq_zero (by omega)
    refine ⟨before, after, by rw [List.append_cons]; rfl, ?_⟩
    intro entry hentry
    rcases List.mem_append.1 hentry with hentry | hentry
    · simpa using hbefore entry hentry
    · simpa using List.filter_eq_nil_iff.1 hafter entry hentry

theorem history_eq_nil {k : ℕ} {log : List (ℕ × ω)} (h : ∀ entry ∈ log, entry.1 ≠ k) (w : W) :
    history exec k log w = [] := by
  induction log generalizing w with
  | nil => rfl
  | cons entry log ih =>
    obtain ⟨j, o⟩ := entry
    rw [history, if_neg (h _ List.mem_cons_self)]
    exact ih (fun entry hentry => h entry (List.mem_cons_of_mem _ hentry)) _

theorem undisturbed_of_own (view : W → V) {k : ℕ} {log : List (ℕ × ω)}
    (h : ∀ entry ∈ log, entry.1 = k) (w : W) : Undisturbed exec view k log w := by
  induction log generalizing w with
  | nil => trivial
  | cons entry log ih =>
    refine ⟨fun hne => absurd (h _ List.mem_cons_self) hne, ih (fun entry hentry => ?_) _⟩
    exact h entry (List.mem_cons_of_mem _ hentry)

/-- Where the answers and the view depend on the view alone, a task that nothing disturbs goes on as it
does alone. -/
theorem Advances.eval_eq (view : W → V)
    (hview : ∀ o w w', view w = view w' →
      (exec o w).1 = (exec o w').1 ∧ view (exec o w).2 = view (exec o w').2)
    {k : ℕ} {log : List (ℕ × ω)} {t t' : Resumption ω α ρ} {w w₁ : W}
    (h : Advances t (history exec k log w) t') (hquiet : Undisturbed exec view k log w)
    (hw : view w = view w₁) :
    ∃ w₂, t.eval exec w₁ = t'.eval exec w₂ ∧ view (execAll exec log w) = view w₂ := by
  induction log generalizing t w w₁ with
  | nil =>
    cases h
    exact ⟨w₁, rfl, hw⟩
  | cons entry log ih =>
    obtain ⟨j, o⟩ := entry
    obtain ⟨hother, hquiet⟩ := hquiet
    rw [history] at h
    by_cases hjk : j = k
    · rw [if_pos hjk] at h
      cases h with
      | @perform _ _ next _ _ hnext =>
        obtain ⟨hanswer, hstate⟩ := hview o w w₁ hw
        obtain ⟨w₂, heval, hend⟩ := ih hnext hquiet hstate
        refine ⟨w₂, ?_, hend⟩
        rw [eval, ← hanswer, heval]
    · rw [if_neg hjk] at h
      exact ih h hquiet ((hother hjk).trans hw)

end Log

/-! ## The pool -/

/-- The tasks that have been started, each for a job, over one world. -/
structure Pool (ι ω α ρ W : Type*) where
  world : W
  tasks : ℕ → Option (ι × Resumption ω α ρ) := fun _ => none
  /-- The operations performed so far, with their tasks. -/
  log : List (ℕ × ω) := []

/-- An action of the pool. -/
inductive PoolAction (ι : Type*) where
  | spawn (k : ℕ) (job : ι)
  /-- The task `k` performs an operation. -/
  | advance (k : ℕ)

namespace Pool

variable {ι : Type*} (prog : ι → Resumption ω α ρ) (exec : ω → W → α × W)

/-- A pool without tasks. -/
def new (w : W) : Pool ι ω α ρ W := { world := w }

/-- One action; `none` where it is not possible. -/
def step (s : Pool ι ω α ρ W) : PoolAction ι → Option (Pool ι ω α ρ W)
  | .spawn k job =>
    if (s.tasks k).isNone then
      some { s with tasks := Function.update s.tasks k (some (job, prog job)) }
    else none
  | .advance k =>
    match s.tasks k with
    | some (job, .perform o next) =>
      let (a, world) := exec o s.world
      some { world, tasks := Function.update s.tasks k (some (job, next a)), log := s.log ++ [(k, o)] }
    | _ => none

/-- What an action does. -/
inductive Step (s : Pool ι ω α ρ W) : PoolAction ι → Pool ι ω α ρ W → Prop where
  | spawn {k : ℕ} {job : ι} (fresh : s.tasks k = none) :
    Step s (.spawn k job) { s with tasks := Function.update s.tasks k (some (job, prog job)) }
  | advance {k : ℕ} {job : ι} {o : ω} {next : α → Resumption ω α ρ}
    (task_eq : s.tasks k = some (job, .perform o next)) :
    Step s (.advance k)
      { world := (exec o s.world).2
        tasks := Function.update s.tasks k (some (job, next (exec o s.world).1))
        log := s.log ++ [(k, o)] }

variable {prog exec} {s s' s₁ s₂ : Pool ι ω α ρ W} {w : W} {k : ℕ} {job : ι} {t : Resumption ω α ρ}

theorem Step.of_step {a : PoolAction ι} (h : s.step prog exec a = some s') :
    Step prog exec s a s' := by
  cases a with
  | spawn k job =>
    rw [step, Option.ite_none_right_eq_some] at h
    obtain ⟨hfresh, h⟩ := h
    obtain rfl := Option.some.inj h
    exact .spawn (Option.isNone_iff_eq_none.1 hfresh)
  | advance k =>
    unfold step at h
    dsimp only at h
    split at h
    · rename_i job o next htask
      obtain rfl := Option.some.inj h
      exact .advance htask
    · cases h

/-- The world is that of the log, and every task has gone on with the answers to its operations. -/
structure Sound (prog : ι → Resumption ω α ρ) (exec : ω → W → α × W) (w : W)
    (s : Pool ι ω α ρ W) : Prop where
  world_eq : s.world = execAll exec s.log w
  advances {k : ℕ} {job : ι} {t : Resumption ω α ρ} : s.tasks k = some (job, t) →
    Advances (prog job) (history exec k s.log w) t
  fresh {k : ℕ} : s.tasks k = none → history exec k s.log w = []

theorem Sound.step (h : Sound prog exec w s) {a : PoolAction ι} (hstep : Step prog exec s a s') :
    Sound prog exec w s' := by
  cases hstep with
  | @spawn k job hfresh =>
    refine ⟨h.world_eq, ?_, fun hnone => h.fresh (Table.of_update_none hnone).2⟩
    intro j job' t htask
    rcases Table.of_update htask with ⟨rfl, heq⟩ | ⟨-, htask⟩
    · obtain ⟨rfl, rfl⟩ := Prod.mk.inj heq
      show Advances _ (history exec j s.log w) _
      rw [h.fresh hfresh]
      exact .refl _
    · exact h.advances htask
  | @advance k job o next htask =>
    refine ⟨?_, ?_, ?_⟩
    · show (exec o s.world).2 = execAll exec (s.log ++ [(k, o)]) w
      rw [execAll_append, ← h.world_eq]
      rfl
    · intro j job' t htask'
      show Advances _ (history exec j (s.log ++ [(k, o)]) w) _
      rcases Table.of_update htask' with ⟨rfl, heq⟩ | ⟨hne, htask'⟩
      · obtain ⟨rfl, rfl⟩ := Prod.mk.inj heq
        rw [history_concat_self, ← h.world_eq]
        exact (h.advances htask).concat _
      · rw [history_concat_ne hne.symm]
        exact h.advances htask'
    · intro j hnone
      obtain ⟨hne, hnone⟩ := Table.of_update_none hnone
      show history exec j (s.log ++ [(k, o)]) w = []
      rw [history_concat_ne hne.symm]
      exact h.fresh hnone

theorem Sound.of_reach (h : Reach (Pool.step prog exec) always (.new w) s) : Sound prog exec w s :=
  h.invariant ⟨rfl, (fun h => by cases h), fun _ => rfl⟩
    fun _ _ _ h _ hstep => h.step (.of_step hstep)

/-- A task that has ended stays so and performs no more operations. -/
theorem ended_of_reach {r : ρ} (hended : s₁.tasks k = some (job, .done r))
    (h : Reach (Pool.step prog exec) always s₁ s₂) :
    s₂.tasks k = some (job, .done r) ∧ ∃ later, s₂.log = s₁.log ++ later ∧ ∀ o, (k, o) ∉ later := by
  refine h.invariant (I := fun s => s.tasks k = some (job, .done r) ∧
    ∃ later, s.log = s₁.log ++ later ∧ ∀ o, (k, o) ∉ later) ⟨hended, [], ?_, ?_⟩ ?_
  · rw [List.append_nil]
  · exact fun _ h => by cases h
  rintro s a s' ⟨htask, later, hlog, hlater⟩ - hstep
  cases Step.of_step hstep with
  | @spawn j job' hfresh =>
    have hne : k ≠ j := by
      rintro rfl
      cases htask.symm.trans hfresh
    exact ⟨(Function.update_of_ne hne _ _).trans htask, later, hlog, hlater⟩
  | @advance j job' o next htask' =>
    have hne : k ≠ j := by
      rintro rfl
      cases htask.symm.trans htask'
    refine ⟨(Function.update_of_ne hne _ _).trans htask, later ++ [(j, o)], ?_, ?_⟩
    · rw [hlog, List.append_assoc]
    · intro o' hmem
      rcases List.mem_append.1 hmem with hmem | hmem
      · exact hlater o' hmem
      · cases List.mem_singleton.1 hmem
        exact hne rfl

end Pool

end Resumption
