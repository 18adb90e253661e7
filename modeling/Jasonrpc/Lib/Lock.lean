import Jasonrpc.Lib.Table

/-!
# A lock among many tasks

Every task is at a point of its code, or has not started.  `Held holds holder tasks` says that only
the holder of the lock is at a point at which a task has the lock.  The rules say how acquiring,
releasing and any other step of one task keep this.
-/

namespace Lock

variable {ι π : Type*} {holds : π → Prop} {holder : Option ι} {tasks : ι → Option π} {n m : ι}
  {p q : π}

/-- Only the holder of the lock is at a point at which a task has it. -/
def Held (holds : π → Prop) (holder : Option ι) (tasks : ι → Option π) : Prop :=
  ∀ n p, tasks n = some p → holds p → holder = some n

namespace Held

theorem unique (h : Held holds holder tasks) (hn : tasks n = some p) (hm : tasks m = some q)
    (hp : holds p) (hq : holds q) : n = m :=
  Option.some.inj ((h n p hn hp).symm.trans (h m q hm hq))

theorem start (holds : π → Prop) (holder : Option ι) : Held holds holder fun _ => none :=
  fun _ _ hn => by cases hn

variable [DecidableEq ι]

theorem update (h : Held holds holder tasks) (hp : holds p → holder = some n) :
    Held holds holder (Function.update tasks n (some p)) := by
  intro m q hm hq
  rcases Table.of_update hm with ⟨rfl, rfl⟩ | ⟨-, hm⟩
  · exact hp hq
  · exact h m q hm hq

theorem acquire (h : Held holds none tasks) :
    Held holds (some n) (Function.update tasks n (some p)) := by
  intro m q hm hq
  rcases Table.of_update hm with ⟨rfl, -⟩ | ⟨-, hm⟩
  · rfl
  · cases h m q hm hq

theorem release (h : Held holds (some n) tasks) (hp : ¬ holds p) :
    Held holds none (Function.update tasks n (some p)) := by
  intro m q hm hq
  rcases Table.of_update hm with ⟨-, rfl⟩ | ⟨hne, hm⟩
  · exact absurd hq hp
  · exact absurd (Option.some.inj (h m q hm hq)).symm hne

end Held

end Lock
