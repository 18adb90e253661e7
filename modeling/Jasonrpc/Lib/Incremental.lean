import Mathlib.Data.List.Basic
import Mathlib.Data.Nat.Notation
import Mathlib.Tactic.Linarith

/-!
# Incremental decoders

A decoder looks at a buffer and either rejects it, asks for more input, or reads one frame off its
front and says how many elements the frame takes.  A lawful decoder takes at least one element and
none that is not there, and what it reads depends on those elements only.

`Cuts dec s ms r` cuts a stream `s` into the frames read off its front one after another, with
payloads `ms` and the rest `r`.  A stream has at most one decomposition whose rest holds no further
frame (`Cuts.unique`).  A frame is `Clean` when no proper prefix of it is rejected, so that a reader
who sees it grow waits for its end.
-/

namespace Incremental

variable {α M E : Type*}

/-- A decoder of frames of type `M` at the front of a buffer. -/
abbrev Decoder (α M E : Type*) := List α → Except E (Option (M × ℕ))

/-- A frame takes at least one element, at most those there, and depends on no others. -/
structure Lawful (dec : Decoder α M E) : Prop where
  bounds {s : List α} {m : M} {n : ℕ} : dec s = .ok (some (m, n)) → 1 ≤ n ∧ n ≤ s.length
  front {s : List α} {m : M} {n : ℕ} (t : List α) :
    dec s = .ok (some (m, n)) → dec (s.take n ++ t) = .ok (some (m, n))

/-- No frame is at the front of the buffer. -/
def Stuck (dec : Decoder α M E) (s : List α) : Prop := ∀ m n, dec s ≠ .ok (some (m, n))

/-- The frame of the first `n` elements is not rejected while it is growing. -/
def Clean (dec : Decoder α M E) (s : List α) (n : ℕ) : Prop :=
  ∀ k < n, dec (s.take k) = .ok none

/-- How far a decoder waits for the head of a frame: a buffer of more than `limit` elements in which
the head, `headLen` elements long, has not ended is rejected. -/
structure Guard (α : Type*) where
  limit : ℕ
  headLen : List α → Option ℕ

/-- A growing frame is rejected just while more than `limit` of its elements are there and its head
has not ended. -/
def Guarded (dec : Decoder α M E) (g : Guard α) : Prop :=
  ∀ {s : List α} {m : M} {n : ℕ}, dec s = .ok (some (m, n)) →
    ∃ h ≤ n, g.headLen s = some h ∧ ∀ k < n,
      (k ≤ g.limit ∨ h ≤ k → dec (s.take k) = .ok none) ∧
        (g.limit < k → k < h → ∃ e, dec (s.take k) = .error e)

/-- The frames `ms` are read off the front of `s`, and `r` remains. -/
inductive Cuts (dec : Decoder α M E) : List α → List M → List α → Prop where
  | nil (s : List α) : Cuts dec s [] s
  | cons {s r : List α} {m : M} {ms : List M} {n : ℕ} (head : dec s = .ok (some (m, n)))
      (tail : Cuts dec (s.drop n) ms r) : Cuts dec s (m :: ms) r

/-- As `Cuts`, with every frame clean. -/
inductive CleanCuts (dec : Decoder α M E) : List α → List M → List α → Prop where
  | nil (s : List α) : CleanCuts dec s [] s
  | cons {s r : List α} {m : M} {ms : List M} {n : ℕ} (head : dec s = .ok (some (m, n)))
      (clean : Clean dec s n) (tail : CleanCuts dec (s.drop n) ms r) :
      CleanCuts dec s (m :: ms) r

variable {dec : Decoder α M E}

/-- The decomposition up to a rest without a frame is unique. -/
theorem Cuts.unique {s r r' : List α} {ms ms' : List M} (h : Cuts dec s ms r) (hr : Stuck dec r)
    (h' : Cuts dec s ms' r') (hr' : Stuck dec r') : ms = ms' ∧ r = r' := by
  induction h generalizing ms' with
  | nil s =>
    cases h' with
    | nil => exact ⟨rfl, rfl⟩
    | cons head _ => exact absurd head (hr _ _)
  | cons head _ ih =>
    cases h' with
    | nil => exact absurd head (hr' _ _)
    | cons head' tail' =>
      rw [head] at head'
      obtain ⟨rfl, rfl⟩ := Prod.mk.inj (Option.some.inj (Except.ok.inj head'))
      obtain ⟨rfl, rfl⟩ := ih hr tail'
      exact ⟨rfl, rfl⟩

theorem Cuts.append {s r r' : List α} {ms ms' : List M} (h : Cuts dec s ms r)
    (h' : Cuts dec r ms' r') : Cuts dec s (ms ++ ms') r' := by
  induction h with
  | nil s => exact h'
  | cons head _ ih => exact .cons head (ih h')

namespace Lawful

variable (law : Lawful dec)
include law

theorem append {s : List α} {m : M} {n : ℕ} (h : dec s = .ok (some (m, n))) (t : List α) :
    dec (s ++ t) = .ok (some (m, n)) := by
  have := law.front (s.drop n ++ t) h
  rwa [← List.append_assoc, List.take_append_drop] at this

theorem stuck_take {s : List α} {m : M} {n k : ℕ} (h : dec s = .ok (some (m, n))) (hk : k < n) :
    Stuck dec (s.take k) := by
  intro m' n' h'
  have e := law.append h' (s.drop k)
  rw [List.take_append_drop, h] at e
  obtain ⟨rfl, rfl⟩ := Prod.mk.inj (Option.some.inj (Except.ok.inj e))
  have := (law.bounds h').2
  rw [List.length_take] at this
  omega

theorem stuck_of_append {s t : List α} (h : Stuck dec (s ++ t)) : Stuck dec s :=
  fun m n hs => h m n (law.append hs t)

/-- The frames cut from a stream are a stream of their own. -/
theorem exists_append_of_cleanCuts {s r : List α} {ms : List M} (h : CleanCuts dec s ms r) :
    ∃ t, s = t ++ r ∧ CleanCuts dec t ms [] := by
  induction h with
  | nil s => exact ⟨[], rfl, .nil []⟩
  | @cons s r m ms n head clean tail ih =>
    obtain ⟨t, ht, hcuts⟩ := ih
    have hlen : (s.take n).length = n := by
      rw [List.length_take, min_eq_left (law.bounds head).2]
    refine ⟨s.take n ++ t, ?_, .cons (law.front t head) (fun k hk => ?_) ?_⟩
    · rw [List.append_assoc, ← ht, List.take_append_drop]
    · rw [List.take_append_of_le_length (by omega), List.take_take, min_eq_left hk.le]
      exact clean k hk
    · rwa [List.drop_left' hlen]

/-- Every stream is cut into clean frames up to a rest without a clean frame. -/
theorem exists_cleanCuts (s : List α) :
    ∃ ms r, CleanCuts dec s ms r ∧ ∀ m n, dec r = .ok (some (m, n)) → ¬ Clean dec r n := by
  induction hl : s.length using Nat.strong_induction_on generalizing s with
  | _ l ih =>
    by_cases hs : ∀ m n, dec s = .ok (some (m, n)) → ¬ Clean dec s n
    · exact ⟨[], s, .nil s, hs⟩
    · simp only [not_forall, not_not] at hs
      obtain ⟨m, n, h, hclean⟩ := hs
      have hb := law.bounds h
      obtain ⟨ms, r, hcuts, hr⟩ := ih (s.drop n).length (by rw [List.length_drop]; omega) _ rfl
      exact ⟨m :: ms, r, .cons h hclean hcuts, hr⟩

end Lawful

/-- A frame of a guarded decoder is clean just when its head fits the guard. -/
theorem Guarded.clean_iff {g : Guard α} (hg : Guarded dec g) {s : List α} {m : M} {n h : ℕ}
    (head : dec s = .ok (some (m, n))) (hh : g.headLen s = some h) :
    Clean dec s n ↔ h ≤ g.limit + 1 := by
  obtain ⟨h', hle, hh', hgrow⟩ := hg head
  obtain rfl := Option.some.inj (hh.symm.trans hh')
  constructor
  · intro hclean
    by_contra hlong
    obtain ⟨e, he⟩ := (hgrow (g.limit + 1) (by omega)).2 (by omega) (by omega)
    rw [hclean _ (by omega)] at he
    cases he
  · intro hshort k hk
    exact (hgrow k hk).1 (by omega)

/-! ## Streams of encoded messages -/

section Encoder

variable {enc : M → List α} {m : M} {ms ks : List M} {s r r' t : List α}

/-- What the encoder makes of a message is read back in front of anything. -/
def Carries (dec : Decoder α M E) (enc : M → List α) (m : M) : Prop :=
  ∀ t, dec (enc m ++ t) = .ok (some (m, (enc m).length))

theorem cuts_flatMap (h : ∀ m ∈ ms, Carries dec enc m) (t : List α) :
    Cuts dec (ms.flatMap enc ++ t) ms t := by
  induction ms with
  | nil => exact .nil t
  | cons m ms ih =>
    obtain ⟨hm, hms⟩ := List.forall_mem_cons.1 h
    rw [List.flatMap_cons, List.append_assoc]
    refine .cons (hm _) ?_
    rw [List.drop_left]
    exact ih hms

theorem Cuts.concat {n : ℕ} (h : Cuts dec s ks r) (head : dec r = .ok (some (m, n))) :
    Cuts dec s (ks ++ [m]) (r.drop n) :=
  h.append (.cons head (.nil _))

/-- Frames cut from a stream are the first of those that it is cut into. -/
theorem Cuts.isPrefix (h : Cuts dec s ks r) (h' : Cuts dec s ms r') (hr' : Stuck dec r') :
    ks <+: ms := by
  induction h generalizing ms with
  | nil s => exact List.nil_prefix
  | cons head tail ih =>
    cases h' with
    | nil => exact absurd head (hr' _ _)
    | cons head' tail' =>
      rw [head] at head'
      obtain ⟨rfl, rfl⟩ := Prod.mk.inj (Option.some.inj (Except.ok.inj head'))
      exact (List.prefix_cons_inj _).2 (ih tail')

namespace Lawful

variable (law : Lawful dec)
include law

theorem cuts_append (h : Cuts dec s ks r) (t : List α) : Cuts dec (s ++ t) ks (r ++ t) := by
  induction h with
  | nil s => exact .nil _
  | cons head tail ih =>
    refine .cons (law.append head t) ?_
    rw [List.drop_append_of_le_length (law.bounds head).2]
    exact ih

theorem stuck_nil : Stuck dec [] := by
  intro m n h
  have hbounds := law.bounds h
  rw [List.length_nil] at hbounds
  omega

theorem stuck_of_isPrefix (hm : Carries dec enc m) (ht : t <+: enc m) (hne : t ≠ enc m) :
    Stuck dec t := by
  obtain ⟨u, hu⟩ := ht
  have hlt : t.length < (enc m).length := by
    rw [← hu, List.length_append, Nat.lt_add_right_iff_pos, List.length_pos_iff]
    rintro rfl
    exact hne (by rw [← hu, List.append_nil])
  have hstuck := law.stuck_take (hm []) hlt
  rwa [List.append_nil, ← hu, List.take_left] at hstuck

theorem isPrefix_of_cuts (hms : ∀ m ∈ ms, Carries dec enc m) (ht : Stuck dec t)
    (h : Cuts dec s ks r) (hs : s <+: ms.flatMap enc ++ t) : ks <+: ms := by
  obtain ⟨u, hu⟩ := hs
  have hcuts := law.cuts_append h u
  rw [hu] at hcuts
  exact hcuts.isPrefix (cuts_flatMap hms t) ht

end Lawful

end Encoder

end Incremental
