/-
Sorting by a value, and the last entry of a stable sort.

A stable sort puts last an entry that none exceeds, and among several of these the
one that came last.
-/
import Mathlib.Data.List.Sort
import Mathlib.Tactic

set_option autoImplicit false

namespace StableSort

variable {β : Type*} {r : β → β → Prop}

/-- `q` stands in `l` after everything that is not greater than it, and everything
behind it is smaller. -/
def IsLast (r : β → β → Prop) (l : List β) (q : β) : Prop :=
  ∃ pre post, l = pre ++ q :: post ∧ (∀ p ∈ pre, r p q) ∧ ∀ p ∈ post, ¬ r q p

theorem isLast_cons_iff {a q : β} {l : List β} :
    IsLast r (a :: l) q ↔ (q = a ∧ ∀ p ∈ l, ¬ r a p) ∨ (r a q ∧ IsLast r l q) := by
  constructor
  · rintro ⟨pre, post, heq, hpre, hpost⟩
    cases pre with
    | nil =>
        obtain ⟨rfl, rfl⟩ : a = q ∧ l = post := by simpa using heq
        exact Or.inl ⟨rfl, hpost⟩
    | cons b pre =>
        obtain ⟨rfl, rfl⟩ : a = b ∧ l = pre ++ q :: post := by simpa using heq
        exact Or.inr ⟨hpre a List.mem_cons_self, pre, post, rfl,
          fun p hp => hpre p (List.mem_cons_of_mem _ hp), hpost⟩
  · rintro (⟨rfl, hl⟩ | ⟨ha, pre, post, rfl, hpre, hpost⟩)
    · exact ⟨[], l, rfl, by simp, hl⟩
    · refine ⟨a :: pre, post, rfl, fun p hp => ?_, hpost⟩
      rcases List.mem_cons.mp hp with rfl | hp
      · exact ha
      · exact hpre p hp

variable [DecidableRel r]

/-- What is last after an insertion: what was last, unless the new entry exceeds all. -/
theorem getLast?_orderedInsert [IsTrans β r] {a q : β} {s : List β} (hs : s.Pairwise r) :
    (s.orderedInsert r a).getLast? = some q ↔
      (q = a ∧ ∀ p ∈ s, ¬ r a p) ∨ (r a q ∧ s.getLast? = some q) := by
  induction s with
  | nil => simp [eq_comm]
  | cons b s ih =>
      obtain ⟨hb, hs⟩ := List.pairwise_cons.mp hs
      by_cases hab : r a b
      · -- the new entry goes before `b`, and the last entry is not smaller than `b`
        rw [List.orderedInsert_cons_of_le _ _ hab, List.getLast?_cons_cons]
        constructor
        · intro h
          refine Or.inr ⟨?_, h⟩
          rcases List.mem_cons.mp (List.mem_of_getLast? h) with rfl | hq
          · exact hab
          · exact Trans.trans hab (hb q hq)
        · rintro (⟨-, h⟩ | ⟨-, h⟩)
          · exact absurd hab (h b List.mem_cons_self)
          · exact h
      · rw [List.orderedInsert_of_not_le _ _ hab]
        have hlast : (b :: s.orderedInsert r a).getLast? = (s.orderedInsert r a).getLast? := by
          cases hc : s.orderedInsert r a with
          | nil =>
              have hlen := List.orderedInsert_length (r := r) s a
              rw [hc] at hlen
              simp at hlen
          | cons c cs => rw [List.getLast?_cons_cons]
        rw [hlast, ih hs]
        cases s with
        | nil =>
            simp only [List.getLast?_nil, List.getLast?_singleton, List.mem_singleton,
              forall_eq, hab, not_false_eq_true]
            constructor
            · rintro (⟨rfl, -⟩ | ⟨-, h⟩)
              · exact Or.inl ⟨rfl, trivial⟩
              · cases h
            · rintro (⟨rfl, -⟩ | ⟨hq, h⟩)
              · exact Or.inl ⟨rfl, fun p hp => by cases hp⟩
              · exact absurd (Option.some.inj h ▸ hq) hab
        | cons c cs => simp [hab]

/-- **The last entry of a stable sort.** -/
theorem getLast?_insertionSort_iff [Std.Total r] [IsTrans β r] {q : β} (l : List β) :
    (l.insertionSort r).getLast? = some q ↔ IsLast r l q := by
  induction l with
  | nil => simp [IsLast]
  | cons a l ih =>
      rw [List.insertionSort_cons, getLast?_orderedInsert (List.pairwise_insertionSort r l), ih,
        isLast_cons_iff]
      simp only [List.mem_insertionSort]

/-! ## Sorting by a value -/

section Value

variable {τ : Type*} [LinearOrder τ] (value : β → τ)

theorem pairwise_leastFirst [DecidableRel (fun a b => value a ≤ value b)] (l : List β) :
    (l.insertionSort (fun a b => value a ≤ value b)).Pairwise (fun a b => value a ≤ value b) := by
  have : Std.Total (fun a b => value a ≤ value b) := ⟨fun a b => le_total (value a) (value b)⟩
  have : IsTrans β (fun a b => value a ≤ value b) := ⟨fun _ _ _ => le_trans⟩
  exact List.pairwise_insertionSort _ l

theorem pairwise_greatestFirst [DecidableRel (fun a b => value b ≤ value a)] (l : List β) :
    (l.insertionSort (fun a b => value b ≤ value a)).Pairwise (fun a b => value b ≤ value a) := by
  have : Std.Total (fun a b => value b ≤ value a) := ⟨fun a b => le_total (value b) (value a)⟩
  have : IsTrans β (fun a b => value b ≤ value a) := ⟨fun _ _ _ hab hbc => le_trans hbc hab⟩
  exact List.pairwise_insertionSort _ l

end Value

end StableSort
