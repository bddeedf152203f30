/-
Lists as rankings.

A list without repetitions ranks its members: what stands before what decides the list
(`eq_of_before`), and sorting by a linear order puts before what is smaller
(`before_insertionSort_iff`). Where a ranking is of the numbers below a bound, the last
section says when a list is one.
-/
import Mathlib.Data.List.Sort
import Mathlib.Tactic

set_option autoImplicit false

namespace Rankings

variable {α : Type*}

/-- `a` stands in the list before `b`. -/
def Before (l : List α) (a b : α) : Prop := [a, b].Sublist l

section Before

variable {l l' : List α} {a b x : α}

theorem before_cons_iff : Before (x :: l) a b ↔ (a = x ∧ b ∈ l) ∨ Before l a b := by
  unfold Before
  constructor
  · intro h
    cases h with
    | cons _ h => exact Or.inr h
    | cons_cons _ h => exact Or.inl ⟨rfl, List.singleton_sublist.mp h⟩
  · rintro (⟨rfl, hb⟩ | h)
    · exact (List.singleton_sublist.mpr hb).cons_cons a
    · exact h.cons x

theorem Before.mem_left (h : Before l a b) : a ∈ l :=
  h.subset List.mem_cons_self

theorem Before.mem_right (h : Before l a b) : b ∈ l :=
  h.subset (List.mem_cons_of_mem _ List.mem_cons_self)

theorem Before.ne (h : Before l a b) (hl : l.Nodup) : a ≠ b := by
  have hpair := h.nodup hl
  rw [List.nodup_cons, List.mem_singleton] at hpair
  exact hpair.1

/-- What a pairwise relation says of two members in their order. -/
theorem Before.rel {r : α → α → Prop} (h : Before l a b) (hl : l.Pairwise r) : r a b :=
  List.pairwise_iff_forall_sublist.mp hl h

theorem pairwise_before (l : List α) : l.Pairwise (Before l) :=
  List.pairwise_iff_forall_sublist.mpr (fun h => h)

/-- In terms of positions. -/
theorem before_iff_idxOf [DecidableEq α] (hl : l.Nodup) :
    Before l a b ↔ b ∈ l ∧ l.idxOf a < l.idxOf b := by
  induction l with
  | nil =>
      simp only [List.not_mem_nil, false_and, iff_false]
      exact fun h => absurd h.mem_left List.not_mem_nil
  | cons x l ih =>
      obtain ⟨hx, hl⟩ := List.nodup_cons.mp hl
      rw [before_cons_iff, ih hl]
      by_cases hax : a = x
      · -- `a` stands first, and nowhere else
        subst hax
        have hpos : l.idxOf a = l.length := List.idxOf_eq_length hx
        have hle : l.idxOf b ≤ l.length := List.idxOf_le_length
        by_cases hb : b = a
        · subst hb
          simp [hx]
        · rw [List.idxOf_cons_self, List.idxOf_cons_ne _ (Ne.symm hb), List.mem_cons]
          constructor
          · rintro (⟨-, h⟩ | ⟨h, -⟩)
            · exact ⟨Or.inr h, Nat.succ_pos _⟩
            · exact ⟨Or.inr h, Nat.succ_pos _⟩
          · rintro ⟨h | h, -⟩
            · exact absurd h hb
            · exact Or.inl ⟨rfl, h⟩
      · rw [List.idxOf_cons_ne _ (Ne.symm hax)]
        by_cases hb : b = x
        · subst hb
          simp [hx, hax]
        · rw [List.idxOf_cons_ne _ (Ne.symm hb), List.mem_cons]
          simp only [hax, hb, false_and, false_or, Nat.succ_lt_succ_iff]

theorem Before.asymm (h : Before l a b) (hl : l.Nodup) : ¬ Before l b a := by
  classical
  intro h'
  have hab := ((before_iff_idxOf hl).mp h).2
  have hba := ((before_iff_idxOf hl).mp h').2
  omega

/-- Of two members one stands before the other. -/
theorem before_total (hl : l.Nodup) (ha : a ∈ l) (hb : b ∈ l) (hab : a ≠ b) :
    Before l a b ∨ Before l b a := by
  classical
  rw [before_iff_idxOf hl, before_iff_idxOf hl]
  have hne : l.idxOf a ≠ l.idxOf b := fun h => hab ((List.idxOf_inj ha).mp h)
  rcases Nat.lt_or_gt_of_ne hne with h | h
  · exact Or.inl ⟨hb, h⟩
  · exact Or.inr ⟨ha, h⟩

/-- **The order decides the ranking.** -/
theorem eq_of_before (hl' : l'.Nodup) (hperm : l.Perm l')
    (h : ∀ a b, Before l a b → Before l' a b) : l = l' := by
  have hl : l.Pairwise (Before l') := (pairwise_before l).imp (fun {a b} => h a b)
  exact hperm.eq_of_pairwise (fun a b _ _ hab hba => absurd hba (hab.asymm hl')) hl
    (pairwise_before l')

end Before

/-- **The order of a sorted list.** -/
theorem before_insertionSort_iff {r : α → α → Prop} [DecidableRel r] [Std.Total r]
    [IsTrans α r] [Std.Antisymm r] {l : List α} {a b : α} (hl : l.Nodup) (ha : a ∈ l)
    (hb : b ∈ l) : Before (l.insertionSort r) a b ↔ r a b ∧ a ≠ b := by
  have hperm := List.perm_insertionSort r l
  have hnd : (l.insertionSort r).Nodup := hperm.nodup_iff.mpr hl
  have hsorted := List.pairwise_insertionSort r l
  constructor
  · intro h
    exact ⟨h.rel hsorted, h.ne hnd⟩
  · rintro ⟨hr, hab⟩
    rcases before_total hnd (hperm.mem_iff.mpr ha) (hperm.mem_iff.mpr hb) hab with h | h
    · exact h
    · exact absurd (antisymm hr (h.rel hsorted)) hab

/-! ## Rankings of the numbers below a bound -/

section Range

variable {l : List ℕ} {n : ℕ}

/-- Distinct numbers below the bound, completed by those that are missing. -/
theorem perm_range_fill (hl : l.Nodup) (hlt : ∀ i ∈ l, i < n) :
    (l ++ (List.range n).filter (fun i => !l.contains i)).Perm (List.range n) := by
  rw [List.perm_ext_iff_of_nodup ?_ List.nodup_range]
  · intro i
    simp only [List.mem_append, List.mem_filter, List.mem_range, Bool.not_eq_true',
      List.contains_eq_mem, decide_eq_false_iff_not]
    constructor
    · rintro (h | ⟨h, -⟩)
      · exact hlt i h
      · exact h
    · intro h
      by_cases hi : i ∈ l
      · exact Or.inl hi
      · exact Or.inr ⟨h, hi⟩
  · refine List.Nodup.append hl (List.nodup_range.filter _) ?_
    intro i hi hmissing
    simp [hi] at hmissing

/-- As many distinct numbers below the bound as the bound says are all of them. -/
theorem perm_range (hl : l.Nodup) (hlt : ∀ i ∈ l, i < n) (hlen : l.length = n) :
    l.Perm (List.range n) := by
  have hfill := perm_range_fill hl hlt
  have hnone : (List.range n).filter (fun i => !l.contains i) = [] := by
    rw [← List.length_eq_zero_iff]
    have hlength := hfill.length_eq
    rw [List.length_append, List.length_range] at hlength
    omega
  rwa [hnone, List.append_nil] at hfill

end Range

end Rankings
