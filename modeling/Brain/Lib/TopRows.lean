/-
The greatest rows of several tables.

What a query returns that sorts by a value, greatest first, and stops at a limit: `IsTop`. The
greatest rows of several tables are among the greatest rows of each (`IsTop.merge`), so that a
query with the limit can be put to each table, and the answers sorted and cut.
-/
import Brain.Lib.StableSort

set_option autoImplicit false

namespace Brain.TopRows

variable {α β τ : Type*} [LinearOrder τ] {value : α → τ} {limit : ℕ} {all l : List α}

/-- `l` has as many rows of `all` as the limit admits, greatest first, and none that is left out
is greater than one of them. -/
structure IsTop (value : α → τ) (limit : ℕ) (all l : List α) : Prop where
  sorted : l.Pairwise (fun a b => value b ≤ value a)
  length : l.length = min limit all.length
  rest : ∃ rest, (l ++ rest).Perm all ∧ ∀ a ∈ l, ∀ b ∈ rest, value b ≤ value a

theorem IsTop.subset (h : IsTop value limit all l) {a : α} (ha : a ∈ l) : a ∈ all := by
  obtain ⟨rest, hperm, _⟩ := h.rest
  exact hperm.mem_iff.mp (List.mem_append_left _ ha)

/-- A row that is missing is not greater than any that is there, and then they are as many as the
limit. -/
theorem IsTop.le_of_not_mem (h : IsTop value limit all l) {b : α} (hb : b ∈ all) (hnot : b ∉ l) :
    l.length = limit ∧ ∀ a ∈ l, value b ≤ value a := by
  obtain ⟨rest, hperm, hle⟩ := h.rest
  have hrest : b ∈ rest := by
    rcases List.mem_append.mp (hperm.mem_iff.mpr hb) with hmem | hmem
    · exact absurd hmem hnot
    · exact hmem
  refine ⟨?_, fun a ha => hle a ha b hrest⟩
  have hlength := hperm.length_eq
  have hpos := List.length_pos_of_mem hrest
  rw [List.length_append] at hlength
  rw [h.length]
  rw [h.length] at hlength
  omega

/-- The sort that the rows are taken from. -/
theorem isTop_take [DecidableRel (fun a b : α => value b ≤ value a)] (limit : ℕ) (all : List α) :
    IsTop value limit all ((all.insertionSort (fun a b => value b ≤ value a)).take limit) := by
  have hsorted := StableSort.pairwise_greatestFirst value all
  refine ⟨hsorted.sublist (List.take_sublist _ _), ?_,
    (all.insertionSort (fun a b => value b ≤ value a)).drop limit, ?_, ?_⟩
  · rw [List.length_take, List.length_insertionSort]
  · rw [List.take_append_drop]
    exact List.perm_insertionSort _ _
  · rw [← List.take_append_drop limit (all.insertionSort _)] at hsorted
    exact (List.pairwise_append.mp hsorted).2.2

/-- Under a coarser value the rows are still the greatest. -/
theorem IsTop.mono {τ' : Type*} [LinearOrder τ'] {value' : α → τ'} (h : IsTop value limit all l)
    (hmono : ∀ a b, value b ≤ value a → value' b ≤ value' a) : IsTop value' limit all l := by
  obtain ⟨rest, hperm, hle⟩ := h.rest
  exact ⟨h.sorted.imp (fun hab => hmono _ _ hab), h.length, rest, hperm,
    fun a ha b hb => hmono _ _ (hle a ha b hb)⟩

/-- Rows that are mapped, with their value. -/
theorem IsTop.map {value' : β → τ} {f : α → β} (h : IsTop value limit all l)
    (hf : ∀ a, value' (f a) = value a) : IsTop value' limit (all.map f) (l.map f) := by
  obtain ⟨rest, hperm, hle⟩ := h.rest
  refine ⟨?_, ?_, rest.map f, ?_, ?_⟩
  · rw [List.pairwise_map]
    exact h.sorted.imp (fun hab => by rwa [hf, hf])
  · rw [List.length_map, List.length_map, h.length]
  · rw [← List.map_append]
    exact hperm.map f
  · intro a' ha' b' hb'
    obtain ⟨a, ha, rfl⟩ := List.mem_map.mp ha'
    obtain ⟨b, hb, rfl⟩ := List.mem_map.mp hb'
    rw [hf, hf]
    exact hle a ha b hb

/-- A table, and what a query with the limit returns of it. -/
structure Batch (α : Type*) where
  all : List α
  answer : List α

variable {batches : List (Batch α)}

/-- What all tables have. -/
def allRows (batches : List (Batch α)) : List α := batches.flatMap Batch.all

def answers (batches : List (Batch α)) : List α := batches.flatMap Batch.answer

theorem min_length_answers (h : ∀ b ∈ batches, IsTop value limit b.all b.answer) :
    min limit (answers batches).length = min limit (allRows batches).length := by
  induction batches with
  | nil => rfl
  | cons b batches ih =>
      have hb := (h b List.mem_cons_self).length
      have hrest := ih (fun b hb => h b (List.mem_cons_of_mem _ hb))
      rw [answers, allRows] at hrest ⊢
      rw [List.flatMap_cons, List.flatMap_cons, List.length_append, List.length_append, hb]
      omega

/-- What the queries leave out is left out of a table that has the limit of rows above it. -/
theorem exists_left_out (h : ∀ b ∈ batches, IsTop value limit b.all b.answer) :
    ∃ rest, (answers batches ++ rest).Perm (allRows batches) ∧
      ∀ x ∈ rest, ∃ kept : List α, kept.Sublist (answers batches) ∧ kept.length = limit ∧
        ∀ y ∈ kept, value x ≤ value y := by
  induction batches with
  | nil => exact ⟨[], List.Perm.refl _, fun x hx => by cases hx⟩
  | cons b batches ih =>
      obtain ⟨others, hothers, hkept⟩ := ih (fun b hb => h b (List.mem_cons_of_mem _ hb))
      have hb := h b List.mem_cons_self
      obtain ⟨rest, hrest, hle⟩ := hb.rest
      refine ⟨rest ++ others, ?_, fun x hx => ?_⟩
      · rw [answers, allRows, List.flatMap_cons, List.flatMap_cons]
        refine List.Perm.trans ?_ (hrest.append hothers)
        rw [List.append_assoc, List.append_assoc, ← List.append_assoc (batches.flatMap _) rest,
          ← List.append_assoc rest (answers batches)]
        exact (List.perm_append_comm.append_right others).append_left b.answer
      · rcases List.mem_append.mp hx with hx | hx
        · refine ⟨b.answer, List.sublist_append_left _ _, ?_, fun y hy => hle y hy x hx⟩
          have hlength := hrest.length_eq
          have hpos := List.length_pos_of_mem hx
          rw [List.length_append, hb.length] at hlength
          rw [hb.length]
          omega
        · obtain ⟨kept, hsub, hlength, hall⟩ := hkept x hx
          exact ⟨kept, hsub.trans (List.sublist_append_right _ _), hlength, hall⟩

/-- A row that has as many at or above it as are taken is not greater than one that is taken. -/
theorem le_of_kept {taken left kept : List α} (hsub : kept.Sublist l)
    (hperm : (taken ++ left).Perm l) (htaken : taken.length ≤ kept.length)
    (hleft : ∀ a ∈ taken, ∀ b ∈ left, value b ≤ value a) {x : α}
    (hkept : ∀ y ∈ kept, value x ≤ value y) {a : α} (ha : a ∈ taken) : value x ≤ value a := by
  by_contra hlt
  rw [not_le] at hlt
  -- all that are kept are greater than `a`, and so they have all been taken, but `a` has too
  have hcount : kept.length ≤ taken.countP (fun y => decide (value a < value y)) := by
    have hall : kept.countP (fun y => decide (value a < value y)) = kept.length :=
      List.countP_eq_length.mpr (fun y hy => by simpa using hlt.trans_le (hkept y hy))
    have hnone : left.countP (fun y => decide (value a < value y)) = 0 :=
      List.countP_eq_zero.mpr (fun y hy => by simpa using hleft a ha y hy)
    have hle : kept.countP (fun y => decide (value a < value y)) ≤ _ := hsub.countP_le
    rw [hall, ← hperm.countP_eq, List.countP_append, hnone] at hle
    exact hle
  have hless : taken.countP (fun y => decide (value a < value y)) < taken.length := by
    rw [List.countP_lt_length_iff]
    exact ⟨a, ha, by simp⟩
  omega

/-- **The greatest rows of all tables** are the greatest of the answers. -/
theorem IsTop.merge (h : ∀ b ∈ batches, IsTop value limit b.all b.answer)
    (hl : IsTop value limit (answers batches) l) : IsTop value limit (allRows batches) l := by
  obtain ⟨left, hleft, hle⟩ := hl.rest
  obtain ⟨rest, hrest, hkept⟩ := exists_left_out h
  refine ⟨hl.sorted, hl.length.trans (min_length_answers h), left ++ rest, ?_, fun a ha x hx => ?_⟩
  · rw [← List.append_assoc]
    exact (hleft.append_right rest).trans hrest
  · rcases List.mem_append.mp hx with hx | hx
    · exact hle a ha x hx
    · obtain ⟨kept, hsub, hlength, hall⟩ := hkept x hx
      refine le_of_kept hsub hleft ?_ hle hall ha
      rw [hl.length, hlength]
      exact Nat.min_le_left _ _

end Brain.TopRows
