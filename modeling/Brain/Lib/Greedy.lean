/-
Items that are taken in their order, each one unless it clashes with an item that is taken
already.

What is taken never clashes (`pairwise_select`), and every item that clashes with itself clashes
with one that is taken (`exists_clash_of_mem`). Which of two rivals is taken depends on all that
came before them. An item without a rival before it is taken in any case
(`mem_select_of_unrivalled`), and this is all that can be said of an item without following the
selection itself.
-/
import Mathlib.Data.List.Pairwise

set_option autoImplicit false

namespace Greedy

variable {α : Type*} (clash : α → α → Bool)

/-- One more item. -/
def take (taken : List α) (a : α) : List α :=
  if taken.any (fun t => clash t a) then taken else taken ++ [a]

/-- What is taken of all items. -/
def select (items : List α) : List α := items.foldl (take clash) []

/-- No item before (one of the places of) `a` clashes with it. -/
def Unrivalled (items : List α) (a : α) : Prop :=
  ∃ before after, items = before ++ a :: after ∧ ∀ b ∈ before, clash b a = false

variable {clash} {items taken : List α} {a : α}

theorem mem_take_of_mem {b : α} (h : b ∈ taken) : b ∈ take clash taken a := by
  rw [take]
  split
  · exact h
  · exact List.mem_append_left _ h

/-- What is taken stays taken. -/
theorem mem_foldl_of_mem (h : a ∈ taken) : a ∈ items.foldl (take clash) taken := by
  induction items generalizing taken with
  | nil => exact h
  | cons b items ih => exact ih (mem_take_of_mem h)

theorem mem_or_eq_of_mem_take {b : α} (h : b ∈ take clash taken a) : b ∈ taken ∨ b = a := by
  rw [take] at h
  split at h
  · exact Or.inl h
  · exact (List.mem_append.mp h).imp_right List.mem_singleton.mp

/-- Only items are taken. -/
theorem mem_or_mem_of_mem_foldl (h : a ∈ items.foldl (take clash) taken) :
    a ∈ taken ∨ a ∈ items := by
  induction items generalizing taken with
  | nil => exact Or.inl h
  | cons b items ih =>
      rcases ih h with htake | hmem
      · rcases mem_or_eq_of_mem_take htake with htaken | heq
        · exact Or.inl htaken
        · exact Or.inr (heq ▸ List.mem_cons_self)
      · exact Or.inr (List.mem_cons_of_mem b hmem)

theorem mem_of_mem_select (h : a ∈ select clash items) : a ∈ items := by
  rcases mem_or_mem_of_mem_foldl h with hnil | hmem
  · exact absurd hnil List.not_mem_nil
  · exact hmem

/-- After its turn, an item clashes with one that is taken: with itself, or with the one that
kept it out. -/
theorem exists_clash_take (hself : clash a a = true) :
    ∃ t ∈ take clash taken a, clash t a = true := by
  rw [take]
  split
  · next hany =>
      obtain ⟨t, ht, hclash⟩ := List.any_eq_true.mp hany
      exact ⟨t, ht, hclash⟩
  · exact ⟨a, List.mem_append_right _ (List.mem_singleton_self a), hself⟩

/-- **Nothing is left out without a reason.** -/
theorem exists_clash_of_mem (hself : clash a a = true) (h : a ∈ items) :
    ∃ t ∈ select clash items, clash t a = true := by
  obtain ⟨before, after, rfl⟩ := List.append_of_mem h
  rw [select, List.foldl_append, List.foldl_cons]
  obtain ⟨t, ht, hclash⟩ := exists_clash_take  hself
  exact ⟨t, mem_foldl_of_mem ht, hclash⟩

/-- **An item without a rival before it is taken.** -/
theorem mem_select_of_unrivalled (h : Unrivalled clash items a) : a ∈ select clash items := by
  obtain ⟨before, after, rfl, hfree⟩ := h
  rw [select, List.foldl_append, List.foldl_cons]
  apply mem_foldl_of_mem
  have hno : ¬ (before.foldl (take clash) []).any (fun t => clash t a) = true := by
    intro hany
    obtain ⟨t, ht, hclash⟩ := List.any_eq_true.mp hany
    have hfalse := hfree t (mem_of_mem_select ht)
    rw [hfalse] at hclash
    exact Bool.false_ne_true hclash
  rw [take, if_neg hno]
  exact List.mem_append_right _ (List.mem_singleton_self a)

theorem pairwise_take (h : taken.Pairwise (fun a b => clash a b = false)) :
    (take clash taken a).Pairwise (fun a b => clash a b = false) := by
  rw [take]
  split
  · exact h
  · next hno =>
      refine List.pairwise_append.mpr ⟨h, List.pairwise_singleton _ _, fun t ht b hb => ?_⟩
      rw [List.mem_singleton.mp hb]
      by_contra hclash
      exact hno (List.any_eq_true.mpr ⟨t, ht, by simpa using hclash⟩)

theorem pairwise_foldl (h : taken.Pairwise (fun a b => clash a b = false)) :
    (items.foldl (take clash) taken).Pairwise (fun a b => clash a b = false) := by
  induction items generalizing taken with
  | nil => exact h
  | cons b items ih => exact ih (pairwise_take h)

/-- **What is taken does not clash.** -/
theorem pairwise_select : (select clash items).Pairwise (fun a b => clash a b = false) :=
  pairwise_foldl List.Pairwise.nil

/-- An item that clashes with another one that is taken is not. -/
theorem not_mem_select {b : α} (hsymm : ∀ x y, clash x y = clash y x)
    (hb : b ∈ select clash items) (hne : b ≠ a) (hclash : clash b a = true) :
    a ∉ select clash items := by
  intro ha
  have hsym : Std.Symm (fun x y => clash x y = false) := ⟨fun x y h => (hsymm y x).trans h⟩
  have hfalse : clash b a = false := pairwise_select.forall hb ha hne
  rw [hfalse] at hclash
  exact Bool.false_ne_true hclash

end Greedy
