/-
Listings: what a query lists when it filters the rows of a table in a given order
and stops at a limit.

Two conditions are compared by the keys that they list. Without a limit they list
the same exactly when they agree on every row (`map_filter_eq_iff`). With a limit,
a row that only the wider condition admits goes unnoticed as long as enough rows
stand ahead of it (`map_take_filter_eq_iff`).

Two tables whose rows are related one by one are listed alike as long as order and
condition respect the relation (`rel_insertionSort`, `rel_filter`); where the rows
that are listed are not only related but equal, so are the listings
(`filter_eq_of_rel`). One table that is listed under two conditions, of which one is met
before the other, is listed in two parts (`filter_or_eq_append`).
-/
import Mathlib.Data.List.Forall2
import Mathlib.Data.List.Nodup
import Mathlib.Data.List.Sort
import Mathlib.Data.List.TakeWhile
import Mathlib.Tactic

set_option autoImplicit false

namespace Listing

variable {α κ : Type*} {key : α → κ} {l : List α} {p p' : α → Bool} {n : ℕ}

/-- A key is listed when its row is admitted. -/
theorem mem_map_filter_iff (hnd : (l.map key).Nodup) {x : α} (hx : x ∈ l) :
    key x ∈ (l.filter p).map key ↔ p x = true := by
  constructor
  · intro h
    obtain ⟨y, hy, hyx⟩ := List.mem_map.mp h
    rw [List.mem_filter] at hy
    have heq : y = x := List.inj_on_of_nodup_map hnd hy.1 hx hyx
    exact heq ▸ hy.2
  · intro h
    exact List.mem_map.mpr ⟨x, List.mem_filter.mpr ⟨hx, h⟩, rfl⟩

/-- Two conditions that exclude each other, in an order where what meets the first one
stands before what meets the second one, list one after the other. -/
theorem filter_or_eq_append (hexcl : ∀ x ∈ l, p x = true → p' x = false)
    (hord : l.Pairwise (fun x y => p' x = true → p y = false)) :
    l.filter (fun x => p x || p' x) = l.filter p ++ l.filter p' := by
  induction l with
  | nil => rfl
  | cons a l ih =>
      rw [List.forall_mem_cons] at hexcl
      rw [List.pairwise_cons] at hord
      have ih' := ih hexcl.2 hord.2
      by_cases hp : p a = true
      · rw [List.filter_cons_of_pos (by simp [hp]), List.filter_cons_of_pos hp,
          List.filter_cons_of_neg (by simp [hexcl.1 hp]), ih', List.cons_append]
      · by_cases hp' : p' a = true
        · -- from here on only the second condition is met
          have hnil : l.filter p = [] := by
            rw [List.filter_eq_nil_iff]
            intro x hx
            simp [hord.1 x hx hp']
          rw [List.filter_cons_of_pos (by simp [hp']), List.filter_cons_of_neg hp,
            List.filter_cons_of_pos hp', ih', hnil, List.nil_append, List.nil_append]
        · rw [List.filter_cons_of_neg (by simp [hp, hp']), List.filter_cons_of_neg hp,
            List.filter_cons_of_neg hp', ih']

/-- **Without a limit** two conditions list the same keys exactly when they agree. -/
theorem map_filter_eq_iff (hnd : (l.map key).Nodup) :
    (l.filter p').map key = (l.filter p).map key ↔ ∀ x ∈ l, p' x = p x := by
  constructor
  · intro h x hx
    rw [Bool.eq_iff_iff, ← mem_map_filter_iff hnd hx, h, mem_map_filter_iff hnd hx]
  · intro h
    rw [List.filter_congr h]

/-! ## Listings of related rows -/

section Related

variable {β : Type*} {R : α → β → Prop} {m : List β}

/-- Sorting by orders that the relation respects keeps the rows related. -/
theorem rel_insertionSort {r : α → α → Prop} {r' : β → β → Prop} [DecidableRel r]
    [DecidableRel r'] (hr : ∀ x x' y y', R x y → R x' y' → (r x x' ↔ r' y y'))
    (h : List.Forall₂ R l m) : List.Forall₂ R (l.insertionSort r) (m.insertionSort r') := by
  have hinsert : ∀ x y, R x y → ∀ {l : List α} {m : List β}, List.Forall₂ R l m →
      List.Forall₂ R (l.orderedInsert r x) (m.orderedInsert r' y) := by
    intro x y hxy l m h
    induction h with
    | nil => exact List.Forall₂.cons hxy List.Forall₂.nil
    | @cons a b l m hab hlm ih =>
        rw [List.orderedInsert_cons, List.orderedInsert_cons]
        by_cases hle : r x a
        · rw [if_pos hle, if_pos ((hr x a y b hxy hab).mp hle)]
          exact List.Forall₂.cons hxy (List.Forall₂.cons hab hlm)
        · rw [if_neg hle, if_neg (fun h => hle ((hr x a y b hxy hab).mpr h))]
          exact List.Forall₂.cons hab ih
  induction h with
  | nil => exact List.Forall₂.nil
  | cons hab _ ih => exact hinsert _ _ hab ih

theorem rel_filter {q : β → Bool} (hpq : ∀ x y, R x y → p x = q y) (h : List.Forall₂ R l m) :
    List.Forall₂ R (l.filter p) (m.filter q) :=
  List.rel_filter (fun {x y} hxy => iff_of_eq (congrArg (· = true) (hpq x y hxy))) h

/-- The relation may be used together with what is known of the rows of the first
list. -/
theorem rel_and_mem (h : List.Forall₂ R l m) :
    List.Forall₂ (fun x y => x ∈ l ∧ R x y) l m := by
  induction h with
  | nil => exact List.Forall₂.nil
  | cons hxy _ ih =>
      refine List.Forall₂.cons ⟨List.mem_cons_self, hxy⟩ (ih.imp ?_)
      rintro x y ⟨hx, hR⟩
      exact ⟨List.mem_cons_of_mem _ hx, hR⟩

/-- Rows that are related, and equal wherever the condition admits them, make the
same listing. -/
theorem filter_eq_of_rel {R : α → α → Prop} {l m : List α} (hp : ∀ x y, R x y → p x = p y)
    (heq : ∀ x y, R x y → p x = true → x = y) (h : List.Forall₂ R l m) :
    l.filter p = m.filter p := by
  induction h with
  | nil => rfl
  | @cons x y l m hxy _ ih =>
      rw [List.filter_cons, List.filter_cons, ih, ← hp x y hxy]
      by_cases hx : p x = true
      · rw [if_pos hx, if_pos hx, heq x y hxy hx]
      · rw [if_neg hx, if_neg hx]

end Related

variable [DecidableEq α]

/-- How many rows that `p` admits stand ahead of row `x`. -/
def ahead (p : α → Bool) (l : List α) (x : α) : ℕ :=
  ((l.takeWhile (fun y => decide (y ≠ x))).filter p).length

theorem ahead_cons_self (p : α → Bool) (a : α) (l : List α) : ahead p (a :: l) a = 0 := by
  simp [ahead]

theorem ahead_cons_of_ne {a x : α} (hne : a ≠ x) :
    ahead p (a :: l) x = ahead p l x + if p a = true then 1 else 0 := by
  rw [ahead, List.takeWhile_cons_of_pos (by simpa using hne), List.filter_cons]
  split
  · rw [List.length_cons, ahead]
  · rw [ahead, Nat.add_zero]

/-- **With a limit** a condition that admits more lists the same keys exactly when
every row that it adds has the limit's number of rows ahead of it. -/
theorem map_take_filter_eq_iff (hnd : (l.map key).Nodup)
    (hwider : ∀ x ∈ l, p x = true → p' x = true) :
    ((l.filter p').take n).map key = ((l.filter p).take n).map key ↔
      ∀ x ∈ l, p' x = true → p x = false → n ≤ ahead p l x := by
  induction l generalizing n with
  | nil => simp
  | cons a l ih =>
      rw [List.map_cons, List.nodup_cons] at hnd
      have hkey : ∀ x ∈ l, key a ≠ key x := fun x hx heq =>
        hnd.1 (heq ▸ List.mem_map_of_mem hx)
      have hne : ∀ x ∈ l, a ≠ x := fun x hx heq => hkey x hx (congrArg key heq)
      have ih' := fun n => ih (n := n) hnd.2 (fun x hx => hwider x (List.mem_cons_of_mem a hx))
      rw [List.forall_mem_cons]
      by_cases hpa : p a = true
      · -- the row is listed by both
        have hpa' : p' a = true := hwider a List.mem_cons_self hpa
        rw [List.filter_cons_of_pos hpa, List.filter_cons_of_pos hpa']
        cases n with
        | zero => simp
        | succ n =>
            rw [List.take_succ_cons, List.take_succ_cons, List.map_cons, List.map_cons,
              List.cons_inj_right, ih']
            simp only [hpa, Bool.true_eq_false, false_implies, implies_true, true_and]
            refine forall₂_congr (fun x hx => ?_)
            rw [ahead_cons_of_ne (hne x hx), if_pos hpa, Nat.add_le_add_iff_right]
      · by_cases hpa' : p' a = true
        · -- the first row that is added: nothing stands ahead of it
          rw [List.filter_cons_of_pos hpa', List.filter_cons_of_neg hpa]
          cases n with
          | zero => simp
          | succ n =>
              constructor
              · intro h
                have hmem : key a ∈ ((l.filter p).take (n + 1)).map key := by
                  rw [← h, List.take_succ_cons, List.map_cons]
                  exact List.mem_cons_self
                obtain ⟨y, hy, hya⟩ := List.mem_map.mp hmem
                have hyl := (List.mem_filter.mp (List.mem_of_mem_take hy)).1
                exact absurd hya.symm (hkey y hyl)
              · rintro ⟨hfirst, _⟩
                have hle := hfirst hpa' (Bool.eq_false_iff.mpr hpa)
                rw [ahead_cons_self] at hle
                omega
        · -- the row is listed by neither
          rw [List.filter_cons_of_neg hpa, List.filter_cons_of_neg hpa', ih']
          simp only [hpa', Bool.false_eq_true, false_implies, true_and]
          refine forall₂_congr (fun x hx => ?_)
          rw [ahead_cons_of_ne (hne x hx), if_neg hpa, Nat.add_zero]

end Listing
