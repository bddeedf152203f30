/-
Maps that hold shares of a mass.

Crediting a key that is there adds to the total what is credited and leaves the keys alone
(`total_credits`), so a loop that hands out shares is accounted for by the sum of what it
hands out.
-/
import Brain.Lib.InsertionMap
import Mathlib.Algebra.BigOperators.Group.List.Basic
import Mathlib.Algebra.Order.BigOperators.Group.List

set_option autoImplicit false

namespace InsertionMap

section Credit

variable {κ μ : Type*} [DecidableEq κ] [AddCommGroup μ] {m : InsertionMap κ μ} {k : κ} {x : μ}

omit [DecidableEq κ] in
/-- The sum of the values. -/
def total (m : InsertionMap κ μ) : μ := m.values.sum

/-- `set(k, (get(k) ?? 0) + x)`. -/
def credit (m : InsertionMap κ μ) (k : κ) (x : μ) : InsertionMap κ μ :=
  m.set k ((m.get? k).getD 0 + x)

theorem keys_credit (h : k ∈ m.keys) (x : μ) : (m.credit k x).keys = m.keys :=
  keys_set_of_mem h _

/-- Writing over the entry of a key, among entries with distinct keys. -/
theorem sum_map_replace {v w : μ} (l : List (κ × μ)) (hnd : (l.map Prod.fst).Nodup)
    (hmem : (k, v) ∈ l) :
    ((l.map (fun e => (e.1, if e.1 = k then w else e.2))).map Prod.snd).sum
      = (l.map Prod.snd).sum + (w - v) := by
  induction l with
  | nil => exact absurd hmem List.not_mem_nil
  | cons e l ih =>
      obtain ⟨he, hnd⟩ := List.nodup_cons.mp hnd
      rw [List.map_cons, List.map_cons, List.map_cons, List.sum_cons, List.sum_cons]
      by_cases hek : e.1 = k
      · -- no later entry has the key
        have heq : e = (k, v) := by
          rcases List.mem_cons.mp hmem with heq | hmem
          · exact heq.symm
          · exact absurd (hek ▸ List.mem_map_of_mem (f := Prod.fst) hmem) he
        have hrest : l.map (fun e => (e.1, if e.1 = k then w else e.2)) = l := by
          refine (List.map_congr_left (fun e' he' => ?_)).trans (List.map_id l)
          have hne : e'.1 ≠ k := fun h' => he (hek ▸ h' ▸ List.mem_map_of_mem he')
          rw [if_neg hne]
          rfl
        rw [hrest, if_pos hek, heq]
        abel
      · have hmem : (k, v) ∈ l := by
          rcases List.mem_cons.mp hmem with heq | hmem
          · exact absurd (congrArg Prod.fst heq).symm hek
          · exact hmem
        rw [if_neg hek, ih hnd hmem]
        abel

theorem total_set {v w : μ} (h : m.get? k = some v) :
    (m.set k w).total = m.total + (w - v) := by
  have hk : k ∈ m.keys := mem_keys_of_get? h
  unfold total values
  rw [set, dif_pos hk]
  exact sum_map_replace m.entries m.nodup (mem_of_get? h)

theorem total_credit (h : k ∈ m.keys) (x : μ) : (m.credit k x).total = m.total + x := by
  obtain ⟨v, hget⟩ := exists_get?_of_mem_keys h
  rw [credit, hget, Option.getD_some, total_set hget, add_sub_cancel_left]

/-- **Crediting all of a list.** -/
theorem total_credits (l : List (κ × μ)) : ∀ m : InsertionMap κ μ, (∀ e ∈ l, e.1 ∈ m.keys) →
    (l.foldl (fun m e => m.credit e.1 e.2) m).keys = m.keys ∧
    (l.foldl (fun m e => m.credit e.1 e.2) m).total = m.total + (l.map Prod.snd).sum := by
  induction l with
  | nil => exact fun m _ => ⟨rfl, (add_zero _).symm⟩
  | cons e l ih =>
      intro m h
      have he := h e List.mem_cons_self
      have hkeys := keys_credit he e.2
      obtain ⟨hk, ht⟩ := ih (m.credit e.1 e.2) (fun e' he' => by
        rw [hkeys]
        exact h e' (List.mem_cons_of_mem e he'))
      rw [List.foldl_cons, hk, ht, hkeys, total_credit he, List.map_cons, List.sum_cons, add_assoc]
      exact ⟨rfl, rfl⟩

end Credit

section Ordered

variable {κ μ : Type*} [DecidableEq κ] [AddCommGroup μ] [LinearOrder μ] [IsOrderedAddMonoid μ]
  {m : InsertionMap κ μ}

/-- No value is negative. -/
def Nonneg (m : InsertionMap κ μ) : Prop := ∀ e ∈ m.entries, 0 ≤ e.2

omit [IsOrderedAddMonoid μ] in
theorem Nonneg.getD (h : m.Nonneg) (k : κ) : 0 ≤ (m.get? k).getD 0 := by
  cases hget : m.get? k with
  | none => exact le_refl 0
  | some v => exact h _ (mem_of_get? hget)

theorem Nonneg.credit (h : m.Nonneg) (k : κ) {x : μ} (hx : 0 ≤ x) : (m.credit k x).Nonneg := by
  intro e he
  rcases mem_entries_set he with rfl | he
  · exact add_nonneg (h.getD k) hx
  · exact h e he

theorem Nonneg.credits {l : List (κ × μ)} (hl : ∀ e ∈ l, 0 ≤ e.2) :
    ∀ {m : InsertionMap κ μ}, m.Nonneg →
      (l.foldl (fun m e => m.credit e.1 e.2) m).Nonneg := by
  induction l with
  | nil => exact fun h => h
  | cons e l ih =>
      intro m h
      rw [List.foldl_cons]
      exact ih (fun e' he' => hl e' (List.mem_cons_of_mem e he'))
        (h.credit e.1 (hl e List.mem_cons_self))

end Ordered

/-- A mass of 1 that is spread over the keys `ks`. -/
structure IsDistribution {κ μ : Type*} [DecidableEq κ] [Field μ] [LinearOrder μ] (ks : List κ)
    (m : InsertionMap κ μ) : Prop where
  keys : m.keys = ks
  nonneg : m.Nonneg
  total : m.total = 1

end InsertionMap
