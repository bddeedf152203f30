/-
Recency lists: what has been used, the last used first, each key once.

A use puts the entry of its key in front and leaves the order of the others as it is. So what
a store holds that drops from the end only is always the front of such a list, whatever is
used; the entries that it has dropped make up the rest.
-/
import Mathlib.Data.List.Nodup
import Mathlib.Tactic

set_option autoImplicit false

namespace Recency

variable {κ ν : Type*} [DecidableEq κ]

/-- The entries of the other keys. -/
def others (k : κ) (l : List (κ × ν)) : List (κ × ν) := l.filter (fun e => decide (e.1 ≠ k))

/-- The value under a key. -/
def value? (l : List (κ × ν)) (k : κ) : Option ν :=
  (l.find? (fun e => decide (e.1 = k))).map Prod.snd

/-- A key is used, with a value. -/
def use (k : κ) (v : ν) (l : List (κ × ν)) : List (κ × ν) := (k, v) :: others k l

/-- A key is used, with the value that it has. -/
def bump (k : κ) (l : List (κ × ν)) : List (κ × ν) :=
  match value? l k with
  | none => l
  | some v => use k v l

variable {k : κ} {v : ν} {l l' : List (κ × ν)}

@[simp] theorem others_nil : others k ([] : List (κ × ν)) = [] := rfl

theorem others_append (k : κ) (l l' : List (κ × ν)) :
    others k (l ++ l') = others k l ++ others k l' := List.filter_append l l'

theorem others_reverse (k : κ) (l : List (κ × ν)) : others k l.reverse = (others k l).reverse :=
  List.filter_reverse

theorem others_sublist (k : κ) (l : List (κ × ν)) : (others k l).Sublist l := List.filter_sublist

theorem notMem_others (k : κ) (l : List (κ × ν)) : k ∉ (others k l).map Prod.fst := by
  intro h
  obtain ⟨e, he, hk⟩ := List.mem_map.mp h
  have hne := (List.mem_filter.mp he).2
  simp [hk] at hne

/-- Without an entry of the key these are all entries. -/
theorem others_eq_self (h : k ∉ l.map Prod.fst) : others k l = l := by
  refine List.filter_eq_self.mpr (fun e he => ?_)
  rw [decide_eq_true_iff]
  exact fun hk => h (hk ▸ List.mem_map_of_mem he)

/-- And else there is one less. -/
theorem length_others (hl : (l.map Prod.fst).Nodup) (h : k ∈ l.map Prod.fst) :
    (others k l).length + 1 = l.length := by
  induction l with
  | nil => exact absurd h List.not_mem_nil
  | cons e l ih =>
      rw [List.map_cons, List.nodup_cons] at hl
      by_cases he : e.1 = k
      · have hself : others k l = l := others_eq_self (he ▸ hl.1)
        have hcons : others k (e :: l) = others k l := by simp [others, he]
        rw [hcons, hself, List.length_cons]
      · have hmem : k ∈ l.map Prod.fst :=
          (List.mem_cons.mp h).resolve_left (fun hk => he hk.symm)
        have hcons : others k (e :: l) = e :: others k l := by simp [others, he]
        rw [hcons, List.length_cons, List.length_cons, ih hl.2 hmem]

theorem nodup_others (h : (l.map Prod.fst).Nodup) : ((others k l).map Prod.fst).Nodup :=
  h.sublist ((others_sublist k l).map Prod.fst)

/-- **A use keeps the keys apart.** -/
theorem nodup_use (h : (l.map Prod.fst).Nodup) : ((use k v l).map Prod.fst).Nodup := by
  rw [use, List.map_cons, List.nodup_cons]
  exact ⟨notMem_others k l, nodup_others h⟩

/-- A key that is found stands among the keys, with the entry that it is found by. -/
theorem mem_of_value? (h : value? l k = some v) : (k, v) ∈ l := by
  obtain ⟨e, he, rfl⟩ := Option.map_eq_some_iff.mp h
  have hk : e.1 = k := by simpa using List.find?_some he
  rw [← hk]
  exact List.mem_of_find?_eq_some he

theorem value?_of_mem (hl : (l.map Prod.fst).Nodup) (h : (k, v) ∈ l) : value? l k = some v := by
  cases hf : l.find? (fun e => decide (e.1 = k)) with
  | none =>
      have hne := List.find?_eq_none.mp hf (k, v) h
      simp at hne
  | some e =>
      have hk : e.1 = k := by simpa using List.find?_some hf
      have heq : e = (k, v) := List.inj_on_of_nodup_map hl (List.mem_of_find?_eq_some hf) h hk
      rw [value?, hf, heq]
      rfl

/-- What the front of a list has is used in the list as it is used in the front. -/
theorem bump_append (hl : ((l ++ l').map Prod.fst).Nodup) (h : (k, v) ∈ l) :
    bump k (l ++ l') = use k v l ++ l' := by
  rw [List.map_append] at hl
  have hnot : k ∉ l'.map Prod.fst :=
    fun hk => List.disjoint_of_nodup_append hl (List.mem_map_of_mem h) hk
  have hvalue : value? (l ++ l') k = some v :=
    value?_of_mem (by rwa [List.map_append]) (List.mem_append_left l' h)
  rw [bump, hvalue]
  show use k v (l ++ l') = use k v l ++ l'
  rw [use, use, others_append, others_eq_self hnot, List.cons_append]

/-- What the rest of a list has, or nothing, is new to the front. -/
theorem use_append (h : k ∉ l.map Prod.fst) :
    use k v (l ++ l') = (k, v) :: l ++ others k l' := by
  rw [use, others_append, others_eq_self h, List.cons_append]

end Recency
