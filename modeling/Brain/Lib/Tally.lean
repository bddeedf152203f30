/-
Counting the keys of a list in a map: each key that occurs has its number of occurrences, and the
numbers add up to the length of the list.
-/
import Brain.Lib.InsertionMap

set_option autoImplicit false

namespace InsertionMap

variable {κ : Type*} [DecidableEq κ]

/-- `totals[k] = (totals[k] ?? 0) + 1`. -/
def bump (m : InsertionMap κ ℕ) (k : κ) : InsertionMap κ ℕ := m.set k ((m.get? k).getD 0 + 1)

/-- How often each key occurs. -/
def tally (ks : List κ) : InsertionMap κ ℕ := ks.foldl bump empty

theorem mem_keys_bump {m : InsertionMap κ ℕ} {k k' : κ} :
    k' ∈ (m.bump k).keys ↔ k' = k ∨ k' ∈ m.keys := mem_keys_set

theorem getD_bump (m : InsertionMap κ ℕ) (k k' : κ) :
    ((m.bump k).get? k').getD 0 = (m.get? k').getD 0 + [k].count k' := by
  by_cases hk : k' = k
  · rw [hk, bump, get?_set_self, List.count_singleton_self]
    rfl
  · rw [bump, get?_set_of_ne _ _ hk, List.count_singleton, if_neg (by simpa using Ne.symm hk)]
    rfl

theorem getD_foldl_bump (ks : List κ) (k : κ) : ∀ m : InsertionMap κ ℕ,
    ((ks.foldl bump m).get? k).getD 0 = (m.get? k).getD 0 + ks.count k := by
  induction ks with
  | nil => exact fun m => rfl
  | cons k' ks ih =>
      intro m
      rw [List.foldl_cons, ih, getD_bump, add_assoc, ← List.count_append, List.singleton_append]

theorem mem_keys_foldl_bump {ks : List κ} {k : κ} : ∀ {m : InsertionMap κ ℕ},
    k ∈ (ks.foldl bump m).keys ↔ k ∈ m.keys ∨ k ∈ ks := by
  induction ks with
  | nil => exact fun {m} => (or_iff_left List.not_mem_nil).symm
  | cons k' ks ih =>
      intro m
      rw [List.foldl_cons, ih, mem_keys_bump, List.mem_cons]
      tauto

/-- **What a key has**: as many as occur. -/
theorem getD_tally (ks : List κ) (k : κ) : ((tally ks).get? k).getD 0 = ks.count k := by
  rw [tally, getD_foldl_bump]
  exact Nat.zero_add _

theorem mem_keys_tally {ks : List κ} {k : κ} : k ∈ (tally ks).keys ↔ k ∈ ks := by
  rw [tally, mem_keys_foldl_bump]
  exact or_iff_right (List.not_mem_nil)

theorem mem_entries_tally {ks : List κ} {k : κ} {n : ℕ} :
    (k, n) ∈ (tally ks).entries ↔ k ∈ ks ∧ n = ks.count k := by
  constructor
  · intro h
    refine ⟨mem_keys_tally.mp (List.mem_map_of_mem h), ?_⟩
    rw [← getD_tally, get?_of_mem h]
    rfl
  · rintro ⟨hk, rfl⟩
    obtain ⟨n, hn⟩ := exists_get?_of_mem_keys (mem_keys_tally.mpr hk)
    rw [← getD_tally, hn]
    exact mem_of_get? hn

/-- **The numbers add up.** -/
theorem sum_values_tally (ks : List κ) : (tally ks).values.sum = ks.length := by
  have hvalues : (tally ks).values = (tally ks).keys.map (fun k => ks.count k) := by
    rw [values, keys, List.map_map]
    refine List.map_congr_left (fun e he => ?_)
    exact (mem_entries_tally.mp he).2
  have hperm : (tally ks).keys.Perm ks.dedup := by
    refine (List.perm_ext_iff_of_nodup (tally ks).nodup ks.nodup_dedup).mpr (fun k => ?_)
    rw [List.mem_dedup]
    exact mem_keys_tally
  rw [hvalues, (hperm.map _).sum_eq]
  exact List.sum_map_count_dedup_eq_length ks

end InsertionMap
