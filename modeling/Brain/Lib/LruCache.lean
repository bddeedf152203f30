/-
Caches on a `Map` that remembers the order of insertion.

A hit deletes its entry and sets it again, which moves it to the end; after an
insertion entries are dropped from the front while there are too many, or one is dropped
before it if the cache is full. None of this adds an entry, so what a cache holds was set
at some time under the key that it has now.
-/
import Brain.Lib.InsertionMap

set_option autoImplicit false

namespace InsertionMap

variable {κ ν : Type*}

/-- The entries that are left when the oldest ones are dropped while there are more
than `maxEntries`. -/
def evictEntries (maxEntries : ℕ) : List (κ × ν) → List (κ × ν)
  | [] => []
  | e :: l => if maxEntries < (e :: l).length then evictEntries maxEntries l else e :: l

theorem sublist_evictEntries (maxEntries : ℕ) (l : List (κ × ν)) :
    (evictEntries maxEntries l).Sublist l := by
  induction l with
  | nil => exact List.Sublist.refl []
  | cons e l ih =>
      rw [evictEntries]
      split
      · exact ih.cons e
      · exact List.Sublist.refl _

theorem length_evictEntries_le (maxEntries : ℕ) (l : List (κ × ν)) :
    (evictEntries maxEntries l).length ≤ maxEntries := by
  induction l with
  | nil => exact Nat.zero_le _
  | cons e l ih =>
      rw [evictEntries]
      split
      · exact ih
      · next hle => exact Nat.not_lt.mp hle

/-- `while (size > maxEntries) delete(keys().next().value)`. -/
def evict (m : InsertionMap κ ν) (maxEntries : ℕ) : InsertionMap κ ν where
  entries := evictEntries maxEntries m.entries
  nodup := m.nodup.sublist ((sublist_evictEntries maxEntries m.entries).map Prod.fst)

theorem mem_of_mem_evict {m : InsertionMap κ ν} {maxEntries : ℕ} {p : κ × ν}
    (h : p ∈ (m.evict maxEntries).entries) : p ∈ m.entries :=
  (sublist_evictEntries maxEntries m.entries).subset h

theorem size_evict_le (m : InsertionMap κ ν) (maxEntries : ℕ) :
    (m.evict maxEntries).size ≤ maxEntries := length_evictEntries_le maxEntries m.entries

variable [DecidableEq κ]

/-- Moves the entry of a key to the end. -/
def touch (m : InsertionMap κ ν) (k : κ) (v : ν) : InsertionMap κ ν := (m.delete k).set k v

theorem mem_of_mem_touch {m : InsertionMap κ ν} {k : κ} {v : ν} (hget : m.get? k = some v)
    {p : κ × ν} (h : p ∈ (m.touch k v).entries) : p ∈ m.entries := by
  rcases mem_entries_set h with rfl | hmem
  · exact mem_of_get? hget
  · exact List.mem_of_mem_filter hmem

theorem size_touch_le {m : InsertionMap κ ν} {k : κ} {v : ν} (hget : m.get? k = some v) :
    (m.touch k v).size ≤ m.size := by
  have hlt : (m.delete k).size < m.size := by
    refine List.length_filter_lt_length_iff_exists.mpr ⟨(k, v), mem_of_get? hget, ?_⟩
    simp
  have hnot : k ∉ (m.delete k).keys := by
    intro hk
    obtain ⟨p, hp, hpk⟩ := List.mem_map.mp hk
    have hne := (List.mem_filter.mp hp).2
    simp [hpk] at hne
  have hset : (m.touch k v).size = (m.delete k).size + 1 := by
    rw [touch, set, dif_neg hnot]
    exact List.length_append
  omega

/-- Makes room for one more entry. -/
def dropOldest (m : InsertionMap κ ν) : InsertionMap κ ν where
  entries := m.entries.tail
  nodup := m.nodup.sublist ((List.tail_sublist m.entries).map Prod.fst)

/-- `LRUCache.set`. -/
def lruSet (m : InsertionMap κ ν) (capacity : ℕ) (k : κ) (v : ν) : InsertionMap κ ν :=
  if m.has k then m.touch k v
  else if capacity ≤ m.size then m.dropOldest.set k v
  else m.set k v

/-- `LRUCache.get`: the value, and the cache after it. -/
def lruGet (m : InsertionMap κ ν) (k : κ) : Option ν × InsertionMap κ ν :=
  match m.get? k with
  | none => (none, m)
  | some v => (some v, m.touch k v)

/-- An entry of a cache was there before, or is the one that is set. -/
theorem mem_of_mem_lruSet {m : InsertionMap κ ν} {capacity : ℕ} {k : κ} {v : ν} {p : κ × ν}
    (h : p ∈ (m.lruSet capacity k v).entries) : p = (k, v) ∨ p.1 ≠ k ∧ p ∈ m.entries := by
  have hmem : p = (k, v) ∨ p ∈ m.entries := by
    unfold lruSet at h
    split_ifs at h
    · exact (mem_entries_set h).imp_right List.mem_of_mem_filter
    · exact (mem_entries_set h).imp_right List.mem_of_mem_tail
    · exact mem_entries_set h
  have hself : (m.lruSet capacity k v).get? k = some v := by
    unfold lruSet
    split_ifs
    · exact get?_set_self _ k v
    · exact get?_set_self _ k v
    · exact get?_set_self _ k v
  by_cases hk : p.1 = k
  · -- there is one entry for the key only
    have hget := get?_of_mem (m := m.lruSet capacity k v) (k := p.1) (v := p.2) h
    rw [hk, hself, Option.some_inj] at hget
    exact Or.inl (Prod.ext hk hget.symm)
  · exact hmem.imp (fun heq => absurd (congrArg Prod.fst heq) hk) (fun hp => ⟨hk, hp⟩)

/-- Reading leaves the entries as they are. -/
theorem mem_of_mem_lruGet {m : InsertionMap κ ν} {k : κ} {p : κ × ν}
    (h : p ∈ (m.lruGet k).2.entries) : p ∈ m.entries := by
  unfold lruGet at h
  cases hget : m.get? k with
  | none => simpa [hget] using h
  | some v =>
      rw [hget] at h
      exact mem_of_mem_touch hget h

end InsertionMap
