/-
Maps of bounded size that drop the entry that was set first.

A new key goes to the end of the map, and a map that is full drops its first entry to make room.
An entry is dropped only where it is the first one of a full map, so it outlives as many writes as
there is room behind it (`Behind.fifoSet`).
-/
import Brain.Lib.InsertionMap

set_option autoImplicit false

namespace InsertionMap

variable {κ ν : Type*} [DecidableEq κ]

/-- `delete(keys().next().value)`, if there is one. -/
def dropFirst (m : InsertionMap κ ν) : InsertionMap κ ν :=
  match m.keys.head? with
  | none => m
  | some oldest => m.delete oldest

/-- `set`, in a map that has room for `limit` entries. -/
def fifoSet (limit : ℕ) (m : InsertionMap κ ν) (k : κ) (v : ν) : InsertionMap κ ν :=
  (if limit ≤ m.size then m.dropFirst else m).set k v

/-- At most `n` entries stand behind that of `k`. -/
def Behind (m : InsertionMap κ ν) (k : κ) (n : ℕ) : Prop :=
  ∃ l v r, m.entries = l ++ (k, v) :: r ∧ r.length ≤ n

variable {m : InsertionMap κ ν} {k k' : κ} {v : ν} {limit n : ℕ}

theorem entries_dropFirst (m : InsertionMap κ ν) : m.dropFirst.entries = m.entries.tail := by
  unfold dropFirst keys
  cases hm : m.entries with
  | nil => exact hm
  | cons e l =>
      have hnodup := m.nodup
      rw [hm, List.map_cons, List.nodup_cons] at hnodup
      show m.entries.filter (fun x => decide (x.1 ≠ e.1)) = l
      rw [hm, List.filter_cons, if_neg (by simp)]
      refine List.filter_eq_self.mpr (fun x hx => decide_eq_true (fun heq => ?_))
      exact hnodup.1 (heq ▸ List.mem_map_of_mem hx)

theorem size_set_le (m : InsertionMap κ ν) (k : κ) (v : ν) : (m.set k v).size ≤ m.size + 1 := by
  unfold set size
  split
  · rw [List.length_map]
    exact Nat.le_succ _
  · rw [List.length_append, List.length_singleton]

theorem size_fifoSet_le (h : m.size ≤ max limit 1) (k : κ) (v : ν) :
    (m.fifoSet limit k v).size ≤ max limit 1 := by
  unfold fifoSet
  split
  · have hle := size_set_le m.dropFirst k v
    have htail : m.dropFirst.size = m.size - 1 := by
      rw [size, entries_dropFirst, List.length_tail]
      rfl
    omega
  · have hle := size_set_le m k v
    omega

theorem mem_entries_fifoSet {p : κ × ν} (h : p ∈ (m.fifoSet limit k v).entries) :
    p = (k, v) ∨ p ∈ m.entries := by
  unfold fifoSet at h
  split at h
  · refine (mem_entries_set h).imp_right (fun hmem => ?_)
    rw [entries_dropFirst] at hmem
    exact List.mem_of_mem_tail hmem
  · exact mem_entries_set h

theorem get?_fifoSet_self (m : InsertionMap κ ν) (k : κ) (v : ν) :
    (m.fifoSet limit k v).get? k = some v := get?_set_self _ _ _

/-! ## What is kept -/

theorem Behind.exists_get? (h : m.Behind k n) : ∃ v, m.get? k = some v := by
  obtain ⟨l, v, r, heq, _⟩ := h
  exact ⟨v, get?_of_mem (heq ▸ List.mem_append_right l List.mem_cons_self)⟩

/-- Nothing stands behind a key that has just come in. -/
theorem behind_fifoSet_self (h : k ∉ m.keys) (v : ν) : (m.fifoSet limit k v).Behind k 0 := by
  have hnew : k ∉ (if limit ≤ m.size then m.dropFirst else m).keys := by
    split
    · rw [keys, entries_dropFirst, List.map_tail]
      exact fun hmem => h (List.mem_of_mem_tail hmem)
    · exact h
  have hentries : (m.fifoSet limit k v).entries
      = (if limit ≤ m.size then m.dropFirst else m).entries ++ [(k, v)] := by
    unfold fifoSet InsertionMap.set
    rw [dif_neg hnew]
  exact ⟨_, v, [], hentries, le_refl 0⟩

/-- A write puts one entry more behind another, at most. -/
theorem Behind.set (h : m.Behind k n) (k' : κ) (v' : ν) : (m.set k' v').Behind k (n + 1) := by
  obtain ⟨l, v, r, heq, hle⟩ := h
  unfold InsertionMap.set
  split
  · have hmap := congrArg (List.map (fun e => (e.1, if e.1 = k' then v' else e.2))) heq
    rw [List.map_append, List.map_cons] at hmap
    refine ⟨_, _, _, hmap, ?_⟩
    rw [List.length_map]
    omega
  · refine ⟨l, v, r ++ [(k', v')], ?_, ?_⟩
    · show m.entries ++ _ = _
      rw [heq, List.append_assoc, List.cons_append]
    · rw [List.length_append, List.length_singleton]
      omega

/-- The first entry goes, which another one stands behind. -/
theorem Behind.dropFirst (h : m.Behind k n) (hroom : n + 1 < m.size) :
    m.dropFirst.Behind k n := by
  obtain ⟨l, v, r, heq, hle⟩ := h
  cases l with
  | nil =>
      rw [size, heq, List.nil_append, List.length_cons] at hroom
      omega
  | cons e l => exact ⟨l, v, r, (entries_dropFirst m).trans (congrArg List.tail heq), hle⟩

/-- **An entry outlives as many writes as there is room behind it.** -/
theorem Behind.fifoSet (h : m.Behind k n) (hroom : n + 1 < limit) (k' : κ) (v' : ν) :
    (m.fifoSet limit k' v').Behind k (n + 1) := by
  unfold InsertionMap.fifoSet
  split
  · next hfull => exact (h.dropFirst (by omega)).set k' v'
  · exact h.set k' v'

end InsertionMap
