/-
`src/src/common/lru-cache.ts`, against the list of the keys that are live.

A key is live from when it is set until it is deleted, or all keys are. The live keys have an
order of use, by `set` and by a `get` that hits, and each its last value. What the cache holds
is the front of that list, and its size never exceeds the capacity (`lruCache_refines`). But
dropping an entry is for good: when a held key is deleted, none of the keys that were dropped
comes back. So the cache holds as many as it could at all times exactly if no held key is
deleted while a live one has been dropped.
-/
import Brain.Lib.LruCache
import Brain.Lib.Recency
import Brain.Lib.Runs

set_option autoImplicit false

namespace Brain.LRUCache

variable {κ ν : Type*} [DecidableEq κ]

/-! ## 1. Operations -/

/-- The operations, on keys and values that are defined. -/
inductive Op (κ ν : Type*)
  | get (k : κ)
  | set (k : κ) (v : ν)
  | has (k : κ)
  | delete (k : κ)
  | clear

/-- What an operation returns. -/
inductive Reply (ν : Type*)
  | value (v : Option ν)
  | flag (b : Bool)
  | nothing
deriving DecidableEq

/-- One operation on the map of the cache. -/
def exec (capacity : ℕ) (map : InsertionMap κ ν) : Op κ ν → Reply ν × InsertionMap κ ν
  | .get k => (.value (map.lruGet k).1, (map.lruGet k).2)
  | .set k v => (.nothing, map.lruSet capacity k v)
  | .has k => (.flag (map.has k), map)
  | .delete k => (.flag (map.has k), map.delete k)
  | .clear => (.nothing, .empty)

/-- The live keys with their last values after an operation, the last used first. A `get`
uses a key if it hits. -/
def recent (map : InsertionMap κ ν) (live : List (κ × ν)) : Op κ ν → List (κ × ν)
  | .get k => if map.has k then Recency.bump k live else live
  | .set k v => Recency.use k v live
  | .has _ => live
  | .delete k => Recency.others k live
  | .clear => []

/-- The map of a cache, and the live keys. -/
structure State (κ ν : Type*) where
  map : InsertionMap κ ν
  live : List (κ × ν)

/-- A cache that is new. -/
def State.start : State κ ν where
  map := .empty
  live := []

def step (capacity : ℕ) (s : State κ ν) (op : Op κ ν) : State κ ν where
  map := (exec capacity s.map op).2
  live := recent s.map s.live op

/-- A run of operations on a cache that is new. -/
def run (capacity : ℕ) (ops : List (Op κ ν)) : State κ ν := ops.foldl (step capacity) .start

/-- What a cache holds, the last used first. -/
def held (map : InsertionMap κ ν) : List (κ × ν) := map.entries.reverse

/-! ## 2. What an operation leaves in the map -/

section Held

variable {map : InsertionMap κ ν} {k : κ} {v : ν}

omit [DecidableEq κ] in
theorem length_held (map : InsertionMap κ ν) : (held map).length = map.size :=
  List.length_reverse

theorem keys_held : k ∈ (held map).map Prod.fst ↔ map.has k = true := by
  rw [InsertionMap.has_iff, held, List.map_reverse, List.mem_reverse]
  exact Iff.rfl

omit [DecidableEq κ] in
theorem nodup_held (map : InsertionMap κ ν) : ((held map).map Prod.fst).Nodup := by
  rw [held, List.map_reverse, List.nodup_reverse]
  exact map.nodup

theorem held_delete (map : InsertionMap κ ν) (k : κ) :
    held (map.delete k) = Recency.others k (held map) := (Recency.others_reverse k map.entries).symm

/-- A key that is new is set behind the others. -/
theorem held_set_of_new (h : map.has k = false) (v : ν) :
    held (map.set k v) = (k, v) :: held map := by
  rw [InsertionMap.has_eq_false_iff] at h
  rw [held, InsertionMap.set, dif_neg h]
  exact List.reverse_append

theorem held_touch (map : InsertionMap κ ν) (k : κ) (v : ν) :
    held (map.touch k v) = Recency.use k v (held map) := by
  have hnew : (map.delete k).has k = false := by
    rw [InsertionMap.has_eq_false_iff]
    exact Recency.notMem_others k map.entries
  rw [InsertionMap.touch, held_set_of_new hnew, held_delete, Recency.use]

theorem held_lruSet_of_has (h : map.has k = true) (capacity : ℕ) (v : ν) :
    held (map.lruSet capacity k v) = Recency.use k v (held map) := by
  rw [InsertionMap.lruSet, if_pos h, held_touch]

theorem held_lruSet_of_room {capacity : ℕ} (h : map.has k = false) (hroom : map.size < capacity)
    (v : ν) : held (map.lruSet capacity k v) = (k, v) :: held map := by
  rw [InsertionMap.lruSet, if_neg (by rw [h]; exact Bool.false_ne_true), if_neg (by omega),
    held_set_of_new h]

/-- Without room the least recently used entry goes. -/
theorem held_lruSet_of_full {capacity : ℕ} (h : map.has k = false) (hfull : capacity ≤ map.size)
    (v : ν) : held (map.lruSet capacity k v) = (k, v) :: (held map).dropLast := by
  have hnew : map.dropOldest.has k = false := by
    rw [InsertionMap.has_eq_false_iff] at h ⊢
    exact fun hk => h ((List.tail_sublist map.entries).map Prod.fst |>.subset hk)
  rw [InsertionMap.lruSet, if_neg (by rw [h]; exact Bool.false_ne_true), if_pos hfull,
    held_set_of_new hnew]
  congr 1
  exact (List.dropLast_reverse).symm

theorem get?_eq_value? (map : InsertionMap κ ν) (k : κ) :
    map.get? k = Recency.value? (held map) k := by
  cases hget : map.get? k with
  | none =>
      cases hvalue : Recency.value? (held map) k with
      | none => rfl
      | some v =>
          have hmem := List.mem_reverse.mp (Recency.mem_of_value? hvalue)
          rw [InsertionMap.get?_of_mem hmem] at hget
          cases hget
  | some v =>
      have hmem := List.mem_reverse.mpr (InsertionMap.mem_of_get? hget)
      exact (Recency.value?_of_mem (nodup_held map) hmem).symm

end Held

/-! ## 3. Runs -/

/-- What holds after every operation: the live keys are what the cache holds, and behind it
what it has dropped. -/
structure Inv (capacity : ℕ) (s : State κ ν) : Prop where
  front : held s.map <+: s.live
  nodup : (s.live.map Prod.fst).Nodup
  size_le : s.map.size ≤ capacity

/-- The cache holds as many of the live keys as it has room for. -/
def Filled (capacity : ℕ) (s : State κ ν) : Prop :=
  s.map.size = min capacity s.live.length

/-- The operation does not delete a held key while a live one has been dropped. -/
def SparesHeld (s : State κ ν) : Op κ ν → Prop
  | .delete k => s.map.has k = true → s.map.size = s.live.length
  | _ => True

/-- What an operation does to what is held and to what has been dropped. -/
inductive Turn (capacity : ℕ) (s s' : State κ ν) (dropped : List (κ × ν)) : Op κ ν → Prop
  | stays {op : Op κ ν} (hop : SparesHeld s op) (hmap : s'.map = s.map)
      (hlive : s'.live = s.live) : Turn capacity s s' dropped op
  | uses {op : Op κ ν} (hop : SparesHeld s op) (k : κ) (v : ν) (hk : s.map.has k = true)
      (hheld : held s'.map = Recency.use k v (held s.map))
      (hlive : s'.live = held s'.map ++ dropped) : Turn capacity s s' dropped op
  | adds (k : κ) (v : ν) (hroom : s.map.size < capacity) (hheld : held s'.map = (k, v) :: held s.map)
      (hlive : s'.live = held s'.map ++ Recency.others k dropped) :
      Turn capacity s s' dropped (.set k v)
  | replaces (k : κ) (v : ν) (oldest : κ × ν) (hfull : s.map.size = capacity)
      (hheld : held s'.map = (k, v) :: (held s.map).dropLast) (hsome : 0 < s.map.size)
      (hlive : s'.live = held s'.map ++ oldest :: Recency.others k dropped) :
      Turn capacity s s' dropped (.set k v)
  | deletes (k : κ) (hheld : held s'.map = Recency.others k (held s.map))
      (hlive : s'.live = held s'.map ++ Recency.others k dropped) :
      Turn capacity s s' dropped (.delete k)
  | clears (hheld : held s'.map = []) (hlive : s'.live = []) : Turn capacity s s' dropped .clear

section Inv

variable {capacity : ℕ} {s s' : State κ ν} {dropped : List (κ × ν)} {k : κ} {v : ν} {op : Op κ ν}

omit [DecidableEq κ] in
theorem inv_start : Inv capacity (State.start : State κ ν) where
  front := List.prefix_rfl
  nodup := List.nodup_nil
  size_le := Nat.zero_le _

/-- A key that is held is used: the cache and the live keys agree on it. -/
theorem Inv.bump (h : Inv capacity s) (hlive : s.live = held s.map ++ dropped)
    (hget : s.map.get? k = some v) :
    Recency.bump k s.live = Recency.use k v (held s.map) ++ dropped := by
  rw [get?_eq_value?] at hget
  have hnodup := h.nodup
  rw [hlive] at hnodup ⊢
  exact Recency.bump_append hnodup (Recency.mem_of_value? hget)

theorem Inv.notMem_dropped (h : Inv capacity s) (hlive : s.live = held s.map ++ dropped)
    (hk : s.map.has k = true) : k ∉ dropped.map Prod.fst := by
  have hnodup := h.nodup
  rw [hlive, List.map_append] at hnodup
  exact List.disjoint_of_nodup_append hnodup (keys_held.mpr hk)

/-- A `get` uses the key, if it hits. -/
theorem Inv.turn_get (h : Inv capacity s) (hlive : s.live = held s.map ++ dropped) (k : κ) :
    Turn capacity s (step capacity s (.get k)) dropped (.get k) := by
  cases hget : s.map.get? k with
  | none =>
      have hhas : s.map.has k = false :=
        InsertionMap.has_eq_false_iff.mpr (InsertionMap.get?_eq_none_iff.mp hget)
      refine .stays trivial ?_ ?_
      · simp only [step, exec, InsertionMap.lruGet, hget]
      · simp [step, recent, hhas]
  | some v =>
      have hhas : s.map.has k = true :=
        InsertionMap.has_iff.mpr (InsertionMap.mem_keys_of_get? hget)
      have hmap : (step capacity s (.get k)).map = s.map.touch k v := by
        simp only [step, exec, InsertionMap.lruGet, hget]
      have hheld : held (step capacity s (.get k)).map = Recency.use k v (held s.map) := by
        rw [hmap, held_touch]
      refine .uses trivial k v hhas hheld ?_
      rw [hheld, ← h.bump hlive hget]
      simp [step, recent, hhas]

/-- A `set` of a key that is held uses it. -/
theorem Inv.turn_set_of_has (h : Inv capacity s) (hlive : s.live = held s.map ++ dropped)
    (hhas : s.map.has k = true) (v : ν) :
    Turn capacity s (step capacity s (.set k v)) dropped (.set k v) := by
  have hheld : held (step capacity s (.set k v)).map = Recency.use k v (held s.map) :=
    held_lruSet_of_has hhas capacity v
  refine .uses trivial k v hhas hheld ?_
  rw [hheld]
  show Recency.use k v s.live = _
  rw [hlive, Recency.use, Recency.others_append,
    Recency.others_eq_self (h.notMem_dropped hlive hhas)]
  rfl

/-- A `set` of another key adds it if there is room, and drops the oldest entry otherwise. -/
theorem Inv.turn_set_of_new (h : Inv capacity s) (hcapacity : 1 ≤ capacity)
    (hlive : s.live = held s.map ++ dropped) (hhas : s.map.has k = false) (v : ν) :
    Turn capacity s (step capacity s (.set k v)) dropped (.set k v) := by
  have hnot : k ∉ (held s.map).map Prod.fst := by
    rw [keys_held, hhas]
    exact Bool.false_ne_true
  have huse : (step capacity s (.set k v)).live
      = (k, v) :: held s.map ++ Recency.others k dropped := by
    show Recency.use k v s.live = _
    rw [hlive, Recency.use_append hnot]
  by_cases hroom : s.map.size < capacity
  · have hheld : held (step capacity s (.set k v)).map = (k, v) :: held s.map :=
      held_lruSet_of_room hhas hroom v
    refine .adds k v hroom hheld ?_
    rw [hheld, huse]
  · have hfull : s.map.size = capacity := le_antisymm h.size_le (not_lt.mp hroom)
    have hne : held s.map ≠ [] := by
      rw [← List.length_pos_iff, length_held]
      omega
    have hheld : held (step capacity s (.set k v)).map = (k, v) :: (held s.map).dropLast :=
      held_lruSet_of_full hhas hfull.ge v
    refine .replaces k v ((held s.map).getLast hne) hfull hheld (by omega) ?_
    -- the oldest entry goes over to what has been dropped
    rw [hheld, huse]
    conv_lhs => rw [← List.dropLast_append_getLast hne]
    simp

/-- Every operation is one of the turns. -/
theorem Inv.turn (h : Inv capacity s) (hcapacity : 1 ≤ capacity)
    (hlive : s.live = held s.map ++ dropped) (op : Op κ ν) :
    Turn capacity s (step capacity s op) dropped op := by
  cases op with
  | get k => exact h.turn_get hlive k
  | set k v =>
      cases hhas : s.map.has k with
      | true => exact h.turn_set_of_has hlive hhas v
      | false => exact h.turn_set_of_new hcapacity hlive hhas v
  | has k => exact .stays trivial rfl rfl
  | delete k =>
      refine .deletes k (held_delete s.map k) ?_
      show Recency.others k s.live = held (s.map.delete k) ++ _
      rw [hlive, Recency.others_append, held_delete]
  | clear => exact .clears rfl rfl

omit [DecidableEq κ] in
theorem size_of_held {map : InsertionMap κ ν} {l : List (κ × ν)} (h : held map = l) :
    map.size = l.length := by
  rw [← length_held, h]

theorem length_use (hk : s.map.has k = true) :
    (Recency.use k v (held s.map)).length = s.map.size := by
  rw [Recency.use, List.length_cons, Recency.length_others (nodup_held s.map) (keys_held.mpr hk),
    length_held]

theorem nodup_recent (h : (s.live.map Prod.fst).Nodup) (op : Op κ ν) :
    ((recent s.map s.live op).map Prod.fst).Nodup := by
  cases op with
  | get k =>
      rw [recent]
      split
      · rw [Recency.bump]
        split
        · exact h
        · exact Recency.nodup_use h
      · exact h
  | set k v => exact Recency.nodup_use h
  | has k => exact h
  | delete k => exact Recency.nodup_others h
  | clear => exact List.nodup_nil

/-- The number of entries after a turn. -/
theorem Turn.size_le (h : Turn capacity s s' dropped op) (hsize : s.map.size ≤ capacity) :
    s'.map.size ≤ capacity := by
  cases h with
  | stays hop hmap hlive => rw [hmap]; exact hsize
  | uses hop k v hk hheld hlive => rw [size_of_held hheld, length_use hk]; exact hsize
  | adds k v hroom hheld hlive =>
      rw [size_of_held hheld, List.length_cons, length_held]
      omega
  | replaces k v oldest hfull hheld hsome hlive =>
      rw [size_of_held hheld, List.length_cons, List.length_dropLast, length_held]
      omega
  | deletes k hheld hlive =>
      have hle := (Recency.others_sublist k (held s.map)).length_le
      rw [length_held] at hle
      rw [size_of_held hheld]
      omega
  | clears hheld hlive => rw [size_of_held hheld]; exact Nat.zero_le capacity

/-- **Every operation keeps the invariant.** -/
theorem Inv.step (h : Inv capacity s) (hcapacity : 1 ≤ capacity) (op : Op κ ν) :
    Inv capacity (step capacity s op) := by
  obtain ⟨dropped, hdropped⟩ := h.front
  have hturn := h.turn hcapacity hdropped.symm op
  refine ⟨?_, nodup_recent h.nodup op, hturn.size_le h.size_le⟩
  cases hturn with
  | stays hop hmap hlive => rw [hmap, hlive]; exact h.front
  | uses hop k v hk hheld hlive => rw [hlive]; exact List.prefix_append _ _
  | adds k v hroom hheld hlive => rw [hlive]; exact List.prefix_append _ _
  | replaces k v oldest hfull hheld hsome hlive => rw [hlive]; exact List.prefix_append _ _
  | deletes k hheld hlive => rw [hlive]; exact List.prefix_append _ _
  | clears hheld hlive => rw [hheld]; exact List.nil_prefix

theorem inv_run (hcapacity : 1 ≤ capacity) (ops : List (Op κ ν)) :
    Inv capacity (run capacity ops) := by
  induction ops using List.reverseRecOn with
  | nil => exact inv_start
  | append_singleton ops op ih =>
      rw [run, List.foldl_append]
      exact ih.step hcapacity op

omit [DecidableEq κ] in
/-- The cache is filled if it is full, or has dropped nothing that is live. -/
theorem filled_iff (hlive : s.live = held s.map ++ dropped) (hsize : s.map.size ≤ capacity) :
    Filled capacity s ↔ s.map.size = capacity ∨ dropped = [] := by
  have hlength : s.live.length = s.map.size + dropped.length := by
    rw [hlive, List.length_append, length_held]
  rw [Filled, hlength, ← List.length_eq_zero_iff]
  omega

/-- After a deletion the cache could hold more if the key was held and something has been dropped. -/
theorem Inv.filled_delete_iff (h : Inv capacity s) (hlive : s.live = held s.map ++ dropped)
    (hcases : s.map.size = capacity ∨ dropped = []) (k : κ) :
    (Recency.others k (held s.map)).length = capacity ∨ Recency.others k dropped = [] ↔
      SparesHeld s (.delete k : Op κ ν) := by
  have hlength : s.live.length = s.map.size + dropped.length := by
    rw [hlive, List.length_append, length_held]
  cases hhas : s.map.has k with
  | true =>
      -- one entry less, and what has been dropped stays dropped
      have hless := Recency.length_others (nodup_held s.map) (keys_held.mpr hhas)
      rw [length_held] at hless
      have hsize := h.size_le
      rw [Recency.others_eq_self (h.notMem_dropped hlive hhas), ← List.length_eq_zero_iff]
      simp only [SparesHeld, hhas, forall_const]
      omega
  | false =>
      have hnot : k ∉ (held s.map).map Prod.fst := by
        rw [keys_held, hhas]
        exact Bool.false_ne_true
      refine iff_of_true ?_ (fun hk => absurd (hk.symm.trans hhas) (by decide))
      rw [Recency.others_eq_self hnot, length_held]
      exact hcases.imp_right (fun hnil => by rw [hnil, Recency.others_nil])

/-- Of the operations only a deletion of a held key leaves a cache that could hold more, if
something that is live has been dropped. -/
theorem Inv.filled_step_iff (h : Inv capacity s) (hcapacity : 1 ≤ capacity)
    (hfilled : Filled capacity s) (op : Op κ ν) :
    Filled capacity (LRUCache.step capacity s op) ↔ SparesHeld s op := by
  obtain ⟨dropped, hdropped⟩ := h.front
  have hnext := (h.step hcapacity op).size_le
  have hturn := h.turn hcapacity hdropped.symm op
  have hcases := (filled_iff hdropped.symm h.size_le).mp hfilled
  generalize LRUCache.step capacity s op = s' at hturn hnext
  cases hturn with
  | stays hop hmap hlive =>
      refine iff_of_true ?_ hop
      rw [Filled, hmap, hlive]
      exact hfilled
  | uses hop k v hk hheld hlive =>
      refine iff_of_true ?_ hop
      rw [filled_iff hlive hnext, size_of_held hheld, length_use hk]
      exact hcases
  | adds k v hroom hheld hlive =>
      refine iff_of_true ?_ trivial
      have hnil : dropped = [] := hcases.resolve_left hroom.ne
      rw [filled_iff hlive hnext, hnil]
      exact Or.inr rfl
  | replaces k v oldest hfull hheld hsome hlive =>
      refine iff_of_true ?_ trivial
      rw [filled_iff hlive hnext, size_of_held hheld, List.length_cons, List.length_dropLast,
        length_held]
      omega
  | deletes k hheld hlive =>
      rw [filled_iff hlive hnext, size_of_held hheld]
      exact h.filled_delete_iff hdropped.symm hcases k
  | clears hheld hlive =>
      refine iff_of_true ?_ trivial
      rw [Filled, hlive, size_of_held hheld]
      exact (Nat.min_zero capacity).symm

/-! ## 4. The refinement -/

/-- What the operations of a run leave: the cache holds the most recently used live keys, with
their last values, and a `get` finds these and no others. -/
structure HoldsMostRecent (capacity : ℕ) (s : State κ ν) : Prop where
  entries : held s.map = s.live.take s.map.size
  size_le : s.map.size ≤ capacity
  found : ∀ k, (exec capacity s.map (.get k)).1
    = .value (Recency.value? (s.live.take s.map.size) k)

theorem Inv.holdsMostRecent (h : Inv capacity s) : HoldsMostRecent capacity s := by
  have hentries : held s.map = s.live.take s.map.size := by
    obtain ⟨dropped, hlive⟩ := h.front
    rw [← hlive, ← length_held, List.take_left]
  refine ⟨hentries, h.size_le, fun k => ?_⟩
  rw [← hentries, ← get?_eq_value?, exec, InsertionMap.lruGet]
  cases s.map.get? k with
  | none => rfl
  | some v => rfl

end Inv

/-- **`LRUCache` against the list of the live keys**: it holds the most recently used ones, with
their last values, and never more than its capacity. It holds as many as there are, up to the
capacity, at all times of a run exactly if no held key is deleted while a live one has been
dropped. -/
theorem lruCache_refines (capacity : ℕ) (hcapacity : 1 ≤ capacity) (ops : List (Op κ ν)) :
    (∀ p, p <+: ops → HoldsMostRecent capacity (run capacity p)) ∧
      ((∀ p, p <+: ops → Filled capacity (run capacity p)) ↔
        ∀ p op, p ++ [op] <+: ops → SparesHeld (run capacity p) op) := by
  refine ⟨fun p _ => (inv_run hcapacity p).holdsMostRecent, ?_⟩
  refine Runs.prefixes_iff (I := Inv capacity) inv_start (fun s op h => h.step hcapacity op) ?_
    (fun s op h hfilled => h.filled_step_iff hcapacity hfilled op) ops
  exact (Nat.min_zero capacity).symm

/-- Three keys through a cache for two. -/
theorem lruCache_refines_three :
    (∀ p, p <+: [Op.set 1 1, .set 2 2, .get 1, .set 3 3] →
        HoldsMostRecent 2 (run 2 p : State ℕ ℕ)) ∧
      ((∀ p, p <+: [Op.set 1 1, .set 2 2, .get 1, .set 3 3] → Filled 2 (run 2 p : State ℕ ℕ)) ↔
        ∀ p op, p ++ [op] <+: [Op.set 1 1, .set 2 2, .get 1, .set 3 3] →
          SparesHeld (run 2 p : State ℕ ℕ) op) :=
  lruCache_refines 2 (by decide) _

/-- The third key drops the first, and when it is deleted itself, the first, which nobody has
deleted, does not come back: one of two live keys is left in a cache for two. -/
theorem dropped_key_not_restored :
    ¬ ∀ (capacity : ℕ) (ops : List (Op ℕ ℕ)), 1 ≤ capacity →
      held (run capacity ops).map
        = (run capacity ops).live.take (min capacity (run capacity ops).live.length) := by
  intro h
  have hrun := h 2 [.set 1 1, .set 2 2, .set 3 3, .delete 3] (by decide)
  revert hrun
  decide

end Brain.LRUCache
