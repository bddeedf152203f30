/-
Maps that remember the order of insertion, as `Map` of JavaScript does.

A map is a list of entries whose keys are distinct. `set` overwrites the entry of
a key where it stands, and appends an entry for a key that is new.

Two maps are compared by a relation on their values (`Related`): the same keys in
the same order, and related values under each. Every operation preserves it, so
two programs that fill their maps with related values in the same order end with
related maps.
-/
import Mathlib.Data.List.Forall2
import Mathlib.Data.List.Nodup
import Mathlib.Tactic

set_option autoImplicit false

/-- Entries under distinct keys, in the order in which the keys were first set. -/
structure InsertionMap (κ ν : Type*) where
  entries : List (κ × ν)
  nodup : (entries.map Prod.fst).Nodup

namespace InsertionMap

variable {κ ν : Type*}

/-! ## Operations -/

/-- `new Map()`. -/
def empty : InsertionMap κ ν where
  entries := []
  nodup := List.nodup_nil

/-- `keys()`. -/
def keys (m : InsertionMap κ ν) : List κ := m.entries.map Prod.fst

/-- `values()`. -/
def values (m : InsertionMap κ ν) : List ν := m.entries.map Prod.snd

/-- `size`. -/
def size (m : InsertionMap κ ν) : ℕ := m.entries.length

/-- A loop that rewrites every value in its place. -/
def mapValues (m : InsertionMap κ ν) (f : κ → ν → ν) : InsertionMap κ ν where
  entries := m.entries.map (fun e => (e.1, f e.1 e.2))
  nodup := by
    rw [List.map_map]
    exact m.nodup

variable [DecidableEq κ]

/-- `get`. -/
def get? (m : InsertionMap κ ν) (k : κ) : Option ν :=
  (m.entries.find? (fun e => decide (e.1 = k))).map Prod.snd

/-- `has`. -/
def has (m : InsertionMap κ ν) (k : κ) : Bool := decide (k ∈ m.keys)

/-- `set`. -/
def set (m : InsertionMap κ ν) (k : κ) (v : ν) : InsertionMap κ ν :=
  if h : k ∈ m.keys then
    { entries := m.entries.map (fun e => (e.1, if e.1 = k then v else e.2))
      nodup := by
        rw [List.map_map]
        exact m.nodup }
  else
    { entries := m.entries ++ [(k, v)]
      nodup := by
        rw [List.map_append, List.nodup_append]
        refine ⟨m.nodup, List.nodup_singleton _, ?_⟩
        intro a ha b hb hab
        rw [List.map_singleton, List.mem_singleton] at hb
        rw [hab, hb] at ha
        exact h ha }

/-- `delete`. -/
def delete (m : InsertionMap κ ν) (k : κ) : InsertionMap κ ν where
  entries := m.entries.filter (fun e => decide (e.1 ≠ k))
  nodup := m.nodup.sublist ((List.filter_sublist).map Prod.fst)

/-- A map that is filled entry by entry. -/
def ofList (l : List (κ × ν)) : InsertionMap κ ν := l.foldl (fun m e => m.set e.1 e.2) empty

/-! ## Entries and lookups -/

section Entries

variable {m : InsertionMap κ ν} {k k' : κ} {v : ν} {p : κ × ν}

/-- What is looked up is an entry. -/
theorem mem_of_get? (h : m.get? k = some v) : (k, v) ∈ m.entries := by
  obtain ⟨p, hp, hv⟩ := Option.map_eq_some_iff.mp h
  have hk : p.1 = k := by simpa using List.find?_some hp
  have hmem := List.mem_of_find?_eq_some hp
  rwa [← hk, ← hv]

/-- And an entry is what its key is looked up to. -/
theorem get?_of_mem (h : (k, v) ∈ m.entries) : m.get? k = some v := by
  cases hf : m.entries.find? (fun e => decide (e.1 = k)) with
  | none =>
      have hne := List.find?_eq_none.mp hf (k, v) h
      simp at hne
  | some p =>
      have hk : p.1 = k := by simpa using List.find?_some hf
      have heq : p = (k, v) := List.inj_on_of_nodup_map m.nodup (List.mem_of_find?_eq_some hf) h hk
      rw [get?, hf, heq]
      rfl

theorem has_iff : m.has k = true ↔ k ∈ m.keys := by
  rw [has, decide_eq_true_iff]

theorem has_eq_false_iff : m.has k = false ↔ k ∉ m.keys := by
  rw [has, decide_eq_false_iff_not]

theorem mem_keys_of_get? (h : m.get? k = some v) : k ∈ m.keys :=
  List.mem_map_of_mem (f := Prod.fst) (mem_of_get? h)

theorem exists_get?_of_mem_keys (h : k ∈ m.keys) : ∃ v, m.get? k = some v := by
  obtain ⟨⟨_, v⟩, hv, rfl⟩ := List.mem_map.mp h
  exact ⟨v, get?_of_mem hv⟩

theorem get?_eq_none_iff : m.get? k = none ↔ k ∉ m.keys := by
  rw [get?, Option.map_eq_none_iff, List.find?_eq_none, keys, List.mem_map]
  constructor
  · rintro h ⟨p, hp, rfl⟩
    have := h p hp
    simp at this
  · intro h p hp
    simp only [decide_eq_true_eq]
    exact fun hk => h ⟨p, hp, hk⟩

/-- A key that is set gets an entry, and the others keep theirs. -/
theorem mem_entries_set (h : p ∈ (m.set k v).entries) : p = (k, v) ∨ p ∈ m.entries := by
  unfold set at h
  split at h
  · obtain ⟨e, he, rfl⟩ := List.mem_map.mp h
    split
    · next hk => exact Or.inl (by rw [hk])
    · exact Or.inr he
  · rcases List.mem_append.mp h with h | h
    · exact Or.inr h
    · exact Or.inl (List.mem_singleton.mp h)

theorem get?_set_self (m : InsertionMap κ ν) (k : κ) (v : ν) : (m.set k v).get? k = some v := by
  apply get?_of_mem
  unfold set
  split
  · next h =>
      obtain ⟨e, he, hk⟩ := List.mem_map.mp h
      exact List.mem_map.mpr ⟨e, he, by rw [if_pos hk, hk]⟩
  · simp

theorem get?_set_of_ne (m : InsertionMap κ ν) (v : ν) (h : k' ≠ k) :
    (m.set k v).get? k' = m.get? k' := by
  -- a lookup is an entry, so it is enough that the entries of `k'` are the same
  have hne : ∀ w, (k', w) ∈ (m.set k v).entries ↔ (k', w) ∈ m.entries := by
    intro w
    constructor
    · intro hmem
      rcases mem_entries_set hmem with heq | hmem
      · exact absurd (congrArg Prod.fst heq) h
      · exact hmem
    · intro hmem
      unfold set
      split
      · exact List.mem_map.mpr ⟨(k', w), hmem, by rw [if_neg h]⟩
      · exact List.mem_append_left _ hmem
  cases hget : m.get? k' with
  | some w => exact get?_of_mem ((hne w).mpr (mem_of_get? hget))
  | none =>
      cases hset : (m.set k v).get? k' with
      | none => rfl
      | some w =>
          rw [get?_of_mem ((hne w).mp (mem_of_get? hset))] at hget
          cases hget

theorem get?_delete_of_ne (m : InsertionMap κ ν) (h : k' ≠ k) :
    (m.delete k).get? k' = m.get? k' := by
  have hfilter : (m.entries.filter (fun e => decide (e.1 ≠ k))).find? (fun e => decide (e.1 = k'))
      = m.entries.find? (fun e => decide (e.1 = k')) := by
    rw [List.find?_filter]
    congr 1
    funext e
    by_cases he : e.1 = k'
    · simp [he, h]
    · simp [he]
  rw [get?, get?, delete, hfilter]

/-- Filling a map leaves the entries of before or of the list. -/
theorem mem_entries_foldl_set {l : List (κ × ν)} : ∀ {m : InsertionMap κ ν},
    p ∈ (l.foldl (fun m e => m.set e.1 e.2) m).entries → p ∈ m.entries ∨ p ∈ l := by
  induction l with
  | nil => exact fun hm => Or.inl hm
  | cons e l ih =>
      intro m hm
      rcases ih hm with hm | hm
      · rcases mem_entries_set hm with rfl | hm
        · exact Or.inr List.mem_cons_self
        · exact Or.inl hm
      · exact Or.inr (List.mem_cons_of_mem e hm)

theorem mem_entries_ofList {l : List (κ × ν)} (h : p ∈ (ofList l).entries) : p ∈ l :=
  (mem_entries_foldl_set h).resolve_left (by simp [empty])

theorem mem_keys_set : k' ∈ (m.set k v).keys ↔ k' = k ∨ k' ∈ m.keys := by
  constructor
  · intro h
    obtain ⟨p, hp, rfl⟩ := List.mem_map.mp h
    rcases mem_entries_set hp with rfl | hp
    · exact Or.inl rfl
    · exact Or.inr (List.mem_map_of_mem hp)
  · intro h
    by_cases hk : k' = k
    · rw [hk]
      exact List.mem_map_of_mem (mem_of_get? (get?_set_self m k v))
    · have hmem := h.resolve_left hk
      by_contra hnot
      rw [← get?_eq_none_iff, get?_set_of_ne m v hk, get?_eq_none_iff] at hnot
      exact hnot hmem

theorem mem_keys_ofList {l : List (κ × ν)} : k ∈ (ofList l).keys ↔ k ∈ l.map Prod.fst := by
  have hfold : ∀ (l : List (κ × ν)) (m : InsertionMap κ ν),
      k ∈ (l.foldl (fun m e => m.set e.1 e.2) m).keys ↔ k ∈ m.keys ∨ k ∈ l.map Prod.fst := by
    intro l
    induction l with
    | nil => simp
    | cons e l ih =>
        intro m
        rw [List.foldl_cons, ih, mem_keys_set, List.map_cons, List.mem_cons]
        tauto
  rw [ofList, hfold]
  simp [empty, keys]

theorem keys_set_of_mem (h : k ∈ m.keys) (v : ν) : (m.set k v).keys = m.keys := by
  unfold set
  rw [dif_pos h]
  exact List.map_map.trans rfl

theorem keys_set_of_not_mem (h : k ∉ m.keys) (v : ν) : (m.set k v).keys = m.keys ++ [k] := by
  unfold set
  rw [dif_neg h]
  exact List.map_append

/-- **The keys of a map that is filled further**: those of before, then the new ones. -/
theorem keys_foldl_set {l : List (κ × ν)} : ∀ {m : InsertionMap κ ν}, (l.map Prod.fst).Nodup →
    (l.foldl (fun m e => m.set e.1 e.2) m).keys
      = m.keys ++ (l.map Prod.fst).filter (fun k => decide (k ∉ m.keys)) := by
  induction l with
  | nil => exact fun _ => (List.append_nil _).symm
  | cons e l ih =>
      intro m h
      obtain ⟨he, hl⟩ := List.nodup_cons.mp h
      rw [List.foldl_cons, ih hl, List.map_cons, List.filter_cons]
      by_cases hk : e.1 ∈ m.keys
      · rw [keys_set_of_mem hk, if_neg (by simpa using hk)]
      · rw [keys_set_of_not_mem hk, if_pos (by simpa using hk), List.append_assoc,
          List.singleton_append]
        congr 2
        refine List.filter_congr (fun k hkl => ?_)
        have hne : k ≠ e.1 := fun heq => he (heq ▸ hkl)
        simp [hne]

theorem keys_ofList {l : List (κ × ν)} (h : (l.map Prod.fst).Nodup) :
    (ofList l).keys = l.map Prod.fst := by
  rw [ofList, keys_foldl_set h]
  simp [empty, keys]

/-- **Filling a map** with new keys appends the list. -/
theorem entries_foldl_set {l : List (κ × ν)} : ∀ {m : InsertionMap κ ν}, (l.map Prod.fst).Nodup →
    (∀ e ∈ l, e.1 ∉ m.keys) →
    (l.foldl (fun m e => m.set e.1 e.2) m).entries = m.entries ++ l := by
  induction l with
  | nil => exact fun _ _ => (List.append_nil _).symm
  | cons e l ih =>
      intro m h hnew
      obtain ⟨he, hl⟩ := List.nodup_cons.mp h
      have hset : (m.set e.1 e.2).entries = m.entries ++ [e] := by
        unfold set
        rw [dif_neg (hnew e List.mem_cons_self)]
      rw [List.foldl_cons, ih hl, hset, List.append_assoc, List.singleton_append]
      intro e' he' hmem
      rcases mem_keys_set.mp hmem with heq | hmem
      · exact he (heq ▸ List.mem_map_of_mem he')
      · exact hnew e' (List.mem_cons_of_mem _ he') hmem

theorem entries_ofList {l : List (κ × ν)} (h : (l.map Prod.fst).Nodup) :
    (ofList l).entries = l := by
  rw [ofList, entries_foldl_set h]
  · exact List.nil_append _
  · intro e _ hmem
    cases hmem

/-- A map that is filled under distinct keys holds what it is filled with. -/
theorem get?_ofList_iff {l : List (κ × ν)} (h : (l.map Prod.fst).Nodup) :
    (ofList l).get? k = some v ↔ (k, v) ∈ l := by
  constructor
  · intro hget
    exact mem_entries_ofList (mem_of_get? hget)
  · intro hmem
    have hkey : k ∈ (ofList l).keys := mem_keys_ofList.mpr (List.mem_map_of_mem hmem)
    obtain ⟨⟨_, w⟩, hw, rfl⟩ := List.mem_map.mp hkey
    have heq := List.inj_on_of_nodup_map h hmem (mem_entries_ofList hw) rfl
    rw [get?_of_mem hw, (Prod.mk.inj heq).2]

omit [DecidableEq κ] in
/-- The keys of the entries that some of a list have are keys of the list. -/
theorem map_fst_filterMap_sublist {α : Type*} {f : α → Option (κ × ν)} {key : α → κ}
    (h : ∀ x e, f x = some e → e.1 = key x) :
    ∀ l : List α, ((l.filterMap f).map Prod.fst).Sublist (l.map key) := by
  intro l
  induction l with
  | nil => exact List.Sublist.refl _
  | cons x l ih =>
      rw [List.map_cons]
      cases hx : f x with
      | none =>
          rw [List.filterMap_cons_none hx]
          exact ih.cons _
      | some e =>
          rw [List.filterMap_cons_some hx, List.map_cons, h x e hx]
          exact ih.cons_cons _

/-- A map that is filled with the images of the values of another. -/
theorem get?_ofList_map {μ : Type*} (m : InsertionMap κ ν) (f : ν → μ) (k : κ) :
    (ofList (m.entries.map (fun e => (e.1, f e.2)))).get? k = (m.get? k).map f := by
  cases hget : m.get? k with
  | none =>
      rw [Option.map_none, get?_eq_none_iff, mem_keys_ofList, List.map_map]
      exact get?_eq_none_iff.mp hget
  | some v =>
      have hkey : k ∈ (ofList (m.entries.map (fun e => (e.1, f e.2)))).keys := by
        rw [mem_keys_ofList, List.map_map]
        exact List.mem_map_of_mem (mem_of_get? hget)
      obtain ⟨⟨_, w⟩, hw, rfl⟩ := List.mem_map.mp hkey
      obtain ⟨e, he, heq⟩ := List.mem_map.mp (mem_entries_ofList hw)
      obtain ⟨rfl, rfl⟩ := Prod.mk.inj heq
      rw [get?_of_mem hw, Option.map_some, Option.some_inj]
      have hself := get?_of_mem (m := m) (k := e.1) (v := e.2) he
      rw [hself, Option.some_inj] at hget
      rw [hget]

theorem get?_mapValues (m : InsertionMap κ ν) (f : κ → ν → ν) (k : κ) :
    (m.mapValues f).get? k = (m.get? k).map (f k) := by
  cases hget : m.get? k with
  | none =>
      have hkeys : (m.mapValues f).keys = m.keys := List.map_map.trans rfl
      rw [get?_eq_none_iff] at hget
      rw [Option.map_none, get?_eq_none_iff, hkeys]
      exact hget
  | some v =>
      have hmem := mem_of_get? hget
      exact get?_of_mem (List.mem_map_of_mem (f := fun e => (e.1, f e.1 e.2)) hmem)

/-- Looking up the keys one by one gives the values. -/
theorem filterMap_get?_keys (m : InsertionMap κ ν) : m.keys.filterMap m.get? = m.values := by
  have hget : ∀ l : List (κ × ν), (∀ e ∈ l, m.get? e.1 = some e.2) →
      (l.map Prod.fst).filterMap m.get? = l.map Prod.snd := by
    intro l
    induction l with
    | nil => exact fun _ => rfl
    | cons e l ih =>
        intro h
        rw [List.map_cons, List.filterMap_cons, h e List.mem_cons_self, List.map_cons,
          ih (fun e he => h e (List.mem_cons_of_mem _ he))]
  exact hget m.entries (fun e he => get?_of_mem he)

end Entries

/-! ## Maps with related values -/

section Related

variable {μ : Type*} {R : ν → μ → Prop} {m : InsertionMap κ ν} {m' : InsertionMap κ μ}

omit [DecidableEq κ] in
/-- The same keys in the same order, and related values. -/
def Related (R : ν → μ → Prop) (m : InsertionMap κ ν) (m' : InsertionMap κ μ) : Prop :=
  List.Forall₂ (fun e e' => e.1 = e'.1 ∧ R e.2 e'.2) m.entries m'.entries

omit [DecidableEq κ] in
theorem Related.empty : Related R (empty : InsertionMap κ ν) (empty : InsertionMap κ μ) :=
  List.Forall₂.nil

omit [DecidableEq κ] in
theorem Related.keys_eq (h : Related R m m') : m.keys = m'.keys := by
  -- `Forall₂` of equality is equality
  have hkeys : List.Forall₂ (· = ·) m.keys m'.keys := by
    rw [keys, keys, List.forall₂_map_left_iff, List.forall₂_map_right_iff]
    exact h.imp (fun _ _ he => he.1)
  rwa [List.forall₂_eq_eq_eq] at hkeys

omit [DecidableEq κ] in
theorem Related.values (h : Related R m m') : List.Forall₂ R m.values m'.values := by
  unfold InsertionMap.values
  rw [List.forall₂_map_left_iff, List.forall₂_map_right_iff]
  exact h.imp (fun _ _ he => he.2)

/-- Looking for related elements in related lists finds related ones, or none in
either. -/
theorem rel_find? {α β : Type*} {S : α → β → Prop} {p : α → Bool} {q : β → Bool} {l : List α}
    {l' : List β} (h : List.Forall₂ S l l') (hpq : ∀ x y, S x y → p x = q y) :
    Option.Rel S (l.find? p) (l'.find? q) := by
  induction h with
  | nil => exact Option.Rel.none
  | @cons x y _ _ hxy _ ih =>
      rw [List.find?_cons, List.find?_cons, ← hpq x y hxy]
      cases p x with
      | true => exact Option.Rel.some hxy
      | false => exact ih

theorem Related.get? (h : Related R m m') (k : κ) : Option.Rel R (m.get? k) (m'.get? k) := by
  unfold InsertionMap.get?
  have hfind := rel_find? (p := fun e : κ × ν => decide (e.1 = k))
    (q := fun e : κ × μ => decide (e.1 = k)) h (fun e e' he => by rw [he.1])
  generalize m.entries.find? (fun e => decide (e.1 = k)) = o at hfind ⊢
  generalize m'.entries.find? (fun e => decide (e.1 = k)) = o' at hfind ⊢
  cases hfind with
  | none => exact Option.Rel.none
  | some he => exact Option.Rel.some he.2

theorem Related.set (h : Related R m m') (k : κ) {v : ν} {v' : μ} (hv : R v v') :
    Related R (m.set k v) (m'.set k v') := by
  unfold InsertionMap.set
  by_cases hk : k ∈ m.keys
  -- the key stands in both maps, at the same place, or is appended to both
  · have hk' : k ∈ m'.keys := h.keys_eq ▸ hk
    rw [dif_pos hk, dif_pos hk']
    refine List.rel_map ?_ h
    rintro ⟨a, x⟩ ⟨b, y⟩ ⟨hab, hxy⟩
    have hab : a = b := hab
    subst hab
    refine ⟨rfl, ?_⟩
    by_cases ha : a = k
    · simp only [if_pos ha]
      exact hv
    · simp only [if_neg ha]
      exact hxy
  · have hk' : k ∉ m'.keys := h.keys_eq ▸ hk
    rw [dif_neg hk, dif_neg hk']
    exact List.rel_append h (List.Forall₂.cons ⟨rfl, hv⟩ List.Forall₂.nil)

end Related

end InsertionMap
