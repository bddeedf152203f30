/-
Keyed tables with creation-ordered identifiers.

A table is a list of rows, each under its own identifier, with a counter from
which the next identifier is drawn. The two facts that make it a table are
carried as fields: the identifiers stand in increasing order (so they are
distinct, and a scan returns rows in creation order), and all of them are below
the counter (so a created row never collides with an old one). Every operation
below keeps them by construction.

Proofs about a table never look at its list. They go through `get?`, for which
each operation has one equation, and two tables with the same `get?` and the
same counter are equal (`ext_get?`).
-/
import Mathlib.Data.List.Nodup
import Mathlib.Data.List.Pairwise
import Mathlib.Tactic

set_option autoImplicit false

/-- A table of rows of type `ρ`, keyed by identifiers drawn in increasing order. -/
structure KeyedTable (ρ : Type*) where
  rows : List (ℕ × ρ)
  next : ℕ
  ordered : (rows.map Prod.fst).Pairwise (· < ·)
  bounded : ∀ p ∈ rows, p.1 < next

namespace KeyedTable

variable {ρ : Type*}

/-! ## Operations -/

/-- The table without rows. -/
def empty : KeyedTable ρ where
  rows := []
  next := 0
  ordered := List.Pairwise.nil
  bounded := by simp

/-- The row under identifier `i`. -/
def get? (t : KeyedTable ρ) (i : ℕ) : Option ρ :=
  (t.rows.find? (fun p => p.1 == i)).map Prod.snd

/-- The rows that satisfy `p`, in creation order. -/
def select (t : KeyedTable ρ) (p : ℕ → ρ → Bool) : List (ℕ × ρ) :=
  t.rows.filter (fun q => p q.1 q.2)

/-- A new row under a fresh identifier (`t.next`). -/
def insert (t : KeyedTable ρ) (r : ρ) : KeyedTable ρ where
  rows := t.rows ++ [(t.next, r)]
  next := t.next + 1
  ordered := by
    rw [List.map_append, List.pairwise_append]
    refine ⟨t.ordered, by simp, ?_⟩
    intro i hi j hj
    obtain ⟨p, hp, rfl⟩ := List.mem_map.mp hi
    simp only [List.map_cons, List.map_nil, List.mem_singleton] at hj
    exact hj ▸ t.bounded p hp
  bounded := by
    intro p hp
    rcases List.mem_append.mp hp with h | h
    · exact Nat.lt_succ_of_lt (t.bounded p h)
    · rw [List.mem_singleton.mp h]
      exact Nat.lt_succ_self _

/-- Rewrites every row that satisfies `p` with `f`. -/
def modify (t : KeyedTable ρ) (p : ℕ → ρ → Bool) (f : ρ → ρ) : KeyedTable ρ where
  rows := t.rows.map (fun q => (q.1, if p q.1 q.2 then f q.2 else q.2))
  next := t.next
  ordered := by
    rw [List.map_map]
    exact t.ordered
  bounded := by
    intro p hp
    obtain ⟨q, hq, rfl⟩ := List.mem_map.mp hp
    exact t.bounded q hq

/-- Rewrites every row; the rewrite sees the identifier. -/
def mapRows (t : KeyedTable ρ) (g : ℕ → ρ → ρ) : KeyedTable ρ where
  rows := t.rows.map (fun q => (q.1, g q.1 q.2))
  next := t.next
  ordered := by
    rw [List.map_map]
    exact t.ordered
  bounded := by
    intro p hp
    obtain ⟨q, hq, rfl⟩ := List.mem_map.mp hp
    exact t.bounded q hq

/-- Rewrites the one row under identifier `i`. -/
def update (t : KeyedTable ρ) (i : ℕ) (f : ρ → ρ) : KeyedTable ρ :=
  t.modify (fun j _ => j == i) f

/-- Removes the rows that satisfy `p`. The counter stays where it is, so the identifier
of a removed row is not drawn again. -/
def deleteWhere (t : KeyedTable ρ) (p : ℕ → ρ → Bool) : KeyedTable ρ where
  rows := t.rows.filter (fun q => !p q.1 q.2)
  next := t.next
  ordered := t.ordered.sublist ((List.filter_sublist).map Prod.fst)
  bounded := fun q hq => t.bounded q (List.mem_of_mem_filter hq)

/-- A loop over selected rows that rewrites each of them in turn; the rewrite
sees the row as it was selected and the row as it is now stored. -/
def forEach (t : KeyedTable ρ) (l : List (ℕ × ρ)) (g : ρ → ρ → ρ) : KeyedTable ρ :=
  l.foldl (fun t q => t.update q.1 (g q.2)) t

/-! ## Rows and lookups -/

theorem nodup_keys (t : KeyedTable ρ) : (t.rows.map Prod.fst).Nodup :=
  t.ordered.imp (fun h => Nat.ne_of_lt h)

/-- Looking an identifier up finds exactly the row stored under it. -/
theorem mem_rows_iff {t : KeyedTable ρ} {i : ℕ} {r : ρ} :
    (i, r) ∈ t.rows ↔ t.get? i = some r := by
  constructor
  · intro h
    cases hf : t.rows.find? (fun p => p.1 == i) with
    | none =>
        have hne := List.find?_eq_none.mp hf (i, r) h
        simp at hne
    | some q =>
        -- the row that is found has the same identifier, and identifiers are distinct
        have hq : q ∈ t.rows := List.mem_of_find?_eq_some hf
        have hqi : q.1 = i := by simpa using List.find?_some hf
        have heq : q = (i, r) := List.inj_on_of_nodup_map t.nodup_keys hq h hqi
        rw [get?, hf, heq]
        rfl
  · intro h
    obtain ⟨q, hf, hq⟩ := Option.map_eq_some_iff.mp h
    have hqi : q.1 = i := by simpa using List.find?_some hf
    have hmem := List.mem_of_find?_eq_some hf
    rwa [← hqi, ← hq]

@[simp] theorem mem_select {t : KeyedTable ρ} {p : ℕ → ρ → Bool} {q : ℕ × ρ} :
    q ∈ t.select p ↔ t.get? q.1 = some q.2 ∧ p q.1 q.2 = true := by
  rw [select, List.mem_filter, ← mem_rows_iff]

theorem get?_lt_next {t : KeyedTable ρ} {i : ℕ} {r : ρ} (h : t.get? i = some r) : i < t.next :=
  t.bounded (i, r) (mem_rows_iff.mpr h)

/-- The identifier the next row will get is not in use. -/
@[simp] theorem get?_next (t : KeyedTable ρ) : t.get? t.next = none := by
  cases h : t.get? t.next with
  | none => rfl
  | some r => exact absurd (get?_lt_next h) (Nat.lt_irrefl _)

theorem nodup_select (t : KeyedTable ρ) (p : ℕ → ρ → Bool) :
    ((t.select p).map Prod.fst).Nodup :=
  t.nodup_keys.sublist ((List.filter_sublist).map Prod.fst)

theorem select_eq_nil_iff {t : KeyedTable ρ} {p : ℕ → ρ → Bool} :
    t.select p = [] ↔ ∀ i r, t.get? i = some r → p i r = false := by
  rw [List.eq_nil_iff_forall_not_mem]
  constructor
  · intro h i r hr
    by_contra hp
    exact h (i, r) (mem_select.mpr ⟨hr, by simpa using hp⟩)
  · intro h q hq
    obtain ⟨hr, hp⟩ := mem_select.mp hq
    rw [h q.1 q.2 hr] at hp
    cases hp

/-- A selection has at most one row exactly when any two rows it selects carry
the same identifier. -/
theorem length_select_le_one_iff {t : KeyedTable ρ} {p : ℕ → ρ → Bool} :
    (t.select p).length ≤ 1 ↔
      ∀ i r j q, t.get? i = some r → p i r = true → t.get? j = some q → p j q = true → i = j := by
  constructor
  · intro h i r j q hi hpi hj hpj
    have hmi : (i, r) ∈ t.select p := mem_select.mpr ⟨hi, hpi⟩
    have hmj : (j, q) ∈ t.select p := mem_select.mpr ⟨hj, hpj⟩
    obtain ⟨a, ha⟩ : ∃ a, t.select p = [a] :=
      List.length_eq_one_iff.mp (Nat.le_antisymm h (List.length_pos_of_mem hmi))
    rw [ha, List.mem_singleton] at hmi hmj
    exact congrArg Prod.fst (hmi.trans hmj.symm)
  · intro h
    rcases hl : t.select p with _ | ⟨a, _ | ⟨b, l⟩⟩
    · simp
    · simp
    · -- two rows would carry different identifiers
      have ha : a ∈ t.select p := by simp [hl]
      have hb : b ∈ t.select p := by simp [hl]
      have hnd := t.nodup_select p
      rw [hl] at hnd
      have hne : a.1 ≠ b.1 := by
        intro e
        simp [e] at hnd
      obtain ⟨hga, hpa⟩ := mem_select.mp ha
      obtain ⟨hgb, hpb⟩ := mem_select.mp hb
      exact absurd (h a.1 a.2 b.1 b.2 hga hpa hgb hpb) hne

/-- Tables are determined by their lookups and their counter. -/
theorem ext_get? {t t' : KeyedTable ρ} (hget : ∀ i, t.get? i = t'.get? i)
    (hnext : t.next = t'.next) : t = t' := by
  have hmem : ∀ q : ℕ × ρ, q ∈ t.rows ↔ q ∈ t'.rows := by
    rintro ⟨i, r⟩
    rw [mem_rows_iff, mem_rows_iff, hget]
  have hperm : t.rows.Perm t'.rows :=
    (List.perm_ext_iff_of_nodup (List.Nodup.of_map _ t.nodup_keys)
      (List.Nodup.of_map _ t'.nodup_keys)).mpr hmem
  -- the same rows, and only one increasing order for them to stand in
  have hrows : t.rows = t'.rows := by
    have ht : t.rows.Pairwise (fun a b => a.1 < b.1) := List.pairwise_map.mp t.ordered
    have ht' : t'.rows.Pairwise (fun a b => a.1 < b.1) := List.pairwise_map.mp t'.ordered
    refine hperm.eq_of_pairwise ?_ ht ht'
    intro a b _ _ hab hba
    exact absurd hab (Nat.lt_asymm hba)
  cases t
  cases t'
  simp only at hrows hnext
  subst hrows hnext
  rfl

/-! ## One lookup equation per operation -/

@[simp] theorem get?_empty (i : ℕ) : (empty : KeyedTable ρ).get? i = none := rfl

@[simp] theorem next_insert (t : KeyedTable ρ) (r : ρ) : (t.insert r).next = t.next + 1 := rfl

@[simp] theorem next_modify (t : KeyedTable ρ) (p : ℕ → ρ → Bool) (f : ρ → ρ) :
    (t.modify p f).next = t.next := rfl

@[simp] theorem next_update (t : KeyedTable ρ) (i : ℕ) (f : ρ → ρ) :
    (t.update i f).next = t.next := rfl

theorem get?_insert (t : KeyedTable ρ) (r : ρ) (i : ℕ) :
    (t.insert r).get? i = if i = t.next then some r else t.get? i := by
  by_cases h : i = t.next
  · subst h
    rw [if_pos rfl, ← mem_rows_iff]
    simp [insert]
  · rw [if_neg h, get?, get?, insert, List.find?_append]
    have hne : (t.next == i) = false := by simpa using Ne.symm h
    simp [hne]

@[simp] theorem get?_insert_next (t : KeyedTable ρ) (r : ρ) :
    (t.insert r).get? t.next = some r := by
  rw [get?_insert, if_pos rfl]

theorem get?_mapRows (t : KeyedTable ρ) (g : ℕ → ρ → ρ) (i : ℕ) :
    (t.mapRows g).get? i = (t.get? i).map (g i) := by
  rw [get?, get?, mapRows, List.find?_map, Option.map_map, Option.map_map]
  have hcomp : (fun q : ℕ × ρ => q.1 == i) ∘ (fun q : ℕ × ρ => (q.1, g q.1 q.2))
      = fun q => q.1 == i := rfl
  rw [hcomp]
  cases hf : t.rows.find? (fun q => q.1 == i) with
  | none => rfl
  | some q =>
      have hqi : q.1 = i := by simpa using List.find?_some hf
      simp [hqi]

theorem get?_modify (t : KeyedTable ρ) (p : ℕ → ρ → Bool) (f : ρ → ρ) (i : ℕ) :
    (t.modify p f).get? i = (t.get? i).map (fun r => if p i r then f r else r) :=
  get?_mapRows t (fun i r => if p i r then f r else r) i

/-- Where a row comes from when an update is followed by an insert: it is the inserted one,
or it was updated, or it is as it was. -/
theorem get?_insert_modify_cases {t : KeyedTable ρ} {p : ℕ → ρ → Bool} {f : ρ → ρ} {r r' : ρ}
    {i : ℕ} (hr' : ((t.modify p f).insert r).get? i = some r') :
    (i = t.next ∧ r' = r) ∨
    (∃ r₀, t.get? i = some r₀ ∧ p i r₀ = true ∧ r' = f r₀) ∨
    (t.get? i = some r' ∧ p i r' = false) := by
  rw [get?_insert, next_modify, get?_modify] at hr'
  split at hr'
  · next hi => exact Or.inl ⟨hi, (Option.some.inj hr').symm⟩
  · obtain ⟨r₀, hr₀, rfl⟩ := Option.map_eq_some_iff.mp hr'
    right
    by_cases hp : p i r₀ = true
    · exact Or.inl ⟨r₀, hr₀, hp, by rw [if_pos hp]⟩
    · rw [if_neg hp]
      exact Or.inr ⟨hr₀, by simpa using hp⟩

theorem get?_update (t : KeyedTable ρ) (i j : ℕ) (f : ρ → ρ) :
    (t.update i f).get? j = if j = i then (t.get? j).map f else t.get? j := by
  rw [update, get?_modify]
  by_cases h : j = i
  · simp [h]
  · simp [h]

/-- There is nothing to update. -/
theorem update_of_get?_eq_none {t : KeyedTable ρ} {i : ℕ} (h : t.get? i = none) (f : ρ → ρ) :
    t.update i f = t := by
  refine ext_get? (fun j => ?_) rfl
  rw [get?_update]
  split
  · next hij =>
      subst hij
      rw [h, Option.map_none]
  · rfl

@[simp] theorem next_deleteWhere (t : KeyedTable ρ) (p : ℕ → ρ → Bool) :
    (t.deleteWhere p).next = t.next := rfl

theorem get?_deleteWhere_eq_some {t : KeyedTable ρ} {p : ℕ → ρ → Bool} {i : ℕ} {r : ρ} :
    (t.deleteWhere p).get? i = some r ↔ t.get? i = some r ∧ p i r = false := by
  rw [← mem_rows_iff, ← mem_rows_iff, deleteWhere, List.mem_filter, Bool.not_eq_true']

theorem get?_deleteWhere (t : KeyedTable ρ) (p : ℕ → ρ → Bool) (i : ℕ) :
    (t.deleteWhere p).get? i = (t.get? i).filter (fun r => !p i r) := by
  ext r
  rw [get?_deleteWhere_eq_some, Option.filter_eq_some_iff, Bool.not_eq_true']

/-- What is removed does not have to be removed again. -/
theorem deleteWhere_deleteWhere (t : KeyedTable ρ) (p : ℕ → ρ → Bool) :
    (t.deleteWhere p).deleteWhere p = t.deleteWhere p := by
  refine ext_get? (fun i => ?_) rfl
  rw [get?_deleteWhere, get?_deleteWhere, Option.filter_filter]
  simp only [Bool.and_self]

theorem select_deleteWhere (t : KeyedTable ρ) (p : ℕ → ρ → Bool) :
    (t.deleteWhere p).select p = [] := by
  rw [select_eq_nil_iff]
  intro i r hr
  exact (get?_deleteWhere_eq_some.mp hr).2

/-- Selecting among rewritten rows is selecting by what becomes of them. -/
theorem keys_select_mapRows (t : KeyedTable ρ) (g : ℕ → ρ → ρ) (p : ℕ → ρ → Bool) :
    ((t.mapRows g).select p).map Prod.fst
      = (t.rows.filter (fun q => p q.1 (g q.1 q.2))).map Prod.fst := by
  rw [select, mapRows, List.filter_map, List.map_map]
  rfl

/-! ## The update loop -/

theorem next_forEach (l : List (ℕ × ρ)) (g : ρ → ρ → ρ) :
    ∀ t : KeyedTable ρ, (t.forEach l g).next = t.next := by
  induction l with
  | nil => exact fun t => rfl
  | cons q l ih => exact fun t => by rw [forEach, List.foldl_cons, ← forEach, ih, next_update]

/-- The loop leaves a row alone that it does not visit. -/
theorem get?_forEach_of_not_mem (l : List (ℕ × ρ)) (g : ρ → ρ → ρ) {i : ℕ}
    (hi : i ∉ l.map Prod.fst) : ∀ t : KeyedTable ρ, (t.forEach l g).get? i = t.get? i := by
  induction l with
  | nil => exact fun t => rfl
  | cons q l ih =>
      intro t
      simp only [List.map_cons, List.mem_cons, not_or] at hi
      rw [forEach, List.foldl_cons, ← forEach, ih hi.2, get?_update, if_neg hi.1]

/-- The loop rewrites a row it visits exactly once, as long as no identifier is
visited twice. -/
theorem get?_forEach_of_mem (l : List (ℕ × ρ)) (g : ρ → ρ → ρ) {q : ℕ × ρ}
    (hnd : (l.map Prod.fst).Nodup) (hq : q ∈ l) :
    ∀ t : KeyedTable ρ, (t.forEach l g).get? q.1 = (t.get? q.1).map (g q.2) := by
  induction l with
  | nil => cases hq
  | cons a l ih =>
      intro t
      rw [List.map_cons, List.nodup_cons] at hnd
      rw [forEach, List.foldl_cons, ← forEach]
      rcases List.mem_cons.mp hq with rfl | hq
      · -- visited now, and not again by the rest of the loop
        rw [get?_forEach_of_not_mem l g hnd.1, get?_update, if_pos rfl]
      · have hne : q.1 ≠ a.1 := fun e => hnd.1 (e ▸ List.mem_map_of_mem hq)
        rw [ih hnd.2 hq, get?_update, if_neg hne]

/-- A loop over the rows a table selects rewrites exactly these rows. -/
theorem get?_forEach_select (t : KeyedTable ρ) (p : ℕ → ρ → Bool) (g : ρ → ρ → ρ) (i : ℕ) :
    (t.forEach (t.select p) g).get? i
      = (t.get? i).map (fun r => if p i r then g r r else r) := by
  cases hr : t.get? i with
  | none =>
      have hi : i ∉ (t.select p).map Prod.fst := by
        intro hmem
        obtain ⟨q, hq, rfl⟩ := List.mem_map.mp hmem
        rw [(mem_select.mp hq).1] at hr
        cases hr
      rw [get?_forEach_of_not_mem _ g hi, hr]
      rfl
  | some r =>
      by_cases hp : p i r = true
      · have hmem : (i, r) ∈ t.select p := mem_select.mpr ⟨hr, hp⟩
        rw [get?_forEach_of_mem _ g (t.nodup_select p) hmem, hr]
        simp [hp]
      · have hi : i ∉ (t.select p).map Prod.fst := by
          intro hmem
          obtain ⟨q, hq, rfl⟩ := List.mem_map.mp hmem
          obtain ⟨hq1, hq2⟩ := mem_select.mp hq
          rw [hq1] at hr
          rw [Option.some.inj hr] at hq2
          exact hp hq2
        rw [get?_forEach_of_not_mem _ g hi, hr]
        simp [hp]

/-! ## Queries for one row -/

/-- A query that has a result for one identifier only. -/
theorem filterMap_rows_eq_singleton {β : Type*} {t : KeyedTable ρ} {i : ℕ} {r : ρ}
    {g : ℕ × ρ → Option β} {y : β} (hget : t.get? i = some r) (hy : g (i, r) = some y)
    (hother : ∀ q ∈ t.rows, q.1 ≠ i → g q = none) : t.rows.filterMap g = [y] := by
  have hgo : ∀ l : List (ℕ × ρ), (l.map Prod.fst).Nodup → (i, r) ∈ l →
      (∀ q ∈ l, q.1 ≠ i → g q = none) → l.filterMap g = [y] := by
    intro l
    induction l with
    | nil => exact fun _ hmem => absurd hmem List.not_mem_nil
    | cons q l ih =>
        intro hnodup hmem hother
        rw [List.map_cons, List.nodup_cons] at hnodup
        by_cases hq : q.1 = i
        · -- the row stands here, and nothing behind it has its identifier
          have heq : q = (i, r) := by
            rcases List.mem_cons.mp hmem with h | h
            · exact h.symm
            · exact absurd (List.mem_map.mpr ⟨(i, r), h, hq.symm⟩) hnodup.1
          have hrest : l.filterMap g = [] := by
            rw [List.filterMap_eq_nil_iff]
            intro p hp
            refine hother p (List.mem_cons_of_mem q hp) (fun hpi => hnodup.1 ?_)
            exact List.mem_map.mpr ⟨p, hp, hpi.trans hq.symm⟩
          rw [List.filterMap_cons, heq, hy, hrest]
        · have hl : (i, r) ∈ l := by
            rcases List.mem_cons.mp hmem with h | h
            · exact absurd (congrArg Prod.fst h).symm hq
            · exact h
          rw [List.filterMap_cons, hother q List.mem_cons_self hq]
          exact ih hnodup.2 hl (fun p hp => hother p (List.mem_cons_of_mem q hp))
  exact hgo t.rows t.nodup_keys (mem_rows_iff.mpr hget) hother

/-! ## Loops and rewrites as one rewrite -/

/-- Filtering a selection selects with both conditions. -/
theorem filter_select (t : KeyedTable ρ) (p r : ℕ → ρ → Bool) :
    (t.select p).filter (fun q => r q.1 q.2) = t.select (fun i x => p i x && r i x) := by
  rw [select, select, List.filter_filter]
  exact List.filter_congr (fun q _ => Bool.and_comm _ _)

theorem mem_keys_select {t : KeyedTable ρ} {p : ℕ → ρ → Bool} {i : ℕ} :
    i ∈ (t.select p).map Prod.fst ↔ ∃ r, t.get? i = some r ∧ p i r = true := by
  simp

/-- A selection is determined by the identifiers it selects: it lists them in
increasing order. -/
theorem keys_select_congr {t t' : KeyedTable ρ} {p p' : ℕ → ρ → Bool}
    (h : ∀ i, (∃ r, t.get? i = some r ∧ p i r = true) ↔ ∃ r, t'.get? i = some r ∧ p' i r = true) :
    (t.select p).map Prod.fst = (t'.select p').map Prod.fst := by
  have hsorted : ∀ (t : KeyedTable ρ) (p : ℕ → ρ → Bool),
      ((t.select p).map Prod.fst).Pairwise (· < ·) :=
    fun t p => t.ordered.sublist ((List.filter_sublist).map Prod.fst)
  have hperm : ((t.select p).map Prod.fst).Perm ((t'.select p').map Prod.fst) := by
    rw [List.perm_ext_iff_of_nodup (nodup_select _ _) (nodup_select _ _)]
    intro i
    rw [mem_keys_select, mem_keys_select]
    exact h i
  refine hperm.eq_of_pairwise ?_ (hsorted t p) (hsorted t' p')
  intro i j _ _ hij hji
  exact absurd hij (Nat.lt_asymm hji)

/-- Only the rows that are in the table matter for a rewrite. -/
theorem modify_congr {t : KeyedTable ρ} {p p' : ℕ → ρ → Bool} {f f' : ρ → ρ}
    (h : ∀ i r, t.get? i = some r → (if p i r then f r else r) = if p' i r then f' r else r) :
    t.modify p f = t.modify p' f' := by
  refine ext_get? (fun i => ?_) rfl
  rw [get?_modify, get?_modify]
  cases hr : t.get? i with
  | none => rfl
  | some r => exact congrArg some (h i r hr)

theorem modify_insert (t : KeyedTable ρ) (r : ρ) (p : ℕ → ρ → Bool) (f : ρ → ρ) :
    (t.insert r).modify p f = (t.modify p f).insert (if p t.next r then f r else r) := by
  refine ext_get? (fun i => ?_) rfl
  rw [get?_modify, get?_insert, get?_insert, get?_modify, next_modify]
  by_cases hi : i = t.next
  · simp [hi]
  · rw [if_neg hi, if_neg hi]

/-- A rewrite of the row that was just created changes what is created. -/
theorem update_insert_next (t : KeyedTable ρ) (r : ρ) (f : ρ → ρ) :
    (t.insert r).update t.next f = t.insert (f r) := by
  refine ext_get? (fun i => ?_) rfl
  rw [get?_update, get?_insert, get?_insert]
  by_cases hi : i = t.next <;> simp [hi]

theorem update_insert (t : KeyedTable ρ) (r : ρ) {i : ℕ} (f : ρ → ρ) (hi : i ≠ t.next) :
    (t.insert r).update i f = (t.update i f).insert r := by
  have hne : (t.next == i) = false := by simpa using Ne.symm hi
  rw [update, update, modify_insert, hne]
  rfl

/-- A loop over older rows does not see the row that was just created. -/
theorem forEach_insert (l : List (ℕ × ρ)) (g : ρ → ρ → ρ) (r : ρ) :
    ∀ t : KeyedTable ρ, (∀ q ∈ l, q.1 < t.next) →
      (t.insert r).forEach l g = (t.forEach l g).insert r := by
  induction l with
  | nil => exact fun t _ => rfl
  | cons q l ih =>
      intro t hl
      have hq : q.1 ≠ t.next := Nat.ne_of_lt (hl q List.mem_cons_self)
      rw [forEach, forEach, List.foldl_cons, List.foldl_cons, ← forEach, ← forEach,
        update_insert t r _ hq]
      exact ih _ (fun p hp => hl p (List.mem_cons_of_mem _ hp))

/-- A loop over the rows a table selects is one rewrite of the table. -/
theorem forEach_select (t : KeyedTable ρ) (p : ℕ → ρ → Bool) (g : ρ → ρ → ρ) :
    t.forEach (t.select p) g = t.modify p (fun r => g r r) := by
  refine ext_get? (fun i => ?_) (next_forEach _ _ _)
  rw [get?_forEach_select, get?_modify]

/-! ## Selections after an operation -/

theorem select_insert (t : KeyedTable ρ) (r : ρ) (p : ℕ → ρ → Bool) :
    (t.insert r).select p = t.select p ++ if p t.next r then [(t.next, r)] else [] := by
  rw [select, insert, List.filter_append, ← select]
  by_cases h : p t.next r = true <;> simp [h]

/-- A rewrite that does not change whether a row is selected rewrites the
selection in place. -/
theorem select_modify (t : KeyedTable ρ) (p s : ℕ → ρ → Bool) (f : ρ → ρ)
    (hs : ∀ i r, s i (f r) = s i r) :
    (t.modify p f).select s
      = (t.select s).map (fun q => (q.1, if p q.1 q.2 then f q.2 else q.2)) := by
  rw [select, select, modify, List.filter_map]
  congr 1
  apply List.filter_congr
  intro q _
  by_cases h : p q.1 q.2 = true <;> simp [h, hs]

end KeyedTable
