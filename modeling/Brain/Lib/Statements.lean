/-
Statements that a program runs one after the other, outside a transaction.

A failure after `n` of them leaves what the first `n` have written, so a program
is the list of its statements, and its interrupted executions are the prefixes of
that list. For a list of updates that visits no row twice the table is known row by
row at every point (`get?_execAll_updates_of_mem`); what all updates of the list keep
of a row is kept whatever it visits (`rel_get?_execAll_updates`).
-/
import Brain.Lib.Table

set_option autoImplicit false

namespace KeyedTable

variable {ρ : Type*}

/-- A statement that writes to one table. -/
inductive Statement (ρ : Type*) where
  /-- `CREATE`, under a fresh identifier. -/
  | create (r : ρ)
  /-- `UPDATE` of the row under one identifier. -/
  | update (i : ℕ) (f : ρ → ρ)
  /-- `UPDATE ... WHERE`. -/
  | updateWhere (p : ℕ → ρ → Bool) (f : ρ → ρ)

/-- The table after a statement. -/
def Statement.exec (t : KeyedTable ρ) : Statement ρ → KeyedTable ρ
  | .create r => t.insert r
  | .update i f => t.update i f
  | .updateWhere p f => t.modify p f

/-- The table after a list of statements. -/
def execAll (t : KeyedTable ρ) (l : List (Statement ρ)) : KeyedTable ρ :=
  l.foldl Statement.exec t

/-- The updates that a list of identifiers and rewrites stands for. -/
abbrev updates (l : List (ℕ × (ρ → ρ))) : List (Statement ρ) :=
  l.map (fun u => .update u.1 u.2)

@[simp] theorem execAll_nil (t : KeyedTable ρ) : t.execAll [] = t := rfl

@[simp] theorem execAll_cons (t : KeyedTable ρ) (c : Statement ρ) (l : List (Statement ρ)) :
    t.execAll (c :: l) = (c.exec t).execAll l := rfl

theorem execAll_append (t : KeyedTable ρ) (l l' : List (Statement ρ)) :
    t.execAll (l ++ l') = (t.execAll l).execAll l' := List.foldl_append

/-- A loop over selected rows is a list of updates. -/
theorem forEach_eq_execAll (l : List (ℕ × ρ)) (g : ρ → ρ → ρ) :
    ∀ t : KeyedTable ρ, t.forEach l g = t.execAll (updates (l.map (fun q => (q.1, g q.2)))) := by
  induction l with
  | nil => exact fun t => rfl
  | cons q l ih => exact fun t => ih (t.update q.1 (g q.2))

/-! ## Creates only -/

/-- **The table after some creates**: the old rows, and the new ones in their order
under the fresh identifiers. -/
theorem get?_execAll_create_eq {l : List ρ} :
    ∀ (t : KeyedTable ρ) (i : ℕ),
      (t.execAll (l.map .create)).get? i = if i < t.next then t.get? i else l[i - t.next]? := by
  induction l with
  | nil =>
      intro t i
      rw [List.map_nil, execAll_nil, List.getElem?_nil]
      split
      · rfl
      · next hi =>
          cases h : t.get? i with
          | none => rfl
          | some r => exact absurd (get?_lt_next h) hi
  | cons a l ih =>
      intro t i
      have hcons : t.execAll ((a :: l).map .create) = (t.insert a).execAll (l.map .create) := rfl
      rw [hcons, ih, next_insert, get?_insert]
      rcases Nat.lt_trichotomy i t.next with hi | hi | hi
      · rw [if_pos (Nat.lt_succ_of_lt hi), if_neg (Nat.ne_of_lt hi), if_pos hi]
      · rw [if_pos (by omega), if_pos hi, if_neg (by omega), hi, Nat.sub_self]
        rfl
      · rw [if_neg (by omega), if_neg (by omega),
          show i - t.next = i - (t.next + 1) + 1 by omega, List.getElem?_cons_succ]

/-- After some creates the old rows are where they were, and every new row is one
of those that were created. -/
theorem get?_execAll_create {l : List ρ} (t : KeyedTable ρ) {i : ℕ} {r : ρ}
    (h : (t.execAll (l.map .create)).get? i = some r) :
    t.get? i = some r ∨ (t.next ≤ i ∧ l[i - t.next]? = some r) := by
  rw [get?_execAll_create_eq] at h
  split at h
  · exact Or.inl h
  · next hi => exact Or.inr ⟨Nat.not_lt.mp hi, h⟩

theorem get?_execAll_create_of_get? {l : List ρ} (t : KeyedTable ρ) {i : ℕ} {r : ρ}
    (h : t.get? i = some r) : (t.execAll (l.map .create)).get? i = some r := by
  rw [get?_execAll_create_eq, if_pos (get?_lt_next h), h]

theorem next_execAll_updates (l : List (ℕ × (ρ → ρ))) :
    ∀ t : KeyedTable ρ, (t.execAll (updates l)).next = t.next := by
  induction l with
  | nil => exact fun t => rfl
  | cons u l ih => exact fun t => ih (t.update u.1 u.2)

/-- A row that is not visited stays as it is. -/
theorem get?_execAll_updates_of_not_mem {l : List (ℕ × (ρ → ρ))} {i : ℕ}
    (hi : i ∉ l.map Prod.fst) : ∀ t : KeyedTable ρ, (t.execAll (updates l)).get? i = t.get? i := by
  induction l with
  | nil => exact fun t => rfl
  | cons u l ih =>
      intro t
      rw [List.map_cons, List.mem_cons, not_or] at hi
      rw [show t.execAll (updates (u :: l)) = (t.update u.1 u.2).execAll (updates l) from rfl,
        ih hi.2, get?_update, if_neg hi.1]

/-- A row that is visited once is rewritten once. -/
theorem get?_execAll_updates_of_mem {l : List (ℕ × (ρ → ρ))} {u : ℕ × (ρ → ρ)}
    (hnd : (l.map Prod.fst).Nodup) (hu : u ∈ l) :
    ∀ t : KeyedTable ρ, (t.execAll (updates l)).get? u.1 = (t.get? u.1).map u.2 := by
  induction l with
  | nil => cases hu
  | cons a l ih =>
      intro t
      rw [List.map_cons, List.nodup_cons] at hnd
      rw [show t.execAll (updates (a :: l)) = (t.update a.1 a.2).execAll (updates l) from rfl]
      rcases List.mem_cons.mp hu with rfl | hu
      · rw [get?_execAll_updates_of_not_mem hnd.1, get?_update, if_pos rfl]
      · have hne : u.1 ≠ a.1 := fun e => hnd.1 (e ▸ List.mem_map_of_mem hu)
        rw [ih hnd.2 hu, get?_update, if_neg hne]

/-- Updates do not create rows. -/
theorem exists_get?_of_execAll_updates {i : ℕ} {r' : ρ} :
    ∀ {l : List (ℕ × (ρ → ρ))} {t : KeyedTable ρ}, (t.execAll (updates l)).get? i = some r' →
      ∃ r, t.get? i = some r := by
  intro l
  induction l with
  | nil => exact fun h => ⟨r', h⟩
  | cons u l ih =>
      intro t h
      obtain ⟨r, hr⟩ := ih (t := t.update u.1 u.2) h
      rw [get?_update] at hr
      by_cases hi : i = u.1
      · rw [if_pos hi, Option.map_eq_some_iff] at hr
        obtain ⟨q, hq, _⟩ := hr
        exact ⟨q, hq⟩
      · rw [if_neg hi] at hr
        exact ⟨r, hr⟩

/-- A relation that every single update establishes holds between what a row was and
what it is. -/
theorem rel_get?_execAll_updates {R : ρ → ρ → Prop} (hrefl : ∀ r, R r r)
    (htrans : ∀ a b c, R a b → R b c → R a c) {l : List (ℕ × (ρ → ρ))}
    (hl : ∀ u ∈ l, ∀ r, R r (u.2 r)) (t : KeyedTable ρ) (i : ℕ) :
    Option.Rel R (t.get? i) ((t.execAll (updates l)).get? i) := by
  induction l generalizing t with
  | nil =>
      show Option.Rel R (t.get? i) (t.get? i)
      cases t.get? i with
      | none => exact Option.Rel.none
      | some r => exact Option.Rel.some (hrefl r)
  | cons u l ih =>
      have hrest := ih (fun v hv => hl v (List.mem_cons_of_mem _ hv)) (t.update u.1 u.2)
      rw [show t.execAll (updates (u :: l)) = (t.update u.1 u.2).execAll (updates l) from rfl]
      generalize ((t.update u.1 u.2).execAll (updates l)).get? i = last at hrest ⊢
      rw [get?_update] at hrest
      by_cases hi : i = u.1
      · rw [if_pos hi] at hrest
        cases hr : t.get? i with
        | none =>
            rw [hr] at hrest
            exact hrest
        | some r =>
            rw [hr, Option.map_some] at hrest
            cases hrest with
            | some hlast =>
                exact Option.Rel.some (htrans _ _ _ (hl u List.mem_cons_self r) hlast)
      · rw [if_neg hi] at hrest
        exact hrest

/-! ## Prefixes -/

/-- What runs after `a` has not run before `a` has. -/
theorem mem_take_of_mem_take_append {α : Type*} {l m : List α} {a b : α} {n : ℕ} (hl : b ∉ l)
    (hb : b ∈ (l ++ a :: m).take n) : a ∈ (l ++ a :: m).take n := by
  rw [List.take_append, List.mem_append] at hb ⊢
  rcases hb with hb | hb
  · exact absurd (List.mem_of_mem_take hb) hl
  · right
    cases hk : n - l.length with
    | zero =>
        rw [hk, List.take_zero] at hb
        cases hb
    | succ k => exact List.mem_cons_self

/-- Where every element makes one statement, prefixes correspond. -/
theorem take_filterMap_of_isSome {α β : Type*} {f : α → Option β} {l : List α}
    (h : ∀ x ∈ l, (f x).isSome = true) (n : ℕ) :
    (l.filterMap f).take n = (l.take n).filterMap f := by
  induction l generalizing n with
  | nil => rw [List.filterMap_nil, List.take_nil, List.take_nil, List.filterMap_nil]
  | cons a l ih =>
      obtain ⟨b, hb⟩ := Option.isSome_iff_exists.mp (h a List.mem_cons_self)
      cases n with
      | zero => rfl
      | succ n =>
          rw [List.filterMap_cons_some hb, List.take_succ_cons, List.take_succ_cons,
            List.filterMap_cons_some hb, ih (fun x hx => h x (List.mem_cons_of_mem _ hx))]

end KeyedTable
