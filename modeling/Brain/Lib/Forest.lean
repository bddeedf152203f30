/-
Parent pointers.

`up a` is the element that `a` points at, if it points anywhere. An element is a
root if it does not, and `Root up a r` says that following the pointers from `a`
ends in the root `r`. The pointers form a forest when they end everywhere
(`Grounded`).

The one operation is `repoint`, which overwrites the pointer of one element. It
keeps a forest exactly if the new target does not lead back to the element
(`grounded_repoint_iff`). The last section is about pointers that stand for links:
`OneRoot` says that elements joined by links have one root, and when it is kept by a
link that overwrites a pointer is `oneRoot_repoint_iff`.
-/
import Mathlib.Logic.Function.Basic
import Mathlib.Logic.Relation
import Mathlib.Tactic

set_option autoImplicit false

namespace Forest

variable {α : Type*}

/-! ## Following pointers -/

/-- The element that `n` pointers lead to from `a`. -/
def ancestor (up : α → Option α) : ℕ → α → Option α
  | 0, a => some a
  | n + 1, a => (up a).bind (ancestor up n)

/-- The pointers lead from `a` to the root `r`. -/
def Root (up : α → Option α) (a r : α) : Prop :=
  (∃ n, ancestor up n a = some r) ∧ up r = none

/-- The pointers end everywhere. -/
def Grounded (up : α → Option α) : Prop := ∀ a, ∃ r, Root up a r

/-- The pointers lead from `a` to `b`. -/
def Leads (up : α → Option α) (a b : α) : Prop := ∃ n, ancestor up n a = some b

variable {up : α → Option α} {a b c r x y : α} {n m : ℕ}

@[simp] theorem ancestor_zero (a : α) : ancestor up 0 a = some a := rfl

theorem ancestor_succ (n : ℕ) (a : α) : ancestor up (n + 1) a = (up a).bind (ancestor up n) := rfl

theorem ancestor_succ_of_some (h : up a = some b) : ancestor up (n + 1) a = ancestor up n b := by
  rw [ancestor_succ, h, Option.bind_some]

theorem ancestor_succ_of_none (h : up a = none) : ancestor up (n + 1) a = none := by
  rw [ancestor_succ, h, Option.bind_none]

theorem ancestor_add (m n : ℕ) : ∀ a, ancestor up (m + n) a = (ancestor up m a).bind (ancestor up n) := by
  induction m with
  | zero => intro a; rw [Nat.zero_add, ancestor_zero, Option.bind_some]
  | succ m ih =>
      intro a
      rw [Nat.add_right_comm, ancestor_succ, ancestor_succ, Option.bind_assoc]
      exact congrArg _ (funext ih)

/-- The last pointer taken apart instead of the first. -/
theorem ancestor_succ' (n : ℕ) (a : α) : ancestor up (n + 1) a = (ancestor up n a).bind up := by
  rw [ancestor_add n 1]
  refine congrArg _ (funext fun b => ?_)
  cases h : up b with
  | none => exact ancestor_succ_of_none h
  | some c => exact ancestor_succ_of_some h

/-- A chain that is over stays over. -/
theorem ancestor_none_of_le (h : ancestor up n a = none) (hle : n ≤ m) : ancestor up m a = none := by
  obtain ⟨k, rfl⟩ := Nat.exists_eq_add_of_le hle
  rw [ancestor_add, h, Option.bind_none]

/-- A chain that has come to `b` goes on as the chain of `b`. -/
theorem ancestor_add_of_some (h : ancestor up n a = some b) (k : ℕ) :
    ancestor up (n + k) a = ancestor up k b := by
  rw [ancestor_add, h, Option.bind_some]

/-- More pointers lead where the pointers led. -/
theorem ancestor_mono {up' : α → Option α} (h : ∀ x y, up x = some y → up' x = some y) :
    ∀ a, ancestor up n a = some b → ancestor up' n a = some b := by
  induction n with
  | zero => exact fun _ hn => hn
  | succ n ih =>
      intro a hn
      obtain ⟨c, hc, hb⟩ := Option.bind_eq_some_iff.mp hn
      rw [ancestor_succ_of_some (h a c hc)]
      exact ih c hb

/-- Behind a root there is nothing. -/
theorem ancestor_none_of_root (hr : up r = none) (h : ancestor up n a = some r) (hlt : n < m) :
    ancestor up m a = none := by
  refine ancestor_none_of_le (n := n + 1) ?_ hlt
  rw [ancestor_succ', h, Option.bind_some, hr]

theorem root_self (h : up a = none) : Root up a a := ⟨⟨0, rfl⟩, h⟩

theorem Root.of_leads (h : Root up b r) (hab : Leads up a b) : Root up a r := by
  obtain ⟨⟨k, hk⟩, hr⟩ := h
  obtain ⟨n, hn⟩ := hab
  exact ⟨⟨n + k, by rw [ancestor_add_of_some hn, hk]⟩, hr⟩

theorem leads_of_up (h : up a = some b) : Leads up a b :=
  ⟨1, by rw [ancestor_succ_of_some h, ancestor_zero]⟩

/-- An element has one root. -/
theorem Root.unique (h : Root up a r) (h' : Root up a b) : r = b := by
  obtain ⟨⟨n, hn⟩, hr⟩ := h
  obtain ⟨⟨m, hm⟩, hb⟩ := h'
  rcases Nat.lt_trichotomy n m with hlt | rfl | hlt
  · rw [ancestor_none_of_root hr hn hlt] at hm
    cases hm
  · exact Option.some.inj (hn.symm.trans hm)
  · rw [ancestor_none_of_root hb hm hlt] at hn
    cases hn

/-- Pointers that end do not come back. -/
theorem Root.not_leads_back (h : Root up a r) (hab : up a = some b) : ¬ Leads up b a := by
  rintro ⟨n, hn⟩
  -- one round takes `n + 1` pointers, so every multiple of it leads back as well
  have hround : ∀ k, ancestor up (k * (n + 1)) a = some a := by
    intro k
    induction k with
    | zero => rw [Nat.zero_mul, ancestor_zero]
    | succ k ih => rw [Nat.succ_mul, ancestor_add_of_some ih, ancestor_succ_of_some hab, hn]
  obtain ⟨⟨m, hm⟩, hr⟩ := h
  have hover : ancestor up ((m + 1) * (n + 1)) a = none :=
    ancestor_none_of_root hr hm (Nat.lt_of_lt_of_le (Nat.lt_succ_self m)
      (Nat.le_mul_of_pos_right _ (Nat.succ_pos n)))
  rw [hround] at hover
  cases hover

theorem Grounded.not_leads_back (h : Grounded up) (hab : up a = some b) : ¬ Leads up b a := by
  obtain ⟨r, hr⟩ := h a
  exact hr.not_leads_back hab

/-- On pointers that end, an element comes at one place of a chain only. -/
theorem Grounded.ancestor_inj (h : Grounded up) (hn : ancestor up n a = some b)
    (hm : ancestor up m a = some b) : n = m := by
  have hlt : ∀ {n m : ℕ}, ancestor up n a = some b → ancestor up m a = some b → ¬ n < m := by
    intro n m hn hm hnm
    obtain ⟨k, rfl⟩ := Nat.exists_eq_add_of_lt hnm
    rw [Nat.add_assoc, ancestor_add_of_some hn] at hm
    cases hc : up b with
    | none =>
        rw [ancestor_succ_of_none hc] at hm
        cases hm
    | some c =>
        rw [ancestor_succ_of_some hc] at hm
        exact h.not_leads_back hc ⟨k, hm⟩
  have h1 := hlt hn hm
  have h2 := hlt hm hn
  omega

/-! ## Overwriting a pointer -/

variable [DecidableEq α]

/-- The pointer of `x` is overwritten with one to `y`. -/
def repoint (up : α → Option α) (x y : α) : α → Option α := Function.update up x (some y)

@[simp] theorem repoint_self (x y : α) : repoint up x y x = some y := Function.update_self ..

theorem repoint_of_ne (h : a ≠ x) : repoint up x y a = up a := Function.update_of_ne h ..

/-- A chain that does not come to `x` is what it was. -/
theorem ancestor_repoint (h : ∀ k < n, ancestor up k a ≠ some x) :
    ancestor (repoint up x y) n a = ancestor up n a := by
  induction n generalizing a with
  | zero => rfl
  | succ n ih =>
      have ha : a ≠ x := fun e => h 0 (Nat.succ_pos n) (congrArg some e)
      rw [ancestor_succ, ancestor_succ, repoint_of_ne ha]
      cases hb : up a with
      | none => rfl
      | some b =>
          rw [Option.bind_some, Option.bind_some]
          refine ih (fun k hk => ?_)
          have := h (k + 1) (Nat.succ_lt_succ hk)
          rwa [ancestor_succ_of_some hb] at this

/-- Nor is its root. -/
theorem Root.repoint_of_not_leads (h : Root up a r) (hx : ¬ Leads up a x) :
    Root (repoint up x y) a r := by
  obtain ⟨⟨n, hn⟩, hr⟩ := h
  have hne : r ≠ x := fun e => hx ⟨n, e ▸ hn⟩
  refine ⟨⟨n, ?_⟩, by rw [repoint_of_ne hne, hr]⟩
  rw [ancestor_repoint (fun k _ hk => hx ⟨k, hk⟩), hn]

/-- What led to `x` still does. -/
theorem Leads.repoint (h : Leads up a x) : Leads (repoint up x y) a x := by
  classical
  -- the first visit: before it nothing has changed
  let n := Nat.find h
  have hn : ancestor up n a = some x := Nat.find_spec h
  refine ⟨n, ?_⟩
  rw [ancestor_repoint (fun k hk => Nat.find_min h hk), hn]

/-- What leads to `x` gets the root of `y`. -/
theorem Root.repoint_of_leads (h : Root up y r) (hy : ¬ Leads up y x) (ha : Leads up a x) :
    Root (Forest.repoint up x y) a r := by
  have hyr : Root (Forest.repoint up x y) y r := h.repoint_of_not_leads hy
  exact (hyr.of_leads (leads_of_up (repoint_self x y))).of_leads ha.repoint

/-- **Overwriting a pointer keeps a forest** exactly if the new target does not lead
back. -/
theorem grounded_repoint_iff (h : Grounded up) :
    Grounded (repoint up x y) ↔ ¬ Leads up y x := by
  constructor
  · intro h' hyx
    exact h'.not_leads_back (repoint_self x y) hyx.repoint
  · intro hyx a
    by_cases hax : Leads up a x
    · obtain ⟨r, hr⟩ := h y
      exact ⟨r, hr.repoint_of_leads hyx hax⟩
    · obtain ⟨r, hr⟩ := h a
      exact ⟨r, hr.repoint_of_not_leads hax⟩

/-! ## Pointers that stand for links -/

/-- `a` and `b` are joined by a chain of links, followed in either direction. -/
def Joined (links : List (α × α)) : α → α → Prop :=
  Relation.TransGen (fun a b => (a, b) ∈ links ∨ (b, a) ∈ links)

/-- `a` and `b` have one root. -/
def SameRoot (up : α → Option α) (a b : α) : Prop := ∃ r, Root up a r ∧ Root up b r

/-- What the links join has one root. -/
def OneRoot (up : α → Option α) (links : List (α × α)) : Prop :=
  ∀ a b, Joined links a b → SameRoot up a b

/-- The pointers come from links. -/
def Linked (up : α → Option α) (links : List (α × α)) : Prop :=
  ∀ a b, up a = some b → (b, a) ∈ links

variable {links : List (α × α)}

omit [DecidableEq α] in
theorem SameRoot.symm (h : SameRoot up a b) : SameRoot up b a := by
  obtain ⟨r, ha, hb⟩ := h
  exact ⟨r, hb, ha⟩

omit [DecidableEq α] in
theorem SameRoot.trans (hab : SameRoot up a b) (hbc : SameRoot up b c) : SameRoot up a c := by
  obtain ⟨r, ha, hb⟩ := hab
  obtain ⟨q, hb', hc⟩ := hbc
  exact ⟨r, ha, hb.unique hb' ▸ hc⟩

omit [DecidableEq α] in
theorem joined_of_mem (h : (a, b) ∈ links) : Joined links a b := .single (Or.inl h)

omit [DecidableEq α] in
theorem Joined.symm (h : Joined links a b) : Joined links b a := by
  induction h with
  | single hab => exact .single hab.symm
  | tail _ hbc ih => exact .head hbc.symm ih

omit [DecidableEq α] in
theorem Joined.mono {links' : List (α × α)} (h : Joined links a b) (hsub : links ⊆ links') :
    Joined links' a b := by
  induction h with
  | single hab => exact .single (hab.imp (fun h => hsub h) (fun h => hsub h))
  | tail _ hbc ih => exact ih.tail (hbc.imp (fun h => hsub h) (fun h => hsub h))

omit [DecidableEq α] in
/-- It is enough to look at one link at a time. -/
theorem oneRoot_of_links (h : ∀ a b, (a, b) ∈ links → SameRoot up a b) : OneRoot up links := by
  have hlink : ∀ a b, (a, b) ∈ links ∨ (b, a) ∈ links → SameRoot up a b :=
    fun a b hab => hab.elim (h a b) (fun hba => (h b a hba).symm)
  intro a b hab
  induction hab with
  | single hab => exact hlink _ _ hab
  | tail _ hbc ih => exact ih.trans (hlink _ _ hbc)

omit [DecidableEq α] in
/-- Pointers that come from links end where these have one root. -/
theorem OneRoot.grounded (h : OneRoot up links) (hl : Linked up links) : Grounded up := by
  intro a
  cases ha : up a with
  | none => exact ⟨a, root_self ha⟩
  | some b =>
      obtain ⟨r, _, hr⟩ := h b a (joined_of_mem (hl a b ha))
      exact ⟨r, hr⟩

/-- Overwriting the pointer of a root, or with a target of the same root, joins the
classes of both and splits none. -/
theorem oneRoot_repoint (h : OneRoot up links) (hg : Grounded up) (hy : ¬ Leads up y x)
    (hx : up x = none ∨ SameRoot up x y) : OneRoot (repoint up x y) (links ++ [(y, x)]) := by
  obtain ⟨ry, hry⟩ := hg y
  have hnew : Root (repoint up x y) y ry := hry.repoint_of_not_leads hy
  have hxnew : Root (repoint up x y) x ry := hnew.of_leads (leads_of_up (repoint_self x y))
  apply oneRoot_of_links
  intro a b hab
  rcases List.mem_append.mp hab with hab | hab
  · obtain ⟨r, har, hbr⟩ := h a b (joined_of_mem hab)
    -- all elements of one root are moved together, or stay
    have hmove : ∀ c, Root up c r →
        Root (repoint up x y) c (if r = x then ry else r) := by
      intro c hc
      by_cases hcx : Leads up c x
      · have hcy := hry.repoint_of_leads hy hcx
        rcases hx with hroot | ⟨q, hxq, hyq⟩
        · rw [if_pos (hc.unique ((root_self hroot).of_leads hcx))]
          exact hcy
        · -- `c`, `x` and `y` have one root already
          have hrq : r = q := hc.unique (hxq.of_leads hcx)
          have hqy : q = ry := hyq.unique hry
          split
          · exact hcy
          · rw [hrq, hqy]
            exact hcy
      · have hne : r ≠ x := fun e => hcx (e ▸ hc.1)
        rw [if_neg hne]
        exact hc.repoint_of_not_leads hcx
    exact ⟨_, hmove a har, hmove b hbr⟩
  · obtain ⟨rfl, rfl⟩ := Prod.mk.injEq .. ▸ List.mem_singleton.mp hab
    exact ⟨ry, hnew, hxnew⟩

/-- **When a link keeps one root for what is joined**: the loser is a root itself, or
resolves where the survivor does, and the survivor does not lead back to it. -/
theorem oneRoot_repoint_iff (h : OneRoot up links) (hl : Linked up links) :
    OneRoot (repoint up x y) (links ++ [(y, x)]) ↔
      ¬ Leads up y x ∧ (up x = none ∨ SameRoot up x y) := by
  have hg := h.grounded hl
  constructor
  · intro h'
    have hmem : (y, x) ∈ links ++ [(y, x)] := by simp
    obtain ⟨r, hyr, hxr⟩ := h' y x (joined_of_mem hmem)
    have hy : ¬ Leads up y x := by
      intro hyx
      exact hxr.not_leads_back (repoint_self x y) hyx.repoint
    refine ⟨hy, ?_⟩
    cases hp : up x with
    | none => exact Or.inl rfl
    | some p =>
        -- the old survivor `p` keeps its root, and is still joined to `x`
        obtain ⟨rp, hrp⟩ := hg p
        obtain ⟨ry, hry⟩ := hg y
        have hpx : ¬ Leads up p x := hg.not_leads_back hp
        obtain ⟨q, hpq, hxq⟩ := h' p x
          ((joined_of_mem (hl x p hp)).mono (List.subset_append_left _ _))
        have h1 : rp = q := (hrp.repoint_of_not_leads hpx).unique hpq
        have h2 : ry = r := (hry.repoint_of_not_leads hy).unique hyr
        have h3 : q = r := hxq.unique hxr
        refine Or.inr ⟨rp, hrp.of_leads (leads_of_up hp), ?_⟩
        rw [h1, h3, ← h2]
        exact hry
  · rintro ⟨hy, hx⟩
    exact oneRoot_repoint h hg hy hx

end Forest
