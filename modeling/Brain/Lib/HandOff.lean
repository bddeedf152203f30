/-
A pool of resources that are handed from one holder to the next.

A client that finds nothing idle waits in a queue; what is given back goes to the first one of
the queue, past the idle resources, and only lies idle if nobody waits. `Sound` is what every
operation keeps: no resource has two holders or is held and idle, and nothing lies idle while
somebody waits. The operations move resources around and neither make nor lose one
(`member_acquire`, `member_giveBack`, `member_giveUp`); only `swap` puts a new one in the place
of another (`member_swap`), and `discard` and `retire` let one go that is held or lies idle.
-/
import Mathlib.Tactic

set_option autoImplicit false

namespace HandOff

/-- The state of a pool; `held` is what each client holds. -/
structure Pool (ρ κ : Type*) where
  idle : List ρ
  waiters : List κ
  held : κ → Option ρ

namespace Pool

variable {ρ κ : Type*} [DecidableEq κ]

/-! ## Operations -/

/-- Take what is idle, or wait. -/
def acquire (p : Pool ρ κ) (k : κ) : Pool ρ κ :=
  match p.idle with
  | free :: idle => { p with idle := idle, held := Function.update p.held k (some free) }
  | [] => { p with waiters := p.waiters ++ [k] }

/-- Hand what `k` holds to the first one that waits, or lay it down. -/
def giveBack (p : Pool ρ κ) (k : κ) : Pool ρ κ :=
  match p.held k with
  | none => p
  | some r =>
      let held := Function.update p.held k none
      match p.waiters with
      | next :: waiters =>
          { p with waiters := waiters, held := Function.update held next (some r) }
      | [] => { p with idle := p.idle ++ [r], held := held }

/-- Wait no longer. -/
def giveUp (p : Pool ρ κ) (k : κ) : Pool ρ κ := { p with waiters := p.waiters.erase k }

/-- Hold another resource instead. -/
def swap (p : Pool ρ κ) (k : κ) (r : ρ) : Pool ρ κ :=
  { p with held := Function.update p.held k (some r) }

/-- Let what `k` holds go, past those who wait. -/
def discard (p : Pool ρ κ) (k : κ) : Pool ρ κ :=
  { p with held := Function.update p.held k none }

/-- Let an idle resource go. -/
def retire [DecidableEq ρ] (p : Pool ρ κ) (r : ρ) : Pool ρ κ := { p with idle := p.idle.erase r }

/-! ## What they keep -/

/-- The resource is idle, or somebody holds it. -/
def Member (p : Pool ρ κ) (r : ρ) : Prop := r ∈ p.idle ∨ ∃ k, p.held k = some r

structure Sound (p : Pool ρ κ) : Prop where
  idle_nodup : p.idle.Nodup
  waiters_nodup : p.waiters.Nodup
  /-- Nothing lies idle while somebody waits. -/
  idle_of_waiters : p.waiters ≠ [] → p.idle = []
  /-- Who waits holds nothing. -/
  held_of_waiter : ∀ k ∈ p.waiters, p.held k = none
  exclusive : ∀ k k' r, p.held k = some r → p.held k' = some r → k = k'
  not_idle : ∀ k r, p.held k = some r → r ∉ p.idle

variable {p : Pool ρ κ} {k k' : κ} {r r' : ρ}

theorem held_update {held : κ → Option ρ} {o : Option ρ} (h : Function.update held k o k' = some r) :
    k' = k ∧ o = some r ∨ k' ≠ k ∧ held k' = some r := by
  by_cases hk : k' = k
  · subst hk
    rw [Function.update_self] at h
    exact Or.inl ⟨rfl, h⟩
  · rw [Function.update_of_ne hk] at h
    exact Or.inr ⟨hk, h⟩

theorem acquire_of_cons {free : ρ} {idle : List ρ} (h : p.idle = free :: idle) :
    p.acquire k = ⟨idle, p.waiters, Function.update p.held k (some free)⟩ := by
  rw [acquire, h]

theorem acquire_of_nil (h : p.idle = []) :
    p.acquire k = ⟨p.idle, p.waiters ++ [k], p.held⟩ := by
  rw [acquire, h]

theorem giveBack_of_none (h : p.held k = none) : p.giveBack k = p := by
  rw [giveBack, h]

theorem giveBack_of_cons {next : κ} {waiters : List κ} (h : p.held k = some r)
    (hwaiters : p.waiters = next :: waiters) :
    p.giveBack k = ⟨p.idle, waiters,
      Function.update (Function.update p.held k none) next (some r)⟩ := by
  rw [giveBack, h, hwaiters]

theorem giveBack_of_nil (h : p.held k = some r) (hwaiters : p.waiters = []) :
    p.giveBack k = ⟨p.idle ++ [r], p.waiters, Function.update p.held k none⟩ := by
  rw [giveBack, h, hwaiters]

theorem Sound.acquire (h : p.Sound) (hwait : k ∉ p.waiters) (hheld : p.held k = none) :
    (p.acquire k).Sound := by
  cases hidle : p.idle with
  | nil =>
      rw [acquire_of_nil hidle]
      refine ⟨h.idle_nodup, ?_, fun _ => hidle, fun j hj => ?_, h.exclusive, h.not_idle⟩
      · refine List.nodup_append.mpr ⟨h.waiters_nodup, List.nodup_singleton k, ?_⟩
        intro a ha b hb hab
        rw [List.mem_singleton.mp hb] at hab
        exact hwait (hab ▸ ha)
      · rcases List.mem_append.mp hj with hj | hj
        · exact h.held_of_waiter j hj
        · rw [List.mem_singleton.mp hj, hheld]
  | cons free idle =>
      have hnowaiter : p.waiters = [] := by
        by_contra hne
        rw [h.idle_of_waiters hne] at hidle
        cases hidle
      have hnodup := List.nodup_cons.mp (hidle ▸ h.idle_nodup)
      have hother : ∀ j r, p.held j = some r → r ∉ free :: idle :=
        fun j r hj => hidle ▸ h.not_idle j r hj
      rw [acquire_of_cons hidle]
      refine ⟨hnodup.2, h.waiters_nodup, fun hne => absurd hnowaiter hne, fun j hj => ?_,
        fun j j' r hj hj' => ?_, fun j r hj => ?_⟩
      · rw [hnowaiter] at hj
        exact absurd hj List.not_mem_nil
      · rcases held_update hj with ⟨rfl, hfree⟩ | ⟨_, hold⟩
        · rcases held_update hj' with ⟨rfl, _⟩ | ⟨_, hold'⟩
          · rfl
          · exact absurd (Option.some.inj hfree ▸ List.mem_cons_self) (hother j' r hold')
        · rcases held_update hj' with ⟨rfl, hfree⟩ | ⟨_, hold'⟩
          · exact absurd (Option.some.inj hfree ▸ List.mem_cons_self) (hother j r hold)
          · exact h.exclusive j j' r hold hold'
      · rcases held_update hj with ⟨rfl, hfree⟩ | ⟨_, hj⟩
        · exact Option.some.inj hfree ▸ hnodup.1
        · exact fun hmem => hother j r hj (List.mem_cons_of_mem _ hmem)

/-- Without `k`, the others hold what they held, and that is not what `k` held. -/
theorem Sound.of_held_without (h : p.Sound) (hheld : p.held k = some r) {j : κ}
    (hj : Function.update p.held k none j = some r') : p.held j = some r' ∧ r' ≠ r := by
  rcases held_update hj with ⟨_, hnone⟩ | ⟨hne, hj⟩
  · cases hnone
  · exact ⟨hj, fun heq => hne (h.exclusive j k r (heq ▸ hj) hheld)⟩

/-- What nobody waits for lies idle. -/
theorem Sound.giveBack_idle (h : p.Sound) (hheld : p.held k = some r) (hwaiters : p.waiters = []) :
    (p.giveBack k).Sound := by
  rw [giveBack_of_nil hheld hwaiters]
  refine ⟨?_, h.waiters_nodup, fun hne => absurd hwaiters hne, fun j hj => ?_,
    fun j j' r' hj hj' => ?_, fun j r' hj => ?_⟩
  · refine List.nodup_append.mpr ⟨h.idle_nodup, List.nodup_singleton r, ?_⟩
    intro a ha b hb hab
    rw [List.mem_singleton.mp hb] at hab
    exact h.not_idle k r hheld (hab ▸ ha)
  · rw [hwaiters] at hj
    exact absurd hj List.not_mem_nil
  · exact h.exclusive j j' r' (h.of_held_without hheld hj).1 (h.of_held_without hheld hj').1
  · obtain ⟨hj, hne⟩ := h.of_held_without hheld hj
    intro hmem
    rcases List.mem_append.mp hmem with hmem | hmem
    · exact h.not_idle j r' hj hmem
    · exact hne (List.mem_singleton.mp hmem)

/-- What somebody waits for goes to the first one, who held nothing. -/
theorem Sound.giveBack_next (h : p.Sound) {next : κ} {waiters : List κ}
    (hheld : p.held k = some r) (hwaiters : p.waiters = next :: waiters) :
    (p.giveBack k).Sound := by
  have hnodup := List.nodup_cons.mp (hwaiters ▸ h.waiters_nodup)
  have hidle : p.idle = [] := h.idle_of_waiters (by rw [hwaiters]; exact List.cons_ne_nil _ _)
  rw [giveBack_of_cons hheld hwaiters]
  refine ⟨h.idle_nodup, hnodup.2, fun _ => hidle, fun j hj => ?_,
    fun j j' r' hj hj' => ?_, fun j r' _ => ?_⟩
  · have hjwait : j ∈ p.waiters := hwaiters ▸ List.mem_cons_of_mem _ hj
    have hjnext : j ≠ next := fun heq => hnodup.1 (heq ▸ hj)
    have hjk : j ≠ k := by
      intro heq
      rw [heq] at hjwait
      rw [h.held_of_waiter k hjwait] at hheld
      cases hheld
    show Function.update (Function.update p.held k none) next (some r) j = none
    rw [Function.update_of_ne hjnext, Function.update_of_ne hjk]
    exact h.held_of_waiter j hjwait
  · rcases held_update hj with ⟨rfl, hr⟩ | ⟨_, hold⟩
    · rcases held_update hj' with ⟨rfl, _⟩ | ⟨_, hold'⟩
      · rfl
      · exact absurd (Option.some.inj hr).symm (h.of_held_without hheld hold').2
    · rcases held_update hj' with ⟨rfl, hr⟩ | ⟨_, hold'⟩
      · exact absurd (Option.some.inj hr).symm (h.of_held_without hheld hold).2
      · exact h.exclusive j j' r' (h.of_held_without hheld hold).1
          (h.of_held_without hheld hold').1
  · rw [hidle]
    exact List.not_mem_nil

theorem Sound.giveBack (h : p.Sound) : (p.giveBack k).Sound := by
  cases hheld : p.held k with
  | none =>
      rw [giveBack_of_none hheld]
      exact h
  | some r =>
      cases hwaiters : p.waiters with
      | nil => exact h.giveBack_idle hheld hwaiters
      | cons next waiters => exact h.giveBack_next hheld hwaiters

theorem Sound.giveUp (h : p.Sound) : (p.giveUp k).Sound := by
  refine ⟨h.idle_nodup, h.waiters_nodup.erase k, fun hne => ?_, fun j hj => ?_, h.exclusive,
    h.not_idle⟩
  · apply h.idle_of_waiters
    intro hnil
    apply hne
    show p.waiters.erase k = []
    rw [hnil]
    rfl
  · exact h.held_of_waiter j (List.mem_of_mem_erase hj)

/-- The new resource is not in the pool yet. -/
theorem Sound.swap (h : p.Sound) (hheld : p.held k = some r) (hnew : ¬ p.Member r') :
    (p.swap k r').Sound := by
  refine ⟨h.idle_nodup, h.waiters_nodup, h.idle_of_waiters, fun j hj => ?_,
    fun j j' q hj hj' => ?_, fun j q hj => ?_⟩
  · have hjk : j ≠ k := by
      intro heq
      rw [heq] at hj
      rw [h.held_of_waiter k hj] at hheld
      cases hheld
    show Function.update p.held k (some r') j = none
    rw [Function.update_of_ne hjk]
    exact h.held_of_waiter j hj
  · rcases held_update hj with ⟨rfl, hq⟩ | ⟨_, hold⟩
    · rcases held_update hj' with ⟨rfl, _⟩ | ⟨_, hold'⟩
      · rfl
      · exact absurd (Or.inr ⟨j', Option.some.inj hq ▸ hold'⟩) hnew
    · rcases held_update hj' with ⟨rfl, hq⟩ | ⟨_, hold'⟩
      · exact absurd (Or.inr ⟨j, Option.some.inj hq ▸ hold⟩) hnew
      · exact h.exclusive j j' q hold hold'
  · rcases held_update hj with ⟨rfl, hq⟩ | ⟨_, hj⟩
    · exact fun hmem => hnew (Or.inl (Option.some.inj hq ▸ hmem))
    · exact h.not_idle j q hj

theorem of_held_discard {j : κ} (h : (p.discard k).held j = some r) :
    j ≠ k ∧ p.held j = some r := by
  rcases held_update h with ⟨_, hnone⟩ | hold
  · cases hnone
  · exact hold

theorem Sound.discard (h : p.Sound) : (p.discard k).Sound := by
  refine ⟨h.idle_nodup, h.waiters_nodup, h.idle_of_waiters, fun j hj => ?_,
    fun j j' r hj hj' => h.exclusive j j' r (of_held_discard hj).2 (of_held_discard hj').2,
    fun j r hj => h.not_idle j r (of_held_discard hj).2⟩
  by_contra hne
  obtain ⟨r, hr⟩ := Option.ne_none_iff_exists'.mp hne
  have hnone := h.held_of_waiter j hj
  rw [(of_held_discard hr).2] at hnone
  cases hnone

omit [DecidableEq κ] in
theorem Sound.retire [DecidableEq ρ] (h : p.Sound) : (p.retire r).Sound := by
  refine ⟨h.idle_nodup.erase r, h.waiters_nodup, fun hne => ?_, h.held_of_waiter, h.exclusive,
    fun j q hj hmem => h.not_idle j q hj (List.mem_of_mem_erase hmem)⟩
  show p.idle.erase r = []
  rw [h.idle_of_waiters hne]
  rfl

/-! ## Who is concerned -/

theorem of_held_acquire {j : κ} (h : (p.acquire k).held j = some r) :
    j = k ∨ p.held j = some r := by
  cases hidle : p.idle with
  | nil =>
      rw [acquire_of_nil hidle] at h
      exact Or.inr h
  | cons free idle =>
      rw [acquire_of_cons hidle] at h
      rcases held_update h with ⟨rfl, _⟩ | ⟨_, hold⟩
      · exact Or.inl rfl
      · exact Or.inr hold

theorem of_mem_waiters_acquire {j : κ} (h : j ∈ (p.acquire k).waiters) :
    j = k ∨ j ∈ p.waiters := by
  cases hidle : p.idle with
  | nil =>
      rw [acquire_of_nil hidle] at h
      rcases List.mem_append.mp h with hold | hnew
      · exact Or.inr hold
      · exact Or.inl (List.mem_singleton.mp hnew)
  | cons free idle =>
      rw [acquire_of_cons hidle] at h
      exact Or.inr h

/-- After giving back, a client holds what it held, or has waited. -/
theorem of_held_giveBack {j : κ} (h : (p.giveBack k).held j = some r) :
    p.held j = some r ∨ j ∈ p.waiters := by
  cases hheld : p.held k with
  | none =>
      rw [giveBack_of_none hheld] at h
      exact Or.inl h
  | some q =>
      have hkept : ∀ j, Function.update p.held k none j = some r → p.held j = some r := by
        intro j hj
        rcases held_update hj with ⟨_, hnone⟩ | ⟨_, hold⟩
        · cases hnone
        · exact hold
      cases hwaiters : p.waiters with
      | nil =>
          rw [giveBack_of_nil hheld hwaiters] at h
          exact Or.inl (hkept j h)
      | cons next waiters =>
          rw [giveBack_of_cons hheld hwaiters] at h
          rcases held_update h with ⟨rfl, _⟩ | ⟨_, hold⟩
          · exact Or.inr List.mem_cons_self
          · exact Or.inl (hkept j hold)

theorem of_mem_waiters_giveBack {j : κ} (h : j ∈ (p.giveBack k).waiters) : j ∈ p.waiters := by
  cases hheld : p.held k with
  | none => rwa [giveBack_of_none hheld] at h
  | some q =>
      cases hwaiters : p.waiters with
      | nil =>
          rw [giveBack_of_nil hheld hwaiters] at h
          exact hwaiters ▸ h
      | cons next waiters =>
          rw [giveBack_of_cons hheld hwaiters] at h
          exact List.mem_cons_of_mem _ h

theorem of_mem_idle_giveBack (h : r ∈ (p.giveBack k).idle) : r ∈ p.idle ∨ p.held k = some r := by
  cases hheld : p.held k with
  | none =>
      rw [giveBack_of_none hheld] at h
      exact Or.inl h
  | some q =>
      cases hwaiters : p.waiters with
      | nil =>
          rw [giveBack_of_nil hheld hwaiters] at h
          rcases List.mem_append.mp h with hold | hnew
          · exact Or.inl hold
          · rw [List.mem_singleton.mp hnew]
            exact Or.inr rfl
      | cons next waiters =>
          rw [giveBack_of_cons hheld hwaiters] at h
          exact Or.inl h

/-- The others keep what they hold. -/
theorem Sound.held_giveBack_of_ne (h : p.Sound) {j : κ} (hne : j ≠ k) (hj : p.held j = some r) :
    (p.giveBack k).held j = some r := by
  cases hheld : p.held k with
  | none =>
      rw [giveBack_of_none hheld]
      exact hj
  | some q =>
      have hkept : Function.update p.held k none j = some r := by
        rw [Function.update_of_ne hne, hj]
      cases hwaiters : p.waiters with
      | nil =>
          rw [giveBack_of_nil hheld hwaiters]
          exact hkept
      | cons next waiters =>
          have hnext : j ≠ next := by
            intro heq
            have hnone := h.held_of_waiter next (by rw [hwaiters]; exact List.mem_cons_self)
            rw [← heq, hj] at hnone
            cases hnone
          rw [giveBack_of_cons hheld hwaiters]
          show Function.update (Function.update p.held k none) next (some q) j = some r
          rw [Function.update_of_ne hnext, hkept]

theorem held_acquire_of_ne {j : κ} (hne : j ≠ k) : (p.acquire k).held j = p.held j := by
  cases hidle : p.idle with
  | nil => rw [acquire_of_nil hidle]
  | cons free idle =>
      rw [acquire_of_cons hidle]
      exact Function.update_of_ne hne _ _

theorem of_mem_idle_acquire (h : r ∈ (p.acquire k).idle) : r ∈ p.idle := by
  cases hidle : p.idle with
  | nil =>
      rw [acquire_of_nil hidle, hidle] at h
      exact h
  | cons free idle =>
      rw [acquire_of_cons hidle] at h
      exact List.mem_cons_of_mem _ h

/-- What is given back is gone. -/
theorem Sound.held_giveBack_self (h : p.Sound) : (p.giveBack k).held k = none := by
  cases hheld : p.held k with
  | none => rw [giveBack_of_none hheld, hheld]
  | some q =>
      cases hwaiters : p.waiters with
      | nil =>
          rw [giveBack_of_nil hheld hwaiters]
          exact Function.update_self _ _ _
      | cons next waiters =>
          have hne : k ≠ next := by
            intro heq
            have hnone := h.held_of_waiter next (by rw [hwaiters]; exact List.mem_cons_self)
            rw [← heq, hheld] at hnone
            cases hnone
          rw [giveBack_of_cons hheld hwaiters]
          show Function.update (Function.update p.held k none) next (some q) k = none
          rw [Function.update_of_ne hne, Function.update_self]

/-! ## Who is in the pool -/

/-- Who holds what, after one client has changed what it holds. -/
theorem exists_held_update {held : κ → Option ρ} {o : Option ρ} :
    (∃ j, Function.update held k o j = some r) ↔ o = some r ∨ ∃ j ≠ k, held j = some r := by
  constructor
  · rintro ⟨j, hj⟩
    rcases held_update hj with ⟨_, ho⟩ | ⟨hne, hj⟩
    · exact Or.inl ho
    · exact Or.inr ⟨j, hne, hj⟩
  · rintro (ho | ⟨j, hne, hj⟩)
    · exact ⟨k, by rw [Function.update_self, ho]⟩
    · exact ⟨j, by rw [Function.update_of_ne hne, hj]⟩

omit [DecidableEq κ] in
theorem exists_ne_held (hheld : p.held k ≠ some r) :
    (∃ j ≠ k, p.held j = some r) ↔ ∃ j, p.held j = some r := by
  constructor
  · exact fun ⟨j, _, hj⟩ => ⟨j, hj⟩
  · rintro ⟨j, hj⟩
    exact ⟨j, fun heq => hheld (heq ▸ hj), hj⟩

theorem member_acquire (hheld : p.held k = none) : (p.acquire k).Member r ↔ p.Member r := by
  cases hidle : p.idle with
  | nil =>
      rw [acquire_of_nil hidle]
      exact Iff.rfl
  | cons free idle =>
      have hne : p.held k ≠ some r := by simp [hheld]
      rw [acquire_of_cons hidle, Member, Member, exists_held_update, exists_ne_held hne, hidle,
        List.mem_cons, Option.some.injEq, eq_comm]
      tauto

theorem member_giveBack (h : p.Sound) : (p.giveBack k).Member r ↔ p.Member r := by
  cases hheld : p.held k with
  | none => rw [giveBack_of_none hheld]
  | some q =>
      have hsplit : (∃ j, p.held j = some r) ↔ q = r ∨ ∃ j ≠ k, p.held j = some r := by
        have hupdate : (∃ j, Function.update p.held k (some q) j = some r) ↔
            some q = some r ∨ ∃ j ≠ k, p.held j = some r := exists_held_update
        rwa [← hheld, Function.update_eq_self, hheld, Option.some.injEq] at hupdate
      cases hwaiters : p.waiters with
      | nil =>
          rw [giveBack_of_nil hheld hwaiters, Member, Member, exists_held_update, hsplit,
            List.mem_append, List.mem_singleton, eq_comm]
          simp only [reduceCtorEq, false_or]
          tauto
      | cons next waiters =>
          have hnext : p.held next = none :=
            h.held_of_waiter next (by rw [hwaiters]; exact List.mem_cons_self)
          have hrest : (∃ j ≠ next, Function.update p.held k none j = some r) ↔
              ∃ j ≠ k, p.held j = some r := by
            constructor
            · rintro ⟨j, _, hj⟩
              rcases held_update hj with ⟨_, hnone⟩ | ⟨hne, hj⟩
              · cases hnone
              · exact ⟨j, hne, hj⟩
            · rintro ⟨j, hne, hj⟩
              refine ⟨j, fun heq => ?_, by rw [Function.update_of_ne hne, hj]⟩
              rw [heq, hnext] at hj
              cases hj
          rw [giveBack_of_cons hheld hwaiters, Member, Member, exists_held_update, hsplit, hrest,
            Option.some.injEq]

theorem member_giveUp : (p.giveUp k).Member r ↔ p.Member r := Iff.rfl

theorem member_swap (h : p.Sound) (hheld : p.held k = some r) {q : ρ} :
    (p.swap k r').Member q ↔ q = r' ∨ p.Member q ∧ q ≠ r := by
  rw [swap, Member, Member, exists_held_update, Option.some.injEq]
  constructor
  · rintro (hidle | heq | ⟨j, hne, hj⟩)
    · exact Or.inr ⟨Or.inl hidle, fun heq => h.not_idle k r hheld (heq ▸ hidle)⟩
    · exact Or.inl heq.symm
    · exact Or.inr ⟨Or.inr ⟨j, hj⟩, fun heq => hne (h.exclusive j k r (heq ▸ hj) hheld)⟩
  · rintro (heq | ⟨hidle | ⟨j, hj⟩, hne⟩)
    · exact Or.inr (Or.inl heq.symm)
    · exact Or.inl hidle
    · refine Or.inr (Or.inr ⟨j, fun heq => ?_, hj⟩)
      rw [heq, hheld] at hj
      exact hne (Option.some.inj hj).symm

/-- What is let go is in the pool no longer. -/
theorem member_discard (h : p.Sound) (hheld : p.held k = some r) {q : ρ} :
    (p.discard k).Member q ↔ p.Member q ∧ q ≠ r := by
  rw [discard, Member, Member, exists_held_update]
  constructor
  · rintro (hidle | hnone | ⟨j, hne, hj⟩)
    · exact ⟨Or.inl hidle, fun heq => h.not_idle k r hheld (heq ▸ hidle)⟩
    · cases hnone
    · exact ⟨Or.inr ⟨j, hj⟩, fun heq => hne (h.exclusive j k r (heq ▸ hj) hheld)⟩
  · rintro ⟨hidle | ⟨j, hj⟩, hne⟩
    · exact Or.inl hidle
    · refine Or.inr (Or.inr ⟨j, fun heq => ?_, hj⟩)
      rw [heq, hheld] at hj
      exact hne (Option.some.inj hj).symm

omit [DecidableEq κ] in
/-- The others stay in it. -/
theorem member_retire_of_ne [DecidableEq ρ] {q : ρ} (hne : q ≠ r) (h : p.Member q) :
    (p.retire r).Member q := by
  rcases h with hidle | hheld
  · exact Or.inl ((List.mem_erase_of_ne hne).mpr hidle)
  · exact Or.inr hheld

end Pool

end HandOff
