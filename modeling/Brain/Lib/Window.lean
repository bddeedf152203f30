/-
What a buffer holds that drops its oldest entries until the rest fits.

The newest entries stand first. Where a list that fits also fits without its newest entry, dropping
from the end each time an entry comes in leaves the longest run of newest entries that fits, as if
all that ever came had been measured at once (`Longest.push`). The loop that drops keeps a running
total (`popWhile_spec`).
-/
import Mathlib.Tactic

set_option autoImplicit false

namespace Window

variable {α : Type*}

/-! ## The longest run that fits -/

/-- `l` is the longest initial segment of `all` that fits. -/
structure Longest (Fits : List α → Prop) (l all : List α) : Prop where
  initial : l <+: all
  fits : Fits l
  longest : ∀ p, p <+: all → Fits p → p.length ≤ l.length

/-- **What has been dropped stays dropped**, and is not missed. -/
theorem Longest.push {Fits : List α → Prop} (htail : ∀ x l, Fits (x :: l) → Fits l)
    {l l' all : List α} {x : α} (h : Longest Fits l all) (h' : Longest Fits l' (x :: l)) :
    Longest Fits l' (x :: all) := by
  refine ⟨h'.initial.trans (List.cons_prefix_cons.mpr ⟨rfl, h.initial⟩), h'.fits, fun p hp hfits => ?_⟩
  cases p with
  | nil => exact Nat.zero_le _
  | cons y q =>
      obtain ⟨rfl, hq⟩ := List.cons_prefix_cons.mp hp
      have hle := h.longest q hq (htail y q hfits)
      have hql : q <+: l := List.prefix_of_prefix_length_le hq h.initial hle
      exact h'.longest (y :: q) (List.cons_prefix_cons.mpr ⟨rfl, hql⟩) hfits

/-! ## The loop -/

/-- The loop, on the entries with the oldest first. -/
def dropWhileOver (p : ℕ → ℤ → Bool) (w : α → ℕ) : List α → ℤ → List α × ℤ
  | [], total => ([], total)
  | x :: l, total =>
      if p (l.length + 1) total then dropWhileOver p w l (total - w x) else (x :: l, total)

/-- `while (p) pop`, on the entries and their total. -/
def popWhile (p : ℕ → ℤ → Bool) (w : α → ℕ) (l : List α) (total : ℤ) : List α × ℤ :=
  ((dropWhileOver p w l.reverse total).1.reverse, (dropWhileOver p w l.reverse total).2)

/-- The weight of a list. -/
def weight (w : α → ℕ) (l : List α) : ℕ := (l.map w).sum

theorem weight_append (w : α → ℕ) (l l' : List α) :
    weight w (l ++ l') = weight w l + weight w l' := by
  rw [weight, List.map_append, List.sum_append]
  rfl

theorem weight_reverse (w : α → ℕ) (l : List α) : weight w l.reverse = weight w l := by
  rw [weight, List.map_reverse, List.sum_reverse]
  rfl

theorem dropWhileOver_spec (p : ℕ → ℤ → Bool) (w : α → ℕ) : ∀ (l : List α) (total : ℤ),
    ∃ gone, l = gone ++ (dropWhileOver p w l total).1 ∧
      (dropWhileOver p w l total).2 = total - weight w gone ∧
      ((dropWhileOver p w l total).1 ≠ [] →
        p (dropWhileOver p w l total).1.length (dropWhileOver p w l total).2 = false) ∧
      ∀ g r, l = g ++ r → (dropWhileOver p w l total).1.length < r.length →
        p r.length (total - weight w g) = true
  | [], total => by
      refine ⟨[], rfl, (sub_zero total).symm, fun h => absurd rfl h, fun g r hgr hlt => ?_⟩
      obtain ⟨_, rfl⟩ := List.append_eq_nil_iff.mp hgr.symm
      exact absurd hlt (Nat.lt_irrefl 0)
  | x :: l, total => by
      rw [dropWhileOver]
      split
      · next hp =>
          obtain ⟨gone, hl, hleft, hstop, hall⟩ := dropWhileOver_spec p w l (total - w x)
          refine ⟨x :: gone, congrArg (List.cons x) hl, ?_, hstop, fun g r hgr hlt => ?_⟩
          · rw [hleft, weight, weight, List.map_cons, List.sum_cons, Nat.cast_add]
            omega
          · cases g with
            | nil =>
                obtain rfl : x :: l = r := hgr
                show p (l.length + 1) (total - (0 : ℕ)) = true
                rw [Nat.cast_zero, sub_zero]
                exact hp
            | cons y g =>
                obtain ⟨rfl, hrest⟩ := List.cons.inj hgr
                rw [weight, List.map_cons, List.sum_cons, Nat.cast_add, ← sub_sub]
                exact hall g r hrest hlt
      · next hp =>
          refine ⟨[], rfl, (sub_zero total).symm, fun _ => Bool.eq_false_iff.mpr hp,
            fun g r hgr hlt => ?_⟩
          have hlen := congrArg List.length hgr
          rw [List.length_append] at hlen
          dsimp only at hlt
          omega

/-- **The loop drops from the end**, and no earlier end would have stopped it. -/
theorem popWhile_spec (p : ℕ → ℤ → Bool) (w : α → ℕ) (l : List α) (total : ℤ) :
    ∃ gone, l = (popWhile p w l total).1 ++ gone ∧
      (popWhile p w l total).2 = total - weight w gone ∧
      ((popWhile p w l total).1 ≠ [] →
        p (popWhile p w l total).1.length (popWhile p w l total).2 = false) ∧
      ∀ a b, l = a ++ b → (popWhile p w l total).1.length < a.length →
        p a.length (total - weight w b) = true := by
  obtain ⟨gone, hl, hleft, hstop, hall⟩ := dropWhileOver_spec p w l.reverse total
  refine ⟨gone.reverse, ?_, ?_, fun hne => ?_, fun a b hab hlt => ?_⟩
  · rw [popWhile, ← List.reverse_append, ← hl, List.reverse_reverse]
  · rw [weight_reverse]
    exact hleft
  · rw [popWhile, List.length_reverse]
    exact hstop (fun hnil => hne (List.reverse_eq_nil_iff.mpr hnil))
  · rw [popWhile, List.length_reverse] at hlt
    have hmore := hall b.reverse a.reverse (by rw [hab, List.reverse_append])
      (by rwa [List.length_reverse])
    rwa [List.length_reverse, weight_reverse] at hmore

/-- A condition that lets one entry be leaves one. -/
theorem popWhile_ne_nil {p : ℕ → ℤ → Bool} {w : α → ℕ} (hp : ∀ total, p 1 total = false)
    {l : List α} (hl : l ≠ []) (total : ℤ) : (popWhile p w l total).1 ≠ [] := by
  intro hnil
  obtain ⟨_, _, _, _, hall⟩ := popWhile_spec p w l total
  obtain ⟨x, l, rfl⟩ := List.exists_cons_of_ne_nil hl
  have hlast := hall [x] l rfl (by rw [hnil]; exact Nat.zero_lt_one)
  exact absurd ((hp _).symm.trans hlast) (by decide)

end Window
