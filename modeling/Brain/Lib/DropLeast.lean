/-
Dropping elements until the rest fits.

What is meant to go first are the elements with the least scores; what a loop drops that
pops is the tail of the list. The two come to the same under a condition on the prefixes
that fit (`keeps_take_iff`): no prefix that fits may divide two elements of which the later
one scores more, and where some elements of least score can be dropped so that the rest
fits, a prefix of that length has to fit as well.
-/
import Mathlib.Data.List.Perm.Basic
import Mathlib.Tactic

set_option autoImplicit false

namespace DropLeast

variable {α β : Type*} [LinearOrder β] {score : α → β} {fits : List α → Bool} {l kept : List α}

/-- The list less some elements, none of which scores more than one that is kept. -/
def IsUpper (score : α → β) (l kept : List α) : Prop :=
  kept.Sublist l ∧
    ∃ dropped, (kept ++ dropped).Perm l ∧ ∀ d ∈ dropped, ∀ k ∈ kept, score d ≤ score k

/-- The list less the fewest elements of least score that have to go for the rest to fit. -/
structure Keeps (score : α → β) (fits : List α → Bool) (l kept : List α) : Prop where
  upper : IsUpper score l kept
  fitting : fits kept = true ∨ kept = []
  most : ∀ other, IsUpper score l other → fits other = true → other.length ≤ kept.length

/-- `m` is the length of the longest prefix that fits, or 0 if none does. -/
structure IsLongest (fits : List α → Bool) (l : List α) (m : ℕ) : Prop where
  le : m ≤ l.length
  fitting : fits (l.take m) = true ∨ m = 0
  longest : ∀ j, m < j → j ≤ l.length → fits (l.take j) = false

/-- No two elements of which the later one scores more are divided by the longest prefix that
fits. -/
def NotDivided (score : α → β) (fits : List α → Bool) (l : List α) : Prop :=
  ∀ p q x y, p < q → l[p]? = some x → l[q]? = some y → score x < score y →
    (∃ j, q < j ∧ j ≤ l.length ∧ fits (l.take j) = true) ∨
      ∀ j, p < j → j ≤ l.length → fits (l.take j) = false

/-- As many as can be kept by dropping elements of least score are kept by a prefix. -/
def PrefixesSuffice (score : α → β) (fits : List α → Bool) (l : List α) : Prop :=
  ∀ other, IsUpper score l other → fits other = true →
    other = [] ∨ ∃ j, other.length ≤ j ∧ j ≤ l.length ∧ fits (l.take j) = true

/-- A prefix drops elements of least score if the rest scores no more. -/
theorem isUpper_take_iff (m : ℕ) :
    IsUpper score l (l.take m) ↔ ∀ d ∈ l.drop m, ∀ k ∈ l.take m, score d ≤ score k := by
  constructor
  · rintro ⟨-, dropped, hperm, hle⟩ d hd k hk
    have hdropped : dropped.Perm (l.drop m) := by
      rw [← List.perm_append_left_iff (l.take m), List.take_append_drop]
      exact hperm
    exact hle d (hdropped.mem_iff.mpr hd) k hk
  · intro h
    exact ⟨List.take_sublist m l, l.drop m, by rw [List.take_append_drop], h⟩

theorem IsLongest.length_take {m : ℕ} (hm : IsLongest fits l m) : (l.take m).length = m := by
  rw [List.length_take]
  exact min_eq_left hm.le

/-- The longest prefix that fits drops elements of least score if it divides no two of which the
later one scores more. -/
theorem IsLongest.isUpper_iff {m : ℕ} (hm : IsLongest fits l m) :
    IsUpper score l (l.take m) ↔ NotDivided score fits l := by
  rw [isUpper_take_iff]
  constructor
  · intro hupper p q x y hpq hx hy hlt
    by_cases hqm : q < m
    · -- both are kept
      exact Or.inl ⟨m, hqm, hm.le, hm.fitting.resolve_right (by omega)⟩
    · by_cases hpm : p < m
      · -- the earlier one is kept and the later one is not
        have hxk : x ∈ l.take m := by
          refine List.mem_of_getElem? (i := p) ?_
          rw [List.getElem?_take, if_pos hpm, hx]
        have hyd : y ∈ l.drop m := by
          refine List.mem_of_getElem? (i := q - m) ?_
          rw [List.getElem?_drop, Nat.add_sub_cancel' (by omega), hy]
        exact absurd hlt (not_lt.mpr (hupper y hyd x hxk))
      · exact Or.inr (fun j hj hjl => hm.longest j (by omega) hjl)
  · intro hdivided d hd k hk
    obtain ⟨q, hq⟩ := List.mem_iff_getElem?.mp hd
    obtain ⟨p, hp⟩ := List.mem_iff_getElem?.mp hk
    rw [List.getElem?_drop] at hq
    rw [List.getElem?_take] at hp
    split at hp
    · next hpm =>
        by_contra hnot
        rcases hdivided p (m + q) k d (by omega) hp hq (not_le.mp hnot) with
          ⟨j, hj, hjl, hfits⟩ | hnone
        · -- a longer prefix would fit
          rw [hm.longest j (by omega) hjl] at hfits
          cases hfits
        · have hmfits := hm.fitting.resolve_right (by omega)
          rw [hnone m hpm hm.le] at hmfits
          cases hmfits
    · cases hp

/-- It keeps as many as can be kept if prefixes do. -/
theorem IsLongest.most_iff {m : ℕ} (hm : IsLongest fits l m) :
    (∀ other, IsUpper score l other → fits other = true → other.length ≤ m) ↔
      PrefixesSuffice score fits l := by
  constructor
  · intro hmost other hother hfits
    have hle := hmost other hother hfits
    rcases hm.fitting with hmfits | hm0
    · exact Or.inr ⟨m, hle, hm.le, hmfits⟩
    · exact Or.inl (List.length_eq_zero_iff.mp (by omega))
  · intro hprefixes other hother hfits
    rcases hprefixes other hother hfits with rfl | ⟨j, hj, hjl, hjfits⟩
    · exact Nat.zero_le m
    · by_contra hlt
      rw [hm.longest j (by omega) hjl] at hjfits
      cases hjfits

/-- **When popping drops the least**: exactly if the prefixes that fit allow it. -/
theorem keeps_take_iff {m : ℕ} (hm : IsLongest fits l m) :
    Keeps score fits l (l.take m) ↔ NotDivided score fits l ∧ PrefixesSuffice score fits l := by
  rw [← hm.isUpper_iff, ← hm.most_iff]
  constructor
  · intro h
    refine ⟨h.upper, fun other hother hfits => ?_⟩
    rw [← hm.length_take]
    exact h.most other hother hfits
  · rintro ⟨hupper, hmost⟩
    refine ⟨hupper, ?_, fun other hother hfits => ?_⟩
    · rcases hm.fitting with hmfits | hm0
      · exact Or.inl hmfits
      · rw [hm0]
        exact Or.inr rfl
    · rw [hm.length_take]
      exact hmost other hother hfits

end DropLeast
