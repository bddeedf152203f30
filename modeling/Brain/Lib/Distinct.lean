/-
Lists without their repetitions: `eraseDups` keeps the first occurrence of every
element, as a `Set` of JavaScript does that is filled from a list. Erasing the
repetitions of the parts first changes nothing about the whole
(`eraseDups_flatMap_eraseDups`).
-/
import Brain.Lib.Grouping

set_option autoImplicit false

namespace Distinct

variable {α κ : Type*} [DecidableEq κ]

/-- A list without repetitions stays as it is. -/
theorem eraseDups_of_nodup {l : List κ} (h : l.Nodup) : l.eraseDups = l := by
  induction l with
  | nil => rfl
  | cons a l ih =>
      obtain ⟨ha, hl⟩ := List.nodup_cons.mp h
      have hfilter : l.filter (fun b => !b == a) = l := by
        rw [List.filter_eq_self]
        intro b hb
        have hne : b ≠ a := fun hba => ha (hba ▸ hb)
        simpa using hne
      rw [List.eraseDups_cons, hfilter, ih hl]

/-- Leaving elements out and erasing repetitions commute. -/
theorem eraseDups_filter (p : κ → Bool) (l : List κ) :
    (l.filter p).eraseDups = l.eraseDups.filter p := by
  induction hn : l.length using Nat.strong_induction_on generalizing l with
  | _ n ih =>
      cases l with
      | nil => rfl
      | cons a l =>
          have hlt : (l.filter (fun b => !b == a)).length < n := by
            have hle := List.length_filter_le (fun b => !b == a) l
            rw [List.length_cons] at hn
            omega
          have hrest := ih _ hlt (l.filter (fun b => !b == a)) rfl
          rw [List.eraseDups_cons, List.filter_cons, List.filter_cons, ← hrest]
          by_cases ha : p a = true
          · rw [if_pos ha, if_pos ha, List.eraseDups_cons, List.filter_filter, List.filter_filter]
            simp only [Bool.and_comm]
          · -- what `p` lets pass is not `a` anyway
            rw [if_neg ha, if_neg ha, List.filter_filter]
            congr 1
            refine List.filter_congr (fun b _ => ?_)
            by_cases hb : b = a
            · rw [hb, Bool.eq_false_iff.mpr ha, Bool.false_and]
            · simp [hb]

/-- Two lists with the same first occurrences have them after a common beginning, too. -/
theorem eraseDups_append_congr {l l' : List κ} (h : l.eraseDups = l'.eraseDups) (a : List κ) :
    (a.eraseDups ++ l).eraseDups = (a ++ l').eraseDups := by
  have hleft : ∀ m : List κ, m.removeAll a.eraseDups = m.removeAll a := by
    intro m
    refine List.filter_congr (fun b _ => ?_)
    congr 1
    rw [Bool.eq_iff_iff, List.elem_iff, List.elem_iff, List.mem_eraseDups]
  have hright : (l.removeAll a).eraseDups = (l'.removeAll a).eraseDups := by
    unfold List.removeAll
    rw [eraseDups_filter, eraseDups_filter, h]
  rw [List.eraseDups_append, List.eraseDups_append, hleft, hright,
    eraseDups_of_nodup (Grouping.nodup_eraseDups a)]

/-- **The parts may be freed of their repetitions first.** -/
theorem eraseDups_flatMap_eraseDups (f : α → List κ) (l : List α) :
    (l.flatMap (fun x => (f x).eraseDups)).eraseDups = (l.flatMap f).eraseDups := by
  induction l with
  | nil => rfl
  | cons x l ih =>
      rw [List.flatMap_cons, List.flatMap_cons]
      exact eraseDups_append_congr ih (f x)

end Distinct
