/-
The greatest score of each key of a list, greatest first.

The list of these does not depend on the order of what it is taken of (`maxima_perm`). Where
the elements come sorted by score, it can be read off in one pass that keeps the first
element of every key (`map_firstSeen_of_sorted`).
-/
import Brain.Lib.FirstSeen
import Mathlib.Data.List.Sort
import Mathlib.Order.Bounds.Basic

set_option autoImplicit false

namespace KeyMaxima

open FirstSeen

variable {α κ β : Type*} [DecidableEq κ] [LinearOrder β]

/-- The greatest score among the elements with the key `k`; `d` bounds all scores from
below. -/
def bestOf (d : β) (key : α → κ) (score : α → β) (l : List α) (k : κ) : β :=
  ((l.filter (fun x => decide (key x = k))).map score).foldr max d

/-- The greatest score of each key, greatest first. -/
def maxima (d : β) (key : α → κ) (score : α → β) (l : List α) : List β :=
  ((l.map key).eraseDups.map (bestOf d key score l)).insertionSort (fun s t => t ≤ s)

section

variable {d : β} {key : α → κ} {score : α → β} {l l' : List α} {k : κ}

/-- What a fold of `max` returns bounds the list and its start, and is one of them. -/
theorem foldr_max_spec (d : β) (l : List β) :
    d ≤ l.foldr max d ∧ (∀ s ∈ l, s ≤ l.foldr max d) ∧ (l.foldr max d = d ∨ l.foldr max d ∈ l) := by
  induction l with
  | nil => exact ⟨le_refl d, fun s hs => absurd hs List.not_mem_nil, Or.inl rfl⟩
  | cons t l ih =>
      obtain ⟨hd, hall, hmem⟩ := ih
      rw [List.foldr_cons]
      refine ⟨hd.trans (le_max_right _ _), fun s hs => ?_, ?_⟩
      · rcases List.mem_cons.mp hs with rfl | hs
        · exact le_max_left _ _
        · exact (hall s hs).trans (le_max_right _ _)
      · rcases le_total t (l.foldr max d) with hle | hle
        · rw [max_eq_right hle]
          exact hmem.imp_right (List.mem_cons_of_mem t)
        · rw [max_eq_left hle]
          exact Or.inr List.mem_cons_self

/-- **The best of a key** is the greatest of its scores. -/
theorem isGreatest_bestOf (hd : ∀ x ∈ l, d ≤ score x) (hk : ∃ x ∈ l, key x = k) :
    IsGreatest {s | ∃ x ∈ l, key x = k ∧ s = score x} (bestOf d key score l k) := by
  obtain ⟨-, hall, hmem⟩ :=
    foldr_max_spec d ((l.filter (fun x => decide (key x = k))).map score)
  have hupper : ∀ x ∈ l, key x = k → score x ≤ bestOf d key score l k := by
    intro x hx hxk
    exact hall _ (List.mem_map_of_mem (List.mem_filter.mpr ⟨hx, decide_eq_true hxk⟩))
  refine ⟨?_, ?_⟩
  · rcases hmem with heq | hmem
    · -- then the scores of the key are all `d`
      obtain ⟨x, hx, hxk⟩ := hk
      refine ⟨x, hx, hxk, le_antisymm ?_ (hupper x hx hxk)⟩
      exact heq.le.trans (hd x hx)
    · obtain ⟨x, hx, heq⟩ := List.mem_map.mp hmem
      obtain ⟨hx, hxk⟩ := List.mem_filter.mp hx
      exact ⟨x, hx, of_decide_eq_true hxk, heq.symm⟩
  · rintro s ⟨x, hx, hxk, rfl⟩
    exact hupper x hx hxk

theorem bestOf_perm (h : l'.Perm l) (k : κ) :
    bestOf d key score l' k = bestOf d key score l k :=
  ((h.filter _).map score).foldr_eq d

theorem perm_eraseDups {ks ks' : List κ} (h : ∀ k, k ∈ ks' ↔ k ∈ ks) :
    ks'.eraseDups.Perm ks.eraseDups := by
  rw [List.perm_ext_iff_of_nodup (Grouping.nodup_eraseDups _) (Grouping.nodup_eraseDups _)]
  intro k
  rw [List.mem_eraseDups, List.mem_eraseDups, h k]

/-- Sorting gives the same list for every order of the elements. -/
theorem sort_perm {s s' : List β} (h : s'.Perm s) :
    s'.insertionSort (fun a b => b ≤ a) = s.insertionSort (fun a b => b ≤ a) := by
  refine List.Perm.eq_of_pairwise (fun a b _ _ hab hba => le_antisymm hba hab) ?_ ?_
    (((List.perm_insertionSort _ s').trans h).trans (List.perm_insertionSort _ s).symm)
  · exact List.pairwise_insertionSort (fun a b : β => b ≤ a) s'
  · exact List.pairwise_insertionSort (fun a b : β => b ≤ a) s

/-- **The maxima do not depend on the order.** -/
theorem maxima_perm (h : l'.Perm l) : maxima d key score l' = maxima d key score l := by
  have hbest : bestOf d key score l' = bestOf d key score l := funext (bestOf_perm h)
  unfold maxima
  rw [hbest]
  exact sort_perm ((perm_eraseDups (fun k => (h.map key).mem_iff)).map _)

/-- In a sorted list no element of a key exceeds the first one of it. -/
theorem score_le_of_mem_keepFrom (hs : l.Pairwise (fun x y => score y ≤ score x)) :
    ∀ {seen : List κ} {x : α}, x ∈ keepFrom key seen l →
      ∀ y ∈ l, key y = key x → score y ≤ score x := by
  induction l with
  | nil => exact fun h => by cases h
  | cons a l ih =>
      obtain ⟨ha, hs⟩ := List.pairwise_cons.mp hs
      intro seen x hx y hy hkey
      have hnew := key_not_mem_of_mem_keepFrom hx
      rw [keepFrom] at hx
      by_cases hseen : key a ∈ seen
      · rw [if_pos hseen] at hx
        rcases List.mem_cons.mp hy with rfl | hy
        · exact absurd (hkey ▸ hseen) hnew
        · exact ih hs hx y hy hkey
      · rw [if_neg hseen] at hx
        rcases List.mem_cons.mp hx with rfl | hx
        · rcases List.mem_cons.mp hy with rfl | hy
          · exact le_refl _
          · exact ha y hy
        · rcases List.mem_cons.mp hy with rfl | hy
          · exact absurd (hkey ▸ List.mem_cons_self) (key_not_mem_of_mem_keepFrom hx)
          · exact ih hs hx y hy hkey

/-- **In a sorted list the first of every key** are the maxima, in their order. -/
theorem map_firstSeen_of_sorted (hd : ∀ x ∈ l, d ≤ score x)
    (hs : l.Pairwise (fun x y => score y ≤ score x)) :
    (firstSeen key l).map score = maxima d key score l := by
  have hbest : ∀ x ∈ firstSeen key l, score x = bestOf d key score l (key x) := by
    intro x hx
    have hmem := mem_of_mem_firstSeen hx
    have hgreatest := isGreatest_bestOf (k := key x) hd ⟨x, hmem, rfl⟩
    have hx : IsGreatest {s | ∃ y ∈ l, key y = key x ∧ s = score y} (score x) := by
      refine ⟨⟨x, hmem, rfl, rfl⟩, ?_⟩
      rintro s ⟨y, hy, hkey, rfl⟩
      exact score_le_of_mem_keepFrom hs hx y hy hkey
    exact hx.unique hgreatest
  have hmap : (firstSeen key l).map score
      = ((l.map key).eraseDups).map (bestOf d key score l) := by
    rw [← map_firstSeen, List.map_map]
    exact List.map_congr_left hbest
  have hsorted : ((firstSeen key l).map score).Pairwise (fun s t => t ≤ s) := by
    rw [List.pairwise_map]
    exact hs.sublist (sublist_keepFrom key l [])
  have : Std.Total (fun s t : β => t ≤ s) := ⟨fun s t => le_total t s⟩
  rw [maxima, ← hmap, hsorted.insertionSort_eq]

end

end KeyMaxima
