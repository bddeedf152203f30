/-
Lists that are filled by index: an array with room for each element, in which one after the
other is put in its place.

The places are distinct, so the order does not matter (`fill_perm`), and what is put at the
places of a whole list is that list (`fill_zipIdx`). A loop that puts some elements down at once
and the others later, or in the order in which they are answered, fills the same array.
-/
import Mathlib.Data.List.Nodup
import Mathlib.Tactic

set_option autoImplicit false

namespace Placement

variable {α β : Type*}

/-- `out[i] = x`. -/
def put (out : List (Option β)) (p : β × ℕ) : List (Option β) := out.set p.2 (some p.1)

/-- All of them, in the order in which they come. -/
def fill (out : List (Option β)) (ps : List (β × ℕ)) : List (Option β) := ps.foldl put out

theorem fill_append (out : List (Option β)) (ps qs : List (β × ℕ)) :
    fill out (ps ++ qs) = fill (fill out ps) qs := List.foldl_append

/-- **The order does not matter**, as the places are distinct. -/
theorem fill_perm {ps qs : List (β × ℕ)} (h : ps.Perm qs) (hplaces : (ps.map Prod.snd).Nodup)
    (out : List (Option β)) : fill out ps = fill out qs := by
  refine h.foldl_eq' (fun p hp q hq out => ?_) out
  by_cases hpq : p.2 = q.2
  · rw [List.inj_on_of_nodup_map hplaces hp hq hpq]
  · exact List.set_comm (some p.1) (some q.1) hpq

/-- The elements of a list, put down behind what is there already. -/
theorem fill_zipIdx_append (l : List β) : ∀ before : List (Option β),
    fill (before ++ List.replicate l.length none) (l.zipIdx before.length) = before ++ l.map some := by
  induction l with
  | nil => exact fun before => rfl
  | cons b l ih =>
      intro before
      have hput : put (before ++ List.replicate (b :: l).length none) (b, before.length)
          = (before ++ [some b]) ++ List.replicate l.length none := by
        rw [put, List.length_cons, List.replicate_succ, List.set_append_right _ _ le_rfl,
          Nat.sub_self, List.set_cons_zero, List.append_assoc, List.singleton_append]
      have hlength : before.length + 1 = (before ++ [some b]).length := by
        rw [List.length_append, List.length_singleton]
      rw [List.zipIdx_cons, fill, List.foldl_cons, hput, hlength]
      exact (ih (before ++ [some b])).trans (by simp)

/-- **A whole list**, each element at its place. -/
theorem fill_zipIdx (l : List β) : fill (List.replicate l.length none) l.zipIdx = l.map some :=
  fill_zipIdx_append l []

/-- The elements of a list have places of their own. -/
theorem nodup_places (l : List β) : (l.zipIdx.map Prod.snd).Nodup := by
  rw [List.zipIdx_map_snd]
  exact List.nodup_range'

/-- What is put down in any order at the places of a list fills it. -/
theorem fill_of_perm_zipIdx {ps : List (β × ℕ)} {l : List β} (h : ps.Perm l.zipIdx) :
    fill (List.replicate l.length none) ps = l.map some := by
  have hplaces : (ps.map Prod.snd).Nodup := by
    rw [(h.map Prod.snd).nodup_iff]
    exact nodup_places l
  rw [fill_perm h hplaces, fill_zipIdx]

/-- **Some at once, the others later.** -/
theorem fill_parts (v : α → β) (now : α × ℕ → Bool) (l : List α) :
    fill (fill (List.replicate l.length none) ((l.zipIdx.filter now).map (Prod.map v id)))
        ((l.zipIdx.filter (fun e => !now e)).map (Prod.map v id))
      = l.map (fun x => some (v x)) := by
  have hperm : ((l.zipIdx.filter now).map (Prod.map v id) ++
      (l.zipIdx.filter (fun e => !now e)).map (Prod.map v id)).Perm (l.map v).zipIdx := by
    rw [List.zipIdx_map, ← List.map_append]
    exact (List.filter_append_perm now l.zipIdx).map _
  have hfill := fill_of_perm_zipIdx hperm
  rw [List.length_map, List.map_map, fill_append] at hfill
  exact hfill

/-! ## Places that are noted down -/

/-- The answer with number `p.2`, and the place that was noted down for it. -/
def placed (places : List ℕ) (p : β × ℕ) : Option (β × ℕ) :=
  places[p.2]?.map (fun i => (p.1, i))

theorem filterMap_placed_append (l : List β) : ∀ before places : List ℕ,
    l.length = places.length →
    (l.zipIdx before.length).filterMap (placed (before ++ places)) = l.zip places := by
  induction l with
  | nil => exact fun _ _ _ => rfl
  | cons b l ih =>
      intro before places hlength
      cases places with
      | nil => cases hlength
      | cons i places =>
          have hnext := ih (before ++ [i]) places (Nat.succ.inj hlength)
          rw [List.length_append, List.length_singleton, List.append_assoc,
            List.singleton_append] at hnext
          have hplaced : placed (before ++ i :: places) (b, before.length) = some (b, i) := by
            simp [placed]
          rw [List.zipIdx_cons, List.filterMap_cons_some hplaced, hnext, List.zip_cons_cons]

/-- **Answers that are numbered** go to the places that were noted down in the same order. -/
theorem filterMap_placed {l : List β} {places : List ℕ} (h : l.length = places.length) :
    l.zipIdx.filterMap (placed places) = l.zip places :=
  filterMap_placed_append l [] places h

/-- In whatever order they come. -/
theorem fill_placed_of_perm {ps : List (β × ℕ)} {l : List β} {places : List ℕ}
    (hperm : ps.Perm l.zipIdx) (hlength : l.length = places.length) (hplaces : places.Nodup)
    (out : List (Option β)) : fill out (ps.filterMap (placed places)) = fill out (l.zip places) := by
  have hpairs := hperm.filterMap (placed places)
  rw [filterMap_placed hlength] at hpairs
  refine fill_perm hpairs ?_ out
  rw [(hpairs.map Prod.snd).nodup_iff, List.map_snd_zip hlength.ge]
  exact hplaces

end Placement
