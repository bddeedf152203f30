/-
Splitting a list into groups by a key: the groups in the order in which their
keys first appear, each in the order of the list. No element is in two groups.
-/
import Mathlib.Data.List.Nodup
import Mathlib.Tactic

set_option autoImplicit false

namespace Grouping

variable {α κ : Type*} [DecidableEq κ]

/-- The groups of `l` by `key`. -/
def groups (key : α → κ) (l : List α) : List (List α) :=
  ((l.map key).eraseDups).map (fun k => l.filter (fun x => decide (key x = k)))

theorem nodup_eraseDups : ∀ l : List κ, l.eraseDups.Nodup := by
  intro l
  induction hn : l.length using Nat.strong_induction_on generalizing l with
  | _ n ih =>
      cases l with
      | nil => exact List.nodup_nil
      | cons a l =>
          rw [List.eraseDups_cons, List.nodup_cons]
          constructor
          · intro hmem
            have hne := (List.mem_filter.mp (List.mem_eraseDups.mp hmem)).2
            simp at hne
          · refine ih _ ?_ _ rfl
            have hle := List.length_filter_le (fun b => !b == a) l
            rw [List.length_cons] at hn
            omega

variable {key : α → κ} {l g : List α}

/-- A group is what shares its key with some element. -/
theorem mem_groups_iff :
    g ∈ groups key l ↔ ∃ x ∈ l, g = l.filter (fun y => decide (key y = key x)) := by
  simp only [groups, List.mem_map, List.mem_eraseDups]
  constructor
  · rintro ⟨k, ⟨x, hx, rfl⟩, rfl⟩
    exact ⟨x, hx, rfl⟩
  · rintro ⟨x, hx, rfl⟩
    exact ⟨key x, ⟨x, hx, rfl⟩, rfl⟩

theorem mem_of_mem_groups (hg : g ∈ groups key l) {x : α} (hx : x ∈ g) : x ∈ l := by
  obtain ⟨_, _, rfl⟩ := mem_groups_iff.mp hg
  exact (List.mem_filter.mp hx).1

/-- Every element is in a group. -/
theorem exists_mem_groups (key : α → κ) {x : α} (hx : x ∈ l) : ∃ g ∈ groups key l, x ∈ g :=
  ⟨_, mem_groups_iff.mpr ⟨x, hx, rfl⟩, List.mem_filter.mpr ⟨hx, by simp⟩⟩

/-- One group, one key. -/
theorem key_eq_of_mem_groups (hg : g ∈ groups key l) {x y : α} (hx : x ∈ g) (hy : y ∈ g) :
    key x = key y := by
  obtain ⟨z, _, rfl⟩ := mem_groups_iff.mp hg
  have hxz := of_decide_eq_true (List.mem_filter.mp hx).2
  have hyz := of_decide_eq_true (List.mem_filter.mp hy).2
  exact hxz.trans hyz.symm

/-- **No element is in two groups.** -/
theorem pairwise_groups (key : α → κ) (l : List α) :
    (groups key l).Pairwise (fun g g' => ∀ x ∈ g, x ∉ g') := by
  rw [groups, List.pairwise_map]
  refine (nodup_eraseDups (l.map key)).imp ?_
  intro k k' hkk' x hx hx'
  have hk := of_decide_eq_true (List.mem_filter.mp hx).2
  have hk' := of_decide_eq_true (List.mem_filter.mp hx').2
  exact hkk' (hk.symm.trans hk')

/-- **Nothing is lost by grouping**: the elements of each key of a list of keys that has them
all, one key after the other. -/
theorem flatMap_filter_perm (key : α → κ) : ∀ {ks : List κ} {l : List α}, ks.Nodup →
    (∀ x ∈ l, key x ∈ ks) →
    (ks.flatMap (fun k => l.filter (fun x => decide (key x = k)))).Perm l := by
  intro ks
  induction ks with
  | nil =>
      intro l _ h
      cases l with
      | nil => exact List.Perm.refl _
      | cons x l => exact absurd (h x List.mem_cons_self) List.not_mem_nil
  | cons k ks ih =>
      intro l hks h
      obtain ⟨hk, hks⟩ := List.nodup_cons.mp hks
      -- the later groups are those of what does not have the key `k`
      have hrest : ks.flatMap (fun k' => l.filter (fun x => decide (key x = k')))
          = ks.flatMap (fun k' => (l.filter (fun x => !decide (key x = k))).filter
              (fun x => decide (key x = k'))) := by
        rw [List.flatMap_congr (fun k' hk' => ?_)]
        rw [List.filter_filter]
        refine List.filter_congr (fun x _ => ?_)
        by_cases hx : key x = k'
        · have hne : k' ≠ k := fun heq => hk (heq ▸ hk')
          simp [hx, hne]
        · simp [hx]
      rw [List.flatMap_cons, hrest]
      refine (List.Perm.append_left _ (ih hks (fun x hx => ?_))).trans
        (List.filter_append_perm _ l)
      obtain ⟨hx, hxk⟩ := List.mem_filter.mp hx
      refine (List.mem_cons.mp (h x hx)).resolve_left (fun heq => ?_)
      simp [heq] at hxk

/-! ## The group of a key, and a quota for each group -/

/-- The group that a key is looked up by. -/
theorem getD_find?_groups (key : α → κ) (l : List α) (k : κ) :
    ((groups key l).find? (fun g => decide (g.head?.map key = some k))).getD []
      = l.filter (fun x => decide (key x = k)) := by
  cases hfound : (groups key l).find? (fun g => decide (g.head?.map key = some k)) with
  | some g =>
      have hhead := List.find?_some hfound
      rw [decide_eq_true_iff, Option.map_eq_some_iff] at hhead
      obtain ⟨y, hy, hyk⟩ := hhead
      obtain ⟨x, hx, rfl⟩ := mem_groups_iff.mp (List.mem_of_find?_eq_some hfound)
      have hyx := of_decide_eq_true (List.mem_filter.mp (List.mem_of_head? hy)).2
      rw [Option.getD_some, ← hyx, hyk]
  | none =>
      -- a group of the key would have been found
      rw [Option.getD_none]
      symm
      refine List.filter_eq_nil_iff.mpr (fun x hx hxk => ?_)
      have hkey := of_decide_eq_true hxk
      obtain ⟨g, hg, hxg⟩ := exists_mem_groups key hx
      have hnone := List.find?_eq_none.mp hfound g hg
      cases g with
      | nil => cases hxg
      | cons y g =>
          rw [List.head?_cons, Option.map_some,
            key_eq_of_mem_groups hg List.mem_cons_self hxg, hkey] at hnone
          simp at hnone

theorem filter_take_append_filter_drop (key : α → κ) (l : List α) (k : κ) (n : ℕ) :
    (l.take n).filter (fun x => decide (key x = k)) ++
      (l.drop n).filter (fun x => decide (key x = k)) = l.filter (fun x => decide (key x = k)) := by
  rw [← List.filter_append, List.take_append_drop]

/-- **A quota for each group after a cut**: a key has its first `c` elements if there are as
many before the cut, or none behind it. -/
theorem take_filter_take {l : List α} {k : κ} {n c : ℕ}
    (h : c ≤ (l.take n).countP (fun x => decide (key x = k)) ∨ ∀ x ∈ l.drop n, key x ≠ k) :
    ((l.take n).filter (fun x => decide (key x = k))).take c
      = (l.filter (fun x => decide (key x = k))).take c := by
  rw [← filter_take_append_filter_drop key l k n, List.take_append]
  rcases h with hle | hne
  · rw [List.countP_eq_length_filter] at hle
    rw [Nat.sub_eq_zero_of_le hle, List.take_zero, List.append_nil]
  · have hnil : (l.drop n).filter (fun x => decide (key x = k)) = [] :=
      List.filter_eq_nil_iff.mpr (fun x hx hxk => hne x hx (of_decide_eq_true hxk))
    rw [hnil, List.take_nil, List.append_nil]

/-- And only then it has as many. -/
theorem of_length_take_filter {l : List α} {k : κ} {n c : ℕ}
    (h : (((l.take n).filter (fun x => decide (key x = k))).take c).length
      = ((l.filter (fun x => decide (key x = k))).take c).length) :
    c ≤ (l.take n).countP (fun x => decide (key x = k)) ∨ ∀ x ∈ l.drop n, key x ≠ k := by
  by_contra hnot
  obtain ⟨hlt, hmem⟩ := not_or.mp hnot
  have hne : (l.drop n).filter (fun x => decide (key x = k)) ≠ [] := by
    intro hnil
    exact hmem (fun x hx hxk => List.filter_eq_nil_iff.mp hnil x hx (decide_eq_true hxk))
  have hpos := List.length_pos_iff.mpr hne
  rw [List.countP_eq_length_filter] at hlt
  rw [← filter_take_append_filter_drop key l k n, List.length_take, List.length_take,
    List.length_append] at h
  omega

end Grouping
