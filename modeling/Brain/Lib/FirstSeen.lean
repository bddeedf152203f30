/-
The first element of every key, in the order of a list: what a loop keeps that skips an
element whose key it has met, or that sets an entry of a `Map` only where there is none.

The keys of what is kept are the distinct keys of the list, so where a key ends up is a
matter of counting: before it stand the distinct keys that come before its first
occurrence (`getElem?_eraseDups_iff`).
-/
import Brain.Lib.Distinct
import Brain.Lib.InsertionMap

set_option autoImplicit false

namespace FirstSeen

variable {α κ : Type*} [DecidableEq κ]

/-! ## 1. The loop -/

/-- The elements that the loop keeps when it has met the keys in `seen`. -/
def keepFrom (key : α → κ) : List κ → List α → List α
  | _, [] => []
  | seen, x :: l =>
      if key x ∈ seen then keepFrom key seen l else x :: keepFrom key (key x :: seen) l

/-- The first element of every key. -/
def firstSeen (key : α → κ) (l : List α) : List α := keepFrom key [] l

section Keep

variable {key : α → κ} {seen : List κ} {l : List α} {x : α}

/-- The distinct keys of the list are left, less those that were met before. -/
theorem map_keepFrom (key : α → κ) (l : List α) : ∀ seen : List κ,
    (keepFrom key seen l).map key
      = ((l.map key).filter (fun k => decide (k ∉ seen))).eraseDups := by
  induction l with
  | nil => exact fun _ => rfl
  | cons x l ih =>
      intro seen
      rw [keepFrom, List.map_cons, List.filter_cons]
      by_cases hx : key x ∈ seen
      · rw [if_pos hx, if_neg (by simpa using hx), ih]
      · have hfilter : (l.map key).filter (fun k => decide (k ∉ key x :: seen))
            = ((l.map key).filter (fun k => decide (k ∉ seen))).filter (fun k => !k == key x) := by
          rw [List.filter_filter]
          refine List.filter_congr (fun k _ => ?_)
          simp only [List.mem_cons, not_or, Bool.decide_and, beq_eq_decide, decide_not]
        rw [if_neg hx, if_pos (by simpa using hx), List.map_cons, ih, List.eraseDups_cons, hfilter]

theorem map_firstSeen (key : α → κ) (l : List α) :
    (firstSeen key l).map key = (l.map key).eraseDups := by
  rw [firstSeen, map_keepFrom]
  simp

theorem nodup_map_firstSeen (key : α → κ) (l : List α) : ((firstSeen key l).map key).Nodup := by
  rw [map_firstSeen]
  exact Grouping.nodup_eraseDups _

/-- The loop only asks whether a key was met, not in which order they were. -/
theorem keepFrom_congr : ∀ {seen seen' : List κ}, (∀ k, k ∈ seen ↔ k ∈ seen') →
    keepFrom key seen l = keepFrom key seen' l := by
  induction l with
  | nil => exact fun _ => rfl
  | cons x l ih =>
      intro seen seen' h
      rw [keepFrom, keepFrom]
      by_cases hx : key x ∈ seen
      · rw [if_pos hx, if_pos ((h _).mp hx), ih h]
      · have hcons : ∀ k, k ∈ key x :: seen ↔ k ∈ key x :: seen' := by
          intro k
          rw [List.mem_cons, List.mem_cons, h k]
        rw [if_neg hx, if_neg (fun hx' => hx ((h _).mpr hx')), ih hcons]

theorem mem_of_mem_keepFrom : ∀ {seen : List κ}, x ∈ keepFrom key seen l → x ∈ l := by
  induction l with
  | nil => exact fun h => h
  | cons y l ih =>
      intro seen h
      rw [keepFrom] at h
      by_cases hy : key y ∈ seen
      · rw [if_pos hy] at h
        exact List.mem_cons_of_mem y (ih h)
      · rw [if_neg hy] at h
        rcases List.mem_cons.mp h with rfl | h
        · exact List.mem_cons_self
        · exact List.mem_cons_of_mem y (ih h)

theorem sublist_keepFrom (key : α → κ) (l : List α) :
    ∀ seen : List κ, (keepFrom key seen l).Sublist l := by
  induction l with
  | nil => exact fun _ => List.Sublist.refl _
  | cons y l ih =>
      intro seen
      rw [keepFrom]
      by_cases hy : key y ∈ seen
      · rw [if_pos hy]
        exact (ih seen).cons y
      · rw [if_neg hy]
        exact (ih (key y :: seen)).cons_cons y

/-- No key that was met before is kept again. -/
theorem key_not_mem_of_mem_keepFrom (h : x ∈ keepFrom key seen l) : key x ∉ seen := by
  have hkey : key x ∈ (keepFrom key seen l).map key := List.mem_map_of_mem h
  rw [map_keepFrom, List.mem_eraseDups, List.mem_filter, decide_eq_true_iff] at hkey
  exact hkey.2

theorem mem_of_mem_firstSeen (h : x ∈ firstSeen key l) : x ∈ l := mem_of_mem_keepFrom h

/-- Every element has one of its key that is kept. -/
theorem exists_mem_firstSeen (h : x ∈ l) : ∃ y ∈ firstSeen key l, key y = key x := by
  have hkey : key x ∈ (firstSeen key l).map key := by
    rw [map_firstSeen, List.mem_eraseDups]
    exact List.mem_map_of_mem h
  exact List.mem_map.mp hkey

/-- And only one. -/
theorem eq_of_mem_firstSeen {y : α} (hx : x ∈ firstSeen key l) (hy : y ∈ firstSeen key l)
    (hkey : key x = key y) : x = y :=
  List.inj_on_of_nodup_map (nodup_map_firstSeen key l) hx hy hkey

/-- The loop over a list of images. -/
theorem keepFrom_map {β : Type*} (f : β → α) (l : List β) : ∀ seen : List κ,
    keepFrom key seen (l.map f) = (keepFrom (fun b => key (f b)) seen l).map f := by
  induction l with
  | nil => exact fun _ => rfl
  | cons b l ih =>
      intro seen
      rw [List.map_cons, keepFrom, keepFrom]
      by_cases hb : key (f b) ∈ seen
      · rw [if_pos hb, if_pos hb, ih]
      · rw [if_neg hb, if_neg hb, ih, List.map_cons]

theorem firstSeen_map {β : Type*} (f : β → α) (l : List β) :
    firstSeen key (l.map f) = (firstSeen (fun b => key (f b)) l).map f := keepFrom_map f l []

end Keep

/-! ## 2. The place of a key -/

/-- The number of distinct keys before the first occurrence of `k`. -/
def placeOf (k : κ) (l : List κ) : ℕ :=
  (l.takeWhile (fun k' => decide (k' ≠ k))).eraseDups.length

theorem getElem?_placeOf {l : List κ} {k : κ} (h : k ∈ l) :
    l.eraseDups[placeOf k l]? = some k := by
  obtain ⟨before, after, rfl, hk⟩ := List.eq_append_cons_of_mem h
  have hbefore : ∀ k' ∈ before, decide (k' ≠ k) = true := by
    intro k' hk'
    have hne : k' ≠ k := fun heq => hk (heq ▸ hk')
    simpa using hne
  have hwhile : (before ++ k :: after).takeWhile (fun k' => decide (k' ≠ k)) = before := by
    rw [List.takeWhile_append_of_pos hbefore, List.takeWhile_cons_of_neg (by simp),
      List.append_nil]
  have hrest : (k :: after).removeAll before = k :: after.removeAll before := by
    rw [List.removeAll, List.filter_cons_of_pos (by simpa using hk)]
    rfl
  rw [placeOf, hwhile, List.eraseDups_append, hrest, List.eraseDups_cons,
    List.getElem?_append_right (Nat.le_refl _), Nat.sub_self, List.getElem?_cons_zero]

/-- **Every key stands at its place.** -/
theorem getElem?_eraseDups_iff {l : List κ} {k : κ} {i : ℕ} :
    l.eraseDups[i]? = some k ↔ k ∈ l ∧ placeOf k l = i := by
  constructor
  · intro h
    have hk : k ∈ l := List.mem_eraseDups.mp (List.mem_of_getElem? h)
    refine ⟨hk, ?_⟩
    -- without repetitions a key stands at one place only
    have hlt := (List.getElem?_eq_some_iff.mp h).1
    have hinj := List.getElem?_inj hlt (Grouping.nodup_eraseDups l)
      |>.mp (h.trans (getElem?_placeOf hk).symm)
    exact hinj.symm
  · rintro ⟨hk, rfl⟩
    exact getElem?_placeOf hk

end FirstSeen

/-! ## 3. Maps that are only extended -/

namespace InsertionMap

variable {κ ν : Type*} [DecidableEq κ]

/-- `if (!has(k)) set(k, v)`. -/
def setNew (m : InsertionMap κ ν) (k : κ) (v : ν) : InsertionMap κ ν :=
  if m.has k then m else m.set k v

/-- **What such a loop adds** is the first element of every key that is new. -/
theorem entries_foldl_setNew (key : ν → κ) (l : List ν) : ∀ m : InsertionMap κ ν,
    (l.foldl (fun m x => m.setNew (key x) x) m).entries
      = m.entries ++ (FirstSeen.keepFrom key m.keys l).map (fun x => (key x, x)) := by
  induction l with
  | nil => exact fun _ => (List.append_nil _).symm
  | cons x l ih =>
      intro m
      rw [List.foldl_cons, ih, FirstSeen.keepFrom]
      by_cases hx : key x ∈ m.keys
      · have hsame : m.setNew (key x) x = m := by
          rw [setNew, if_pos (by simpa [has] using hx)]
        rw [hsame, if_pos hx]
      · have hset : m.setNew (key x) x = m.set (key x) x := by
          rw [setNew, if_neg (by simpa [has] using hx)]
        have hseen : ∀ k, k ∈ m.keys ++ [key x] ↔ k ∈ key x :: m.keys := by
          intro k
          rw [List.mem_append, List.mem_singleton, List.mem_cons, or_comm]
        have hentries : (m.set (key x) x).entries = m.entries ++ [(key x, x)] := by
          rw [set, dif_neg hx]
        rw [hset, if_neg hx, hentries, keys_set_of_not_mem hx, List.map_cons, List.append_assoc,
          List.singleton_append, FirstSeen.keepFrom_congr hseen]

theorem values_foldl_setNew (key : ν → κ) (l : List ν) :
    (l.foldl (fun m x => m.setNew (key x) x) (empty : InsertionMap κ ν)).values
      = FirstSeen.firstSeen key l := by
  rw [values, entries_foldl_setNew, List.map_append, List.map_map]
  exact List.map_id _

end InsertionMap
