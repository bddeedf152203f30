/-
The newest element of every key, as a loop keeps it that overwrites the entry of a key by
a newer element, and a sort lists it newest first.

Two keys may tell different elements apart. What is kept by a key that is too coarse is
what a finer key would keep only if the two agree on the list (`agree_iff`).
-/
import Brain.Lib.InsertionMap
import Brain.Lib.StableSort

set_option autoImplicit false

variable {α κ κ' τ : Type*} [LinearOrder τ] {key : α → κ} {key' : α → κ'} {time : α → τ}
  {l kept : List α}

/-- `kept` is one newest element for each key of `l`, newest first. -/
structure NewestOfEach (key : α → κ) (time : α → τ) (l kept : List α) : Prop where
  mem : ∀ x ∈ kept, x ∈ l
  sorted : kept.Pairwise (fun x y => time y ≤ time x)
  distinct : (kept.map key).Nodup
  newest : ∀ x ∈ l, ∃ y ∈ kept, key y = key x ∧ ∀ z ∈ l, key z = key x → time z ≤ time y

namespace NewestOfEach

/-! ## 1. The loop -/

section Loop

variable [DecidableEq κ]

/-- One turn of the loop. -/
def keepNewest (key : α → κ) (time : α → τ) (byKey : InsertionMap κ α) (x : α) :
    InsertionMap κ α :=
  match byKey.get? (key x) with
  | none => byKey.set (key x) x
  | some prev => if time prev < time x then byKey.set (key x) x else byKey

/-- What the entries are after `l`: elements of it under their keys, none older than another
one of its key. -/
structure Kept (key : α → κ) (time : α → τ) (l : List α) (byKey : InsertionMap κ α) : Prop where
  entry : ∀ k x, byKey.get? k = some x → x ∈ l ∧ key x = k
  newest : ∀ x ∈ l, ∃ y, byKey.get? (key x) = some y ∧ time x ≤ time y

theorem Kept.set {byKey : InsertionMap κ α} (h : Kept key time l byKey) {x : α}
    (hx : ∀ y, byKey.get? (key x) = some y → time y ≤ time x) :
    Kept key time (l ++ [x]) (byKey.set (key x) x) where
  entry k y hy := by
    by_cases hk : k = key x
    · subst hk
      rw [InsertionMap.get?_set_self, Option.some_inj] at hy
      subst hy
      exact ⟨List.mem_append_right _ List.mem_cons_self, rfl⟩
    · rw [InsertionMap.get?_set_of_ne _ _ hk] at hy
      exact ⟨List.mem_append_left _ (h.entry k y hy).1, (h.entry k y hy).2⟩
  newest z hz := by
    by_cases hk : key z = key x
    · refine ⟨x, by rw [hk, InsertionMap.get?_set_self], ?_⟩
      rcases List.mem_append.mp hz with hz | hz
      · obtain ⟨y, hy, hle⟩ := h.newest z hz
        exact hle.trans (hx y (hk ▸ hy))
      · rw [List.mem_singleton.mp hz]
    · rw [InsertionMap.get?_set_of_ne _ _ hk]
      rcases List.mem_append.mp hz with hz | hz
      · exact h.newest z hz
      · exact absurd (congrArg key (List.mem_singleton.mp hz)) hk

theorem Kept.step {byKey : InsertionMap κ α} (h : Kept key time l byKey) (x : α) :
    Kept key time (l ++ [x]) (keepNewest key time byKey x) := by
  unfold keepNewest
  cases hget : byKey.get? (key x) with
  | none =>
      refine h.set (fun y hy => ?_)
      rw [hget] at hy
      cases hy
  | some prev =>
      dsimp only
      split
      · next hlt =>
          refine h.set (fun y hy => ?_)
          rw [hget, Option.some_inj] at hy
          exact hy ▸ hlt.le
      · next hlt =>
          refine ⟨fun k y hy => ?_, fun z hz => ?_⟩
          · exact ⟨List.mem_append_left _ (h.entry k y hy).1, (h.entry k y hy).2⟩
          · rcases List.mem_append.mp hz with hz | hz
            · exact h.newest z hz
            · rw [List.mem_singleton.mp hz]
              exact ⟨prev, hget, not_lt.mp hlt⟩

theorem kept_foldl (key : α → κ) (time : α → τ) (l : List α) :
    Kept key time l (l.foldl (keepNewest key time) (.empty : InsertionMap κ α)) := by
  induction l using List.reverseRecOn with
  | nil =>
      refine ⟨fun k x h => ?_, fun x hx => ?_⟩
      · cases h
      · cases hx
  | append_singleton l x ih =>
      rw [List.foldl_append, List.foldl_cons, List.foldl_nil]
      exact ih.step x

/-- **The loop and the sort after it.** -/
theorem of_foldl (key : α → κ) (time : α → τ) (l : List α) :
    NewestOfEach key time l
      ((l.foldl (keepNewest key time) .empty).values.insertionSort
        (fun x y => time y ≤ time x)) := by
  have h := kept_foldl key time l
  generalize l.foldl (keepNewest key time) .empty = byKey at h
  have hentry : ∀ e ∈ byKey.entries, e.2 ∈ l ∧ key e.2 = e.1 :=
    fun e he => h.entry e.1 e.2 (InsertionMap.get?_of_mem he)
  have hperm := List.perm_insertionSort (fun x y : α => time y ≤ time x) byKey.values
  refine ⟨fun x hx => ?_, StableSort.pairwise_greatestFirst time _, ?_, fun x hx => ?_⟩
  · obtain ⟨e, he, rfl⟩ := List.mem_map.mp (hperm.mem_iff.mp hx)
    exact (hentry e he).1
  · have hkeys : byKey.entries.map (key ∘ Prod.snd) = byKey.entries.map Prod.fst :=
      List.map_congr_left (fun e he => (hentry e he).2)
    rw [(hperm.map key).nodup_iff, InsertionMap.values, List.map_map, hkeys]
    exact byKey.nodup
  · obtain ⟨y, hy, -⟩ := h.newest x hx
    refine ⟨y, hperm.mem_iff.mpr (List.mem_map_of_mem (InsertionMap.mem_of_get? hy)),
      (h.entry _ y hy).2, fun z hz hkey => ?_⟩
    obtain ⟨y', hy', hle⟩ := h.newest z hz
    rw [hkey, hy, Option.some_inj] at hy'
    exact hy' ▸ hle

end Loop

/-! ## 2. Two keys -/

/-- **When the coarser of two keys does**: what is kept by `key` shows one newest element for
each `key'` if and only if no two elements of the list have the same `key` and different
ones of `key'`. What an element shows is its `key'`, and what is kept by `key'` may be other
elements. -/
theorem agree_iff {β : Type*} {show_ : α → β} (h : NewestOfEach key time l kept)
    (hcoarse : ∀ x ∈ l, ∀ y ∈ l, key' x = key' y → key x = key y)
    (hshow : ∀ x y, show_ x = show_ y → key' x = key' y) :
    (∃ kept', NewestOfEach key' time l kept' ∧ kept.map show_ = kept'.map show_)
      ↔ ∀ x ∈ l, ∀ y ∈ l, key x = key y → key' x = key' y := by
  constructor
  · rintro ⟨kept', h', heq⟩ x hx y hy hkey
    -- both keys are among those that are shown
    have hshown : ∀ z ∈ l, ∃ w ∈ kept, key' w = key' z := by
      intro z hz
      obtain ⟨w', hw', hkey', -⟩ := h'.newest z hz
      have hmem : show_ w' ∈ kept.map show_ := heq ▸ List.mem_map_of_mem hw'
      obtain ⟨w, hw, hshown⟩ := List.mem_map.mp hmem
      exact ⟨w, hw, (hshow w w' hshown).trans hkey'⟩
    obtain ⟨v, hv, hvx⟩ := hshown x hx
    obtain ⟨w, hw, hwy⟩ := hshown y hy
    have hvw : key v = key w := by
      rw [hcoarse v (h.mem v hv) x hx hvx, hcoarse w (h.mem w hw) y hy hwy, hkey]
    rw [← hvx, ← hwy, List.inj_on_of_nodup_map h.distinct hv hw hvw]
  · intro hfine
    refine ⟨kept, ⟨h.mem, h.sorted, ?_, fun x hx => ?_⟩, rfl⟩
    · rw [List.nodup_iff_pairwise_ne, List.pairwise_map]
      have hne := h.distinct
      rw [List.nodup_iff_pairwise_ne, List.pairwise_map] at hne
      refine hne.imp_of_mem (fun hv hw hvw heq => hvw ?_)
      exact hcoarse _ (h.mem _ hv) _ (h.mem _ hw) heq
    · obtain ⟨y, hy, hkey, hnewest⟩ := h.newest x hx
      refine ⟨y, hy, hfine y (h.mem y hy) x hx hkey, fun z hz hzx => ?_⟩
      exact hnewest z hz (hcoarse z hz x hx hzx)

end NewestOfEach
