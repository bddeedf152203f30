/-
What the walk over the edges injects.

`mergeExpandedNeighbours` goes through the expansions twice: first for the best score that
every absent neighbour inherits, then to inject each neighbour once, taking its score out of
the table. What is in the table after the first pass is a maximum (`isBest_bestInherited`),
so it does not depend on the order of the expansions; the second pass only decides which of
the expansions of a neighbour makes its bucket.
-/
import Mathlib.Order.Bounds.Basic
import Brain.Search.Ranking

set_option autoImplicit false

namespace Brain.NeighbourInjection

/-! ## 1. The count -/

/-- The body of the second loop, with `injected`. -/
def injectCounted (acc : (Buckets × InsertionMap EntityId ℚ) × ℕ) (e : Expansion) :
    (Buckets × InsertionMap EntityId ℚ) × ℕ :=
  if acc.1.1.has e.neighbourEntityId then acc
  else
    match acc.1.2.get? e.neighbourEntityId with
    | none => acc
    | some _ => (injectNeighbour acc.1 e, acc.2 + 1)

/-- `mergeExpandedNeighbours`: the map as it is left, and the count that is returned. -/
def mergeCounted (byEntity : Buckets) (expansions : List Expansion) (alpha : ℚ) : Buckets × ℕ :=
  if alpha ≤ 0 then (byEntity, 0)
  else
    let bestInherited := expansions.foldl (inheritBest byEntity alpha) .empty
    let merged := expansions.foldl injectCounted ((byEntity, bestInherited), 0)
    (merged.1.1, merged.2)

theorem fst_injectCounted (acc : (Buckets × InsertionMap EntityId ℚ) × ℕ) (e : Expansion) :
    (injectCounted acc e).1 = injectNeighbour acc.1 e := by
  unfold injectCounted
  by_cases hhas : acc.1.1.has e.neighbourEntityId = true
  · rw [if_pos hhas, injectNeighbour, if_pos hhas]
  · rw [if_neg hhas]
    cases hget : acc.1.2.get? e.neighbourEntityId with
    | none => rw [injectNeighbour, if_neg hhas, hget]
    | some inherited => rfl

/-- The map is the one that the search goes on with. -/
theorem fst_mergeCounted (byEntity : Buckets) (expansions : List Expansion) (alpha : ℚ) :
    (mergeCounted byEntity expansions alpha).1
      = mergeExpandedNeighbours byEntity expansions alpha := by
  have hfold : ∀ (expansions : List Expansion) (acc : (Buckets × InsertionMap EntityId ℚ) × ℕ),
      (expansions.foldl injectCounted acc).1 = expansions.foldl injectNeighbour acc.1 := by
    intro expansions
    induction expansions with
    | nil => exact fun _ => rfl
    | cons e expansions ih =>
        intro acc
        rw [List.foldl_cons, List.foldl_cons, ih, fst_injectCounted]
  unfold mergeCounted mergeExpandedNeighbours
  split
  · rfl
  · dsimp only
    rw [hfold]

/-! ## 2. The first pass -/

/-- What a neighbour inherits over an expansion. -/
def inherited (alpha : ℚ) (e : Expansion) : ℚ := alpha * e.seedRankScore * e.edgeWeight

/-- What `k` inherits over all expansions. -/
def scoresOf (alpha : ℚ) (expansions : List Expansion) (k : EntityId) : Set ℚ :=
  {v | ∃ e ∈ expansions, e.neighbourEntityId = k ∧ v = inherited alpha e}

section FirstPass

variable {byEntity : Buckets} {alpha : ℚ} {k : EntityId}

theorem get?_inheritBest_of_ne {best : InsertionMap EntityId ℚ} {e : Expansion}
    (h : e.neighbourEntityId ≠ k) : (inheritBest byEntity alpha best e).get? k = best.get? k := by
  unfold inheritBest
  dsimp only
  split
  · rfl
  · split
    · rfl
    · split
      · exact InsertionMap.get?_set_of_ne _ _ (Ne.symm h)
      · rfl

/-- One expansion of an absent neighbour: its table entry becomes the greater of the two. -/
theorem get?_inheritBest_self {best : InsertionMap EntityId ℚ} {e : Expansion}
    (hnew : byEntity.has e.neighbourEntityId = false) :
    (inheritBest byEntity alpha best e).get? e.neighbourEntityId
      = if (best.get? e.neighbourEntityId).getD 0 < inherited alpha e ∧ 0 < inherited alpha e
        then some (inherited alpha e) else best.get? e.neighbourEntityId := by
  unfold inheritBest inherited
  dsimp only
  by_cases hpos : alpha * e.seedRankScore * e.edgeWeight ≤ 0
  · rw [if_pos hpos, if_neg (fun h => absurd h.2 (not_lt.mpr hpos))]
  · rw [if_neg hpos, hnew, if_neg Bool.false_ne_true]
    by_cases hlt : (best.get? e.neighbourEntityId).getD 0 < alpha * e.seedRankScore * e.edgeWeight
    · rw [if_pos hlt, if_pos ⟨hlt, not_le.mp hpos⟩, InsertionMap.get?_set_self]
    · rw [if_neg hlt, if_neg (fun h => hlt h.1)]

theorem scoresOf_append (expansions : List Expansion) (e : Expansion) :
    scoresOf alpha (expansions ++ [e]) k
      = scoresOf alpha expansions k
        ∪ {v | e.neighbourEntityId = k ∧ v = inherited alpha e} := by
  ext v
  simp only [scoresOf, List.mem_append, List.mem_singleton, Set.mem_union, Set.mem_ofPred_eq]
  constructor
  · rintro ⟨e', he' | rfl, h⟩
    · exact Or.inl ⟨e', he', h⟩
    · exact Or.inr h
  · rintro (⟨e', he', h⟩ | h)
    · exact ⟨e', Or.inl he', h⟩
    · exact ⟨e, Or.inr rfl, h⟩

/-- The entry of a neighbour that inherits the scores `S`: the greatest, if one is positive. -/
def IsBest (S : Set ℚ) : Option ℚ → Prop
  | none => ∀ w ∈ S, w ≤ 0
  | some v => 0 < v ∧ IsGreatest S v

/-- The entry is kept up to date by comparing the next score with it. -/
theorem IsBest.insert {S : Set ℚ} {t : Option ℚ} (h : IsBest S t) (x : ℚ) :
    IsBest (S ∪ {x}) (if t.getD 0 < x ∧ 0 < x then some x else t) := by
  have hold : ∀ w ∈ S, w ≤ t.getD 0 := by
    cases t with
    | none => exact h
    | some v => exact fun w hw => h.2.2 hw
  split
  · next hx =>
      refine ⟨hx.2, Or.inr rfl, ?_⟩
      rintro w (hw | rfl)
      · exact (hold w hw).trans hx.1.le
      · exact le_refl _
  · next hx =>
      cases t with
      | none =>
          rintro w (hw | rfl)
          · exact hold w hw
          · exact not_lt.mp (fun hpos => hx ⟨hpos, hpos⟩)
      | some v =>
          refine ⟨h.1, Or.inl h.2.1, ?_⟩
          rintro w (hw | rfl)
          · exact hold w hw
          · exact not_lt.mp (fun hlt => hx ⟨hlt, h.1.trans hlt⟩)

theorem IsBest.eq_some_iff {S : Set ℚ} {t : Option ℚ} (h : IsBest S t) (v : ℚ) :
    t = some v ↔ 0 < v ∧ IsGreatest S v := by
  constructor
  · rintro rfl
    exact h
  · rintro ⟨hpos, hv⟩
    cases t with
    | none => exact absurd (h v hv.1) (not_le.mpr hpos)
    | some w => rw [h.2.unique hv]

/-- **The table after the first pass**: for an absent neighbour the greatest score that it
inherits, if that is positive. -/
theorem isBest_bestInherited (hnew : byEntity.has k = false) (expansions : List Expansion) :
    IsBest (scoresOf alpha expansions k)
      ((expansions.foldl (inheritBest byEntity alpha) .empty).get? k) := by
  induction expansions using List.reverseRecOn with
  | nil =>
      rintro w ⟨e, he, -⟩
      cases he
  | append_singleton expansions e ih =>
      rw [List.foldl_append, List.foldl_cons, List.foldl_nil, scoresOf_append]
      by_cases hk : e.neighbourEntityId = k
      · subst hk
        have hset : {v | e.neighbourEntityId = e.neighbourEntityId ∧ v = inherited alpha e}
            = {inherited alpha e} := by
          ext v
          simp
        rw [get?_inheritBest_self hnew, hset]
        exact ih.insert _
      · have hset : {v | e.neighbourEntityId = k ∧ v = inherited alpha e} = (∅ : Set ℚ) := by
          ext v
          simp [hk]
        rw [get?_inheritBest_of_ne hk, hset, Set.union_empty]
        exact ih

end FirstPass

/-! ## 3. The second pass -/

/-- The bucket that an expansion makes with an inherited score. -/
def bucketOf (e : Expansion) (v : ℚ) : EntityBucket :=
  { e.bucket with rankScore := v, bestScore := max e.bucket.bestScore v }

/-- What the second pass has done after the expansions `es`, with `best` the table that it
started with. -/
structure Injected (byEntity : Buckets) (best : InsertionMap EntityId ℚ) (es : List Expansion)
    (acc : (Buckets × InsertionMap EntityId ℚ) × ℕ) : Prop where
  /-- Buckets are appended, and counted. -/
  entries : ∃ added, acc.1.1.entries = byEntity.entries ++ added ∧ added.length = acc.2
  /-- The score of a neighbour is in the table until its bucket is made. -/
  pending : ∀ k, k ∉ acc.1.1.keys → acc.1.2.get? k = best.get? k
  /-- A bucket is made by an expansion, with the score of the table. -/
  made : ∀ k b, k ∉ byEntity.keys → acc.1.1.get? k = some b →
    ∃ e ∈ es, e.neighbourEntityId = k ∧ ∃ v, best.get? k = some v ∧ b = bucketOf e v
  /-- No neighbour with a score is left out. -/
  complete : ∀ e ∈ es, ∀ v, best.get? e.neighbourEntityId = some v →
    e.neighbourEntityId ∈ acc.1.1.keys

section SecondPass

variable {byEntity : Buckets} {best : InsertionMap EntityId ℚ} {es : List Expansion}
  {acc : (Buckets × InsertionMap EntityId ℚ) × ℕ}

/-- An expansion that makes no bucket. -/
theorem Injected.skip (h : Injected byEntity best es acc) {e : Expansion}
    (he : ∀ v, best.get? e.neighbourEntityId = some v → e.neighbourEntityId ∈ acc.1.1.keys) :
    Injected byEntity best (es ++ [e]) acc where
  entries := h.entries
  pending := h.pending
  made k b hk hb := by
    obtain ⟨e', he', hrest⟩ := h.made k b hk hb
    exact ⟨e', List.mem_append_left _ he', hrest⟩
  complete e' he' := by
    rcases List.mem_append.mp he' with he' | he'
    · exact h.complete e' he'
    · obtain rfl := List.mem_singleton.mp he'
      exact he

/-- The first expansion of a neighbour with a score makes its bucket. -/
theorem Injected.inject (h : Injected byEntity best es acc) {e : Expansion} {v : ℚ}
    (hnew : e.neighbourEntityId ∉ acc.1.1.keys)
    (hget : acc.1.2.get? e.neighbourEntityId = some v) :
    Injected byEntity best (es ++ [e])
      ((acc.1.1.set e.neighbourEntityId (bucketOf e v), acc.1.2.delete e.neighbourEntityId),
        acc.2 + 1) where
  entries := by
    obtain ⟨added, hadded, hlen⟩ := h.entries
    refine ⟨added ++ [(e.neighbourEntityId, bucketOf e v)], ?_, ?_⟩
    · rw [← List.append_assoc, ← hadded, InsertionMap.set, dif_neg hnew]
    · rw [List.length_append, hlen, List.length_singleton]
  pending k hk := by
    rw [InsertionMap.mem_keys_set, not_or] at hk
    rw [InsertionMap.get?_delete_of_ne _ hk.1]
    exact h.pending k hk.2
  made k b hk hb := by
    by_cases hke : k = e.neighbourEntityId
    · subst hke
      rw [InsertionMap.get?_set_self, Option.some_inj] at hb
      rw [h.pending _ hnew] at hget
      exact ⟨e, List.mem_append_right _ List.mem_cons_self, rfl, v, hget, hb.symm⟩
    · rw [InsertionMap.get?_set_of_ne _ _ hke] at hb
      obtain ⟨e', he', hrest⟩ := h.made k b hk hb
      exact ⟨e', List.mem_append_left _ he', hrest⟩
  complete e' he' w hw := by
    rw [InsertionMap.mem_keys_set]
    rcases List.mem_append.mp he' with he' | he'
    · exact Or.inr (h.complete e' he' w hw)
    · obtain rfl := List.mem_singleton.mp he'
      exact Or.inl rfl

theorem Injected.step (h : Injected byEntity best es acc) (e : Expansion) :
    Injected byEntity best (es ++ [e]) (injectCounted acc e) := by
  have hhas : acc.1.1.has e.neighbourEntityId = true ↔ e.neighbourEntityId ∈ acc.1.1.keys :=
    InsertionMap.has_iff
  unfold injectCounted
  by_cases hin : e.neighbourEntityId ∈ acc.1.1.keys
  · rw [if_pos (hhas.mpr hin)]
    exact h.skip (fun _ _ => hin)
  · rw [if_neg (fun hc => hin (hhas.mp hc))]
    cases hget : acc.1.2.get? e.neighbourEntityId with
    | none =>
        -- no bucket and no score any more: it never had one
        refine h.skip (fun v hv => ?_)
        rw [← h.pending _ hin, hget] at hv
        cases hv
    | some v =>
        dsimp only
        rw [injectNeighbour, if_neg (fun hc => hin (hhas.mp hc)), hget]
        exact h.inject hin hget

theorem injected_foldl (byEntity : Buckets) (best : InsertionMap EntityId ℚ)
    (es : List Expansion) :
    Injected byEntity best es (es.foldl injectCounted ((byEntity, best), 0)) := by
  induction es using List.reverseRecOn with
  | nil =>
      refine ⟨⟨[], (List.append_nil _).symm, rfl⟩, fun _ _ => rfl, fun k b hk hb => ?_,
        fun e he => by cases he⟩
      exact absurd (InsertionMap.mem_keys_of_get? hb) hk
  | append_singleton es e ih =>
      rw [List.foldl_append, List.foldl_cons, List.foldl_nil]
      exact ih.step e

end SecondPass

/-! ## 4. The merge -/

/-- `merged` is what the expansions make of the buckets, with the number of buckets that are
added. -/
structure Exact (byEntity : Buckets) (expansions : List Expansion) (alpha : ℚ)
    (merged : Buckets × ℕ) : Prop where
  /-- The buckets of before stand first, as they were; the added ones follow. -/
  entries : ∃ added, merged.1.entries = byEntity.entries ++ added ∧ added.length = merged.2
  kept : ∀ k b, byEntity.get? k = some b → merged.1.get? k = some b
  /-- What is added is the absent neighbours that inherit a positive score. -/
  added_iff : ∀ k, k ∉ byEntity.keys →
    (k ∈ merged.1.keys ↔ ∃ e ∈ expansions, e.neighbourEntityId = k ∧ 0 < inherited alpha e)
  /-- An added bucket is one of an expansion of the neighbour, with the greatest score. -/
  bucket : ∀ k b, k ∉ byEntity.keys → merged.1.get? k = some b →
    IsGreatest (scoresOf alpha expansions k) b.rankScore ∧
      ∃ e ∈ expansions, e.neighbourEntityId = k ∧ b = bucketOf e b.rankScore

theorem exact_mergeCounted (byEntity : Buckets) (expansions : List Expansion) {alpha : ℚ}
    (halpha : 0 < alpha) :
    Exact byEntity expansions alpha (mergeCounted byEntity expansions alpha) := by
  have hbest : ∀ k, k ∉ byEntity.keys → IsBest (scoresOf alpha expansions k)
      ((expansions.foldl (inheritBest byEntity alpha) .empty).get? k) := by
    intro k hk
    exact isBest_bestInherited (InsertionMap.has_eq_false_iff.mpr hk) expansions
  unfold mergeCounted
  rw [if_neg (not_le.mpr halpha)]
  dsimp only
  generalize expansions.foldl (inheritBest byEntity alpha) .empty = best at hbest ⊢
  have h := injected_foldl byEntity best expansions
  refine ⟨h.entries, fun k b hb => ?_, fun k hk => ?_, fun k b hk hb => ?_⟩
  · obtain ⟨added, hadded, -⟩ := h.entries
    apply InsertionMap.get?_of_mem
    rw [hadded]
    exact List.mem_append_left _ (InsertionMap.mem_of_get? hb)
  · constructor
    · intro hmem
      obtain ⟨b, hb⟩ := InsertionMap.exists_get?_of_mem_keys hmem
      obtain ⟨-, -, -, v, hv, -⟩ := h.made _ b hk hb
      obtain ⟨hpos, ⟨e, he, hek, rfl⟩, -⟩ := ((hbest _ hk).eq_some_iff v).mp hv
      exact ⟨e, he, hek, hpos⟩
    · rintro ⟨e, he, rfl, hpos⟩
      cases hget : best.get? e.neighbourEntityId with
      | none =>
          have hle := hbest _ hk
          rw [hget] at hle
          exact absurd (hle _ ⟨e, he, rfl, rfl⟩) (not_le.mpr hpos)
      | some v => exact h.complete e he v hget
  · obtain ⟨e, he, hek, v, hv, rfl⟩ := h.made k b hk hb
    exact ⟨(((hbest k hk).eq_some_iff v).mp hv).2, e, he, hek, rfl⟩

section Order

variable {byEntity : Buckets} {es es' : List Expansion} {alpha : ℚ} {merged merged' : Buckets × ℕ}

theorem scoresOf_perm (h : es'.Perm es) (k : EntityId) :
    scoresOf alpha es' k = scoresOf alpha es k := by
  ext v
  simp only [scoresOf, Set.mem_ofPred_eq, h.mem_iff]

/-- Whatever the order of the expansions, the same entities get a bucket. -/
theorem Exact.keys_congr (h : Exact byEntity es alpha merged)
    (h' : Exact byEntity es' alpha merged') (hperm : es'.Perm es) (k : EntityId) :
    k ∈ merged'.1.keys ↔ k ∈ merged.1.keys := by
  by_cases hk : k ∈ byEntity.keys
  · have hkeys : ∀ {m : Buckets} {added : List (EntityId × EntityBucket)},
        m.entries = byEntity.entries ++ added → k ∈ m.keys := by
      intro m added hm
      rw [InsertionMap.keys, hm, List.map_append]
      exact List.mem_append_left _ hk
    obtain ⟨_, hm, -⟩ := h.entries
    obtain ⟨_, hm', -⟩ := h'.entries
    exact iff_of_true (hkeys hm') (hkeys hm)
  · rw [h.added_iff k hk, h'.added_iff k hk]
    simp only [hperm.mem_iff]

/-- And with the same score. -/
theorem Exact.rankScore_congr (h : Exact byEntity es alpha merged)
    (h' : Exact byEntity es' alpha merged') (hperm : es'.Perm es) (k : EntityId) :
    (merged'.1.get? k).map (fun b => b.rankScore) = (merged.1.get? k).map (fun b => b.rankScore) := by
  have hkeys := h.keys_congr h' hperm k
  by_cases hk : k ∈ byEntity.keys
  · obtain ⟨b, hget⟩ := InsertionMap.exists_get?_of_mem_keys hk
    rw [h.kept _ b hget, h'.kept _ b hget]
  · cases hget : merged.1.get? k with
    | none =>
        rw [InsertionMap.get?_eq_none_iff, ← hkeys, ← InsertionMap.get?_eq_none_iff] at hget
        rw [hget, Option.map_none]
    | some b =>
        have hmem := hkeys.mpr (InsertionMap.mem_keys_of_get? hget)
        obtain ⟨b', hget'⟩ := InsertionMap.exists_get?_of_mem_keys hmem
        have hgreatest := (h.bucket _ b hk hget).1
        have hgreatest' := (h'.bucket _ b' hk hget').1
        rw [scoresOf_perm hperm] at hgreatest'
        rw [hget', Option.map_some, Option.map_some, hgreatest'.unique hgreatest]

/-- So as many are added. -/
theorem Exact.count_congr (h : Exact byEntity es alpha merged)
    (h' : Exact byEntity es' alpha merged') (hperm : es'.Perm es) : merged'.2 = merged.2 := by
  have hsize : ∀ {es : List Expansion} {merged : Buckets × ℕ}, Exact byEntity es alpha merged →
      merged.1.keys.length = byEntity.entries.length + merged.2 := by
    intro es merged h
    obtain ⟨added, hm, hlen⟩ := h.entries
    rw [InsertionMap.keys, List.length_map, hm, List.length_append, hlen]
  have hlen := ((List.perm_ext_iff_of_nodup merged'.1.nodup merged.1.nodup).mpr
    (fun k => h.keys_congr h' hperm k)).length_eq
  have hs := hsize h
  have hs' := hsize h'
  unfold InsertionMap.keys at hs hs'
  omega

end Order

/-- **Injection is exact and does not depend on the order.** -/
theorem mergeExpandedNeighbours_exact (byEntity : Buckets) (expansions : List Expansion)
    {alpha : ℚ} (halpha : 0 < alpha) :
    Exact byEntity expansions alpha (mergeCounted byEntity expansions alpha) ∧
    ∀ expansions' : List Expansion, expansions'.Perm expansions →
      (∀ k, k ∈ (mergeCounted byEntity expansions' alpha).1.keys
        ↔ k ∈ (mergeCounted byEntity expansions alpha).1.keys) ∧
      (∀ k, ((mergeCounted byEntity expansions' alpha).1.get? k).map (fun b => b.rankScore)
        = ((mergeCounted byEntity expansions alpha).1.get? k).map (fun b => b.rankScore)) ∧
      (mergeCounted byEntity expansions' alpha).2
        = (mergeCounted byEntity expansions alpha).2 := by
  have h := exact_mergeCounted byEntity expansions halpha
  refine ⟨h, fun expansions' hperm => ?_⟩
  have h' := exact_mergeCounted byEntity expansions' halpha
  exact ⟨h.keys_congr h' hperm, h.rankScore_congr h' hperm, h.count_congr h' hperm⟩

/-- A neighbour that is reached three times. -/
def thrice : List Expansion :=
  [(1, 1), (3, 0), (2, 1)].map (fun (score, weight) =>
    { seedEntityId := 1, seedRankScore := score, neighbourEntityId := 2, edgeWeight := weight
      bucket := { entityId := 2, rankScore := 0, bestScore := 0, facts := [] } })

/-- The theorem above for that neighbour; the middle one of its expansions has no weight. -/
theorem mergeExpandedNeighbours_exact_thrice :
    (mergeCounted .empty thrice (1 / 2)).2 = 1 ∧
    Exact .empty thrice (1 / 2) (mergeCounted .empty thrice (1 / 2)) ∧
    (mergeCounted .empty thrice.reverse (1 / 2)).2 = (mergeCounted .empty thrice (1 / 2)).2 := by
  have halpha : (0 : ℚ) < 1 / 2 := by norm_num
  have h := mergeExpandedNeighbours_exact .empty thrice halpha
  exact ⟨by decide +kernel, h.1, (h.2 thrice.reverse (List.reverse_perm _)).2.2⟩

end Brain.NeighbourInjection
