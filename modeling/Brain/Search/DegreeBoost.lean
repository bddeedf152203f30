/-
What the bucketing makes of the scored rows.

The first loop of `bucketByEntity` puts every row into the bucket of its entity and keeps
the best score; the second goes through the sorted rows of a bucket with a set of seen keys,
a flag for the best row and an early stop. What the second loop adds up is the second and
the third of the greatest scores of the diversity keys (`degreeBoosted_rankScore`), whatever
ties there are, so the order of the rows has no part in it.
-/
import Brain.Lib.KeyMaxima
import Brain.Lib.StableSort
import Brain.Search.Ranking

set_option autoImplicit false

namespace Brain.DegreeBoost

open FirstSeen KeyMaxima

/-! ## 1. Buckets -/

/-- The `diversityKey` of a row. -/
def keyOf (f : ScoredRow) : String := diversityKey f.row.predicate f.row.object

/-- The rows of an entity. -/
def rowsOf (scored : List ScoredRow) (id : EntityId) : List ScoredRow :=
  scored.filter (fun sf => decide (sf.row.entityId = id))

/-- `bestScore`, as the loop updates it. -/
def raised (bestScore : ℚ) (sf : ScoredRow) : ℚ :=
  if bestScore < sf.score then sf.score else bestScore

/-- The bucket of some rows after the first loop. -/
def bucketOf (id : EntityId) (rows : List ScoredRow) : EntityBucket where
  entityId := id
  rankScore := 0
  bestScore := rows.foldl raised 0
  facts := rows

section Buckets

variable {scored : List ScoredRow} {id : EntityId}

/-- **The first loop**: the rows of an entity are in its bucket, in their order. -/
theorem get?_foldl_addToBucket (scored : List ScoredRow) (id : EntityId) :
    (scored.foldl addToBucket .empty).get? id
      = if rowsOf scored id = [] then none else some (bucketOf id (rowsOf scored id)) := by
  induction scored using List.reverseRecOn with
  | nil => rfl
  | append_singleton scored sf ih =>
      rw [List.foldl_append, List.foldl_cons, List.foldl_nil]
      have hrows : rowsOf (scored ++ [sf]) id
          = rowsOf scored id ++ if sf.row.entityId = id then [sf] else [] := by
        unfold rowsOf
        rw [List.filter_append]
        by_cases hid : sf.row.entityId = id
        · simp [hid]
        · simp [hid]
      by_cases hid : sf.row.entityId = id
      · subst hid
        rw [hrows, if_pos rfl, if_neg (List.append_ne_nil_of_right_ne_nil _ (List.cons_ne_nil _ _))]
        rw [addToBucket, InsertionMap.get?_set_self, ih]
        by_cases hnil : rowsOf scored sf.row.entityId = []
        · rw [if_pos hnil, hnil]
          rfl
        · rw [if_neg hnil, Option.getD_some]
          unfold bucketOf
          rw [List.foldl_append]
          rfl
      · rw [hrows, if_neg hid, List.append_nil, ← ih]
        rw [addToBucket]
        exact InsertionMap.get?_set_of_ne _ _ (Ne.symm hid)

theorem get?_bucketByEntity (scored : List ScoredRow) (id : EntityId) :
    (bucketByEntity scored).get? id
      = if rowsOf scored id = [] then none
        else some (degreeBoosted (bucketOf id (rowsOf scored id))) := by
  unfold bucketByEntity
  rw [InsertionMap.get?_mapValues, get?_foldl_addToBucket]
  split
  · rfl
  · rfl

/-- A bucket holds the rows of its entity, and there is one for every entity with rows. -/
theorem get?_bucketByEntity_eq_some_iff {b : EntityBucket} :
    (bucketByEntity scored).get? id = some b
      ↔ rowsOf scored id ≠ [] ∧ b = degreeBoosted (bucketOf id (rowsOf scored id)) := by
  rw [get?_bucketByEntity]
  split
  · next h => simp [h]
  · next h => simp [h, eq_comm]

end Buckets

/-! ## 2. The boost -/

section Boost

variable {facts : List ScoredRow}

/-- The running best score is no less than the scores so far, and it is one of them or the 0 that
it starts from. -/
theorem foldl_raised_spec (facts : List ScoredRow) :
    (∀ f ∈ facts, f.score ≤ facts.foldl raised 0) ∧
      (facts.foldl raised 0 = 0 ∨ ∃ f ∈ facts, facts.foldl raised 0 = f.score) := by
  induction facts using List.reverseRecOn with
  | nil => exact ⟨fun f hf => absurd hf List.not_mem_nil, Or.inl rfl⟩
  | append_singleton facts f ih =>
      obtain ⟨hall, hmem⟩ := ih
      have hle : facts.foldl raised 0 ≤ raised (facts.foldl raised 0) f ∧
          f.score ≤ raised (facts.foldl raised 0) f := by
        unfold raised
        split
        · next hlt => exact ⟨hlt.le, le_refl _⟩
        · next hlt => exact ⟨le_refl _, not_lt.mp hlt⟩
      rw [List.foldl_append, List.foldl_cons, List.foldl_nil]
      refine ⟨fun g hg => ?_, ?_⟩
      · rcases List.mem_append.mp hg with hg | hg
        · exact (hall g hg).trans hle.1
        · rw [List.mem_singleton.mp hg]
          exact hle.2
      · by_cases hlt : facts.foldl raised 0 < f.score
        · rw [raised, if_pos hlt]
          exact Or.inr ⟨f, List.mem_append_right _ List.mem_cons_self, rfl⟩
        · rw [raised, if_neg hlt]
          refine hmem.imp_right ?_
          rintro ⟨g, hg, heq⟩
          exact ⟨g, List.mem_append_left _ hg, heq⟩

/-- `bestScore` is the greatest score, if no score is negative. -/
theorem isGreatest_bestScore (hpos : ∀ f ∈ facts, 0 ≤ f.score) (hne : facts ≠ []) :
    IsGreatest {s | ∃ f ∈ facts, s = f.score} (facts.foldl raised 0) := by
  obtain ⟨hall, hmem⟩ := foldl_raised_spec facts
  refine ⟨?_, ?_⟩
  · rcases hmem with heq | hmem
    · -- nothing exceeded 0, so every score is 0
      obtain ⟨f, hf⟩ := List.exists_mem_of_ne_nil facts hne
      exact ⟨f, hf, le_antisymm (heq.le.trans (hpos f hf)) (hall f hf)⟩
    · exact hmem
  · rintro s ⟨f, hf, rfl⟩
    exact hall f hf

/-- One turn of the loop. -/
theorem supplementary_cons (bestScore : ℚ) (f : ScoredRow) (sortedFacts : List ScoredRow)
    (seenKeys : List String) (skippedBest : Bool) (acc : List ℚ) :
    supplementary bestScore (f :: sortedFacts) seenKeys skippedBest acc
      = if keyOf f ∈ seenKeys then supplementary bestScore sortedFacts seenKeys skippedBest acc
        else if f.score = bestScore ∧ skippedBest = false then
          supplementary bestScore sortedFacts (keyOf f :: seenKeys) true acc
        else if 2 ≤ acc.length + 1 then acc ++ [f.score]
        else supplementary bestScore sortedFacts (keyOf f :: seenKeys) skippedBest
          (acc ++ [f.score]) := by
  rw [supplementary]
  simp only [List.contains_iff_mem]
  rfl

/-- Once the best row is skipped, the loop takes the first rows of the next two keys. -/
theorem supplementary_skipped (bestScore : ℚ) (sortedFacts : List ScoredRow) :
    ∀ (seenKeys : List String) (acc : List ℚ), acc.length < 2 →
      supplementary bestScore sortedFacts seenKeys true acc
        = acc ++ ((keepFrom keyOf seenKeys sortedFacts).map (fun f => f.score)).take
            (2 - acc.length) := by
  induction sortedFacts with
  | nil =>
      intro seenKeys acc _
      simp [supplementary, keepFrom]
  | cons f sortedFacts ih =>
      intro seenKeys acc hacc
      rw [supplementary_cons, keepFrom]
      by_cases hseen : keyOf f ∈ seenKeys
      · rw [if_pos hseen, if_pos hseen]
        exact ih seenKeys acc hacc
      · rw [if_neg hseen, if_neg hseen, if_neg (fun h => Bool.noConfusion h.2), List.map_cons]
        by_cases hlast : 2 ≤ acc.length + 1
        · have hlen : acc.length = 1 := by omega
          rw [if_pos hlast, hlen, List.take_succ_cons, List.take_zero]
        · have hlen : acc.length = 0 := by omega
          rw [if_neg hlast, ih _ _ (by rw [List.length_append, hlen, List.length_singleton]; decide),
            List.length_append, hlen, List.take_succ_cons, List.append_assoc]
          rfl

/-- The greatest scores of the diversity keys of some rows, greatest first. -/
def keyScores (facts : List ScoredRow) : List ℚ := maxima 0 keyOf (fun f => f.score) facts

/-- **The second loop** adds up the second and the third of the key scores. -/
theorem sum_supplementary (hpos : ∀ f ∈ facts, 0 ≤ f.score) :
    (supplementary (facts.foldl raised 0)
        (facts.insertionSort (fun a b => b.score ≤ a.score)) [] false []).sum
      = (keyScores facts).getD 1 0 + (keyScores facts).getD 2 0 := by
  have hperm := List.perm_insertionSort (fun a b : ScoredRow => b.score ≤ a.score) facts
  have hsorted := StableSort.pairwise_greatestFirst (fun f : ScoredRow => f.score) facts
  have hmaxima : (firstSeen keyOf (facts.insertionSort (fun a b => b.score ≤ a.score))).map
      (fun f => f.score) = keyScores facts := by
    rw [map_firstSeen_of_sorted (d := 0) (fun f hf => hpos f (hperm.mem_iff.mp hf)) hsorted]
    exact maxima_perm hperm
  cases hcase : facts.insertionSort (fun a b => b.score ≤ a.score) with
  | nil =>
      rw [hcase] at hmaxima
      rw [← hmaxima]
      simp [supplementary, firstSeen, keepFrom]
  | cons f rest =>
      rw [hcase] at hperm hsorted hmaxima
      -- the first row has the best score
      have hne : facts ≠ [] := by
        intro hnil
        rw [hnil] at hperm
        exact List.cons_ne_nil _ _ hperm.eq_nil
      have hgreatest := isGreatest_bestScore hpos hne
      have hbest : f.score = facts.foldl raised 0 := by
        have hf : f ∈ facts := hperm.mem_iff.mp List.mem_cons_self
        have hfirst : IsGreatest {s | ∃ f ∈ facts, s = f.score} f.score := by
          refine ⟨⟨f, hf, rfl⟩, ?_⟩
          rintro s ⟨g, hg, rfl⟩
          rcases List.mem_cons.mp (hperm.mem_iff.mpr hg) with rfl | hg
          · exact le_refl _
          · exact (List.pairwise_cons.mp hsorted).1 g hg
        exact hfirst.unique hgreatest
      rw [supplementary_cons, if_neg List.not_mem_nil, if_pos ⟨hbest, rfl⟩,
        supplementary_skipped _ _ _ _ (by decide), List.nil_append]
      rw [firstSeen, keepFrom, if_neg List.not_mem_nil, List.map_cons] at hmaxima
      rw [← hmaxima]
      show (((keepFrom keyOf [keyOf f] rest).map (fun f => f.score)).take 2).sum = _
      cases (keepFrom keyOf [keyOf f] rest).map (fun f => f.score) with
      | nil => simp
      | cons second others =>
          cases others with
          | nil => simp
          | cons third others => simp

theorem degreeBoosted_rankScore (id : EntityId) (hpos : ∀ f ∈ facts, 0 ≤ f.score) :
    (degreeBoosted (bucketOf id facts)).rankScore
      = facts.foldl raised 0
        + 3 / 10 * ((keyScores facts).getD 1 0 + (keyScores facts).getD 2 0) := by
  have hsum := sum_supplementary hpos
  unfold degreeBoosted DEGREE_BOOST_WEIGHT bucketOf
  dsimp only
  rw [hsum]

end Boost

/-! ## 3. The map -/

section Map

variable {scored : List ScoredRow} {id : EntityId}

theorem mem_rowsOf {sf : ScoredRow} : sf ∈ rowsOf scored id ↔ sf ∈ scored ∧ sf.row.entityId = id := by
  rw [rowsOf, List.mem_filter, decide_eq_true_iff]

theorem mem_keys_bucketByEntity :
    id ∈ (bucketByEntity scored).keys ↔ ∃ sf ∈ scored, sf.row.entityId = id := by
  rw [← not_iff_not, ← InsertionMap.get?_eq_none_iff, get?_bucketByEntity]
  constructor
  · rintro h ⟨sf, hsf, hid⟩
    have hne : rowsOf scored id ≠ [] := List.ne_nil_of_mem (mem_rowsOf.mpr ⟨hsf, hid⟩)
    rw [if_neg hne] at h
    cases h
  · intro h
    rw [if_pos]
    refine List.eq_nil_iff_forall_not_mem.mpr (fun sf hsf => h ⟨sf, ?_⟩)
    exact mem_rowsOf.mp hsf

/-- The buckets hold the rows between them. -/
theorem flatMap_facts_perm (scored : List ScoredRow) :
    ((bucketByEntity scored).values.flatMap (fun b => b.facts)).Perm scored := by
  have hfacts : (bucketByEntity scored).values.flatMap (fun b => b.facts)
      = (bucketByEntity scored).keys.flatMap (rowsOf scored) := by
    rw [InsertionMap.values, InsertionMap.keys, List.flatMap_map, List.flatMap_map]
    refine List.flatMap_congr (fun e he => ?_)
    have hget := InsertionMap.get?_of_mem (k := e.1) (v := e.2) he
    rw [(get?_bucketByEntity_eq_some_iff.mp hget).2]
    rfl
  rw [hfacts]
  exact Grouping.flatMap_filter_perm (fun sf : ScoredRow => sf.row.entityId)
    (bucketByEntity scored).nodup (fun sf hsf => mem_keys_bucketByEntity.mpr ⟨sf, hsf, rfl⟩)

/-- Neither of the two scores of a bucket depends on the order of the rows. -/
theorem scores_perm {scored' : List ScoredRow} (hpos : ∀ sf ∈ scored, 0 ≤ sf.score)
    (hperm : scored'.Perm scored) (id : EntityId) :
    ((bucketByEntity scored').get? id).map (fun b => (b.bestScore, b.rankScore))
      = ((bucketByEntity scored).get? id).map (fun b => (b.bestScore, b.rankScore)) := by
  have hrows : ∀ f ∈ rowsOf scored id, 0 ≤ f.score := fun f hf => hpos f (mem_rowsOf.mp hf).1
  have hp : (rowsOf scored' id).Perm (rowsOf scored id) := hperm.filter _
  rw [get?_bucketByEntity, get?_bucketByEntity]
  by_cases hnil : rowsOf scored id = []
  · have hnil' : rowsOf scored' id = [] := (hnil ▸ hp).eq_nil
    rw [if_pos hnil, if_pos hnil']
  · have hnil' : rowsOf scored' id ≠ [] := fun h => hnil ((h ▸ hp).symm.eq_nil)
    have hrows' : ∀ f ∈ rowsOf scored' id, 0 ≤ f.score :=
      fun f hf => hrows f (hp.mem_iff.mp hf)
    have hset : {s | ∃ f ∈ rowsOf scored' id, s = f.score}
        = {s | ∃ f ∈ rowsOf scored id, s = f.score} := by
      ext s
      simp only [Set.mem_ofPred_eq, hp.mem_iff]
    have hbest := isGreatest_bestScore hrows' hnil'
    rw [hset] at hbest
    have heq := hbest.unique (isGreatest_bestScore hrows hnil)
    have hkeys : keyScores (rowsOf scored' id) = keyScores (rowsOf scored id) := maxima_perm hp
    rw [if_neg hnil, if_neg hnil', Option.map_some, Option.map_some,
      degreeBoosted_rankScore id hrows', degreeBoosted_rankScore id hrows, heq, hkeys]
    show some ((rowsOf scored' id).foldl raised 0, _) = some ((rowsOf scored id).foldl raised 0, _)
    rw [heq]

end Map

/-- **The buckets of some rows**: the rows by their entities, none lost; the best score of
each; and the boost by the second and the third of the scores of its diversity keys. -/
theorem bucketByEntity_exact (scored : List ScoredRow) (hpos : ∀ sf ∈ scored, 0 ≤ sf.score) :
    (∀ id, id ∈ (bucketByEntity scored).keys ↔ ∃ sf ∈ scored, sf.row.entityId = id) ∧
    ((bucketByEntity scored).values.flatMap (fun b => b.facts)).Perm scored ∧
    (∀ id b, (bucketByEntity scored).get? id = some b →
      b.entityId = id ∧ b.facts = rowsOf scored id ∧
      IsGreatest {s | ∃ f ∈ b.facts, s = f.score} b.bestScore ∧
      b.rankScore
        = b.bestScore + 3 / 10 * ((keyScores b.facts).getD 1 0 + (keyScores b.facts).getD 2 0)) ∧
    ∀ scored' : List ScoredRow, scored'.Perm scored → ∀ id,
      ((bucketByEntity scored').get? id).map (fun b => (b.bestScore, b.rankScore))
        = ((bucketByEntity scored).get? id).map (fun b => (b.bestScore, b.rankScore)) := by
  have hrows : ∀ id, ∀ f ∈ rowsOf scored id, 0 ≤ f.score :=
    fun id f hf => hpos f (mem_rowsOf.mp hf).1
  refine ⟨fun id => mem_keys_bucketByEntity, flatMap_facts_perm scored, fun id b hb => ?_,
    fun scored' hperm id => ?_⟩
  · obtain ⟨hne, rfl⟩ := get?_bucketByEntity_eq_some_iff.mp hb
    exact ⟨rfl, rfl, isGreatest_bestScore (hrows id) hne, degreeBoosted_rankScore id (hrows id)⟩
  · exact scores_perm hpos hperm id

/-- A scored row that says something. -/
def rowSaying (predicate : String) (score : ℚ) : ScoredRow where
  row :=
    { id := 1, entityId := 1, predicate := predicate, object := "", confidence := .full
      validFrom := 0, validUntil := none, recordedAt := 0, retractedAt := none, status := .active
      source := {}, fusedScore := score }
  score := score
  breakdown :=
    { fusedScore := score, confidence := 1, decay := 1, predBoost := 1, finalScore := score
      stages := [] }

/-- The theorem above where two keys are tied for the best score, and one has a second row. -/
theorem bucketByEntity_exact_tied :
    let scored := [rowSaying "a" 1, rowSaying "b" 1, rowSaying "a" (1 / 2), rowSaying "c" (1 / 2)]
    ((bucketByEntity scored).get? 1).map (fun b => (b.bestScore, b.rankScore))
        = some (1, 1 + 3 / 10 * (1 + 1 / 2)) ∧
    ((bucketByEntity scored.reverse).get? 1).map (fun b => (b.bestScore, b.rankScore))
        = ((bucketByEntity scored).get? 1).map (fun b => (b.bestScore, b.rankScore)) := by
  intro scored
  have hpos : ∀ sf ∈ scored, 0 ≤ sf.score := by decide +kernel
  exact ⟨by decide +kernel,
    (bucketByEntity_exact scored hpos).2.2.2 scored.reverse (List.reverse_perm scored) 1⟩

end Brain.DegreeBoost
