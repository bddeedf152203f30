/-
What stands in the hits of a search.

A hit shows at most five facts: those of the bucket by their scores, then from the backfill
the most recent fact of each predicate that is not shown yet. The first are told apart by
their ids, and the others by their predicates only. So the ids in a hit are distinct as long
as the rows that the backfill has of an entity do not have one id under two predicates,
which the rows of a table cannot have (`onePredicate_backfillEntityFacts`).
-/
import Brain.Lib.KeyMaxima
import Brain.Lib.StableSort
import Brain.Search.ResponseBuilder

set_option autoImplicit false

namespace Brain.HitAssembly

open FirstSeen

/-! ## 1. The two sources -/

/-- The source of a fact is enough for the request. -/
def sourced (requireProvenance : Bool) (src : FactSource) : Bool :=
  !requireProvenance || hasProvenance src

/-- The rows that the backfill has of an entity. -/
def backfillOf (backfillByEntity : InsertionMap EntityId (List FactRow)) (e : EntityBucket) :
    List FactRow :=
  (backfillByEntity.get? e.entityId).getD []

/-- A row of the backfill that may be shown: it is not among the matched facts. -/
def Admissible (backfillByEntity : InsertionMap EntityId (List FactRow))
    (requireProvenance : Bool) (e : EntityBucket) (r : FactRow) : Prop :=
  r ∈ backfillOf backfillByEntity e ∧ r.id ∉ e.facts.map (fun sf => sf.row.id) ∧
    sourced requireProvenance r.source = true

/-- The hit shows the facts `matched` of the bucket, and then the rows `backfill`. -/
structure Shows (backfillByEntity : InsertionMap EntityId (List FactRow))
    (requireProvenance : Bool) (e : EntityBucket) (hit : SearchHit) (matched : List ScoredRow)
    (backfill : List FactRow) : Prop where
  entity : hit.entityId = e.entityId
  facts : hit.facts = matched.map renderMatched ++ backfill.map renderBackfill
  capped : hit.facts.length ≤ 5
  matched_mem : ∀ sf ∈ matched, sf ∈ e.facts ∧ sourced requireProvenance sf.row.source = true
  byScore : matched.Pairwise (fun a b => b.score ≤ a.score)
  backfill_mem : ∀ r ∈ backfill, Admissible backfillByEntity requireProvenance e r
  predicates : (backfill.map (fun r => r.predicate)).Nodup
  newPredicate : ∀ r ∈ backfill, ∀ sf ∈ matched, sf.row.predicate ≠ r.predicate
  newest : ∀ r ∈ backfill, ∀ r', Admissible backfillByEntity requireProvenance e r' →
    r'.predicate = r.predicate → r'.recordedAt ≤ r.recordedAt

/-- And no fact twice. -/
def ShowsOnce (hit : SearchHit) : Prop := (hit.facts.map (fun f => f.factId)).Nodup

/-- Rows with one id have one predicate. -/
def OnePredicate (rows : List FactRow) : Prop :=
  ∀ r ∈ rows, ∀ r' ∈ rows, r.id = r'.id → r.predicate = r'.predicate

instance (rows : List FactRow) : Decidable (OnePredicate rows) :=
  inferInstanceAs (Decidable (∀ r ∈ rows, ∀ r' ∈ rows, r.id = r'.id → r.predicate = r'.predicate))

theorem newPredicates_eq_keepFrom (rows : List FactRow) : ∀ seen : List String,
    newPredicates rows seen = keepFrom (fun r => r.predicate) seen rows := by
  induction rows with
  | nil => exact fun _ => rfl
  | cons r rows ih =>
      intro seen
      rw [newPredicates, keepFrom, ih, ih]
      simp only [List.contains_iff_mem]

section Hit

variable {backfillByEntity : InsertionMap EntityId (List FactRow)} {requireProvenance : Bool}
  {e : EntityBucket}

/-- The matched facts of a hit before the cap. -/
def matchedRows (requireProvenance : Bool) (e : EntityBucket) : List ScoredRow :=
  (e.facts.filter (fun sf => sourced requireProvenance sf.row.source)).insertionSort
    (fun a b => b.score ≤ a.score)

/-- The rows of the backfill that the loop goes through. -/
def candidates (backfillByEntity : InsertionMap EntityId (List FactRow))
    (requireProvenance : Bool) (e : EntityBucket) : List FactRow :=
  ((backfillOf backfillByEntity e).filter (fun r =>
    !(e.facts.map (fun sf => sf.row.id)).contains r.id &&
      sourced requireProvenance r.source)).insertionSort (fun a b => b.recordedAt ≤ a.recordedAt)

/-- The rows of the backfill of a hit before the cap. -/
def newRows (backfillByEntity : InsertionMap EntityId (List FactRow)) (requireProvenance : Bool)
    (e : EntityBucket) : List FactRow :=
  keepFrom (fun r => r.predicate)
    ((matchedRows requireProvenance e).map (fun sf => sf.row.predicate))
    (candidates backfillByEntity requireProvenance e)

theorem facts_assembleHit : (assembleHit backfillByEntity requireProvenance e).facts
    = ((matchedRows requireProvenance e).take 5).map renderMatched
      ++ ((newRows backfillByEntity requireProvenance e).take
          (5 - (matchedRows requireProvenance e).length)).map renderBackfill := by
  have hpredicates : ((matchedRows requireProvenance e).map renderMatched).map (fun f => f.predicate)
      = (matchedRows requireProvenance e).map (fun sf => sf.row.predicate) := List.map_map
  show (((matchedRows requireProvenance e).map renderMatched)
    ++ (newPredicates (candidates backfillByEntity requireProvenance e)
        (((matchedRows requireProvenance e).map renderMatched).map (fun f => f.predicate))).map
          renderBackfill).take 5 = _
  rw [hpredicates, newPredicates_eq_keepFrom, List.take_append, List.length_map, List.map_take,
    List.map_take, newRows]

theorem mem_candidates {r : FactRow} : r ∈ candidates backfillByEntity requireProvenance e
    ↔ Admissible backfillByEntity requireProvenance e r := by
  rw [candidates, List.mem_insertionSort, List.mem_filter, Bool.and_eq_true, Bool.not_eq_true',
    Admissible, ← Bool.not_eq_true, List.contains_iff_mem]

/-- **The facts of a hit.** -/
theorem shows_assembleHit (backfillByEntity : InsertionMap EntityId (List FactRow))
    (requireProvenance : Bool) (e : EntityBucket) :
    Shows backfillByEntity requireProvenance e (assembleHit backfillByEntity requireProvenance e)
      ((matchedRows requireProvenance e).take 5)
      ((newRows backfillByEntity requireProvenance e).take
        (5 - (matchedRows requireProvenance e).length)) := by
  have hmatched : (matchedRows requireProvenance e).Pairwise (fun a b => b.score ≤ a.score) :=
    StableSort.pairwise_greatestFirst (fun sf : ScoredRow => sf.score) _
  have hcandidates : (candidates backfillByEntity requireProvenance e).Pairwise
      (fun a b => b.recordedAt ≤ a.recordedAt) :=
    StableSort.pairwise_greatestFirst (fun r : FactRow => r.recordedAt) _
  have hnew : ∀ {r}, r ∈ (newRows backfillByEntity requireProvenance e).take
      (5 - (matchedRows requireProvenance e).length) →
        r ∈ newRows backfillByEntity requireProvenance e := fun h => List.mem_of_mem_take h
  refine ⟨rfl, facts_assembleHit, ?_, fun sf hsf => ?_, hmatched.sublist (List.take_sublist _ _),
    fun r hr => mem_candidates.mp (mem_of_mem_keepFrom (hnew hr)), ?_, fun r hr sf hsf heq => ?_,
    fun r hr r' hr' heq => ?_⟩
  · unfold assembleHit
    dsimp only
    exact List.length_take_le _ _
  · have hmem := List.mem_of_mem_take hsf
    rw [matchedRows, List.mem_insertionSort, List.mem_filter] at hmem
    exact hmem
  · refine List.Nodup.sublist ((List.take_sublist _ _).map _) ?_
    rw [newRows, map_keepFrom]
    exact Grouping.nodup_eraseDups _
  · have hseen := key_not_mem_of_mem_keepFrom (hnew hr)
    rw [← heq] at hseen
    exact hseen (List.mem_map_of_mem (List.mem_of_mem_take hsf))
  · exact KeyMaxima.score_le_of_mem_keepFrom hcandidates (hnew hr) r' (mem_candidates.mpr hr') heq

/-- **No fact is shown twice**, if the facts of the bucket are distinct and the backfill has no
id under two predicates. -/
theorem Shows.once {hit : SearchHit} {matched : List ScoredRow} {backfill : List FactRow}
    (h : Shows backfillByEntity requireProvenance e hit matched backfill)
    (hmatched : (matched.map (fun sf => sf.row.id)).Nodup)
    (hone : OnePredicate (backfillOf backfillByEntity e)) : ShowsOnce hit := by
  have hids : hit.facts.map (fun f => f.factId)
      = matched.map (fun sf => sf.row.id) ++ backfill.map (fun r => r.id) := by
    rw [h.facts, List.map_append, List.map_map, List.map_map]
    rfl
  have hbackfill : (backfill.map (fun r => r.id)).Nodup := by
    have hpredicates := h.predicates
    rw [List.nodup_iff_pairwise_ne, List.pairwise_map] at hpredicates ⊢
    refine hpredicates.imp_of_mem (fun {r r'} hr hr' hne hid => hne ?_)
    exact hone r (h.backfill_mem r hr).1 r' (h.backfill_mem r' hr').1 hid
  unfold ShowsOnce
  rw [hids]
  refine hmatched.append hbackfill (fun id hid hid' => ?_)
  obtain ⟨sf, hsf, rfl⟩ := List.mem_map.mp hid
  obtain ⟨r, hr, heq⟩ := List.mem_map.mp hid'
  refine (h.backfill_mem r hr).2.1 ?_
  rw [heq]
  exact List.mem_map_of_mem (h.matched_mem sf hsf).1

theorem nodup_matchedRows (hdistinct : (e.facts.map (fun sf => sf.row.id)).Nodup) :
    (((matchedRows requireProvenance e).take 5).map (fun sf => sf.row.id)).Nodup := by
  refine List.Nodup.sublist ((List.take_sublist _ _).map _) ?_
  rw [matchedRows, ((List.perm_insertionSort _ _).map _).nodup_iff]
  exact hdistinct.sublist ((List.filter_sublist).map _)

end Hit

/-! ## 2. The hits -/

/-- The buckets that have a hit: of the types that are asked for, and with a fact if facts have
to have a source. -/
def shownBuckets (topEntities : List EntityBucket)
    (backfillByEntity : InsertionMap EntityId (List FactRow)) (entityTypes : Option (List String))
    (requireProvenance : Bool) : List EntityBucket :=
  (topEntities.filter (hasEntityType entityTypes)).filter (fun e =>
    !requireProvenance || !(assembleHit backfillByEntity requireProvenance e).facts.isEmpty)

theorem assembleHits_eq (topEntities : List EntityBucket)
    (backfillByEntity : InsertionMap EntityId (List FactRow)) (entityTypes : Option (List String))
    (requireProvenance : Bool) :
    assembleHits topEntities backfillByEntity entityTypes requireProvenance
      = (shownBuckets topEntities backfillByEntity entityTypes requireProvenance).map
          (assembleHit backfillByEntity requireProvenance) := by
  unfold assembleHits shownBuckets
  rw [List.filter_map]
  rfl

/-- The rows of the backfill query are those of stored facts. -/
theorem onePredicate_backfillEntityFacts (db : SearchDb) (entityIds : List EntityId)
    (baseWhere : List EntityId → List WhereClause) (callerScopes : List BrainScope)
    (e : EntityBucket) :
    OnePredicate (backfillOf (backfillEntityFacts db entityIds baseWhere callerScopes) e) := by
  have hstored : ∀ r ∈ backfillOf (backfillEntityFacts db entityIds baseWhere callerScopes) e,
      ∃ f, db.store.facts.get? r.id = some f ∧ r.predicate = f.predicate := by
    intro r hr
    unfold backfillOf at hr
    cases hget : (backfillEntityFacts db entityIds baseWhere callerScopes).get? e.entityId with
    | none =>
        rw [hget] at hr
        exact absurd hr List.not_mem_nil
    | some rows =>
        rw [hget, Option.getD_some] at hr
        have hentry := InsertionMap.mem_entries_ofList (InsertionMap.mem_of_get? hget)
        obtain ⟨q, -, heq⟩ := List.mem_map.mp hentry
        rw [← (Prod.mk.inj heq).2] at hr
        have hrow := (List.mem_filter.mp hr).1
        obtain ⟨⟨i, f⟩, hq, rfl⟩ := List.mem_map.mp hrow
        have hmem := (List.mem_filter.mp (List.mem_of_mem_take hq)).1
        rw [List.mem_insertionSort] at hmem
        exact ⟨f, KeyedTable.mem_rows_iff.mp hmem, rfl⟩
  intro r hr r' hr' hid
  obtain ⟨f, hf, hp⟩ := hstored r hr
  obtain ⟨f', hf', hp'⟩ := hstored r' hr'
  rw [hid, hf', Option.some_inj] at hf
  rw [hp, hp', hf]

/-- **The hits respect their caps and their sources**, for every backfill in which the rows of
an entity do not have one id under two predicates. -/
theorem assembleHits_exact {topEntities : List EntityBucket}
    (hdistinct : ∀ e ∈ topEntities, (e.facts.map (fun sf => sf.row.id)).Nodup)
    {backfillByEntity : InsertionMap EntityId (List FactRow)}
    (hone : ∀ e ∈ topEntities, OnePredicate (backfillOf backfillByEntity e))
    (entityTypes : Option (List String)) (requireProvenance : Bool) :
    ∃ shown : List EntityBucket, shown.Sublist topEntities ∧
      List.Forall₂ (fun e hit => ShowsOnce hit ∧
          ∃ matched backfill, Shows backfillByEntity requireProvenance e hit matched backfill)
        shown (assembleHits topEntities backfillByEntity entityTypes requireProvenance) := by
  have hsub : (shownBuckets topEntities backfillByEntity entityTypes requireProvenance).Sublist
      topEntities := (List.filter_sublist).trans List.filter_sublist
  refine ⟨_, hsub, ?_⟩
  rw [assembleHits_eq, List.forall₂_map_right_iff]
  refine List.forall₂_same.mpr (fun e he => ?_)
  have hmem := hsub.subset he
  have hshows := shows_assembleHit backfillByEntity requireProvenance e
  exact ⟨hshows.once (nodup_matchedRows (hdistinct e hmem)) (hone e hmem), _, _, hshows⟩

/-! ## 3. Two rows with one id -/

/-- A row of the backfill. -/
def backfillRow (id : FactId) (predicate : String) : FactRow where
  id := id
  entityId := 1
  predicate := predicate
  object := ""
  confidence := .full
  validFrom := 0
  validUntil := none
  recordedAt := 0
  retractedAt := none
  status := .active
  source := {}

/-- A bucket with a matched fact. -/
def oneMatched : EntityBucket where
  entityId := 1
  rankScore := 1
  bestScore := 1
  facts :=
    [{ row := { backfillRow 5 "name" with fusedScore := 1 }
       score := 1
       breakdown := { fusedScore := 1, confidence := 1, decay := 1, predBoost := 1, finalScore := 1
                      stages := [] } }]

/-- The theorem above for that bucket and two rows of the backfill. -/
theorem assembleHits_exact_two :
    ∃ shown : List EntityBucket, shown.Sublist [oneMatched] ∧
      List.Forall₂ (fun e hit => ShowsOnce hit ∧ ∃ matched backfill,
          Shows (.ofList [(1, [backfillRow 7 "a", backfillRow 8 "b"])]) false e hit matched backfill)
        shown (assembleHits [oneMatched]
          (.ofList [(1, [backfillRow 7 "a", backfillRow 8 "b"])]) none false) :=
  assembleHits_exact (by decide +kernel) (by decide +kernel) none false

/-- With one id under two predicates the hit shows it twice. -/
theorem assembleHits_shows_twice :
    (assembleHits [oneMatched] (.ofList [(1, [backfillRow 7 "a", backfillRow 7 "b"])]) none false).map
      (fun hit => hit.facts.map (fun f => f.factId)) = [[5, 7, 7]] ∧
    ¬ ∀ hit ∈ assembleHits [oneMatched]
        (.ofList [(1, [backfillRow 7 "a", backfillRow 7 "b"])]) none false, ShowsOnce hit := by
  have hids : (assembleHits [oneMatched]
      (.ofList [(1, [backfillRow 7 "a", backfillRow 7 "b"])]) none false).map
        (fun hit => hit.facts.map (fun f => f.factId)) = [[5, 7, 7]] := by decide +kernel
  refine ⟨hids, fun h => ?_⟩
  have hall : ∀ ids ∈ (assembleHits [oneMatched]
      (.ofList [(1, [backfillRow 7 "a", backfillRow 7 "b"])]) none false).map
        (fun hit => hit.facts.map (fun f => f.factId)), ids.Nodup := by
    intro ids hids
    obtain ⟨hit, hhit, rfl⟩ := List.mem_map.mp hids
    exact h hit hhit
  rw [hids] at hall
  exact absurd (hall _ List.mem_cons_self) (by decide)

end Brain.HitAssembly
