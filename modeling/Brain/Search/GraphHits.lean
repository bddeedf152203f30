/-
What the graph path shows of the entities that it has found.

`assembleGraphHits` lists the seeds that it knows, then the other entities with a fact that
was asked for, each once; that much holds of all its inputs. Of the facts of an entity it
means to keep the most recently recorded one of each predicate and object. Its key for the
two is a string in which they are joined by two colons, and predicates and objects may have
colons as well. So it keeps one fact of each pair as long as the keys of an entity's rows
tell their pairs apart (`assembleGraphHits_exact_iff`).
-/
import Brain.Lib.NewestOfEach
import Brain.Search.GraphRetrieve

set_option autoImplicit false

namespace Brain.GraphHits

/-! ## 1. Rows -/

/-- A fact row as the assembly is given it: its `recordedAt` may be missing. -/
structure TimedFact where
  fact : GraphFact
  recordedAt : Option Time

/-- The row with the time that `new Date(r.recordedAt ?? 0)` reads. -/
def TimedFact.read (f : TimedFact) : GraphFact :=
  { f.fact with row := { f.fact.row with recordedAt := f.recordedAt.getD 0 } }

/-- The rows of all entities, read so. -/
def readFacts (factsByEntity : InsertionMap EntityId (List TimedFact)) :
    InsertionMap EntityId (List GraphFact) :=
  .ofList (factsByEntity.entries.map (fun e => (e.1, e.2.map TimedFact.read)))

/-- `factsByEntity.get(id) ?? []`. -/
def rowsOf (factsByEntity : InsertionMap EntityId (List TimedFact)) (id : EntityId) :
    List GraphFact :=
  ((factsByEntity.get? id).getD []).map TimedFact.read

theorem getD_readFacts (factsByEntity : InsertionMap EntityId (List TimedFact)) (id : EntityId) :
    ((readFacts factsByEntity).get? id).getD [] = rowsOf factsByEntity id := by
  unfold readFacts rowsOf
  rw [InsertionMap.get?_ofList_map factsByEntity (fun rows => rows.map TimedFact.read) id]
  cases factsByEntity.get? id with
  | none => rfl
  | some rows => rfl

/-- What a fact says of its entity. -/
def pair (f : GraphFact) : String × Option String := (f.row.predicate, f.object)

/-- `ts`. -/
def recordedAt (f : GraphFact) : Time := f.row.recordedAt

/-- The keys of the rows tell their pairs apart. -/
def KeysSeparate (rows : List GraphFact) : Prop :=
  ∀ f ∈ rows, ∀ g ∈ rows, f.key = g.key → pair f = pair g

theorem key_eq_of_pair_eq {f g : GraphFact} (h : pair f = pair g) : f.key = g.key := by
  obtain ⟨hpredicate, hobject⟩ := Prod.mk.inj h
  rw [GraphFact.key, GraphFact.key, hpredicate, hobject]

/-- The loop keeps the newest row of each key. -/
theorem newestOfEach_dedupe (rows : List GraphFact) :
    NewestOfEach GraphFact.key recordedAt rows (dedupeAndSortFacts rows) := by
  have hstep : keepLatest = NewestOfEach.keepNewest GraphFact.key recordedAt := by
    funext byKey f
    unfold keepLatest NewestOfEach.keepNewest
    cases byKey.get? f.key with
    | none => rfl
    | some prev => rfl
  unfold dedupeAndSortFacts
  rw [hstep]
  exact NewestOfEach.of_foldl GraphFact.key recordedAt rows

/-! ## 2. Hits -/

section Hits

variable (seedIds : List EntityId) (entitiesById : InsertionMap EntityId GraphEntity)
  (factsByEntity : InsertionMap EntityId (List TimedFact)) (predicateHints : List String)

/-- There is a fact, and one with a predicate among the hints, if there are any. -/
def relevant (rows : List GraphFact) : Bool :=
  !rows.isEmpty &&
    (predicateHints.isEmpty || rows.any (fun f => predicateHints.contains f.row.predicate))

/-- The entities that are listed: the known seeds, then the others with a relevant fact. -/
def shownIds : List EntityId :=
  seedIds.filter (fun id => entitiesById.has id) ++
    entitiesById.keys.filter (fun id =>
      !seedIds.contains id && relevant predicateHints (rowsOf factsByEntity id))

/-- The stage and the score of an entity. -/
def stageOf (id : EntityId) : RetrievalStage × ℚ :=
  if id ∈ seedIds then (.graph_seed, SEED_SCORE) else (.graph_neighbour, NEIGHBOUR_SCORE)

/-- The hit is the entity with, newest first, exactly one most recently recorded fact of each
predicate and object. -/
def ShowsEntity (id : EntityId) (hit : GraphRetrieveHit) : Prop :=
  ∃ ent kept, entitiesById.get? id = some ent ∧
    NewestOfEach pair recordedAt (rowsOf factsByEntity id) kept ∧
    hit = { entityId := ent.entityId
            entityType := ent.type
            canonicalName := ent.canonicalName
            externalRefs := ent.externalRefs
            facts := kept.map (renderGraphFact predicateHints (stageOf seedIds id).1)
            score := (stageOf seedIds id).2 }

/-- What the assembly is meant to return: each of the entities once, in their order. -/
structure ExactHits (hits : List GraphRetrieveHit) : Prop where
  once : (shownIds seedIds entitiesById factsByEntity predicateHints).Nodup
  shows_ : List.Forall₂ (ShowsEntity seedIds entitiesById factsByEntity predicateHints)
    (shownIds seedIds entitiesById factsByEntity predicateHints) hits

/-- The hit that is rendered for an entity. -/
def Rendered (id : EntityId) (hit : GraphRetrieveHit) : Prop :=
  ∃ ent, entitiesById.get? id = some ent ∧
    hit = renderHit ent (rowsOf factsByEntity id) predicateHints (stageOf seedIds id).1
      (stageOf seedIds id).2

variable {seedIds entitiesById factsByEntity predicateHints}

theorem nodup_shownIds (hseeds : seedIds.Nodup) :
    (shownIds seedIds entitiesById factsByEntity predicateHints).Nodup := by
  refine List.Nodup.append (hseeds.filter _) (entitiesById.nodup.filter _) ?_
  intro id hseed hother
  have hmem := List.mem_of_mem_filter hseed
  have hnot := (List.mem_filter.mp hother).2
  simp [hmem] at hnot

/-- The loop over the seeds: those that are known, in their order. -/
theorem rendered_seeds {ids : List EntityId} (hall : ∀ id ∈ ids, id ∈ seedIds) :
    List.Forall₂ (Rendered seedIds entitiesById factsByEntity predicateHints)
      (ids.filter (fun id => entitiesById.has id))
      (ids.filterMap (fun seedId => (entitiesById.get? seedId).map (fun ent =>
        renderHit ent (rowsOf factsByEntity seedId) predicateHints .graph_seed SEED_SCORE))) := by
  induction ids with
  | nil => exact List.Forall₂.nil
  | cons id ids ih =>
      have hrest := ih (fun i hi => hall i (List.mem_cons_of_mem _ hi))
      rw [List.filter_cons, List.filterMap_cons]
      cases hget : entitiesById.get? id with
      | none =>
          have hhas : entitiesById.has id = false :=
            InsertionMap.has_eq_false_iff.mpr (InsertionMap.get?_eq_none_iff.mp hget)
          rw [hhas, if_neg Bool.false_ne_true]
          exact hrest
      | some ent =>
          have hhas : entitiesById.has id = true :=
            InsertionMap.has_iff.mpr (InsertionMap.mem_keys_of_get? hget)
          have hstage : stageOf seedIds id = (.graph_seed, SEED_SCORE) :=
            if_pos (hall id List.mem_cons_self)
          rw [hhas, if_pos rfl]
          refine List.Forall₂.cons ⟨ent, hget, ?_⟩ hrest
          rw [hstage]

/-- **The order of the hits**, for all inputs. -/
theorem rendered_assembleGraphHits :
    List.Forall₂ (Rendered seedIds entitiesById factsByEntity predicateHints)
      (shownIds seedIds entitiesById factsByEntity predicateHints)
      (assembleGraphHits seedIds entitiesById (readFacts factsByEntity) predicateHints) := by
  unfold assembleGraphHits shownIds
  dsimp only
  simp only [getD_readFacts]
  apply List.rel_append
  · exact rendered_seeds (fun _ h => h)
  · simp only [Bool.and_assoc]
    rw [InsertionMap.keys, List.filter_map, List.forall₂_map_left_iff, List.forall₂_map_right_iff]
    refine List.forall₂_same.mpr (fun e he => ?_)
    obtain ⟨hmem, hcond⟩ := List.mem_filter.mp he
    -- the second loop passes over the seeds, so what it renders are neighbours
    have hnot : e.1 ∉ seedIds := by
      intro hs
      simp [hs] at hcond
    have hstage : stageOf seedIds e.1 = (.graph_neighbour, NEIGHBOUR_SCORE) := if_neg hnot
    refine ⟨e.2, InsertionMap.get?_of_mem hmem, ?_⟩
    rw [hstage]

/-- A hit that is rendered shows its entity as it is meant to if the keys tell the facts of the
entity apart. -/
theorem Rendered.showsEntity_iff {id : EntityId} {hit : GraphRetrieveHit}
    (h : Rendered seedIds entitiesById factsByEntity predicateHints id hit) :
    ShowsEntity seedIds entitiesById factsByEntity predicateHints id hit
      ↔ KeysSeparate (rowsOf factsByEntity id) := by
  obtain ⟨ent, hent, rfl⟩ := h
  have hcoarse : ∀ f ∈ rowsOf factsByEntity id, ∀ g ∈ rowsOf factsByEntity id,
      pair f = pair g → f.key = g.key := fun f _ g _ => key_eq_of_pair_eq
  have hshow : ∀ f g, renderGraphFact predicateHints (stageOf seedIds id).1 f
      = renderGraphFact predicateHints (stageOf seedIds id).1 g → pair f = pair g := by
    intro f g hfg
    have hpredicate := congrArg GraphHitFact.predicate hfg
    have hobject := congrArg GraphHitFact.object hfg
    exact Prod.ext hpredicate hobject
  have hagree := (newestOfEach_dedupe (rowsOf factsByEntity id)).agree_iff hcoarse hshow
  unfold KeysSeparate
  rw [← hagree]
  constructor
  · rintro ⟨ent', kept, -, hkept, heq⟩
    exact ⟨kept, hkept, congrArg GraphRetrieveHit.facts heq⟩
  · rintro ⟨kept, hkept, heq⟩
    refine ⟨ent, kept, hent, hkept, ?_⟩
    rw [renderHit, heq]

/-- Of a relation that is decided by its left side only the left side counts. -/
theorem forall₂_iff_forall {α β : Type} {R S : α → β → Prop} {P : α → Prop} {as : List α}
    {bs : List β} (h : List.Forall₂ R as bs) (hRS : ∀ a b, R a b → (S a b ↔ P a)) :
    List.Forall₂ S as bs ↔ ∀ a ∈ as, P a := by
  induction h with
  | nil => simp
  | cons hab _ ih => rw [List.forall₂_cons, ih, hRS _ _ hab, List.forall_mem_cons]

theorem exactHits_iff (hseeds : seedIds.Nodup) :
    ExactHits seedIds entitiesById factsByEntity predicateHints
        (assembleGraphHits seedIds entitiesById (readFacts factsByEntity) predicateHints)
      ↔ ∀ id ∈ shownIds seedIds entitiesById factsByEntity predicateHints,
          KeysSeparate (rowsOf factsByEntity id) := by
  have hrendered : List.Forall₂ (Rendered seedIds entitiesById factsByEntity predicateHints)
      (shownIds seedIds entitiesById factsByEntity predicateHints)
      (assembleGraphHits seedIds entitiesById (readFacts factsByEntity) predicateHints) :=
    rendered_assembleGraphHits
  rw [← forall₂_iff_forall hrendered (fun id hit h => h.showsEntity_iff)]
  exact ⟨fun h => h.shows_, fun h => ⟨nodup_shownIds hseeds, h⟩⟩

end Hits

/-- **The graph path shows what it is meant to if and only if the keys of the facts of every
entity that is listed tell the pairs apart.** -/
theorem assembleGraphHits_exact_iff {seedIds : List EntityId} (hseeds : seedIds.Nodup)
    (entitiesById : InsertionMap EntityId GraphEntity)
    (factsByEntity : InsertionMap EntityId (List TimedFact)) (predicateHints : List String) :
    ExactHits seedIds entitiesById factsByEntity predicateHints
        (assembleGraphHits seedIds entitiesById (readFacts factsByEntity) predicateHints)
      ↔ ∀ id ∈ shownIds seedIds entitiesById factsByEntity predicateHints,
          KeysSeparate (rowsOf factsByEntity id) :=
  exactHits_iff hseeds

/-- An entity. -/
def someEntity : InsertionMap EntityId GraphEntity :=
  .ofList [(1, { entityId := 1, type := "person", canonicalName := "Maria", externalRefs := [] })]

/-- A fact of it. -/
def factSaying (factId : FactId) (predicate object : String) (recordedAt : Option Time) :
    TimedFact where
  fact :=
    { row := { factId := factId, entityId := 1, predicate := predicate, object := object,
               confidence := .full, validFrom := 0, validUntil := none, status := .active,
               recordedAt := 0 }
      object := some object }
  recordedAt := recordedAt

/-- The same fact twice, once without a time. -/
def twiceRecorded : InsertionMap EntityId (List TimedFact) :=
  .ofList [(1, [factSaying 1 "role" "CTO" none, factSaying 2 "role" "CTO" (some 5)])]

/-- The theorem above for that entity. -/
theorem assembleGraphHits_exact_iff_twice :
    ExactHits [1] someEntity twiceRecorded []
        (assembleGraphHits [1] someEntity (readFacts twiceRecorded) [])
      ↔ ∀ id ∈ shownIds [1] someEntity twiceRecorded [], KeysSeparate (rowsOf twiceRecorded id) :=
  assembleGraphHits_exact_iff (List.nodup_singleton 1) someEntity twiceRecorded []

/-- Two facts with one key: a predicate that ends in a colon, and an object that begins with
one. -/
def colliding : InsertionMap EntityId (List TimedFact) :=
  .ofList [(1, [factSaying 1 "a:" "b" (some 5), factSaying 2 "a" ":b" (some 3)])]

/-- Of the two only the newer one is shown. -/
theorem assembleGraphHits_collides :
    (assembleGraphHits [1] someEntity (readFacts colliding) []).map
        (fun hit => hit.facts.map (fun f => (f.predicate, f.object))) = [[("a:", some "b")]] ∧
    ¬ ExactHits [1] someEntity colliding []
      (assembleGraphHits [1] someEntity (readFacts colliding) []) := by
  refine ⟨by decide +kernel, fun h => ?_⟩
  rw [exactHits_iff (List.nodup_singleton 1)] at h
  have hshown : (1 : EntityId) ∈ shownIds [1] someEntity colliding [] := by decide +kernel
  have hpair := h 1 hshown (factSaying 1 "a:" "b" (some 5)).read
    (List.mem_map_of_mem List.mem_cons_self) (factSaying 2 "a" ":b" (some 3)).read
    (List.mem_map_of_mem (List.mem_cons_of_mem _ List.mem_cons_self)) (by decide +kernel)
  exact absurd hpair (by decide +kernel)

end Brain.GraphHits
