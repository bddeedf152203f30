/-
A short answer is a complete one.

A search cuts off in three places: each leg takes its best rows, the rerankers see a
window of the entities, and the response ends at the limit. If the WHERE admits no more
facts than a leg takes, and fewer entities come out than the limit and the windows allow,
nothing has been cut: every fact that a leg matches, and that the caller may see, is
spoken for by its entity (`search_complete`). The walk over the edges and the prior do not
take an entity away, and neither does re-attribution, unless the entity that it leads to
is gone.
-/
import Brain.Search.TrueHits

set_option autoImplicit false

namespace Brain

/-- The response has every entity that is ranked. -/
structure Untrimmed (dto : SearchRequest) : Prop where
  entityTypes : dto.entityTypes = none
  requireProvenance : dto.requireProvenance = false
  confidenceFloor : dto.confidenceFloor = none
  tokenBudget : dto.tokenBudget = none

/-- One of the legs that the request asks for has a score for the fact. -/
def LegMatches (env : SearchEnv) (db : SearchDb) (dto : SearchRequest) (scopes : List BrainScope)
    (i : FactId) (f : KnowledgeFact) : Prop :=
  (dto.searchMode ≠ .lexical ∧ f.embedding ≠ none) ∨
    (dto.searchMode ≠ .vector ∧
      env.engine.fullText scopes db.store.facts dto.clamped.query i ≠ none)

/-- The WHERE admits no more facts than a leg takes. -/
def FitsLegs (env : SearchEnv) (db : SearchDb) (dto : SearchRequest) : Prop :=
  (db.store.facts.select (fun _ f => admits (dto.where_ env) f)).length ≤ candidateK dto

/-- Nothing is cut off on the way to the response: there is room for what is admitted,
and fewer entities come out than the limit and the windows of the rerankers allow. -/
structure CutsNothing (env : SearchEnv) (db : SearchDb) (dto : SearchRequest)
    (scopes : List BrainScope) : Prop extends Untrimmed dto where
  room : FitsLegs env db dto
  short : (search env db dto scopes).length < min dto.limit 20
  window : env.crossEncoder.isSome = true →
    (search env db dto scopes).length < env.crossEncoderWindow

/-! ## Retrieval -/

section Retrieval

variable {s : Store} {db : SearchDb} {env : SearchEnv} {dto : SearchRequest}
  {scopes : List BrainScope} {i : FactId} {f : KnowledgeFact}

/-- A leg that has room takes every fact that it scores. -/
theorem mem_legRows {score : FactId × KnowledgeFact → Option ℚ} {k : ℕ}
    {baseWhere : List WhereClause}
    (hroom : (s.facts.select (fun _ f => admits baseWhere f)).length ≤ k)
    (hf : s.facts.get? i = some f) (hadm : admits baseWhere f = true)
    (hscore : score (i, f) ≠ none) :
    i ∈ (legRows s score k baseWhere).map (fun r => r.1.id) := by
  obtain ⟨x, hx⟩ := Option.ne_none_iff_exists'.mp hscore
  -- the scored rows are some of those that are admitted
  have hlen : (s.facts.rows.filterMap (scoredHit s score baseWhere)).length ≤ k := by
    refine le_trans ?_ hroom
    rw [List.length_filterMap_eq_countP, KeyedTable.select, ← List.countP_eq_length_filter]
    refine List.countP_mono_left (fun q _ hq => ?_)
    by_contra hnot
    rw [scoredHit, if_neg hnot] at hq
    cases hq
  have hall : legRows s score k baseWhere
      = (s.facts.rows.filterMap (scoredHit s score baseWhere)).insertionSort
          (fun a b => b.2 ≤ a.2) := by
    refine List.take_of_length_le ?_
    rw [List.length_insertionSort]
    exact hlen
  refine List.mem_map.mpr ⟨(factRowWithEntity s (i, f), x), ?_, rfl⟩
  rw [hall, List.mem_insertionSort, List.mem_filterMap]
  refine ⟨(i, f), KeyedTable.mem_rows_iff.mpr hf, ?_⟩
  rw [scoredHit, if_pos hadm, hx]
  rfl

/-- Rows that are set under their ids leave their ids for keys. -/
theorem mem_keys_setAll {toFused : FactRow → FusedRow} {rows : List FactRow} :
    i ∈ rows.map (fun r => r.id) →
      i ∈ (rows.foldl (fun merged r => merged.set r.id (toFused r))
        (.empty : InsertionMap FactId FusedRow)).keys := by
  induction rows using List.reverseRecOn with
  | nil => exact fun h => absurd h List.not_mem_nil
  | append_singleton rows r ih =>
      intro h
      rw [List.foldl_append, List.foldl_cons, List.foldl_nil, InsertionMap.mem_keys_set]
      rw [List.map_append, List.mem_append] at h
      rcases h with h | h
      · exact Or.inr (ih h)
      · exact Or.inl (List.mem_singleton.mp h)

/-- So do the rows of the lexical leg, and the keys of the vector leg stay. -/
theorem mem_keys_mergeLexical (weight : ℚ) {m : InsertionMap FactId FusedRow}
    {rows : List FactRow} : i ∈ m.keys ∨ i ∈ rows.map (fun r => r.id) →
      i ∈ (rows.foldl (mergeLexical weight) m).keys := by
  induction rows using List.reverseRecOn with
  | nil => exact fun h => h.resolve_right List.not_mem_nil
  | append_singleton rows r ih =>
      intro h
      have hset : i = r.id ∨ i ∈ (rows.foldl (mergeLexical weight) m).keys := by
        rcases h with h | h
        · exact Or.inr (ih (Or.inl h))
        · rw [List.map_append, List.mem_append] at h
          rcases h with h | h
          · exact Or.inr (ih (Or.inr h))
          · exact Or.inl (List.mem_singleton.mp h)
      rw [List.foldl_append, List.foldl_cons, List.foldl_nil]
      unfold mergeLexical
      split
      · exact InsertionMap.mem_keys_set.mpr hset
      · exact InsertionMap.mem_keys_set.mpr hset

/-- Both legs come through the fusion, in the modes that ask for them. -/
theorem mem_fuse {vectorRows lexicalRows : List FactRow} (hvec : ∀ r ∈ vectorRows, TrueRow s r)
    (hlex : ∀ r ∈ lexicalRows, TrueRow s r) {mode : SearchMode}
    (h : (mode ≠ .lexical ∧ i ∈ vectorRows.map (fun r => r.id)) ∨
      (mode ≠ .vector ∧ i ∈ lexicalRows.map (fun r => r.id))) :
    i ∈ (fuse vectorRows lexicalRows mode).map (fun row => row.id) := by
  cases mode with
  | vector =>
      rw [fuse, (filed_setAll (sameRow_vecRow 1) hvec).ids]
      rcases h with h | h
      · exact mem_keys_setAll h.2
      · exact absurd rfl h.1
  | lexical =>
      rw [fuse, (filed_setAll (sameRow_lexRow 1) hlex).ids]
      rcases h with h | h
      · exact absurd rfl h.1
      · exact mem_keys_setAll h.2
  | hybrid =>
      rw [fuse, (filed_mergeLexical _ (filed_setAll (sameRow_vecRow _) hvec) hlex).ids]
      rcases h with h | h
      · exact mem_keys_mergeLexical _ (Or.inl (mem_keys_setAll h.2))
      · exact mem_keys_mergeLexical _ (Or.inr h.2)

theorem mem_runRetrievalStage (hroom : FitsLegs env db dto)
    (hf : db.store.facts.get? i = some f) (hadm : admits (dto.where_ env) f = true)
    (hmatch : LegMatches env db dto scopes i f) :
    i ∈ (runRetrievalStage env db dto.clamped scopes (dto.where_ env)).map (fun row => row.id) := by
  unfold runRetrievalStage
  dsimp only
  refine mem_fuse (s := db.store) ?_ ?_ ?_
  · split
    · exact fun r hr => absurd hr List.not_mem_nil
    · exact fun r hr => trueRow_of_mem_runVectorLeg hr
  · split
    · exact fun r hr => absurd hr List.not_mem_nil
    · exact fun r hr => trueRow_of_mem_runLexicalLeg hr
  · rcases hmatch with ⟨hmode, hembedding⟩ | ⟨hmode, htext⟩
    · left
      refine ⟨hmode, ?_⟩
      have hclamped : dto.clamped.searchMode ≠ .lexical := hmode
      rw [if_neg hclamped, runVectorLeg, List.map_map]
      refine mem_legRows hroom hf hadm ?_
      rw [simScore, Ne, Option.map_eq_none_iff]
      exact hembedding
    · right
      refine ⟨hmode, ?_⟩
      have hclamped : dto.clamped.searchMode ≠ .vector := hmode
      rw [if_neg hclamped, runLexicalLeg, List.map_map]
      exact mem_legRows hroom hf hadm htext

/-- The second pass only adds rows. -/
theorem mem_retrieve (hroom : FitsLegs env db dto) (hf : db.store.facts.get? i = some f)
    (hadm : admits (dto.where_ env) f = true) (hmatch : LegMatches env db dto scopes i f) :
    i ∈ (retrieve env db dto.clamped scopes).map (fun row => row.id) := by
  have hfirst := mem_runRetrievalStage hroom hf hadm hmatch
  have hpush : ∀ (rows fused : List FusedRow), i ∈ fused.map (fun row => row.id) →
      i ∈ (rows.foldl pushUnseen fused).map (fun row => row.id) := by
    intro rows
    induction rows with
    | nil => exact fun fused h => h
    | cons r rows ih =>
        intro fused h
        refine ih _ ?_
        unfold pushUnseen
        split
        · exact h
        · rw [List.map_append]
          exact List.mem_append_left _ h
  unfold retrieve
  dsimp only
  split
  · exact hpush _ _ hfirst
  · exact hfirst

/-- Re-attribution takes a row to where its owner was merged into, if that is still there. -/
theorem mem_reattributeMerged {rows : List FusedRow} {row : FusedRow} (hrow : row ∈ rows)
    (hof : RowOf s f row.toFactRow)
    (hthere : ∀ m, s.mergedInto f.entityId = some m → s.HasEntity m) :
    row.id ∈ (reattributeMerged rows (hydrateSurvivors s rows)).map (fun row => row.id) := by
  unfold reattributeMerged
  split
  · exact List.mem_map_of_mem hrow
  · cases hptr : row.entity.bind (fun ent => ent.mergedInto) with
    | none =>
        refine List.mem_map.mpr ⟨row, List.mem_filterMap.mpr ⟨row, hrow, ?_⟩, rfl⟩
        rw [hptr]
    | some m =>
        have hm := hthere m (hof.merged ▸ hptr)
        obtain ⟨sv, hsv, _⟩ := get?_hydrateSurvivors hm hrow hptr
        refine List.mem_map.mpr ⟨row.onto sv, List.mem_filterMap.mpr ⟨row, hrow, ?_⟩, rfl⟩
        rw [hptr]
        dsimp only
        rw [hsv]
        rfl

/-- **What is matched is visible**, under the entity that it was re-attributed to. -/
theorem exists_visibleRow (hroom : FitsLegs env db dto) (hf : db.store.facts.get? i = some f)
    (hadm : admits (dto.where_ env) f = true) (hmatch : LegMatches env db dto scopes i f)
    (hthere : ∀ m, db.store.mergedInto f.entityId = some m → db.store.HasEntity m)
    (hallow : scopeAllows scopes f.predicate = true) :
    ∃ row ∈ visibleRows env db dto.clamped scopes, row.id = i ∧
      row.entityId = db.store.attributedTo f.entityId := by
  obtain ⟨row, hrow, hid⟩ := List.mem_map.mp (mem_retrieve hroom hf hadm hmatch)
  obtain ⟨g, hg⟩ := allStored_retrieve env db dto.clamped scopes row hrow
  obtain rfl : f = g := Option.some.inj (hf.symm.trans (hid ▸ hg.stored))
  obtain ⟨out, hout, houtid⟩ := List.mem_map.mp (mem_reattributeMerged hrow hg hthere)
  obtain ⟨g, hg', hpred, hseat, _⟩ := seatOf_reattributed
    (P := fun _ => True)
    (fun row hrow => (allStored_retrieve env db dto.clamped scopes row hrow).imp
      (fun _ h => ⟨h, trivial⟩)) hout
  obtain rfl : f = g := by
    rw [houtid, hid] at hg'
    exact Option.some.inj (hf.symm.trans hg')
  refine ⟨out, List.mem_filter.mpr ⟨hout, ?_⟩, houtid.trans hid, ?_⟩
  · rw [passesPolicy, hpred]
    exact hallow
  · rw [hseat, Store.attributedTo]
    cases hptr : db.store.mergedInto f.entityId with
    | none => exact seatOf_eq_self (fun m hm => by rw [hptr] at hm; cases hm)
    | some m => exact seatOf_eq_survivor hptr (hthere m hptr)

end Retrieval

/-! ## Buckets -/

/-- The entity has a bucket, with the fact in it. -/
def Seated (i : FactId) (e : EntityId) (b : EntityBucket) : Prop :=
  b.entityId = e ∧ i ∈ b.facts.map (fun sf => sf.row.id)

section Buckets

variable {db : SearchDb} {env : SearchEnv} {dto : SearchRequest} {scopes : List BrainScope}
  {i : FactId} {e : EntityId} {m : Buckets}

theorem seated_bucketByEntity {rows : List FusedRow} {row : FusedRow} (hrow : row ∈ rows)
    (scoring : Scoring) (predicateDist : Option Weights) (now : Time) :
    ∃ b, (row.entityId, b) ∈ (bucketByEntity (scoreRows scoring rows predicateDist now)).entries ∧
      Seated row.id row.entityId b := by
  have hmem : scoreRow scoring predicateDist now row
      ∈ DegreeBoost.rowsOf (scoreRows scoring rows predicateDist now) row.entityId :=
    DegreeBoost.mem_rowsOf.mpr ⟨List.mem_map_of_mem hrow, rfl⟩
  have hget := DegreeBoost.get?_bucketByEntity_eq_some_iff.mpr ⟨List.ne_nil_of_mem hmem, rfl⟩
  exact ⟨_, InsertionMap.mem_of_get? hget, rfl, List.mem_map.mpr ⟨_, hmem, rfl⟩⟩

/-- Setting another key leaves an entry where it is. -/
theorem mem_entries_set_of_ne {κ ν : Type*} [DecidableEq κ] {m : InsertionMap κ ν} {k k' : κ}
    {v v' : ν} (h : (k, v) ∈ m.entries) (hne : k ≠ k') : (k, v) ∈ (m.set k' v').entries := by
  refine InsertionMap.mem_of_get? ?_
  rw [InsertionMap.get?_set_of_ne m v' hne]
  exact InsertionMap.get?_of_mem h

/-- An entity that has a bucket keeps it in the walk over the edges. -/
theorem mem_entries_injectAll {best : InsertionMap EntityId ℚ} {b : EntityBucket}
    (h : (e, b) ∈ m.entries) (expansions : List Expansion) :
    (e, b) ∈ (expansions.foldl injectNeighbour (m, best)).1.entries := by
  induction expansions using List.reverseRecOn with
  | nil => exact h
  | append_singleton expansions x ih =>
      rw [List.foldl_append, List.foldl_cons, List.foldl_nil]
      unfold injectNeighbour
      split
      · exact ih
      · next hnew =>
          split
          · exact ih
          · refine mem_entries_set_of_ne ih (fun heq => hnew ?_)
            rw [← heq, InsertionMap.has_iff]
            exact List.mem_map_of_mem ih

theorem mem_entries_runEdgeExpansionStage (env : SearchEnv) (db : SearchDb)
    (scopes : List BrainScope) (baseWhere : List EntityId → List WhereClause) {b : EntityBucket}
    (h : (e, b) ∈ m.entries) :
    (e, b) ∈ (runEdgeExpansionStage env db m baseWhere scopes).entries := by
  unfold runEdgeExpansionStage
  split
  · exact h
  · split
    · exact h
    · unfold expandViaEdges mergeExpandedNeighbours
      dsimp only
      split
      · exact h
      · exact mem_entries_injectAll h _

/-- The prior changes scores only. -/
theorem seated_runPprStage (env : SearchEnv) (db : SearchDb) {b : EntityBucket}
    (h : (e, b) ∈ m.entries) (hb : Seated i e b) :
    ∃ b', (e, b') ∈ (runPprStage env db m).entries ∧ Seated i e b' := by
  unfold runPprStage applyPprPrior applyPprBoost
  dsimp only
  split
  · exact ⟨b, h, hb⟩
  · split
    · exact ⟨b, h, hb⟩
    · split
      · exact ⟨b, h, hb⟩
      · split
        · exact ⟨b, h, hb⟩
        · split
          · exact ⟨b, h, hb⟩
          · exact ⟨_, List.mem_map_of_mem h, hb⟩

/-- The buckets that are ranked. -/
def rankedBuckets (env : SearchEnv) (db : SearchDb) (dto : SearchRequest)
    (scopes : List BrainScope) : Buckets :=
  let routerOut := withStageBudget env .router (env.route dto.query) none
  runPprStage env db (runEdgeExpansionStage env db
    (bucketByEntity (scoreRows env.scoring (visibleRows env db dto scopes)
      (routerOut.map (fun r => r.predicates)) env.now))
    (reboundWhere env dto (resolveLangFilter env dto)) scopes)

/-- **A visible row is in a bucket that is ranked.** -/
theorem seated_rankedBuckets {row : FusedRow} (hrow : row ∈ visibleRows env db dto scopes) :
    ∃ b ∈ (rankedBuckets env db dto scopes).values, Seated row.id row.entityId b := by
  obtain ⟨b, hb, hseated⟩ := seated_bucketByEntity hrow env.scoring
    ((withStageBudget env .router (env.route dto.query) none).map (fun r => r.predicates)) env.now
  have hwalk := mem_entries_runEdgeExpansionStage env db scopes
    (reboundWhere env dto (resolveLangFilter env dto)) hb
  obtain ⟨b', hb', hseated'⟩ := seated_runPprStage env db hwalk hseated
  exact ⟨b', List.mem_map_of_mem hb', hseated'⟩

/-- **Where fewer entities come out than the limit and the windows allow**, all of them
do. -/
theorem perm_rankEntities (hp : RerankersPermute env)
    (hshort : (rankEntities env db dto scopes (visibleRows env db dto scopes)).length
      < min dto.limit 20)
    (hcross : env.crossEncoder.isSome = true →
      (rankEntities env db dto scopes (visibleRows env db dto scopes)).length
        < env.crossEncoderWindow) :
    (rankEntities env db dto scopes (visibleRows env db dto scopes)).Perm
      (rankedBuckets env db dto scopes).values := by
  have hwindow : Windowed env dto (rankedBuckets env db dto scopes)
      (runRerankStage env db (rankedBuckets env db dto scopes) dto
        ((withStageBudget env .router (env.route dto.query) none).map (fun r => r.types))) :=
    windowed_runRerankStage hp
  have htake : (rankEntities env db dto scopes (visibleRows env db dto scopes)).length
      = min dto.limit (min (rerankWindow dto) (min
          (wideWindow env dto (rankedBuckets env db dto scopes))
          (rankedBuckets env db dto scopes).size)) := by
    rw [← hwindow.2]
    exact List.length_take
  have hsub : (rankEntities env db dto scopes (visibleRows env db dto scopes)).Subperm
      (rankedBuckets env db dto scopes).values :=
    (List.take_sublist _ _).subperm.trans hwindow.1
  refine hsub.perm_of_length_le ?_
  have hsize : (rankedBuckets env db dto scopes).values.length
      = (rankedBuckets env db dto scopes).size := List.length_map _
  rw [htake] at hshort hcross ⊢
  rw [hsize]
  unfold wideWindow rerankWindow at *
  by_cases hx : env.crossEncoder.isSome = true
  · have hwide := hcross hx
    rw [if_pos hx] at hshort hwide ⊢
    omega
  · rw [if_neg hx] at hshort ⊢
    omega

end Buckets

/-! ## The response -/

section Response

variable {db : SearchDb} {env : SearchEnv} {dto : SearchRequest} {scopes : List BrainScope}
  {i : FactId} {e : EntityId}

/-- Without filters every bucket has a hit, in the shape that is asked for. -/
theorem search_of_untrimmed (h : Untrimmed dto) :
    search env db dto scopes
      = (rankEntities env db dto.clamped scopes (visibleRows env db dto.clamped scopes)).map
          (fun b => applyShape dto.outputShape (assembleHit (searchBackfill env db dto.clamped scopes
            (rankEntities env db dto.clamped scopes (visibleRows env db dto.clamped scopes)))
              false b)) := by
  have htypes : dto.clamped.entityTypes = none := h.entityTypes
  have hprov : dto.clamped.requireProvenance = false := h.requireProvenance
  have hfloor : dto.clamped.confidenceFloor = none := h.confidenceFloor
  have hbudget : dto.clamped.tokenBudget = none := h.tokenBudget
  rw [search, runPipeline_eq]
  unfold applyOutputShaping unshapedHits assembleHits
  rw [hfloor, hbudget, hprov, htypes]
  dsimp only
  have hall : ∀ l : List EntityBucket, l.filter (hasEntityType none) = l :=
    fun l => List.filter_eq_self.mpr (fun _ _ => rfl)
  rw [hall]
  simp only [Bool.not_false, Bool.true_or, List.filter_true, List.map_map]
  rfl

/-- A bucket shows its facts, unless it has more than five. -/
theorem shown_or_full (backfill : InsertionMap EntityId (List FactRow)) {b : EntityBucket}
    (h : i ∈ b.facts.map (fun sf => sf.row.id)) :
    i ∈ (assembleHit backfill false b).facts.map (fun x => x.factId) ∨
      (assembleHit backfill false b).facts.length = 5 := by
  obtain ⟨sf, hsf, rfl⟩ := List.mem_map.mp h
  have hmem : sf ∈ HitAssembly.matchedRows false b := by
    rw [HitAssembly.matchedRows, List.mem_insertionSort, List.mem_filter]
    exact ⟨hsf, rfl⟩
  rw [HitAssembly.facts_assembleHit]
  rcases Nat.lt_or_ge 5 (HitAssembly.matchedRows false b).length with hmany | hfew
  · right
    rw [List.length_append, List.length_map, List.length_map, List.length_take, List.length_take]
    omega
  · left
    rw [List.take_of_length_le hfew, List.map_append, List.map_map]
    exact List.mem_append_left _ (List.mem_map.mpr ⟨sf, hmem, rfl⟩)

/-- What was matched is found, when nothing has been cut off. -/
theorem CutsNothing.exists_hit (h : CutsNothing env db dto scopes) (hp : RerankersPermute env)
    {f : KnowledgeFact} (hf : db.store.facts.get? i = some f)
    (hadm : admits (dto.where_ env) f = true) (hallow : scopeAllows scopes f.predicate = true)
    (hmatch : LegMatches env db dto scopes i f)
    (hthere : ∀ m, db.store.mergedInto f.entityId = some m → db.store.HasEntity m) :
    ∃ hit ∈ search env db dto scopes, hit.entityId = db.store.attributedTo f.entityId ∧
      (dto.outputShape = .full →
        i ∈ hit.facts.map (fun x => x.factId) ∨ hit.facts.length = 5) := by
  obtain ⟨huntrimmed, hroom, hshort, hcross⟩ := h
  rw [search_of_untrimmed huntrimmed, List.length_map] at hshort hcross
  obtain ⟨row, hrow, hid, hseat⟩ := exists_visibleRow hroom hf hadm hmatch hthere hallow
  obtain ⟨b, hb, hentity, hfact⟩ := seated_rankedBuckets hrow
  have htop := (perm_rankEntities hp hshort hcross).mem_iff.mpr hb
  rw [search_of_untrimmed huntrimmed]
  refine ⟨_, List.mem_map_of_mem htop, ?_, ?_⟩
  · have hshape : ∀ hit, (applyShape dto.outputShape hit).entityId = hit.entityId := by
      intro hit
      unfold applyShape
      split <;> rfl
    rw [hshape, ← hseat, ← hentity]
    rfl
  · intro hfull
    rw [hfull, ← hid]
    exact shown_or_full _ hfact

/-- **A short answer is complete.** Let nothing trim the response after the ranking, and
let the WHERE admit no more facts than a leg takes. If fewer entities come back than the
limit and the windows of the rerankers allow, then every fact that passes the WHERE and
the scopes of the caller, and that a leg matches, has its entity (or the one that was
merged into) in the response; and in full shape the fact is shown there, unless five
others are. -/
theorem search_complete (env : SearchEnv) (hp : RerankersPermute env) (db : SearchDb)
    (dto : SearchRequest) (scopes : List BrainScope) (hcuts : CutsNothing env db dto scopes) :
    ∀ i f, db.store.facts.get? i = some f → admits (dto.where_ env) f = true →
      scopeAllows scopes f.predicate = true → LegMatches env db dto scopes i f →
      (∀ m, db.store.mergedInto f.entityId = some m → db.store.HasEntity m) →
      ∃ hit ∈ search env db dto scopes, hit.entityId = db.store.attributedTo f.entityId ∧
        (dto.outputShape = .full →
          i ∈ hit.facts.map (fun x => x.factId) ∨ hit.facts.length = 5) :=
  fun _ _ hf hadm hallow hmatch hthere =>
    hcuts.exists_hit hp hf hadm hallow hmatch hthere

end Response

/-- A search that finds one entity of at most ten has missed nothing. -/
theorem search_complete_ada :
    (search (matchAllEnv {}) adaDb { query := "ada" } []).map (fun hit => hit.entityId) = [0] ∧
    ∀ i f, adaDb.store.facts.get? i = some f →
      admits (({ query := "ada" } : SearchRequest).where_ (matchAllEnv {})) f = true →
      scopeAllows [] f.predicate = true →
      LegMatches (matchAllEnv {}) adaDb { query := "ada" } [] i f →
      (∀ m, adaDb.store.mergedInto f.entityId = some m → adaDb.store.HasEntity m) →
      ∃ hit ∈ search (matchAllEnv {}) adaDb { query := "ada" } [],
        hit.entityId = adaDb.store.attributedTo f.entityId ∧
        (OutputShape.full = .full →
          i ∈ hit.facts.map (fun x => x.factId) ∨ hit.facts.length = 5) :=
  ⟨(by decide +kernel),
    search_complete (matchAllEnv {}) ⟨fun _ h => (by cases h), fun _ h => (by cases h)⟩ adaDb
      { query := "ada" } [] ⟨⟨rfl, rfl, rfl, rfl⟩, (by unfold FitsLegs; decide +kernel),
        (by decide +kernel), fun h => absurd h (by decide)⟩⟩

end Brain
