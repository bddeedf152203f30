/-
What a hit says is what the store says.

A hit quotes the rows of its bucket and of the backfill (`Quotes`), and shaping the
response leaves out facts, scores and hits. What the request and the scopes of the caller
ask of a fact holds of the facts that the walk over the edges and the backfill add, too,
since their queries take over the WHERE (`asked_of_admits`). Together this is the whole
search: each entity once, under its own name, with facts of its own that are quoted word
for word and that the caller may see (`search_true`).
-/
import Brain.Search.HitAssembly
import Brain.Search.OutputShaping
import Brain.Search.TrueRows

set_option autoImplicit false

namespace Brain

/-! ## Hits -/

/-- A fact of a hit has the columns of the stored fact. -/
structure Tells (f : KnowledgeFact) (x : HitFact) : Prop where
  predicate : x.predicate = f.predicate
  object : x.object = f.object
  confidence : x.confidence = f.confidence
  validFrom : x.validFrom = f.validFrom
  validUntil : x.validUntil = f.validUntil
  status : x.status = f.status

/-- A hit names its entity as the record does, and quotes stored facts, with a source
if the request wants one. -/
structure Quotes (s : Store) (dto : SearchRequest) (hit : SearchHit) : Prop where
  entityType : hit.entityType
    = ((s.entities.get? hit.entityId).map (fun r => r.type)).getD "other"
  canonicalName : hit.canonicalName
    = ((s.entities.get? hit.entityId).map (fun r => r.canonicalName)).getD (toString hit.entityId)
  typed : ∀ types, dto.entityTypes = some types → hit.entityType ∈ types
  capped : hit.facts.length ≤ 5
  once : HitAssembly.ShowsOnce hit
  facts : ∀ x ∈ hit.facts, ∃ f, s.facts.get? x.factId = some f ∧ Tells f x ∧
    (dto.requireProvenance = true → f.source ≠ {})

section Hits

open HitAssembly

variable {s : Store} {db : SearchDb} {env : SearchEnv} {dto : SearchRequest}
  {scopes : List BrainScope} {b : EntityBucket}

/-- The first fact of a true bucket names its entity. -/
theorem TrueBucket.entity (h : TrueBucket s b) :
    b.entity.map (fun ent => (ent.type, ent.canonicalName))
      = (s.entities.get? b.entityId).map (fun r => (r.type, r.canonicalName)) := by
  obtain ⟨sf, rest, hfacts⟩ := List.exists_cons_of_ne_nil h.nonempty
  have hrow := h.rows sf (hfacts ▸ List.mem_cons_self)
  have hnamed := hrow.2.named
  rw [Named, hrow.1] at hnamed
  rw [EntityBucket.entity, hfacts]
  exact hnamed

/-- What a query returns of the facts is what the table has. -/
theorem tells_renderMatched {sf : ScoredRow} {f : KnowledgeFact}
    (h : sf.row.toFactRow.columns = (factRow (sf.row.id, f)).columns) :
    Tells f (renderMatched sf) := by
  have hcol : ∀ {α : Type} (g : FactRow → α), g sf.row.toFactRow.columns
      = g (factRow (sf.row.id, f)).columns := fun g => congrArg g h
  exact ⟨hcol FactRow.predicate, hcol FactRow.object, hcol FactRow.confidence,
    hcol FactRow.validFrom, hcol FactRow.validUntil, hcol FactRow.status⟩

theorem source_of_columns {row : FactRow} {f : KnowledgeFact}
    (h : row.columns = (factRow (row.id, f)).columns) : row.source = f.source := by
  have hsource : row.columns.source = (factRow (row.id, f)).columns.source := by rw [h]
  exact hsource

/-- The rows that the backfill has of an entity are those of stored facts. -/
theorem stored_of_mem_backfillOf {ids : List EntityId}
    {baseWhere : List EntityId → List WhereClause} {row : FactRow}
    (h : row ∈ backfillOf (backfillEntityFacts db ids baseWhere scopes) b) :
    ∃ f, db.store.facts.get? row.id = some f ∧ row = factRow (row.id, f) := by
  unfold backfillOf at h
  cases hget : (backfillEntityFacts db ids baseWhere scopes).get? b.entityId with
  | none =>
      rw [hget] at h
      exact absurd h List.not_mem_nil
  | some rows =>
      rw [hget, Option.getD_some] at h
      have hentry := InsertionMap.mem_entries_ofList (InsertionMap.mem_of_get? hget)
      obtain ⟨q, _, heq⟩ := List.mem_map.mp hentry
      rw [← (Prod.mk.inj heq).2] at h
      obtain ⟨⟨i, f⟩, hq, rfl⟩ := List.mem_map.mp (List.mem_filter.mp h).1
      have hmem := (List.mem_filter.mp (List.mem_of_mem_take hq)).1
      rw [List.mem_insertionSort] at hmem
      exact ⟨f, KeyedTable.mem_rows_iff.mp hmem, rfl⟩

theorem source_ne_of_sourced {f : KnowledgeFact} {requireProvenance : Bool}
    (h : sourced requireProvenance f.source = true) (hreq : requireProvenance = true) :
    f.source ≠ {} := by
  rw [sourced, hreq, Bool.not_true, Bool.false_or, hasProvenance, decide_eq_true_iff] at h
  exact h

/-- The backfill that a search assembles its hits with; one that overruns its budget
is empty. -/
def searchBackfill (env : SearchEnv) (db : SearchDb) (dto : SearchRequest)
    (scopes : List BrainScope) (topEntities : List EntityBucket) :
    InsertionMap EntityId (List FactRow) :=
  withStageBudget env .backfill
    (backfillEntityFacts db (topEntities.map (fun e => e.entityId))
      (reboundWhere env dto (resolveLangFilter env dto)) scopes) .empty

theorem mem_searchBackfill {topEntities : List EntityBucket} {row : FactRow}
    (h : row ∈ backfillOf (searchBackfill env db dto scopes topEntities) b) :
    row ∈ backfillOf (backfillEntityFacts db (topEntities.map (fun e => e.entityId))
      (reboundWhere env dto (resolveLangFilter env dto)) scopes) b := by
  unfold searchBackfill withStageBudget at h
  split at h
  · exact absurd h List.not_mem_nil
  · exact h

/-- **The hit of a true bucket** quotes the store. -/
theorem quotes_assembleHit (hb : TrueBucket db.store b)
    (htype : hasEntityType dto.entityTypes b = true) (topEntities : List EntityBucket) :
    Quotes db.store dto
      (assembleHit (searchBackfill env db dto scopes topEntities) dto.requireProvenance b) := by
  have hshows := shows_assembleHit (searchBackfill env db dto scopes topEntities)
    dto.requireProvenance b
  have hone : OnePredicate (backfillOf (searchBackfill env db dto scopes topEntities) b) :=
    fun r hr r' hr' hid => onePredicate_backfillEntityFacts _ _ _ _ b
      r (mem_searchBackfill hr) r' (mem_searchBackfill hr') hid
  have hentity := hb.entity
  refine ⟨?_, ?_, ?_, hshows.capped, hshows.once (nodup_matchedRows hb.nodup) hone, ?_⟩
  · have htypes := congrArg (fun o => (o.map Prod.fst).getD "other") hentity
    simp only [Option.map_map] at htypes
    exact htypes
  · have hnames := congrArg (fun o => (o.map Prod.snd).getD (toString b.entityId)) hentity
    simp only [Option.map_map] at hnames
    exact hnames
  · intro types hdto
    rw [hdto, hasEntityType] at htype
    obtain ⟨ent, hent, hmem⟩ := Option.any_eq_true _ _ |>.mp htype
    show (b.entity.map (fun ent => ent.type)).getD "other" ∈ types
    rw [hent]
    exact List.contains_iff_mem.mp hmem
  · intro x hx
    rw [hshows.facts] at hx
    rcases List.mem_append.mp hx with hx | hx
    · obtain ⟨sf, hsf, rfl⟩ := List.mem_map.mp hx
      obtain ⟨hmem, hsourced⟩ := hshows.matched_mem sf hsf
      obtain ⟨f, hf, hcolumns⟩ := (hb.rows sf hmem).2.stored
      refine ⟨f, hf, tells_renderMatched hcolumns, source_ne_of_sourced ?_⟩
      rw [← source_of_columns hcolumns]
      exact hsourced
    · obtain ⟨row, hrow, rfl⟩ := List.mem_map.mp hx
      obtain ⟨hmem, _, hsourced⟩ := hshows.backfill_mem row hrow
      obtain ⟨f, hf, heq⟩ := stored_of_mem_backfillOf (mem_searchBackfill hmem)
      refine ⟨f, hf, ?_, source_ne_of_sourced ?_⟩
      · rw [heq]
        exact ⟨rfl, rfl, rfl, rfl, rfl, rfl⟩
      · rw [heq] at hsourced
        exact hsourced

/-! ## The response -/

/-- A hit with some of the facts, with or without their scores. -/
theorem Quotes.cut {hit : SearchHit} (h : Quotes s dto hit) {l : List HitFact}
    (hsub : l.Sublist hit.facts) {g : HitFact → HitFact}
    (hg : ∀ x, (g x).factId = x.factId ∧ ∀ f, Tells f x → Tells f (g x))
    (refs : List (String × String)) :
    Quotes s dto { hit with externalRefs := refs, facts := l.map g } := by
  refine ⟨h.entityType, h.canonicalName, h.typed, ?_, ?_, ?_⟩
  · rw [List.length_map]
    exact hsub.length_le.trans h.capped
  · have hids : (l.map g).map (fun x => x.factId) = l.map (fun x => x.factId) := by
      rw [List.map_map]
      exact List.map_congr_left (fun x _ => (hg x).1)
    show ((l.map g).map (fun x => x.factId)).Nodup
    rw [hids]
    exact List.Nodup.sublist (hsub.map _) h.once
  · intro x' hx'
    obtain ⟨x, hx, rfl⟩ := List.mem_map.mp hx'
    obtain ⟨f, hf, htells, hsource⟩ := h.facts x (hsub.subset hx)
    exact ⟨f, (hg x).1 ▸ hf, (hg x).2 f htells, hsource⟩

/-- A shape leaves out facts, scores and references. -/
theorem Quotes.applyShape {hit : SearchHit} (h : Quotes s dto hit) (shape : OutputShape) :
    Quotes s dto (applyShape shape hit) := by
  cases shape with
  | full => exact h
  | compact =>
      exact h.cut (g := fun f => { f with score := none }) (List.take_sublist 1 _)
        (fun x => ⟨rfl, fun f ht => ⟨ht.predicate, ht.object, ht.confidence, ht.validFrom,
          ht.validUntil, ht.status⟩⟩) hit.externalRefs
  | ids => exact h.cut (g := id) (List.nil_sublist _) (fun x => ⟨rfl, fun f ht => ht⟩) []

/-- The confidence floor leaves out facts, and hits that are left without any. -/
theorem quotes_applyConfidenceFloor {hits : List SearchHit} (h : ∀ hit ∈ hits, Quotes s dto hit)
    (floor : ℚ) : ∀ hit ∈ applyConfidenceFloor floor hits, Quotes s dto hit := by
  intro hit hhit
  obtain ⟨r, hr, rfl⟩ := List.mem_map.mp (List.mem_filter.mp hhit).1
  have hcut := (h r hr).cut (g := id) (List.filter_sublist (p := fun f : HitFact =>
    f.score.any (fun s => decide (floor ≤ s)))) (fun x => ⟨rfl, fun f ht => ht⟩) r.externalRefs
  rwa [List.map_id] at hcut

/-- Neither of them makes an entity up. -/
theorem entityIds_shapedHits (hits : List SearchHit) (dto : SearchRequest) :
    ((OutputShaping.shapedHits hits dto).map (fun hit => hit.entityId)).Sublist
      (hits.map (fun hit => hit.entityId)) := by
  have hshape : ∀ l : List SearchHit, (l.map (applyShape dto.outputShape)).map
      (fun hit => hit.entityId) = l.map (fun hit => hit.entityId) := by
    intro l
    rw [List.map_map]
    refine List.map_congr_left (fun hit _ => ?_)
    show (applyShape dto.outputShape hit).entityId = hit.entityId
    unfold applyShape
    split <;> rfl
  unfold OutputShaping.shapedHits
  rw [hshape]
  cases dto.confidenceFloor with
  | none => exact List.Sublist.refl _
  | some floor =>
      have hfloored := (List.filter_sublist (p := fun r : SearchHit => !r.facts.isEmpty)
        (l := hits.map (fun r : SearchHit => { r with
          facts := r.facts.filter (fun f => f.score.any (fun s => decide (floor ≤ s))) }))).map
            (fun hit => hit.entityId)
      rwa [List.map_map] at hfloored

/-- **The shaping** leaves a prefix of the shaped hits, which fits the budget. -/
theorem applyOutputShaping_prefix (countTokens : List SearchHit → ℕ) (hits : List SearchHit)
    (dto : SearchRequest) :
    ∃ n, applyOutputShaping countTokens hits dto
      = (OutputShaping.shapedHits hits dto).take n ∧
        (applyOutputShaping countTokens hits dto = [] ∨
          ∀ budget, dto.tokenBudget = some budget →
            countTokens (applyOutputShaping countTokens hits dto) ≤ budget) := by
  rw [OutputShaping.applyOutputShaping_eq]
  obtain ⟨n, hn, heq⟩ := OutputShaping.popUntilFits_longest
    (OutputShaping.fitsBudget countTokens dto) (OutputShaping.shapedHits hits dto)
  rw [heq]
  refine ⟨n, rfl, ?_⟩
  rcases hn.fitting with hfits | hzero
  · right
    intro budget hbudget
    rw [OutputShaping.fitsBudget, hbudget] at hfits
    exact of_decide_eq_true hfits
  · left
    rw [hzero, List.take_zero]

/-- The hits of a search before they are shaped. -/
def unshapedHits (env : SearchEnv) (db : SearchDb) (dto : SearchRequest)
    (scopes : List BrainScope) : List SearchHit :=
  let topEntities := rankEntities env db dto scopes (visibleRows env db dto scopes)
  assembleHits topEntities (searchBackfill env db dto scopes topEntities) dto.entityTypes
    dto.requireProvenance

theorem runPipeline_eq (env : SearchEnv) (db : SearchDb) (dto : SearchRequest)
    (scopes : List BrainScope) : runPipeline env db dto scopes
      = applyOutputShaping env.countTokens (unshapedHits env db dto scopes) dto := rfl

theorem quotes_unshapedHits (hp : RerankersPermute env) (db : SearchDb) (dto : SearchRequest)
    (scopes : List BrainScope) :
    (∀ hit ∈ unshapedHits env db dto scopes, Quotes db.store dto hit) ∧
      ((unshapedHits env db dto scopes).map (fun hit => hit.entityId)).Nodup ∧
      (unshapedHits env db dto scopes).length ≤ min dto.limit 20 := by
  obtain ⟨htrue, hlen⟩ := trueBuckets_rankEntities hp db dto scopes
  unfold unshapedHits
  dsimp only
  generalize rankEntities env db dto scopes (visibleRows env db dto scopes) = topEntities
    at htrue hlen ⊢
  rw [assembleHits_eq]
  have hsub : (shownBuckets topEntities (searchBackfill env db dto scopes topEntities)
      dto.entityTypes dto.requireProvenance).Sublist (topEntities.filter
        (hasEntityType dto.entityTypes)) := List.filter_sublist
  have hall := hsub.trans List.filter_sublist
  refine ⟨?_, ?_, ?_⟩
  · intro hit hhit
    obtain ⟨b, hb, rfl⟩ := List.mem_map.mp hhit
    have htype := (List.mem_filter.mp (hsub.subset hb)).2
    exact quotes_assembleHit (htrue.each b (hall.subset hb)) htype topEntities
  · rw [List.map_map]
    exact htrue.nodup.sublist (hall.map _)
  · rw [List.length_map]
    exact hall.length_le.trans hlen

theorem quotes_shapedHits {hits : List SearchHit} (h : ∀ hit ∈ hits, Quotes s dto hit) :
    ∀ hit ∈ OutputShaping.shapedHits hits dto, Quotes s dto hit := by
  intro hit hhit
  obtain ⟨r, hr, rfl⟩ := List.mem_map.mp hhit
  refine Quotes.applyShape ?_ dto.outputShape
  cases hfloor : dto.confidenceFloor with
  | none =>
      rw [hfloor] at hr
      exact h r hr
  | some floor =>
      rw [hfloor] at hr
      exact quotes_applyConfidenceFloor h floor r hr

end Hits

/-! ## What is asked of a fact -/

/-- What the request and the scopes of the caller ask of a fact, less its entity and its
language. -/
structure Asked (now : Time) (dto : SearchRequest) (scopes : List BrainScope)
    (f : KnowledgeFact) : Prop where
  allowed : scopeAllows scopes f.predicate = true
  standing : dto.includeRetracted = false → f.retractedAt = none
  uncontested : dto.includeContested = false → f.status ≠ .competing
  confident : ∀ c, dto.minConfidence = some c → c ≤ f.confidence.1
  predicate : dto.predicates ≠ [] → f.predicate ∈ dto.predicates
  asOf : ∀ t, dto.asOf = some t → f.span.holds t = true ∧
    (∀ r, f.retractedAt = some r → t < r) ∧ f.status ≠ .compacted
  current : dto.asOf = none → dto.includeStale = false →
    f.span.holds now = true ∧ f.status ≠ .compacted

section Asked

variable {now : Time} {d : SearchDto} {dto : SearchRequest} {scopes : List BrainScope}
  {f : KnowledgeFact} {langFilter : Option String}

/-- A clause that is pushed has to hold. -/
theorem holds_of_admits {clauses : List WhereClause} (clause : WhereClause)
    (h : admits clauses f = true) (hmem : clause ∈ clauses) : clause f = true :=
  List.all_eq_true.mp h clause hmem

/-- The point-in-time clause, in terms of the interval. -/
theorem holds_of_asOfClause {t : Time} (h : asOfClause t f = true) :
    f.span.holds t = true ∧ (∀ r, f.retractedAt = some r → t < r) ∧ f.status ≠ .compacted := by
  rw [Span.holds_iff]
  cases hr : f.retractedAt <;> cases hu : f.validUntil <;>
    simp_all [asOfClause, KnowledgeFact.span]

theorem holds_of_currentClause (h : currentClause now f = true) :
    f.span.holds now = true ∧ f.status ≠ .compacted := by
  rw [Span.holds_iff]
  cases hu : f.validUntil <;> simp_all [currentClause, KnowledgeFact.span]

/-- **The WHERE asks what the request does**, also in a query that binds the entities
itself. -/
theorem asked_of_admits (hconf : d.minConfidence = dto.minConfidence)
    (hpred : d.predicates = dto.predicates) (hstale : d.includeStale = dto.includeStale)
    (h : admits (buildBaseWhere now d dto.asOf dto.includeRetracted dto.includeContested
      langFilter) f = true)
    (hallow : scopeAllows scopes f.predicate = true) : Asked now dto scopes f where
  allowed := hallow
  standing hreq := by
    have hclause := holds_of_admits notRetractedClause h (by simp [buildBaseWhere, hreq])
    exact Option.isNone_iff_eq_none.mp hclause
  uncontested hreq := by
    have hclause := holds_of_admits notContestedClause h (by simp [buildBaseWhere, hreq])
    simpa [notContestedClause] using hclause
  confident c hreq := by
    have hclause := holds_of_admits (minConfidenceClause c) h
      (by simp [buildBaseWhere, hconf, hreq])
    simpa [minConfidenceClause] using hclause
  predicate hreq := by
    have hclause := holds_of_admits (predicatesClause dto.predicates) h
      (by simp [buildBaseWhere, hpred, hreq])
    simpa [predicatesClause] using hclause
  asOf t hreq := by
    have hclause := holds_of_admits (asOfClause t) h (by simp [buildBaseWhere, hreq])
    exact holds_of_asOfClause hclause
  current hnone hreq := by
    have hclause := holds_of_admits (currentClause now) h
      (by simp [buildBaseWhere, hnone, hstale, hreq])
    exact holds_of_currentClause hclause

theorem asked_of_requestWhere {env : SearchEnv}
    (h : admits (requestWhere env dto.clamped langFilter) f = true)
    (hallow : scopeAllows scopes f.predicate = true) : Asked env.now dto scopes f :=
  asked_of_admits (d := dto.toSearchDto) rfl rfl rfl h hallow

theorem asked_of_reboundWhere {env : SearchEnv} {ids : List EntityId}
    (h : admits (dto.reboundWhere_ env ids) f = true)
    (hallow : scopeAllows scopes f.predicate = true) : Asked env.now dto scopes f := by
  have hsame : (dto.toSearchDto.rebind ids).minConfidence = dto.minConfidence ∧
      (dto.toSearchDto.rebind ids).predicates = dto.predicates ∧
      (dto.toSearchDto.rebind ids).includeStale = dto.includeStale := by
    unfold SearchDto.rebind
    split
    · exact ⟨rfl, rfl, rfl⟩
    · exact ⟨rfl, rfl, rfl⟩
  exact asked_of_admits hsame.1 hsame.2.1 hsame.2.2 h hallow

end Asked

/-! ## The whole search -/

/-- The hit quotes facts of its entity, or of one that was merged into it, which the
request asks for and the caller may see. -/
structure TrueHit (env : SearchEnv) (db : SearchDb) (dto : SearchRequest)
    (scopes : List BrainScope) (hit : SearchHit) : Prop extends Quotes db.store dto hit where
  asked : ∀ x ∈ hit.facts, ∀ f, db.store.facts.get? x.factId = some f →
    Asked env.now dto scopes f ∧
      (hit.entityId = f.entityId ∨ hit.entityId = db.store.seatOf f.entityId)

/-- The same without the columns, from what every stage reads. -/
theorem asked_of_mem_search {env : SearchEnv} {db : SearchDb} {dto : SearchRequest}
    {scopes : List BrainScope} {hit : SearchHit} (hhit : hit ∈ search env db dto scopes) :
    ∀ x ∈ hit.facts, ∀ f, db.store.facts.get? x.factId = some f →
      Asked env.now dto scopes f ∧
        (hit.entityId = f.entityId ∨ hit.entityId = db.store.seatOf f.entityId) := by
  have hall : ∀ hit ∈ search env db dto scopes, HitAttributed (fun _ => True)
      (fun e i _ => ∃ f, db.store.facts.get? i = some f ∧ Asked env.now dto scopes f ∧
        (e = f.entityId ∨ e = db.store.seatOf f.entityId)) hit := by
    apply search_attributed (fun _ h => h)
    · intro row hrow
      obtain ⟨f, hf, hpred, hseat, hadm⟩ := seatOf_visibleRows hrow
      have hallow : scopeAllows scopes f.predicate = true := hpred ▸ (List.mem_filter.mp hrow).2
      exact ⟨trivial, f, hf, asked_of_requestWhere hadm hallow, Or.inr hseat⟩
    · rintro _ e n _ _ _ _ i f hf rfl ⟨ids, hadm⟩ hallow
      exact ⟨trivial, f, hf, asked_of_reboundWhere hadm hallow, Or.inl rfl⟩
    · rintro e _ i f hf rfl ⟨ids, hadm⟩ hallow
      exact ⟨f, hf, asked_of_reboundWhere hadm hallow, Or.inl rfl⟩
  intro x hx f hf
  obtain ⟨g, hg, hasked, habout⟩ := (hall hit hhit).2 x hx
  obtain rfl : f = g := Option.some.inj (hf.symm.trans hg)
  exact ⟨hasked, habout⟩

/-- **A search tells the truth**, whatever the models, the budgets and the rerankers do,
as long as the latter permute: every hit is true, no entity has two, there are no more
than the limit and the window of the reranker take, and they fit the token budget. -/
theorem search_true (env : SearchEnv) (hp : RerankersPermute env) (db : SearchDb)
    (dto : SearchRequest) (scopes : List BrainScope) :
    (∀ hit ∈ search env db dto scopes, TrueHit env db dto scopes hit) ∧
    ((search env db dto scopes).map (fun hit => hit.entityId)).Nodup ∧
    (search env db dto scopes).length ≤ min dto.limit 20 ∧
    (search env db dto scopes = [] ∨ ∀ budget, dto.tokenBudget = some budget →
      env.countTokens (search env db dto scopes) ≤ budget) := by
  obtain ⟨hquotes, hnodup, hlen⟩ := quotes_unshapedHits hp db dto.clamped scopes
  obtain ⟨n, heq, hfits⟩ := applyOutputShaping_prefix env.countTokens
    (unshapedHits env db dto.clamped scopes) dto.clamped
  have hsearch : search env db dto scopes
      = (OutputShaping.shapedHits (unshapedHits env db dto.clamped scopes) dto.clamped).take n :=
    (runPipeline_eq env db dto.clamped scopes).trans heq
  have hids : ((search env db dto scopes).map (fun hit => hit.entityId)).Sublist
      ((unshapedHits env db dto.clamped scopes).map (fun hit => hit.entityId)) := by
    rw [hsearch]
    exact ((List.take_sublist _ _).map _).trans (entityIds_shapedHits _ _)
  refine ⟨fun hit hhit => ?_, hnodup.sublist hids, ?_, hfits⟩
  · have hmem : hit ∈ OutputShaping.shapedHits (unshapedHits env db dto.clamped scopes)
        dto.clamped := by
      rw [hsearch] at hhit
      exact List.mem_of_mem_take hhit
    have hquote : Quotes db.store dto.clamped hit := quotes_shapedHits hquotes hit hmem
    exact { toQuotes := { hquote with }, asked := asked_of_mem_search hhit }
  · have hle := hids.length_le
    rw [List.length_map, List.length_map] at hle
    exact hle.trans hlen

/-- A service without rerankers whose index matches every fact. -/
def matchAllEnv (expansion : ExpansionConfig) : SearchEnv :=
  { plainSearchEnv expansion with
    engine := { cosine := fun _ _ => 0, fullText := fun _ _ _ _ => some 1 } }

/-- A tenant with one fact, of an entity named ada. -/
def adaDb : SearchDb where
  store :=
    { facts := KeyedTable.empty.insert
        { entityId := 0, predicate := "city", object := "London", confidence := .full
          validFrom := 0, recordedAt := 0, source := { vertical := some "rent" } }
      entities := KeyedTable.empty.insert { type := "person", canonicalName := "ada" } }

/-- The search for her. -/
theorem search_true_ada :
    (search (matchAllEnv {}) adaDb { query := "ada" } []).map
        (fun hit => (hit.canonicalName, hit.facts.map (fun x => x.object)))
      = [("ada", ["London"])] ∧
    (∀ hit ∈ search (matchAllEnv {}) adaDb { query := "ada" } [],
      TrueHit (matchAllEnv {}) adaDb { query := "ada" } [] hit) ∧
    ((search (matchAllEnv {}) adaDb { query := "ada" } []).map (fun hit => hit.entityId)).Nodup ∧
    (search (matchAllEnv {}) adaDb { query := "ada" } []).length ≤ min 10 20 ∧
    (search (matchAllEnv {}) adaDb { query := "ada" } [] = [] ∨
      ∀ budget, (none : Option ℕ) = some budget →
        (matchAllEnv {}).countTokens (search (matchAllEnv {}) adaDb { query := "ada" } []) ≤ budget) :=
  ⟨by decide +kernel,
    search_true (matchAllEnv {}) ⟨fun _ h => (by cases h), fun _ h => (by cases h)⟩ adaDb
      { query := "ada" } []⟩

end Brain
