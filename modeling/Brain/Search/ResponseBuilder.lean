/-
The end of the search pipeline: the backfill of an entity's other facts
(`src/src/search/internals/backfill.ts`), the assembly of the hits and the shaping
of the response (`response-builder.ts`).
-/
import Brain.Search.Ranking

set_option autoImplicit false

namespace Brain

/-- `outputShape`. -/
inductive OutputShape where
  | full | compact | ids
deriving DecidableEq, Repr

/-- The fields of `SearchDto` that are read outside of `buildBaseWhere`. -/
structure SearchRequest extends SearchDto where
  query : String
  limit : ℕ := 10
  entityTypes : Option (List String) := none
  asOf : Option Time := none
  includeContested : Bool := true
  includeRetracted : Bool := false
  searchMode : SearchMode := .hybrid
  confidenceFloor : Option ℚ := none
  requireProvenance : Bool := false
  tokenBudget : Option ℕ := none
  outputShape : OutputShape := .full
  queryLang : Option String := none

/-- A fact of a `SearchHit`; the compact shape has no score. -/
structure HitFact where
  factId : FactId
  predicate : String
  object : String
  confidence : Confidence
  validFrom : Time
  validUntil : Option Time
  status : Status
  score : Option ℚ
  breakdown : FactScoreBreakdown
deriving DecidableEq

/-- `SearchHit`. -/
structure SearchHit where
  entityId : EntityId
  entityType : String
  canonicalName : String
  externalRefs : List (String × String)
  facts : List HitFact
  score : ℚ
deriving DecidableEq

/-! ## Backfill -/

/-- The facts of one entity that the inline subquery returns. -/
def backfillRows (db : SearchDb) (baseWhere : List WhereClause) (e : EntityId) : List FactRow :=
  (((db.store.facts.rows.insertionSort newestFirst).filter
    (fun q => q.2.entityId == e && admits baseWhere q.2)).take 50).map factRow

/-- `backfillEntityFacts`; this query, too, binds `$entityIds` to its own ids. -/
def backfillEntityFacts (db : SearchDb) (entityIds : List EntityId)
    (baseWhere : List EntityId → List WhereClause) (callerScopes : List BrainScope) :
    InsertionMap EntityId (List FactRow) :=
  let rows := db.store.entities.select (fun i _ => entityIds.contains i)
  .ofList (rows.map (fun q =>
    (q.1, (backfillRows db (baseWhere entityIds) q.1).filter (passesPolicy callerScopes))))

/-! ## Hits -/

/-- `hasProvenance`: whether the source has a field. -/
def hasProvenance (src : FactSource) : Bool := decide (src ≠ {})

/-- A matched fact as it is rendered. -/
def renderMatched (sf : ScoredRow) : HitFact where
  factId := sf.row.id
  predicate := sf.row.predicate
  object := sf.row.object
  confidence := sf.row.confidence
  validFrom := sf.row.validFrom
  validUntil := sf.row.validUntil
  status := sf.row.status
  score := some sf.score
  breakdown := sf.breakdown

/-- A backfilled fact as it is rendered. -/
def renderBackfill (row : FactRow) : HitFact where
  factId := row.id
  predicate := row.predicate
  object := row.object
  confidence := row.confidence
  validFrom := row.validFrom
  validUntil := row.validUntil
  status := row.status
  score := some 0
  breakdown :=
    { fusedScore := 0, confidence := row.confidence.1, decay := 1, predBoost := 1, finalScore := 0,
      stages := [.backfill] }

/-- The loop over the backfill rows: one for each new predicate. -/
def newPredicates : List FactRow → List String → List FactRow
  | [], _ => []
  | row :: rows, seenPredicates =>
      if seenPredicates.contains row.predicate then newPredicates rows seenPredicates
      else row :: newPredicates rows (row.predicate :: seenPredicates)

/-- The entity of a bucket: that of its first fact. -/
def EntityBucket.entity (e : EntityBucket) : Option RowEntity :=
  e.facts.head?.bind (fun sf => sf.row.entity)

/-- `assembleHits` on one bucket. -/
def assembleHit (backfillByEntity : InsertionMap EntityId (List FactRow))
    (requireProvenance : Bool) (e : EntityBucket) : SearchHit :=
  let admissible (src : FactSource) : Bool := !requireProvenance || hasProvenance src
  let mergedRefs := e.facts.foldl (fun refs sf =>
    assignRefs refs ((sf.row.entity.map (fun ent => ent.externalRefs)).getD [])) []
  let matchedFactIds := e.facts.map (fun sf => sf.row.id)
  let matchedRender := ((e.facts.filter (fun sf => admissible sf.row.source)).insertionSort
    (fun a b => b.score ≤ a.score)).map renderMatched
  let backfillRows := (((backfillByEntity.get? e.entityId).getD []).filter
    (fun r => !matchedFactIds.contains r.id && admissible r.source)).insertionSort
      (fun a b => b.recordedAt ≤ a.recordedAt)
  let backfillRender :=
    (newPredicates backfillRows (matchedRender.map (fun f => f.predicate))).map renderBackfill
  { entityId := e.entityId
    entityType := (e.entity.map (fun ent => ent.type)).getD "other"
    canonicalName := (e.entity.map (fun ent => ent.canonicalName)).getD (toString e.entityId)
    externalRefs := mergedRefs
    facts := (matchedRender ++ backfillRender).take 5
    score := e.bestScore }

/-- The `entityTypes` filter; an empty list admits nothing. -/
def hasEntityType (entityTypes : Option (List String)) (e : EntityBucket) : Bool :=
  match entityTypes with
  | none => true
  | some types => e.entity.any (fun ent => types.contains ent.type)

/-- `assembleHits`. -/
def assembleHits (topEntities : List EntityBucket)
    (backfillByEntity : InsertionMap EntityId (List FactRow)) (entityTypes : Option (List String))
    (requireProvenance : Bool) : List SearchHit :=
  ((topEntities.filter (hasEntityType entityTypes)).map
    (assembleHit backfillByEntity requireProvenance)).filter
      (fun hit => !requireProvenance || !hit.facts.isEmpty)

/-! ## Output shaping -/

/-- The confidence floor. -/
def applyConfidenceFloor (floor : ℚ) (hits : List SearchHit) : List SearchHit :=
  (hits.map (fun r =>
    { r with facts := r.facts.filter (fun f => f.score.any (fun s => decide (floor ≤ s))) })).filter
      (fun r => !r.facts.isEmpty)

/-- The output shape on one hit. -/
def applyShape (shape : OutputShape) (r : SearchHit) : SearchHit :=
  match shape with
  | .full => r
  | .compact => { r with facts := (r.facts.take 1).map (fun f => { f with score := none }) }
  | .ids => { r with externalRefs := [], facts := [] }

/-- `while (results.length > 0 && !fitsBudget(results)) results.pop()`, on the
reversed list. -/
def popUntilFits (fitsBudget : List SearchHit → Bool) : List SearchHit → List SearchHit
  | [] => []
  | r :: results =>
      if fitsBudget (r :: results).reverse then (r :: results).reverse
      else popUntilFits fitsBudget results

/-- `applyOutputShaping`; `countTokens` counts the tokens of the serialised response. -/
def applyOutputShaping (countTokens : List SearchHit → ℕ) (hits : List SearchHit)
    (dto : SearchRequest) : List SearchHit :=
  let floored := match dto.confidenceFloor with
    | none => hits
    | some floor => applyConfidenceFloor floor hits
  let shaped := floored.map (applyShape dto.outputShape)
  match dto.tokenBudget with
  | none => shaped
  | some budget => popUntilFits (fun xs => decide (countTokens xs ≤ budget)) shaped.reverse

end Brain
