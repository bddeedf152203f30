/-
`graphRetrieve` of `src/src/search/search.service.ts`, with the queries of
`src/src/search/internals/graph-retrieve-db.ts` and the assembly of
`graph-retrieve.ts`.

The method filters nothing by scope. Where the scoped pool is on, the connection
hides the `object` of the predicates that
`src/src/db/migrations/0005_pii_permissions.surql` names, and the rows come all the
same; where it is off, `withScopedCompany` falls back to the root pool, which sees
everything.
-/
import Brain.Lib.JsString
import Brain.Search.Ranking

set_option autoImplicit false

namespace Brain

/-- What the graph path takes from outside. -/
structure GraphEnv where
  now : Time
  /-- `SURREALDB_SCOPED_USER` and `SURREALDB_SCOPED_PASS` are set. -/
  scopedEnabled : Bool
  /-- `toLowerCase`, and `string::lowercase` behind `canonicalNameLc`. -/
  toLowerCase : String → String
  /-- The BM25 score of an entity whose `canonicalName` matches a query. -/
  nameScore : KeyedTable KnowledgeEntity → String → EntityId → Option ℚ

/-- `GraphEntity`. -/
structure GraphEntity where
  entityId : EntityId
  type : String
  canonicalName : String
  externalRefs : List (String × String)

/-- `toGraphEntity`. -/
def toGraphEntity (q : EntityId × KnowledgeEntity) : GraphEntity where
  entityId := q.1
  type := q.2.type
  canonicalName := q.2.canonicalName
  externalRefs := q.2.externalRefs

/-! ## The queries -/

/-- `resolveSeedEntities`. -/
def resolveSeedEntities (env : GraphEnv) (s : Store) (queryText : String)
    (entityRefs : List String) : List GraphEntity :=
  let refsLc := entityRefs.map env.toLowerCase
  let seeds := ((s.entities.select (fun _ r => r.mergedInto.isNone &&
    refsLc.contains (env.toLowerCase r.canonicalName))).take 10).map toGraphEntity
  -- without references the first query is not made
  if !entityRefs.isEmpty && !seeds.isEmpty then seeds
  else
    let targetLc := env.toLowerCase (String.ofList (trim queryText.toList))
    if targetLc.isEmpty then []
    else
      let scored := (s.entities.select (fun _ r => r.mergedInto.isNone)).filterMap
        (fun q => (env.nameScore s.entities targetLc q.1).map (fun bm25 => (q, bm25)))
      ((scored.insertionSort (fun a b => b.2 ≤ a.2)).take 5).map (fun a => toGraphEntity a.1)

/-- `fetchOneHopNeighbourIds`. -/
def fetchOneHopNeighbourIds (db : SearchDb) (seedIds : List EntityId) : List EntityId :=
  ((seedIds.filter (fun id => (db.store.entities.get? id).isSome)).flatMap (fun id =>
    ((peerEdges db id).filterMap (fun e => e.peer)).filter (fun peerId => peerId ≠ id))).eraseDups

/-- `fetchEntitiesByIds`. -/
def fetchEntitiesByIds (s : Store) (ids : List EntityId) : List GraphEntity :=
  (s.entities.select (fun i r => ids.contains i && r.mergedInto.isNone)).map toGraphEntity

/-- The permission on `object`: whether the connection of a caller returns it. -/
def selectsObject (scopedEnabled : Bool) (callerScopes : List BrainScope) (predicate : String) :
    Bool :=
  !scopedEnabled || !(["address", "dob"].contains predicate) || callerScopes.contains .read_pii

/-- A fact row as a connection returns it. -/
structure GraphFact where
  row : GraphFactRow
  object : Option String

def readGraphFact (scopedEnabled : Bool) (callerScopes : List BrainScope) (r : GraphFactRow) :
    GraphFact where
  row := r
  object := if selectsObject scopedEnabled callerScopes r.predicate then some r.object else none

/-! ## The assembly -/

/-- A fact of a `GraphRetrieveHit`. -/
structure GraphHitFact where
  factId : FactId
  predicate : String
  object : Option String
  confidence : Confidence
  validFrom : Time
  validUntil : Option Time
  status : Status
  score : ℚ
  breakdown : FactScoreBreakdown

/-- `GraphRetrieveHit`. -/
structure GraphRetrieveHit where
  entityId : EntityId
  entityType : String
  canonicalName : String
  externalRefs : List (String × String)
  facts : List GraphHitFact
  score : ℚ

/-- `SEED_SCORE`. -/
def SEED_SCORE : ℚ := 1

/-- `NEIGHBOUR_SCORE`. -/
def NEIGHBOUR_SCORE : ℚ := 7 / 10

/-- `HINT_MATCH_FACT_SCORE`. -/
def HINT_MATCH_FACT_SCORE : ℚ := 1

/-- `NON_HINT_FACT_SCORE`. -/
def NON_HINT_FACT_SCORE : ℚ := 5 / 10

/-- The key of `dedupeAndSortFacts`; a hidden object prints as `undefined`. -/
def GraphFact.key (f : GraphFact) : String :=
  f.row.predicate ++ "::" ++ f.object.getD "undefined"

/-- One turn of the loop of `dedupeAndSortFacts`. -/
def keepLatest (byKey : InsertionMap String GraphFact) (f : GraphFact) :
    InsertionMap String GraphFact :=
  match byKey.get? f.key with
  | none => byKey.set f.key f
  | some prev => if prev.row.recordedAt < f.row.recordedAt then byKey.set f.key f else byKey

/-- `dedupeAndSortFacts`. -/
def dedupeAndSortFacts (rows : List GraphFact) : List GraphFact :=
  (rows.foldl keepLatest .empty).values.insertionSort
    (fun a b => b.row.recordedAt ≤ a.row.recordedAt)

/-- A fact as `renderHit` shows it. -/
def renderGraphFact (hints : List String) (stage : RetrievalStage) (f : GraphFact) : GraphHitFact :=
  let factScore := if hints.isEmpty || hints.contains f.row.predicate then HINT_MATCH_FACT_SCORE
    else NON_HINT_FACT_SCORE
  { factId := f.row.factId
    predicate := f.row.predicate
    object := f.object
    confidence := f.row.confidence
    validFrom := f.row.validFrom
    validUntil := f.row.validUntil
    status := f.row.status
    score := factScore
    breakdown :=
      { fusedScore := factScore, confidence := f.row.confidence.1, decay := 1, predBoost := 1,
        finalScore := factScore * f.row.confidence.1, stages := [stage] } }

/-- `renderHit`; the stage is that of the score. -/
def renderHit (ent : GraphEntity) (rows : List GraphFact) (hints : List String)
    (stage : RetrievalStage) (entityScore : ℚ) : GraphRetrieveHit where
  entityId := ent.entityId
  entityType := ent.type
  canonicalName := ent.canonicalName
  externalRefs := ent.externalRefs
  facts := (dedupeAndSortFacts rows).map (renderGraphFact hints stage)
  score := entityScore

/-- `assembleGraphHits`: the seeds, whatever they have, and the neighbours with a
fact that the hints ask for. -/
def assembleGraphHits (seedIds : List EntityId) (entitiesById : InsertionMap EntityId GraphEntity)
    (factsByEntity : InsertionMap EntityId (List GraphFact)) (predicateHints : List String) :
    List GraphRetrieveHit :=
  let rowsOf (id : EntityId) : List GraphFact := (factsByEntity.get? id).getD []
  seedIds.filterMap (fun seedId => (entitiesById.get? seedId).map (fun ent =>
      renderHit ent (rowsOf seedId) predicateHints .graph_seed SEED_SCORE)) ++
    (entitiesById.entries.filter (fun e => !seedIds.contains e.1 && !(rowsOf e.1).isEmpty &&
      (predicateHints.isEmpty ||
        (rowsOf e.1).any (fun f => predicateHints.contains f.row.predicate)))).map (fun e =>
          renderHit e.2 (rowsOf e.1) predicateHints .graph_neighbour NEIGHBOUR_SCORE)

/-- `graphRetrieve`; queries that fail yield no results in the source. -/
def graphRetrieve (env : GraphEnv) (db : SearchDb) (queryText : String)
    (entityRefs predicateHints : List String) (asOf : Option Time)
    (callerScopes : List BrainScope) : List GraphRetrieveHit :=
  let seeds := resolveSeedEntities env db.store queryText entityRefs
  let seedIds := seeds.map (fun e => e.entityId)
  let neighbours := fetchEntitiesByIds db.store (fetchOneHopNeighbourIds db seedIds)
  let entitiesById : InsertionMap EntityId GraphEntity :=
    .ofList ((seeds ++ neighbours).map (fun e => (e.entityId, e)))
  let factRows := fetchFactsForEntities env.now db.store.facts entitiesById.keys predicateHints asOf
  let factsByEntity : InsertionMap EntityId (List GraphFact) :=
    .ofList (factRows.filterMap (fun group => group.head?.map (fun r =>
      (r.entityId, group.map (readGraphFact env.scopedEnabled callerScopes)))))
  assembleGraphHits seedIds entitiesById factsByEntity predicateHints

end Brain
