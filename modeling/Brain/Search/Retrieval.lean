/-
The first half of the search pipeline: the rows that the two retrieval legs read
(`src/src/search/internals/legs.ts`), their fusion (`fusion.ts`), the re-attribution
of rows of merged entities (`identity-merge.ts`) and the scope filter (`policy.ts`).

What the database computes about texts and vectors is a parameter
(`SearchEngine`). On a scoped connection it also hides the `object` of the
predicates that `passesPolicy` drops; nothing before that filter reads an `object`.
A query that fails soft is one that finds nothing.
-/
import Brain.Db.ResolveFact
import Brain.Entities.EntitiesService
import Brain.Lib.InsertionMap
import Brain.Search.WhereBuilder

set_option autoImplicit false

namespace Brain

/-! ## Rows -/

/-- `SearchMode`. -/
inductive SearchMode where
  | vector | lexical | hybrid
deriving DecidableEq, Repr

/-- `RetrievalStage`. -/
inductive RetrievalStage where
  | hype | lexical | graph_seed | graph_neighbour | edge_expansion | ppr | backfill
deriving DecidableEq, Repr

/-- The `entity` of a row: the record that its `entityId` links to. -/
structure RowEntity where
  id : EntityId
  type : String
  canonicalName : String
  externalRefs : List (String × String) := []
  mergedInto : Option EntityId := none
deriving DecidableEq, Repr

/-- `FactRow`. -/
structure FactRow where
  id : FactId
  entityId : EntityId
  predicate : String
  object : String
  confidence : Confidence
  validFrom : Time
  validUntil : Option Time
  recordedAt : Time
  retractedAt : Option Time
  status : Status
  source : FactSource
  entity : Option RowEntity := none
  simScore : Option ℚ := none
  bm25Score : Option ℚ := none
  stages : List RetrievalStage := []
deriving DecidableEq

/-- `FusedRow`. -/
structure FusedRow extends FactRow where
  fusedScore : ℚ
deriving DecidableEq

/-- What a search reads. `altEmbedding` is the column of migration 0008, which no
other reader looks at. -/
structure SearchDb where
  store : Store
  edges : KeyedTable KnowledgeEdge := .empty
  altEmbedding : FactId → Option (List ℚ) := fun _ => none

/-- What the database computes for the legs. -/
structure SearchEngine where
  /-- `vector::similarity::cosine`. -/
  cosine : List ℚ → List ℚ → ℚ
  /-- The better of `search::score(1)` and `search::score(2)` of a fact that the query
  matches in `searchHaystack` or in `object`; both columns are indexed as the facts
  have them. -/
  fullText : List BrainScope → KeyedTable KnowledgeFact → String → FactId → Option ℚ

/-- `entityId.{id, type, canonicalName, externalRefs, mergedInto}`. -/
def rowEntity (s : Store) (e : EntityId) : Option RowEntity :=
  (s.entities.get? e).map (fun r =>
    { id := e, type := r.type, canonicalName := r.canonicalName, externalRefs := r.externalRefs,
      mergedInto := r.mergedInto })

/-- The columns that every query on facts selects. -/
def factRow (q : FactId × KnowledgeFact) : FactRow where
  id := q.1
  entityId := q.2.entityId
  predicate := q.2.predicate
  object := q.2.object
  confidence := q.2.confidence
  validFrom := q.2.validFrom
  validUntil := q.2.validUntil
  recordedAt := q.2.recordedAt
  retractedAt := q.2.retractedAt
  status := q.2.status
  source := q.2.source

/-- The same with the entity inlined. -/
def factRowWithEntity (s : Store) (q : FactId × KnowledgeFact) : FactRow :=
  { factRow q with entity := rowEntity s q.2.entityId }

/-! ## The legs -/

/-- A row of a leg query, if it has a score and passes the WHERE. -/
def scoredHit (s : Store) (score : FactId × KnowledgeFact → Option ℚ)
    (baseWhere : List WhereClause) (q : FactId × KnowledgeFact) : Option (FactRow × ℚ) :=
  if admits baseWhere q.2 then (score q).map (fun x => (factRowWithEntity s q, x)) else none

/-- The query of a leg: the scored rows, the best `k`. -/
def legRows (s : Store) (score : FactId × KnowledgeFact → Option ℚ) (k : ℕ)
    (baseWhere : List WhereClause) : List (FactRow × ℚ) :=
  ((s.facts.rows.filterMap (scoredHit s score baseWhere)).insertionSort
    (fun a b => b.2 ≤ a.2)).take k

/-- `simScore`: the better similarity of the two embeddings. -/
def simScore (engine : SearchEngine) (db : SearchDb) (queryEmbedding : List ℚ)
    (q : FactId × KnowledgeFact) : Option ℚ :=
  q.2.embedding.map (fun e => max (engine.cosine e queryEmbedding)
    (match db.altEmbedding q.1 with
      | none => -1
      | some alt => engine.cosine alt queryEmbedding))

/-- `runVectorLeg`. -/
def runVectorLeg (engine : SearchEngine) (embed : String → List ℚ) (db : SearchDb)
    (query : String) (k : ℕ) (baseWhere : List WhereClause) : List FactRow :=
  (legRows db.store (simScore engine db (embed query)) k baseWhere).map
    (fun r => { r.1 with simScore := some r.2 })

/-- `runLexicalLeg`. -/
def runLexicalLeg (engine : SearchEngine) (callerScopes : List BrainScope) (db : SearchDb)
    (query : String) (k : ℕ) (baseWhere : List WhereClause) : List FactRow :=
  let score := engine.fullText callerScopes db.store.facts query
  (legRows db.store (fun q => score q.1) k baseWhere).map
    (fun r => { r.1 with bm25Score := some r.2 })

/-! ## Fusion -/

/-- `addStage`. -/
def addStage (row : FusedRow) (stage : RetrievalStage) : FusedRow :=
  if row.stages.contains stage then row else { row with stages := row.stages ++ [stage] }

/-- `HYBRID_VECTOR_WEIGHT`. -/
def HYBRID_VECTOR_WEIGHT : ℚ := 5 / 10

/-- `normalizeVec`. -/
def normalizeVec (s : ℚ) : ℚ := if s ≤ 0 then 0 else if 1 < s then 1 else s

/-- `normalizeLex`. -/
def normalizeLex (s : ℚ) : ℚ := if s ≤ 0 then 0 else s / (1 + s)

/-- A row of the vector leg as it enters the fusion. -/
def vecRow (weight : ℚ) (r : FactRow) : FusedRow :=
  addStage { r with fusedScore := weight * normalizeVec (r.simScore.getD 0) } .hype

/-- A row of the lexical leg as it enters the fusion. -/
def lexRow (weight : ℚ) (r : FactRow) : FusedRow :=
  addStage { r with fusedScore := weight * normalizeLex (r.bm25Score.getD 0) } .lexical

/-- A row of the vector leg that the lexical leg returned as well. -/
def bothRow (weight : ℚ) (prior : FusedRow) (r : FactRow) : FusedRow :=
  addStage { prior with fusedScore := prior.fusedScore + weight * normalizeLex (r.bm25Score.getD 0)
                        bm25Score := r.bm25Score } .lexical

/-- The loop over the rows of the lexical leg in hybrid mode. -/
def mergeLexical (weight : ℚ) (merged : InsertionMap FactId FusedRow) (r : FactRow) :
    InsertionMap FactId FusedRow :=
  match merged.get? r.id with
  | some prior => merged.set r.id (bothRow weight prior r)
  | none => merged.set r.id (lexRow weight r)

/-- `fuse`; the one-legged modes weigh their leg with 1. -/
def fuse (vectorRows lexicalRows : List FactRow) (mode : SearchMode) : List FusedRow :=
  let setAll (row : FactRow → FusedRow) (rows : List FactRow) : InsertionMap FactId FusedRow :=
    rows.foldl (fun merged r => merged.set r.id (row r)) .empty
  match mode with
  | .vector => (setAll (vecRow 1) vectorRows).values
  | .lexical => (setAll (lexRow 1) lexicalRows).values
  | .hybrid =>
      let w := HYBRID_VECTOR_WEIGHT
      (lexicalRows.foldl (mergeLexical (1 - w)) (setAll (vecRow w) vectorRows)).values

/-! ## Merged entities -/

/-- `Survivor`. -/
structure Survivor where
  id : EntityId
  type : String
  canonicalName : String
  externalRefs : List (String × String)

/-- The columns that the query selects of a survivor. -/
def survivor (q : EntityId × KnowledgeEntity) : Survivor where
  id := q.1
  type := q.2.type
  canonicalName := q.2.canonicalName
  externalRefs := q.2.externalRefs

/-- One assignment `refs[key] = value`. -/
def setRef (refs : List (String × String)) (ref : String × String) : List (String × String) :=
  if refs.any (fun r => r.1 == ref.1) then
    refs.map (fun r => if r.1 == ref.1 then ref else r)
  else refs ++ [ref]

/-- `Object.assign(refs, more)`, and `{ ...refs, ...more }`. -/
def assignRefs (refs more : List (String × String)) : List (String × String) :=
  more.foldl setRef refs

/-- `hydrateSurvivors`. -/
def hydrateSurvivors (s : Store) (rows : List FusedRow) : InsertionMap EntityId Survivor :=
  let survivorIds := rows.filterMap (fun r => r.entity.bind (fun ent => ent.mergedInto))
  let recs := s.entities.select (fun i _ => survivorIds.contains i)
  .ofList (recs.map (fun q => (q.1, survivor q)))

/-- A row re-keyed onto the survivor. -/
def FusedRow.onto (row : FusedRow) (survivor : Survivor) : FusedRow :=
  { row with
    entityId := survivor.id
    entity := some {
      id := survivor.id
      type := survivor.type
      canonicalName := survivor.canonicalName
      externalRefs := assignRefs survivor.externalRefs
        ((row.entity.map (fun ent => ent.externalRefs)).getD []) } }

/-- `reattributeMerged`. -/
def reattributeMerged (rows : List FusedRow) (survivors : InsertionMap EntityId Survivor) :
    List FusedRow :=
  if survivors.size = 0 then rows
  else rows.filterMap (fun row =>
    match row.entity.bind (fun ent => ent.mergedInto) with
    | none => some row
    -- a row whose survivor was not found is dropped
    | some merged => (survivors.get? merged).map row.onto)

/-! ## The scope filter -/

/-- `passesPolicy`. -/
def passesPolicy (callerScopes : List BrainScope) (row : FactRow) : Bool :=
  scopeAllows callerScopes row.predicate

end Brain
