/-
`src/src/search/search.service.ts`: `search`, which sequences the stages.

What the service is constructed with and what it reads from the environment are
the fields of `SearchEnv`. The models behind the router and the two rerankers are
functions there, and so is whether a stage overruns its budget
(`stage-budget.ts`); a stage that does returns its fallback. All queries of a call
are made at one instant.
-/
import Brain.Lib.JsString
import Brain.Search.ResponseBuilder

set_option autoImplicit false

namespace Brain

/-- The stages that run under a budget. -/
inductive BudgetedStage where
  | router | rerank | crossEncoder | backfill
deriving DecidableEq, Repr

/-- `RouterClassification`. -/
structure RouterClassification where
  predicates : Weights
  types : Weights

/-- `RerankCandidate` and `CrossEncoderCandidate`. -/
structure RerankCandidate where
  label : String
  body : String

/-- What a call depends on besides the database, the request and the caller. -/
structure SearchEnv where
  now : Time
  engine : SearchEngine
  embed : String → List ℚ
  /-- `detectLanguage`, with `'und'` as `none`. -/
  detectLanguage : String → Option String
  route : String → Option RouterClassification
  scoring : Scoring
  /-- `SEARCH_EDGE_EXPANSION_ENABLED` is not `0`. -/
  edgeExpansionEnabled : Bool := true
  expansion : ExpansionConfig := {}
  pprForced : Bool := false
  pprAutoThreshold : ℕ := 0
  /-- `crossEncoder.rerank`, when it is enabled: a permutation of the indices. -/
  crossEncoder : Option (String → List RerankCandidate → List ℕ) := none
  crossEncoderWindow : ℕ := 50
  rerankSkipMargin : ℚ := 0
  /-- `reranker.rerank`, when it is enabled: a permutation of the indices. -/
  reranker : Option (String → List RerankCandidate → Option String → List ℕ) := none
  countTokens : List SearchHit → ℕ
  overruns : BudgetedStage → Bool := fun _ => false

/-- `withStageBudget`. -/
def withStageBudget {α : Type} (env : SearchEnv) (stage : BudgetedStage) (result fallback : α) :
    α :=
  if env.overruns stage then fallback else result

/-! ## Retrieval -/

/-- `resolveLangFilter`; empty strings are falsy. -/
def resolveLangFilter (env : SearchEnv) (dto : SearchRequest) : Option String :=
  if dto.disableLangFilter then none
  else
    match dto.queryLang with
    -- a language that the caller gives is not detected
    | some lang => if lang.isEmpty then env.detectLanguage dto.query else some lang
    | none => env.detectLanguage dto.query

/-- `candidateK`. -/
def candidateK (dto : SearchRequest) : ℕ := min (dto.limit * 5) 200

/-- `buildBaseWhere` as the pipeline calls it. -/
def requestWhere (env : SearchEnv) (dto : SearchRequest) (langFilter : Option String) :
    List WhereClause :=
  buildBaseWhere env.now dto.toSearchDto dto.asOf dto.includeRetracted dto.includeContested
    langFilter

/-- A language filter only narrows the WHERE. -/
theorem admits_requestWhere_none {env : SearchEnv} {dto : SearchRequest}
    {langFilter : Option String} {f : KnowledgeFact}
    (h : admits (requestWhere env dto langFilter) f = true) :
    admits (requestWhere env dto none) f = true := by
  unfold admits requestWhere buildBaseWhere at *
  simp only [List.all_append, Bool.and_eq_true] at *
  exact ⟨⟨h.1.1, rfl⟩, h.2⟩

/-- The same clauses in a query that binds `$entityIds` to `ids`. -/
def reboundWhere (env : SearchEnv) (dto : SearchRequest) (langFilter : Option String)
    (ids : List EntityId) : List WhereClause :=
  buildBaseWhere env.now (dto.toSearchDto.rebind ids) dto.asOf dto.includeRetracted
    dto.includeContested langFilter

/-- `runRetrievalStage`. -/
def runRetrievalStage (env : SearchEnv) (db : SearchDb) (dto : SearchRequest)
    (callerScopes : List BrainScope) (baseWhere : List WhereClause) : List FusedRow :=
  let vectorRows := if dto.searchMode = .lexical then [] else
    runVectorLeg env.engine env.embed db dto.query (candidateK dto) baseWhere
  let lexicalRows := if dto.searchMode = .vector then [] else
    runLexicalLeg env.engine callerScopes db dto.query (candidateK dto) baseWhere
  fuse vectorRows lexicalRows dto.searchMode

/-- A row of the second pass that the first one has not returned is added. -/
def pushUnseen (fused : List FusedRow) (r : FusedRow) : List FusedRow :=
  if fused.any (fun f => f.id == r.id) then fused else fused ++ [r]

/-- Step 1 of the pipeline: the retrieval with its cross-lingual backoff. -/
def retrieve (env : SearchEnv) (db : SearchDb) (dto : SearchRequest)
    (callerScopes : List BrainScope) : List FusedRow :=
  let langFilter := resolveLangFilter env dto
  let fused := runRetrievalStage env db dto callerScopes (requestWhere env dto langFilter)
  -- too few rows in the language of the query: once more without the filter
  if langFilter.isSome && decide ((fused.length : ℚ) < (candidateK dto : ℚ) / 2) then
    (runRetrievalStage env db dto callerScopes (requestWhere env dto none)).foldl pushUnseen fused
  else fused

/-- Steps 1 and 2: the rows that the caller may see. -/
def visibleRows (env : SearchEnv) (db : SearchDb) (dto : SearchRequest)
    (callerScopes : List BrainScope) : List FusedRow :=
  let fused := retrieve env db dto callerScopes
  (reattributeMerged fused (hydrateSurvivors db.store fused)).filter
    (fun row => passesPolicy callerScopes row.toFactRow)

/-! ## Reranking -/

/-- `label` and the first lines of `body`: the facts with the best scores. -/
def candidateOf (e : EntityBucket) : RerankCandidate :=
  let name := (e.entity.map (fun ent => ent.canonicalName)).getD (toString e.entityId)
  let type := (e.entity.map (fun ent => ent.type)).getD "other"
  let topFacts := (e.facts.insertionSort (fun a b => b.score ≤ a.score)).take 3
  { label := name ++ " [" ++ type ++ "]"
    body := "\n".intercalate
      (topFacts.map (fun sf => "- " ++ sf.row.predicate ++ ": " ++ sf.row.object)) }

/-- The line on the neighbours that the LLM reranker is shown. -/
def neighbourLine (neighbours : List Neighbour) : String :=
  if neighbours.isEmpty then ""
  else "\nConnected to: " ++ "; ".intercalate ((neighbours.take 5).map
    (fun n => n.canonicalName ++ " (" ++ n.type ++ ", " ++ n.kind ++ ")"))

/-- A candidate of the LLM reranker. -/
def rerankCandidateOf (db : SearchDb) (e : EntityBucket) : RerankCandidate :=
  { candidateOf e with
    body := (candidateOf e).body ++ neighbourLine (fetchNeighbours db e.entityId) }

/-- `hints`. -/
def typeHints (js : JsMath) (weights : Weights) : String :=
  let top := ((weights.filter (fun w => decide (15 / 100 ≤ w.2))).insertionSort
    (fun a b => b.2 ≤ a.2)).take 3
  let text := ", ".intercalate (top.map (fun w => w.1 ++ "=" ++ js.toFixed w.2 2))
  "Likely target entity types: " ++ (if text.isEmpty then "unspecified" else text) ++ "."

/-- `permutation.map((i) => candidates[i])`. -/
def permute (candidates : List EntityBucket) (permutation : List ℕ) : List EntityBucket :=
  permutation.filterMap (fun i => candidates[i]?)

/-- `runCrossEncoder`. -/
def runCrossEncoder (env : SearchEnv) (rerank : String → List RerankCandidate → List ℕ)
    (wideCandidates : List EntityBucket) (query : String) (rerankWindow : ℕ) :
    List EntityBucket :=
  let identityPerm := List.range wideCandidates.length
  let xPerm := withStageBudget env .crossEncoder
    (rerank query (wideCandidates.map candidateOf)) identityPerm
  (permute wideCandidates xPerm).take rerankWindow

/-- `runLlmRerank`. -/
def runLlmRerank (env : SearchEnv)
    (rerank : String → List RerankCandidate → Option String → List ℕ) (db : SearchDb)
    (candidates : List EntityBucket) (query : String) (typeDist : Option Weights) :
    List EntityBucket :=
  let identityPerm := List.range candidates.length
  let permutation := withStageBudget env .rerank
    (rerank query (candidates.map (rerankCandidateOf db))
      (typeDist.map (typeHints env.scoring.js))) identityPerm
  permute candidates permutation

/-- `runRerankStage`. -/
def runRerankStage (env : SearchEnv) (db : SearchDb) (byEntity : Buckets) (dto : SearchRequest)
    (typeDist : Option Weights) : List EntityBucket :=
  let RERANK_WINDOW := min (dto.limit * 2) 20
  let CROSS_ENCODER_WINDOW :=
    if env.crossEncoder.isSome then min env.crossEncoderWindow byEntity.size else RERANK_WINDOW
  let wideCandidates := (byEntity.values.insertionSort
    (fun a b => b.rankScore ≤ a.rankScore)).take CROSS_ENCODER_WINDOW
  let candidatesForRerank :=
    match env.crossEncoder with
    -- without a cross-encoder the wide window is the narrow one
    | none => wideCandidates.take RERANK_WINDOW
    | some rerank =>
        if 1 < wideCandidates.length then
          runCrossEncoder env rerank wideCandidates dto.query RERANK_WINDOW
        else wideCandidates.take RERANK_WINDOW
  let skipByMargin := shouldSkipRerankByMargin
    (candidatesForRerank.insertionSort (fun a b => b.rankScore ≤ a.rankScore))
    env.rerankSkipMargin
  match env.reranker with
  | none => candidatesForRerank
  | some rerank =>
      if candidatesForRerank.length ≤ 1 then candidatesForRerank
      else if skipByMargin then candidatesForRerank
      else runLlmRerank env rerank db candidatesForRerank dto.query typeDist

/-! ## The pipeline -/

/-- `runPprStage`. -/
def runPprStage (env : SearchEnv) (db : SearchDb) (byEntity : Buckets) : Buckets :=
  let pprAuto := decide (0 < env.pprAutoThreshold) && decide (env.pprAutoThreshold ≤ byEntity.size)
  -- a single entity has nobody to hand rank to
  if !(env.pprForced || pprAuto) || decide (byEntity.size ≤ 1) then byEntity
  else applyPprPrior db byEntity

/-- `runEdgeExpansionStage`. -/
def runEdgeExpansionStage (env : SearchEnv) (db : SearchDb) (byEntity : Buckets)
    (baseWhere : List EntityId → List WhereClause) (callerScopes : List BrainScope) : Buckets :=
  if !env.edgeExpansionEnabled then byEntity
  else if byEntity.size < 1 then byEntity
  else expandViaEdges env.expansion callerScopes db byEntity baseWhere

/-- Steps 3 to 7 of `runPipeline`, and the slice to the limit: the entities of the
response. -/
def rankEntities (env : SearchEnv) (db : SearchDb) (dto : SearchRequest)
    (callerScopes : List BrainScope) (filtered : List FusedRow) : List EntityBucket :=
  let baseWhere := reboundWhere env dto (resolveLangFilter env dto)
  let routerOut := withStageBudget env .router (env.route dto.query) none
  let scored := scoreRows env.scoring filtered (routerOut.map (fun r => r.predicates)) env.now
  let byEntity := bucketByEntity scored
  let expanded := runEdgeExpansionStage env db byEntity baseWhere callerScopes
  let boosted := runPprStage env db expanded
  (runRerankStage env db boosted dto (routerOut.map (fun r => r.types))).take dto.limit

/-- `runPipeline`. -/
def runPipeline (env : SearchEnv) (db : SearchDb) (dto : SearchRequest)
    (callerScopes : List BrainScope) : List SearchHit :=
  let topEntities := rankEntities env db dto callerScopes (visibleRows env db dto callerScopes)
  let backfillByEntity := withStageBudget env .backfill
    (backfillEntityFacts db (topEntities.map (fun e => e.entityId))
      (reboundWhere env dto (resolveLangFilter env dto)) callerScopes) .empty
  let hits := assembleHits topEntities backfillByEntity dto.entityTypes dto.requireProvenance
  applyOutputShaping env.countTokens hits dto

/-- `clampLlmInputText` of a query; its length is counted in characters here, and in
UTF-16 units in the source. -/
def clampQuery (query : String) : String :=
  let trimmed := ((query.toList.dropWhile isTrimmed).reverse.dropWhile isTrimmed).reverse
  String.ofList (trimmed.take 8000)

/-- The request as the pipeline sees it. -/
def SearchRequest.clamped (dto : SearchRequest) : SearchRequest :=
  { dto with query := clampQuery dto.query }

/-- `search`. -/
def search (env : SearchEnv) (db : SearchDb) (dto : SearchRequest)
    (callerScopes : List BrainScope) : List SearchHit :=
  runPipeline env db dto.clamped callerScopes

end Brain
