/-
`src/src/ai/extractor.service.ts` with its cache (`extractor-cache.service.ts`): a call
looks its text up, tries to do without the model, and else asks it once, or several times
and merges what the passes find.

What the services answer to a call is a part of the call: the local entities and patterns,
the replies of the model, the answers to the facts of each pass, and when each pass is
done. The splitter of clauses is a parameter of the configuration. The values that a call
sets in the cache are set before the next call reads it, also when the call itself fails.
-/
import Brain.Ai.ExtractorInternals
import Brain.Lib.FirstSeen
import Brain.Lib.LruCache

set_option autoImplicit false

namespace Brain

/-! ## Configuration and calls -/

/-- What the service is configured with. -/
structure ExtractorConfig where
  libs : ExtractorLibs
  /-- `EXTRACTOR_SC_PASSES`. -/
  scPasses : ℕ := 1
  /-- `EXTRACTOR_CACHE_ENABLED`. -/
  cacheEnabled : Bool := true
  /-- `EXTRACTOR_CACHE_SIZE`. -/
  cacheSize : ℕ := 500
  /-- `EXTRACTOR_SKIP_LLM_ENABLED`. -/
  skipLlmEnabled : Bool := false
  /-- `EXTRACTOR_LOCAL_PREDICATE_THRESHOLD`. -/
  localPredicateThreshold : ℚ := 45 / 100
  /-- The clauses that `splitClauses` splits a text into. -/
  splitClauses : String → List String := fun _ => []

/-- `LocalEntity`, the fields that are read. -/
structure LocalEntity where
  text : String
  type : String

/-- `CachedFactTemplate`. -/
structure CachedFactTemplate where
  predicate : String
  valueSpan : String
  confidence : ℚ

/-- `CachedEdgeTemplate`. -/
structure CachedEdgeTemplate where
  kind : String
  fromEntityIndex : ℕ
  toEntityIndex : ℕ
  confidence : ℚ

/-- `ExtractionPatternEntry`, without its key. -/
structure ExtractionPatternEntry where
  facts : List CachedFactTemplate
  edges : List CachedEdgeTemplate

/-- A call of `extract`, with what the services answer to it. -/
structure ExtractCall where
  text : String
  companyId : String
  /-- `versionHash` of the snapshot of the registry. -/
  versionHash : String
  /-- What `localNer` finds; nothing before it is ready. -/
  localEntities : List LocalEntity := []
  /-- `patterns.lookup`. -/
  lookup : String → Except String (Option ExtractionPatternEntry) := fun _ => .ok none
  /-- `callLlm` in pass `i`; a reply that is no JSON is `none`. -/
  reply : ℕ → Except String (Option JsonExtraction)
  /-- What is answered to the facts of pass `i`. -/
  services : ℕ → PassServices
  /-- When pass `i` is done. -/
  finishedAt : ℕ → ℕ := id

/-- `clampLlmInputText` of a text. -/
def clampMention (text : String) : String := String.ofList ((trim text.toList).take 16000)

/-- `computeKey`. -/
def computeKey (config : ExtractorConfig) (call : ExtractCall) : String :=
  config.libs.sha256 ("\x1f".intercalate
    ["v2", call.companyId, call.versionHash, "sc=" ++ toString config.scPasses,
      config.libs.normalizeNfc (clampMention call.text)])

/-! ## Without the model -/

/-- `includes`. -/
def includes (s part : String) : Bool := decide (part.toList <:+: s.toList)

/-- `mapNerTypeToEntityType`. -/
def mapNerTypeToEntityType (t : String) : String :=
  let upper := String.ofList (t.toList.map Char.toUpper)
  if upper = "PER" ∨ upper = "PERSON" then "staff"
  else if upper = "ORG" ∨ upper = "ORGANIZATION" then "other"
  else if upper = "LOC" ∨ upper = "LOCATION" then "location"
  else "other"

/-- `entityIndexForFact`. -/
def entityIndexForFact (libs : ExtractorLibs) (localEntities : List LocalEntity)
    (clauseText : String) : Option ℕ :=
  localEntities.findIdx? (fun en =>
    includes (libs.toLowerCase clauseText) (libs.toLowerCase en.text))

/-- A fact of a pattern, replayed. -/
def synthFact (config : ExtractorConfig) (call : ExtractCall) (clauseText : String)
    (f : CachedFactTemplate) : Option ExtractorFact :=
  let normalizedInput := normalizeForGrounding config.libs (clampMention call.text)
  if includes normalizedInput (normalizeForGrounding config.libs f.valueSpan) then
    (entityIndexForFact config.libs call.localEntities clauseText).map (fun entityIndex =>
      { entityIndex := entityIndex, predicate := f.predicate, object := f.valueSpan,
        confidence := f.confidence, clause := some clauseText })
  else none

/-- An edge of a pattern, replayed. -/
def synthEdge (call : ExtractCall) (clauseText : String) (e : CachedEdgeTemplate) :
    Option ExtractorEdge :=
  if call.localEntities.length ≤ e.fromEntityIndex ∨ call.localEntities.length ≤ e.toEntityIndex ∨
      e.fromEntityIndex = e.toEntityIndex then none
  else
    some { fromEntityIndex := e.fromEntityIndex, toEntityIndex := e.toEntityIndex, kind := e.kind,
           confidence := e.confidence, clause := some clauseText }

/-- The loop of `attemptLocalSynth` over the clauses. -/
def synthClauses (config : ExtractorConfig) (call : ExtractCall) :
    List String → Except String (Option (List ExtractorFact × List ExtractorEdge))
  | [] => .ok (some ([], []))
  | clauseText :: clauses =>
      match call.lookup clauseText with
      | .error e => .error e
      | .ok none => .ok none
      | .ok (some pattern) =>
          match pattern.facts.mapM (synthFact config call clauseText),
            pattern.edges.mapM (synthEdge call clauseText) with
          | some facts, some edges =>
              match synthClauses config call clauses with
              | .ok (some rest) => .ok (some (facts ++ rest.1, edges ++ rest.2))
              | other => other
          | _, _ => .ok none

/-- `tryLocalSkip`, with `attemptLocalSynth`. -/
def tryLocalSkip (config : ExtractorConfig) (call : ExtractCall) :
    Except String (Option ExtractorResult) :=
  let localClauses := config.splitClauses (clampMention call.text)
  if !config.skipLlmEnabled || localClauses.isEmpty || call.localEntities.isEmpty then .ok none
  else
    match synthClauses config call localClauses with
    | .error e => .error e
    | .ok none => .ok none
    | .ok (some (facts, edges)) =>
        .ok (some {
          entities := call.localEntities.map (fun e =>
            { name := e.text, type := mapNerTypeToEntityType e.type })
          facts := facts
          edges := edges })

/-! ## One pass -/

/-- The entities that are grounded, and the new index of each old one. -/
def groundedRemap (grounded : ExtractedEntity → Bool) (parsed : List ExtractedEntity) :
    InsertionMap ℕ ℕ × List ExtractedEntity :=
  parsed.zipIdx.foldl (fun s e =>
    if grounded e.1 then (s.1.set e.2 s.2.length, s.2 ++ [e.1]) else s) (.empty, [])

/-- A fact on the compacted entities. -/
def remapFact (remap : InsertionMap ℕ ℕ) (f : ExtractorFact) : Option ExtractorFact :=
  (remap.get? f.entityIndex).map (fun i => { f with entityIndex := i })

/-- An edge on the compacted entities. -/
def remapEdge (remap : InsertionMap ℕ ℕ) (e : ExtractorEdge) : Option ExtractorEdge :=
  match remap.get? e.fromEntityIndex, remap.get? e.toEntityIndex with
  | some source, some target => some { e with fromEntityIndex := source, toEntityIndex := target }
  | _, _ => none

/-- `assembleResult`, less the write to the cache. -/
def assembleResult (config : ExtractorConfig) (trimmed : String) (services : PassServices)
    (rawJson : JsonExtraction) : Except String ExtractorResult :=
  let parsedEntities := parseEntities rawJson
  let clauses := parseClauses rawJson
  let rawFacts := parseRawFacts rawJson parsedEntities.length
  let valueGroundedFacts := applyGroundingGate config.libs trimmed rawFacts clauses
  let parsedEdges := validateEdges config.libs rawJson parsedEntities.length clauses
  let compacted := groundedRemap (groundEntity config.libs trimmed) parsedEntities
  let facts := valueGroundedFacts.filterMap (remapFact compacted.1)
  let edges := parsedEdges.filterMap (remapEdge compacted.1)
  match applyLocalPredicateOverrides services config.localPredicateThreshold 0 facts with
  | .error e => .error e
  | .ok refined =>
      .ok { entities := compacted.2, facts := applyCanonicalizePass services 0 refined,
            edges := edges }

/-! ## Several passes -/

/-- `entityKey`. -/
def entityKey (libs : ExtractorLibs) (e : ExtractedEntity) : String :=
  e.type ++ ":" ++ trimString (libs.toLowerCase e.name)

/-- The key of `edgeMap`. -/
def edgeKey (e : ExtractorEdge) : String :=
  toString e.fromEntityIndex ++ "-" ++ e.kind ++ "-" ++ toString e.toEntityIndex

/-- The projection of a fact that is clustered. -/
def ExtractorFact.toPassFact (f : ExtractorFact) : PassFact where
  predicate := f.predicate
  object := f.object

/-- A fact with the statistics of its cluster. -/
def annotate (libs : ExtractorLibs) (sc : InsertionMap String FactSelfConsistency)
    (f : ExtractorFact) : ExtractorFact :=
  match sc.get? (clusterKey libs f.toPassFact) with
  | none => f
  | some stats =>
      { f with extractionEntropy := some stats.entropy, extractionAgreement := some stats.agreement }

/-- `runMultiPassExtract`, from the results of the passes that survive on. -/
def mergePasses (libs : ExtractorLibs) (surviving : List ExtractorResult) : ExtractorResult :=
  if surviving.isEmpty then .empty
  else
    let sc := selfConsistencyByFact libs
      (surviving.map (fun r => r.facts.map ExtractorFact.toPassFact))
    let entityMap := (surviving.flatMap (fun r => r.entities)).foldl
      (fun m e => m.setNew (entityKey libs e) e) (.empty : InsertionMap String ExtractedEntity)
    let edgeMap := (surviving.flatMap (fun r => r.edges)).foldl
      (fun m e => m.setNew (edgeKey e) e) (.empty : InsertionMap String ExtractorEdge)
    let facts := FirstSeen.firstSeen (fun f => clusterKey libs f.toPassFact)
      (surviving.flatMap (fun r => r.facts))
    { entities := entityMap.values, facts := facts.map (annotate libs sc), edges := edgeMap.values }

/-- What comes of pass `i`: nothing if the model fails, or replies nothing. -/
def passResult (config : ExtractorConfig) (call : ExtractCall) (i : ℕ) :
    Except String (Option ExtractorResult) :=
  match call.reply i with
  | .error _ => .ok none
  | .ok none => .ok none
  | .ok (some rawJson) =>
      (assembleResult config (clampMention call.text) (call.services i) rawJson).map some

/-- The result of a pass that is one. -/
def assembled? (result : Except String (Option ExtractorResult)) : Option ExtractorResult :=
  match result with
  | .ok (some r) => some r
  | _ => none

/-- The failure of a pass that fails. -/
def failure? (result : Except String (Option ExtractorResult)) : Option String :=
  match result with
  | .error e => some e
  | .ok _ => none

/-- The passes in the order in which they are done. -/
def finishingOrder (config : ExtractorConfig) (call : ExtractCall) : List ℕ :=
  (List.range config.scPasses).insertionSort (fun i j => call.finishedAt i ≤ call.finishedAt j)

/-- `Promise.all`: the results in their order, or the failure that comes first. -/
def promiseAll (config : ExtractorConfig) (call : ExtractCall) :
    Except String (List (Option ExtractorResult)) :=
  match (finishingOrder config call).filterMap (fun i => failure? (passResult config call i)) with
  | e :: _ => .error e
  | [] => .ok ((List.range config.scPasses).map (fun i => assembled? (passResult config call i)))

/-! ## The service -/

/-- What a call does that does not find its key: the values that it sets under it, in their
order, and what it returns. -/
structure Extracted where
  writes : List ExtractorResult := []
  returned : Except String ExtractorResult

/-- `runMultiPassExtract`. -/
def runMultiPassExtract (config : ExtractorConfig) (call : ExtractCall) : Extracted where
  -- every pass sets the key when it is assembled
  writes := (finishingOrder config call).filterMap (fun i => assembled? (passResult config call i))
  returned :=
    match promiseAll config call with
    | .error e => .error e
    | .ok results => .ok (mergePasses config.libs (results.filterMap id))

/-- The single pass. -/
def runSinglePass (config : ExtractorConfig) (call : ExtractCall) : Extracted :=
  match call.reply 0 with
  | .error e => { returned := .error e }
  | .ok none => { returned := .ok .empty }
  | .ok (some rawJson) =>
      match assembleResult config (clampMention call.text) (call.services 0) rawJson with
      | .error e => { returned := .error e }
      | .ok r => { writes := [r], returned := .ok r }

/-- `extract`, from the lookup on that finds nothing. -/
def extractUncached (config : ExtractorConfig) (call : ExtractCall) : Extracted :=
  match tryLocalSkip config call with
  | .error e => { returned := .error e }
  | .ok (some r) => { writes := [r], returned := .ok r }
  | .ok none =>
      if 1 < config.scPasses then runMultiPassExtract config call
      else runSinglePass config call

/-- `extractionCache`. -/
abbrev ExtractionCache := InsertionMap String ExtractorResult

/-- `ExtractorCacheService.get`. -/
def cacheGet (config : ExtractorConfig) (cache : ExtractionCache) (key : String) :
    Option ExtractorResult × ExtractionCache :=
  if config.cacheEnabled then cache.lruGet key else (none, cache)

/-- `ExtractorCacheService.set`. -/
def cacheSet (config : ExtractorConfig) (key : String) (cache : ExtractionCache)
    (result : ExtractorResult) : ExtractionCache :=
  if config.cacheEnabled then cache.lruSet config.cacheSize key result else cache

/-- What is seen of a call. -/
structure ExtractRecord where
  call : ExtractCall
  key : String
  /-- It is answered from the cache. -/
  hit : Bool
  writes : List ExtractorResult
  returned : Except String ExtractorResult

/-- `extract`. -/
def extract (config : ExtractorConfig) (call : ExtractCall) (cache : ExtractionCache) :
    ExtractRecord × ExtractionCache :=
  let key := computeKey config call
  if (clampMention call.text).isEmpty then
    ({ call := call, key := key, hit := false, writes := [], returned := .ok .empty }, cache)
  else
    match cacheGet config cache key with
    | (some cached, cache) =>
        ({ call := call, key := key, hit := true, writes := [], returned := .ok cached }, cache)
    | (none, cache) =>
        let extracted := extractUncached config call
        ({ call := call, key := key, hit := false, writes := extracted.writes,
           returned := extracted.returned },
          extracted.writes.foldl (cacheSet config key) cache)

/-- Calls one after the other. -/
def runExtracts (config : ExtractorConfig) : List ExtractCall → ExtractionCache →
    List ExtractRecord
  | [], _ => []
  | call :: calls, cache =>
      (extract config call cache).1 :: runExtracts config calls (extract config call cache).2

end Brain
