/-
The stages of the extractor, from `src/src/ai/extractor-internals/`: parsing and grounding
(`grounding.ts`), edges (`edge-validator.ts`), predicates (`predicate-canonicalize.ts`) and
the clusters of several passes (`semantic-entropy.ts`).

A reply of the model is what its JSON parses to. A field that is missing, or is not of the
type that it is used as, is `none`; a number that is not whole is no index. Characters are
code points here, and UTF-16 units in the source. Of the registry and of the selector of
predicates only the answers are seen, one for each fact that asks.
-/
import Brain.Ingest.IngestRun
import Brain.Lib.InsertionMap
import Brain.Lib.JsString

set_option autoImplicit false

namespace Brain

/-! ## Libraries -/

/-- The built-in functions that are taken as they are. -/
structure ExtractorLibs where
  toLowerCase : String → String
  /-- `normalize('NFD')`. -/
  normalizeNfd : String → String
  /-- `normalize('NFC')`. -/
  normalizeNfc : String → String
  /-- `Math.log`. -/
  log : ℚ → ℚ
  /-- The SHA-256 digest in hex. -/
  sha256 : String → String

/-- `trim` of a string. -/
def trimString (s : String) : String := String.ofList (trim s.toList)

/-- `replace(/\s+/g, ' ')`; `inSpace` says whether the character before was a space. -/
def collapseSpaces : Bool → List Char → List Char
  | _, [] => []
  | inSpace, c :: cs =>
      if isTrimmed c then
        if inSpace then collapseSpaces true cs else ' ' :: collapseSpaces true cs
      else c :: collapseSpaces false cs

/-! ## Results -/

/-- `ExtractedFact`, with the columns that the extractor fills. -/
structure ExtractorFact extends ExtractedFact where
  clause : Option String := none
  extractionEntropy : Option ℚ := none
  extractionAgreement : Option ℚ := none

/-- `ExtractedEdge`, with the columns that the extractor fills. -/
structure ExtractorEdge extends ExtractedEdge where
  confidence : ℚ
  clause : Option String := none

/-- `ExtractionResult`, as the extractor returns it. -/
@[ext]
structure ExtractorResult where
  entities : List ExtractedEntity
  facts : List ExtractorFact
  edges : List ExtractorEdge

/-- `{ entities: [], facts: [], edges: [] }`. -/
def ExtractorResult.empty : ExtractorResult where
  entities := []
  facts := []
  edges := []

/-! ## Replies -/

/-- An element of `entities[]`. -/
structure JsonEntity where
  name : Option String
  type : Option String := none
  canonical : Option String := none

/-- An element of `facts[]`. -/
structure JsonFact where
  entityIndex : Option ℤ
  clauseIndex : Option ℤ := none
  predicate : Option String
  valueSpan : Option String
  confidence : Option ℚ := none

/-- An element of `edges[]`; the indices as `Number` reads them. -/
structure JsonEdge where
  fromEntityIndex : Option ℤ
  toEntityIndex : Option ℤ
  kind : Option String
  clauseIndex : Option ℤ := none
  confidence : Option ℚ := none

/-- What the reply of the model parses to; an array that is missing is empty. -/
structure JsonExtraction where
  entities : List JsonEntity := []
  facts : List JsonFact := []
  edges : List JsonEdge := []
  clauses : List (Option String) := []

/-- An index that is whole, and not negative. -/
def naturalIndex (i : Option ℤ) : Option ℕ :=
  match i with
  | none => none
  | some i => if 0 ≤ i then some i.toNat else none

/-! ## Parsing -/

/-- `ENTITY_TYPE_VOCABULARY`. -/
def ENTITY_TYPE_VOCABULARY : List String :=
  ["customer", "staff", "asset", "project", "topic", "location", "other"]

/-- `normalizeEntityType` of the extractor. -/
def extractedEntityType (t : Option String) : String :=
  match t with
  | none => "other"
  | some t => if ENTITY_TYPE_VOCABULARY.contains t then t else "other"

/-- `parseEntities`. -/
def parseEntities (parsed : JsonExtraction) : List ExtractedEntity :=
  parsed.entities.filterMap (fun e =>
    e.name.map (fun name =>
      { name := trimString name
        type := extractedEntityType e.type
        canonical := (e.canonical.filter (fun c => !c.isEmpty)).map trimString }))

/-- `parseClauses`. -/
def parseClauses (parsed : JsonExtraction) : List String := parsed.clauses.filterMap id

/-- `RawExtractedFact`. -/
structure RawExtractedFact where
  entityIndex : ℕ
  clauseIndex : Option ℕ
  predicate : String
  valueSpan : String
  confidence : ℚ

/-- `Math.max(0, Math.min(1, confidence))`. -/
def clampConfidence (confidence : ℚ) : ℚ := max 0 (min 1 confidence)

/-- An element of `facts[]` that has the shape of a fact. -/
def parseRawFact (entityCount : ℕ) (f : JsonFact) : Option RawExtractedFact :=
  match naturalIndex f.entityIndex, f.predicate, f.valueSpan with
  | some entityIndex, some predicate, some valueSpan =>
      if entityIndex < entityCount then
        some {
          entityIndex := entityIndex
          clauseIndex := naturalIndex f.clauseIndex
          predicate := trimString predicate
          valueSpan := trimString valueSpan
          confidence := (f.confidence.map clampConfidence).getD (1 / 2) }
      else none
  | _, _, _ => none

/-- `parseRawFacts`. -/
def parseRawFacts (parsed : JsonExtraction) (entityCount : ℕ) : List RawExtractedFact :=
  parsed.facts.filterMap (parseRawFact entityCount)

/-! ## Grounding -/

/-- `normalizeForGrounding`. -/
def normalizeForGrounding (libs : ExtractorLibs) (s : String) : String :=
  libs.toLowerCase (String.ofList (trim (collapseSpaces false s.toList)))

/-- `SPACED_WORD_CHAR`: the letters of scripts that put spaces between words. -/
def SPACED_WORD_CHAR (c : Char) : Bool :=
  (decide ('A' ≤ c) && decide (c ≤ 'Z')) || (decide ('a' ≤ c) && decide (c ≤ 'z')) ||
  (decide (0xC0 ≤ c.toNat) && decide (c.toNat ≤ 0x24F)) ||
  (decide (0x400 ≤ c.toNat) && decide (c.toNat ≤ 0x4FF))

/-- `boundaryOk`. -/
def boundaryOk (adjacent : Option Char) (edge : Char) : Bool :=
  if SPACED_WORD_CHAR edge then
    match adjacent with
    | none => true
    | some adjacent => !SPACED_WORD_CHAR adjacent
  else true

/-- The loop of `isGroundedSpan` from one place of the input on; `before` is the character
before it. -/
def groundedFrom (span : List Char) (first last : Char) : Option Char → List Char → Bool
  | _, [] => false
  | before, c :: rest =>
      (span.isPrefixOf (c :: rest) && boundaryOk before first &&
        boundaryOk ((c :: rest).drop span.length).head? last) ||
      groundedFrom span first last (some c) rest

/-- `isGroundedSpan`. -/
def isGroundedSpan (normalizedInput normalizedSpan : String) : Bool :=
  match normalizedSpan.toList with
  | [] => false
  | c :: cs => groundedFrom (c :: cs) c ((c :: cs).getLastD c) none normalizedInput.toList

/-- `groundEntities`, for one of the entities. -/
def groundEntity (libs : ExtractorLibs) (trimmedInput : String) (e : ExtractedEntity) : Bool :=
  isGroundedSpan (normalizeForGrounding libs trimmedInput) (normalizeForGrounding libs e.name)

/-- The clause that an index points to. -/
def clauseText (clauses : List String) (clauseIndex : Option ℕ) : Option String :=
  clauseIndex.bind (fun i => clauses[i]?)

/-- `applyGroundingGate`, less the diagnostics. -/
def applyGroundingGate (libs : ExtractorLibs) (trimmedInput : String)
    (rawFacts : List RawExtractedFact) (clauses : List String) : List ExtractorFact :=
  let normalizedInput := normalizeForGrounding libs trimmedInput
  (rawFacts.filter (fun rf => !rf.valueSpan.isEmpty &&
    isGroundedSpan normalizedInput (normalizeForGrounding libs rf.valueSpan))).map (fun rf =>
      { entityIndex := rf.entityIndex
        predicate := rf.predicate
        object := rf.valueSpan
        confidence := rf.confidence
        clause := clauseText clauses rf.clauseIndex })

/-! ## Edges -/

/-- One step of `validateEdges`. -/
def validateEdge (libs : ExtractorLibs) (entityCount : ℕ) (clauses : List String) (e : JsonEdge) :
    Option ExtractorEdge :=
  let kind := libs.toLowerCase (trimString (e.kind.getD ""))
  match naturalIndex e.fromEntityIndex, naturalIndex e.toEntityIndex with
  | some source, some target =>
      if entityCount ≤ source ∨ entityCount ≤ target then none
      else if source = target then none
      else if kind.isEmpty then none
      else
        some {
          fromEntityIndex := source
          toEntityIndex := target
          kind := kind
          confidence := (e.confidence.map clampConfidence).getD (7 / 10)
          clause := (clauseText clauses (naturalIndex e.clauseIndex)).filter (fun c => !c.isEmpty) }
  | _, _ => none

/-- `validateEdges`, less the diagnostics. -/
def validateEdges (libs : ExtractorLibs) (parsed : JsonExtraction) (entityCount : ℕ)
    (clauses : List String) : List ExtractorEdge :=
  parsed.edges.filterMap (validateEdge libs entityCount clauses)

/-! ## Predicates -/

/-- `RankedPredicate`. -/
structure RankedPredicate where
  predicateId : String
  similarity : ℚ

/-- What the selector and the registry answer while the facts of a pass are refined, to the
fact of each number. -/
structure PassServices where
  /-- `selector.rank` of a clause. -/
  rank : ℕ → String → Except String (List RankedPredicate)
  /-- The id that `registry.canonicalize` gives a predicate in a context, unless it throws. -/
  canonicalize : ℕ → String → String → Option String

/-- The predicate that a ranking leaves a fact with. -/
def overriddenPredicate (threshold : ℚ) (predicate : String) (ranked : List RankedPredicate) :
    String :=
  match ranked with
  | [] => predicate
  | top :: _ => if top.similarity < threshold then predicate else top.predicateId

/-- `applyLocalPredicateOverrides`, from fact number `i` on. -/
def applyLocalPredicateOverrides (services : PassServices) (threshold : ℚ) :
    ℕ → List ExtractorFact → Except String (List ExtractorFact)
  | _, [] => .ok []
  | i, f :: facts =>
      -- a fact without a clause keeps its predicate
      let clause := f.clause.getD ""
      match if clause.isEmpty then .ok [] else services.rank i clause with
      | .error e => .error e
      | .ok ranked =>
          match applyLocalPredicateOverrides services threshold (i + 1) facts with
          | .error e => .error e
          | .ok rest =>
              .ok ({ f with predicate := overriddenPredicate threshold f.predicate ranked } :: rest)

/-- The context in which a predicate is canonicalized. -/
def contextText (f : ExtractorFact) : String :=
  f.predicate ++ ": " ++ f.object ++
    match f.clause with
    | none => ""
    | some clause => if clause.isEmpty then "" else " (clause: " ++ clause ++ ")"

/-- `applyCanonicalizePass`, from fact number `i` on. -/
def applyCanonicalizePass (services : PassServices) : ℕ → List ExtractorFact → List ExtractorFact
  | _, [] => []
  | i, f :: facts =>
      { f with predicate := (services.canonicalize i f.predicate (contextText f)).getD f.predicate }
        :: applyCanonicalizePass services (i + 1) facts

/-! ## Clusters of several passes -/

/-- `PassFact`. -/
structure PassFact where
  predicate : String
  object : String
deriving DecidableEq

/-- `normaliseObject`. -/
def normaliseObject (libs : ExtractorLibs) (s : String) : String :=
  let stripped := (libs.normalizeNfd s).toList.filter (fun c =>
    !(decide (0x300 ≤ c.toNat) && decide (c.toNat ≤ 0x36F)))
  let lowered := libs.toLowerCase (String.ofList stripped)
  String.ofList (trim (collapseSpaces false lowered.toList))

/-- `clusterKey`. -/
def clusterKey (libs : ExtractorLibs) (f : PassFact) : String :=
  f.predicate ++ "::" ++ normaliseObject libs f.object

/-- A cluster of facts. -/
structure Cluster where
  count : ℕ
  exemplar : PassFact

/-- One fact of a pass; `seenInPass` are the clusters that the pass has met. -/
def clusterFact (libs : ExtractorLibs) (s : InsertionMap String Cluster × List String)
    (fact : PassFact) : InsertionMap String Cluster × List String :=
  let key := clusterKey libs fact
  if key ∈ s.2 then s
  else
    match s.1.get? key with
    | some prior => (s.1.set key { prior with count := prior.count + 1 }, key :: s.2)
    | none => (s.1.set key { count := 1, exemplar := fact }, key :: s.2)

/-- `clusterAcrossPasses`. -/
def clusterAcrossPasses (libs : ExtractorLibs) (passFacts : List (List PassFact)) :
    InsertionMap String Cluster :=
  passFacts.foldl (fun clusters pass => (pass.foldl (clusterFact libs) (clusters, [])).1) .empty

/-- `clusterEntropy`. -/
def clusterEntropy (libs : ExtractorLibs) (clusters : InsertionMap String Cluster) : ℚ :=
  let counts := clusters.values.map (fun c => c.count)
  let total := counts.sum
  if total = 0 then 0
  else
    counts.foldl (fun h c =>
      let p : ℚ := c / total
      if c = 0 then h else h - p * libs.log p) 0

/-- `FactSelfConsistency`. -/
structure FactSelfConsistency where
  entropy : ℚ
  agreement : ℚ

/-- `selfConsistencyByFact`. -/
def selfConsistencyByFact (libs : ExtractorLibs) (passFacts : List (List PassFact)) :
    InsertionMap String FactSelfConsistency :=
  let clusters := clusterAcrossPasses libs passFacts
  let entropy := clusterEntropy libs clusters
  let passCount := max passFacts.length 1
  .ofList (clusters.entries.map (fun e =>
    (e.1, { entropy := entropy, agreement := e.2.count / passCount })))

end Brain
