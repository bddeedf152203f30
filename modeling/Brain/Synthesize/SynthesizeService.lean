/-
`src/src/synthesize/synthesize.service.ts`: an answer to a query, generated from the
facts that a search returns and checked against them. With it the two pure modules it
calls: the confidence floor (`conformal-guardrail.ts`) and the per-fact trace
(`decision-log.ts`).

The two models, the search and the language detector are functions of the environment.
A reply of a model is what its JSON parses to; a call that fails is an `error`. A fact
of a search always has a breakdown, so the fallbacks for one without are not needed.
-/
import Brain.Search.SearchService

set_option autoImplicit false

namespace Brain

/-! ## The confidence floor -/

/-- The confidence that is compared with the floor: the calibrated one, else the raw. -/
def HitFact.floorScore (f : HitFact) : ℚ :=
  f.breakdown.calibratedConfidence.getD f.confidence.1

/-- `score >= floor`; no score reaches a floor that is not a number. -/
def passesFloor (floor : Option ℚ) (f : HitFact) : Bool :=
  match floor with
  | none => false
  | some floor => decide (floor ≤ f.floorScore)

/-- `applyConformalGuardrail`: `kept`. `none` stands for `NaN`. -/
def applyConformalGuardrail (hits : List SearchHit) (minCalibratedConfidence : Option ℚ) :
    List SearchHit :=
  -- a floor of 0 is none
  if minCalibratedConfidence.any (fun floor => decide (floor ≤ 0)) then hits
  else
    (hits.map (fun hit =>
      { hit with facts := hit.facts.filter (passesFloor minCalibratedConfidence) })).filter
        (fun hit => !hit.facts.isEmpty)

/-! ## The decision log -/

/-- `DecisionRejectReason`. -/
inductive DecisionRejectReason where
  | low_score | not_relevant_to_query | backfill_context_only | duplicate_predicate
deriving DecidableEq, Repr

/-- `DecisionLogEntry`. -/
structure DecisionLogEntry where
  factId : FactId
  entityId : EntityId
  canonicalName : String
  predicate : String
  object : String
  picked : Bool
  rejectReason : Option DecisionRejectReason
  scoreBreakdown : FactScoreBreakdown

/-- The default of `lowScoreThreshold`. -/
def LOW_SCORE_THRESHOLD : ℚ := 1 / 10

/-- The entry of a fact; `seen` are the pairs of entity and predicate before it. -/
def decisionLogEntry (citedFactIds : List FactId) (seen : List (EntityId × String))
    (hit : SearchHit) (f : HitFact) : DecisionLogEntry :=
  let picked := citedFactIds.contains f.factId
  let isBackfill :=
    decide (f.breakdown.finalScore = 0) && f.breakdown.stages.contains .backfill
  { factId := f.factId
    entityId := hit.entityId
    canonicalName := hit.canonicalName
    predicate := f.predicate
    object := f.object
    picked := picked
    rejectReason :=
      if picked then none
      else if isBackfill then some .backfill_context_only
      else if seen.contains (hit.entityId, f.predicate) then some .duplicate_predicate
      else if f.breakdown.finalScore < LOW_SCORE_THRESHOLD then some .low_score
      else some .not_relevant_to_query
    scoreBreakdown := f.breakdown }

/-- The two loops, over the hits and over the facts of each. -/
def decisionLogEntries (citedFactIds : List FactId) :
    List (SearchHit × HitFact) → List (EntityId × String) → List DecisionLogEntry
  | [], _ => []
  | (hit, f) :: rest, seen =>
      decisionLogEntry citedFactIds seen hit f ::
        decisionLogEntries citedFactIds rest ((hit.entityId, f.predicate) :: seen)

/-- The facts of some hits, each with its hit. -/
def hitFacts (hits : List SearchHit) : List (SearchHit × HitFact) :=
  hits.flatMap (fun hit => hit.facts.map (fun f => (hit, f)))

/-- The order of the log: picked first, then by `finalScore`. -/
def loggedBefore (a b : DecisionLogEntry) : Prop :=
  (a.picked = true ∧ b.picked = false) ∨
    (a.picked = b.picked ∧ b.scoreBreakdown.finalScore ≤ a.scoreBreakdown.finalScore)

instance : DecidableRel loggedBefore := fun _ _ => inferInstanceAs (Decidable (_ ∨ _))

/-- `buildDecisionLog`. -/
def buildDecisionLog (hits : List SearchHit) (citedFactIds : List FactId) :
    List DecisionLogEntry :=
  (decisionLogEntries citedFactIds (hitFacts hits) []).insertionSort loggedBefore

/-! ## Citations -/

/-- `Citation`. -/
structure Citation where
  factId : FactId
  entityId : EntityId
  canonicalName : String
  predicate : String
  object : String
deriving DecidableEq, Repr

/-- The citation of a fact. -/
def citationOf (hit : SearchHit) (f : HitFact) : Citation where
  factId := f.factId
  entityId := hit.entityId
  canonicalName := hit.canonicalName
  predicate := f.predicate
  object := f.object

/-- The line of a fact in the prompts. -/
def factLine (hit : SearchHit) (f : HitFact) : String :=
  "[" ++ toString f.factId ++ "] " ++ hit.canonicalName ++ " (" ++ hit.entityType ++ ") — " ++
    f.predicate ++ ": " ++ f.object

/-- `buildFactIndex`: `factIndex`. -/
def factIndex (results : List SearchHit) : InsertionMap FactId Citation :=
  .ofList ((hitFacts results).map (fun p => (p.2.factId, citationOf p.1 p.2)))

/-- `buildFactIndex`: `factLines`. -/
def factLines (results : List SearchHit) : List String :=
  (hitFacts results).map (fun p => factLine p.1 p.2)

/-- `resolveCitations`: an identifier that is not in the index is dropped, and so is one
that has been cited already. -/
def resolveCitations (citedFactIds : List FactId) (index : InsertionMap FactId Citation) :
    List Citation :=
  citedFactIds.eraseDups.filterMap (fun id => index.get? id)

/-! ## The two models -/

/-- `SynthesisGuardrails`. -/
inductive SynthesisGuardrails where
  | strict | lenient | off
deriving DecidableEq, Repr

/-- `SynthesisReason`. -/
inductive SynthesisReason where
  | no_results | no_grounded_evidence | verifier_failed | verifier_partial_ | generator_error
  | verifier_error
deriving DecidableEq, Repr

/-- What the reply of the generator parses to: no `answer` if it is no string, no
`citedFactIds` if these are no array. -/
structure GeneratorReply where
  answer : Option String
  citedFactIds : Option (List FactId)

/-- `GeneratorOutput`. -/
structure GeneratorOutput where
  answer : String
  citedFactIds : List FactId

/-- `callGenerator`, from the reply of the model on. -/
def callGenerator (reply : Except String (Option GeneratorReply)) :
    Except String GeneratorOutput :=
  match reply with
  | .error e => .error e
  | .ok none => .error "empty generator response"
  | .ok (some parsed) =>
      match parsed.answer with
      | none => .error "generator returned non-string answer"
      | some answer => .ok { answer := answer, citedFactIds := parsed.citedFactIds.getD [] }

/-- The `verdict` of `VerifierOutput`. -/
inductive VerifierVerdict where
  | supported | partial_ | unsupported
deriving DecidableEq, Repr

/-- `callVerifier`, from the reply of the model on: its `verdict`. -/
def callVerifier (reply : Except String (Option String)) : Except String VerifierVerdict :=
  match reply with
  | .error e => .error e
  | .ok none => .error "empty verifier response"
  | .ok (some verdict) =>
      if verdict = "supported" then .ok .supported
      else if verdict = "partial" then .ok .partial_
      else if verdict = "unsupported" then .ok .unsupported
      else .error "verifier returned invalid verdict"

/-! ## The service -/

/-- `SynthesizeDto`. -/
structure SynthesizeDto extends SearchRequest where
  synthesisModel : Option String := none
  synthesisGuardrails : Option SynthesisGuardrails := none
  explain : Bool := false
  answerLang : Option String := none

/-- What the service is constructed with. -/
structure SynthesizeEnv where
  search : SearchRequest → Except String (List SearchHit)
  /-- The generator's model, of the query, the fact lines, the model's name and the
  language of the answer. -/
  generate : String → List String → String → Option String →
    Except String (Option GeneratorReply)
  /-- The verifier's model, of the query, the answer, the fact lines and the model's
  name. -/
  verify : String → String → List String → String → Except String (Option String)
  /-- `detectLanguage`, with `'und'` as `none`. -/
  detectLanguage : String → Option String
  defaultModel : String := "gpt-4o-mini"
  /-- `SYNTHESIZE_DEFAULT_GUARDRAILS`; a text that is none of the three is `strict`. -/
  defaultGuardrails : SynthesisGuardrails := .strict
  /-- `SYNTHESIZE_MIN_CONFIDENCE`, `none` if it is no number. -/
  minCalibratedConfidence : Option ℚ := some (30 / 100)

/-- `SynthesizeResult`. -/
structure SynthesizeResult where
  answer : Option String
  reason : Option SynthesisReason := none
  citations : List Citation
  results : List SearchHit
  decisionLog : Option (List DecisionLogEntry)

/-- The sentence with which the generator says that it has no evidence. -/
def NO_EVIDENCE : String := "I don't have grounded evidence for that."

/-- `generated.answer.trim() === …`. -/
def isNoEvidence (answer : String) : Bool := trim answer.toList == NO_EVIDENCE.toList

/-- `verifierErrorResult`. -/
def verifierErrorResult (guardrails : SynthesisGuardrails) (answer : String)
    (citations : List Citation) (results : List SearchHit)
    (decisionLog : Option (List DecisionLogEntry)) : SynthesizeResult :=
  if guardrails = .strict then
    { answer := none, reason := some .verifier_error, citations := [], results := results,
      decisionLog := decisionLog }
  else
    { answer := some answer, reason := some .verifier_error, citations := citations,
      results := results, decisionLog := decisionLog }

/-- `finalizeVerdict`. -/
def finalizeVerdict (verdict : VerifierVerdict) (answer : String) (citations : List Citation)
    (results : List SearchHit) (guardrails : SynthesisGuardrails)
    (decisionLog : Option (List DecisionLogEntry)) : SynthesizeResult :=
  if verdict = .supported then
    { answer := some answer, citations := citations, results := results,
      decisionLog := decisionLog }
  else
    let reason := if verdict = .partial_ then .verifier_partial_ else .verifier_failed
    if guardrails = .lenient then
      { answer := some answer, reason := some reason, citations := citations, results := results,
        decisionLog := decisionLog }
    else
      { answer := none, reason := some reason, citations := [], results := results,
        decisionLog := decisionLog }

/-- `dto.synthesisGuardrails ?? this.defaultGuardrails`. -/
def SynthesizeEnv.guardrails (env : SynthesizeEnv) (dto : SynthesizeDto) : SynthesisGuardrails :=
  dto.synthesisGuardrails.getD env.defaultGuardrails

/-- `dto.synthesisModel ?? this.defaultModel`. -/
def SynthesizeEnv.model (env : SynthesizeEnv) (dto : SynthesizeDto) : String :=
  dto.synthesisModel.getD env.defaultModel

/-- What the generator makes of some results. -/
def SynthesizeEnv.generated (env : SynthesizeEnv) (dto : SynthesizeDto)
    (results : List SearchHit) : Except String GeneratorOutput :=
  let answerLang := match dto.answerLang with
    | some lang => some lang
    | none => env.detectLanguage dto.query
  callGenerator (env.generate dto.query (factLines results) (env.model dto) answerLang)

/-- `synthesize` from the output of the generator on. -/
def afterGenerator (env : SynthesizeEnv) (dto : SynthesizeDto) (results : List SearchHit)
    (generated : GeneratorOutput) : SynthesizeResult :=
  let citations := resolveCitations generated.citedFactIds (factIndex results)
  let decisionLog :=
    if dto.explain then some (buildDecisionLog results (citations.map (fun c => c.factId)))
    else none
  if isNoEvidence generated.answer then
    -- nothing to verify, nothing to cite
    { answer := some generated.answer, reason := some .no_grounded_evidence, citations := [],
      results := results, decisionLog := decisionLog }
  else if env.guardrails dto = .off then
    { answer := some generated.answer, citations := citations, results := results,
      decisionLog := decisionLog }
  else
    match callVerifier (env.verify dto.query generated.answer (factLines results)
        (env.model dto)) with
    | .error _ =>
        verifierErrorResult (env.guardrails dto) generated.answer citations results decisionLog
    | .ok verdict =>
        finalizeVerdict verdict generated.answer citations results (env.guardrails dto) decisionLog

/-- `synthesize` from what the guardrail has kept on. -/
def afterGuardrail (env : SynthesizeEnv) (dto : SynthesizeDto) (results : List SearchHit) :
    SynthesizeResult :=
  let uncited := if dto.explain then some (buildDecisionLog results []) else none
  if results.isEmpty then
    { answer := none, reason := some .no_results, citations := [], results := [],
      decisionLog := if dto.explain then some [] else none }
  else if (factIndex results).size = 0 then
    -- entities that were stripped of their facts
    { answer := none, reason := some .no_results, citations := [], results := results,
      decisionLog := uncited }
  else
    match env.generated dto results with
    | .error _ =>
        { answer := none, reason := some .generator_error, citations := [], results := results,
          decisionLog := uncited }
    | .ok generated => afterGenerator env dto results generated

/-- The request as the service goes on with it. -/
def SynthesizeDto.clamped (dto : SynthesizeDto) : SynthesizeDto :=
  { dto with query := clampQuery dto.query }

/-- `synthesize`; a search that throws ends the call. -/
def synthesize (env : SynthesizeEnv) (dto : SynthesizeDto) : Except String SynthesizeResult :=
  match env.search dto.clamped.toSearchRequest with
  | .error e => .error e
  | .ok hits =>
      .ok (afterGuardrail env dto.clamped
        (applyConformalGuardrail hits env.minCalibratedConfidence))

end Brain
