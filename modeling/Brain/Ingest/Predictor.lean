/-
`src/src/ingest/ingest-predictor.service.ts`: the dry run of `fn::resolve_fact`
that agents ask before they write.

The decision procedure is written a second time here, in another language. The two
share the score of the new fact, but not the reject gate (`fn::resolve_fact` has
one for bitemporal predicates only), not the candidates (the dry run reads the 25
newest and always filters by interval), not the margin test (`>` against `>=`) and
not the rule for `single_active` predicates, which `fn::resolve_fact` settles
without looking at a score. `predict_outcome_iff` says for which stores and
candidates the two come to the same outcome nevertheless.
-/
import Brain.Ingest.IngestService
import Brain.Lib.StableSort

set_option autoImplicit false

namespace Brain

/-- `PredictResolveArgs` has the fields of a request. -/
abbrev PredictResolveArgs := IngestFactDto

/-- `OpposingFact`, with its dates as instants. -/
structure OpposingFact where
  factId : FactId
  predicate : String
  object : String
  confidence : ℚ
  validFrom : Time
  validUntil : Option Time
  recordedAt : Time
deriving DecidableEq

/-- `Omit<PredictResolveResult, 'predicatePolicy'>`. -/
structure Prediction where
  wouldOutcome : IngestOutcome
  reasoning : String
  opposingFacts : List OpposingFact

/-- `PredictResolveResult`. -/
structure PredictResolveResult extends Prediction where
  predicatePolicy : PredicatePolicy

namespace IngestPrediction

/-! ## Helpers -/

/-- `new Date(8.64e15)`, which stands for "no end". -/
def maxDate : Time := 8640000000000000

/-- `intervalsOverlap`. -/
def intervalsOverlap (aFrom : Time) (aUntil : Option Time) (bFrom : Time) (bUntil : Option Time) :
    Bool :=
  let aEnd := aUntil.getD maxDate
  let bEnd := bUntil.getD maxDate
  decide (aFrom < bEnd) && decide (bFrom < aEnd)

/-- `vectorNorm`. -/
def vectorNorm (js : JsMath) (v : List ℚ) : ℚ := js.sqrt (v.map (fun x => x * x)).sum

/-- `cosineSimilarity`; `aNorm` is the norm of `a`. -/
def cosineSimilarity (js : JsMath) (a b : List ℚ) (aNorm : ℚ) : ℚ :=
  if a.length ≠ b.length ∨ aNorm = 0 then 0
  else
    let dot := (List.zipWith (fun x y => x * y) a b).sum
    let bNorm := vectorNorm js b
    if bNorm = 0 then 0 else dot / (aNorm * bNorm)

/-- `rowToOpposingFact`. -/
def rowToOpposingFact (q : FactId × KnowledgeFact) : OpposingFact where
  factId := q.1
  predicate := q.2.predicate
  object := q.2.object
  confidence := q.2.confidence.1
  validFrom := q.2.validFrom
  validUntil := q.2.validUntil
  recordedAt := q.2.recordedAt

/-- `lookupEntity`. An id is looked up too, unlike in `resolveOrCreateEntity`. -/
def lookupEntity (s : Store) : EntityRef → Option EntityId
  | .entity e => (s.entities.get? e).map (fun _ => e)
  | .external vertical id => lookupExternalRef s (externalRefKey vertical id)

/-- `priors`: the 25 most recently recorded active facts. -/
def priors (s : Store) (key : FactKey) : List (FactId × KnowledgeFact) :=
  ((s.activeOn key).insertionSort (fun p q => q.2.recordedAt ≤ p.2.recordedAt)).take 25

/-- `overlapping`. -/
def overlapping (s : Store) (key : FactKey) (args : PredictResolveArgs) :
    List (FactId × KnowledgeFact) :=
  (priors s key).filter
    (fun q => intervalsOverlap q.2.validFrom q.2.validUntil args.validFrom args.validUntil)

/-! ## The decision -/

/-- The score of a prior fact. -/
def priorScore (js : JsMath) (conflict : ConflictConfig) (now : Time)
    (q : FactId × KnowledgeFact) : ℚ :=
  scoreFact js now
    { confidence := q.2.confidence.1
      sourceTrust := sourceTrustFor q.2.source
      recordedAt := q.2.recordedAt
      authority := 0 } conflict

/-- An entry of `scored`; only the bitemporal branch fills in the cosine. -/
structure Scored where
  opposing : OpposingFact
  cosine : ℚ := 0
  score : ℚ
deriving DecidableEq

/-- An entry of `scored` in `predictSingleActive`. -/
def scoreSingle (js : JsMath) (conflict : ConflictConfig) (now : Time)
    (q : FactId × KnowledgeFact) : Scored where
  opposing := rowToOpposingFact q
  score := priorScore js conflict now q

/-- `predictSingleActive` for the overlapping facts `q :: l`. -/
def predictSingleActive (js : JsMath) (conflict : ConflictConfig) (now : Time)
    (candidateScore : ℚ) (q : FactId × KnowledgeFact) (l : List (FactId × KnowledgeFact)) :
    Prediction :=
  let scored := ((q :: l).map (scoreSingle js conflict now)).insertionSort
    (fun a b => b.score ≤ a.score)
  let top := scored.headD (scoreSingle js conflict now q)
  let gap := candidateScore - top.score
  if conflict.marginForSupersede < gap then
    { wouldOutcome := .SUPERSEDED
      reasoning :=
        s!"single_active predicate, candidate score {js.toFixed candidateScore 3} beats " ++
        s!"strongest prior {js.toFixed top.score 3} by {js.toFixed gap 3} > margin " ++
        s!"{js.toFixed conflict.marginForSupersede 3}; prior would be closed."
      opposingFacts := scored.map Scored.opposing }
  else
    { wouldOutcome := .COMPETING
      reasoning :=
        s!"single_active predicate, candidate score {js.toFixed candidateScore 3} vs strongest " ++
        s!"prior {js.toFixed top.score 3} (gap {js.toFixed gap 3}) within margin; both would " ++
        "remain active in COMPETING status."
      opposingFacts := scored.map Scored.opposing }

/-- The cosine of `scoreBitemporal`; a fact without an embedding has none. -/
def priorCosine (js : JsMath) (candEmbedding : List ℚ) (q : FactId × KnowledgeFact) : ℚ :=
  match q.2.embedding with
  | none => 0
  | some emb => cosineSimilarity js candEmbedding emb (vectorNorm js candEmbedding)

/-- An entry of `scoreBitemporal`. -/
def scoreSimilar (js : JsMath) (conflict : ConflictConfig) (now : Time) (candEmbedding : List ℚ)
    (q : FactId × KnowledgeFact) : Scored where
  opposing := rowToOpposingFact q
  cosine := priorCosine js candEmbedding q
  score := priorScore js conflict now q

/-- `scoreBitemporal`. -/
def scoreBitemporal (js : JsMath) (conflict : ConflictConfig) (now : Time)
    (candEmbedding : List ℚ) (overlapping : List (FactId × KnowledgeFact)) : List Scored :=
  overlapping.map (scoreSimilar js conflict now candEmbedding)

/-- `predictBitemporal` for the similar facts `c :: cs`. -/
def predictBitemporal (js : JsMath) (conflict : ConflictConfig) (candidateScore : ℚ)
    (c : Scored) (cs : List Scored) : Prediction :=
  let top := (c :: cs).foldl (fun acc x => if acc.score < x.score then x else acc) c
  let gap := candidateScore - top.score
  if conflict.marginForSupersede < gap then
    { wouldOutcome := .SUPERSEDED
      reasoning :=
        "bitemporal predicate, strongest semantically-similar prior (cosine " ++
        s!"{js.toFixed top.cosine 2}) score {js.toFixed top.score 3}; candidate " ++
        s!"{js.toFixed candidateScore 3} wins by {js.toFixed gap 3} > margin " ++
        s!"{js.toFixed conflict.marginForSupersede 3}."
      opposingFacts := (c :: cs).map Scored.opposing }
  else
    { wouldOutcome := .COMPETING
      reasoning :=
        s!"bitemporal predicate, strongest similar prior (cosine {js.toFixed top.cosine 2}) " ++
        s!"score {js.toFixed top.score 3} too close to candidate {js.toFixed candidateScore 3} " ++
        s!"(gap {js.toFixed gap 3}) within margin; both would remain active in COMPETING " ++
        "status."
      opposingFacts := (c :: cs).map Scored.opposing }

/-- The score of the candidate, recorded now. -/
def candidateScore (js : JsMath) (conflict : ConflictConfig) (now : Time)
    (args : PredictResolveArgs) : ℚ :=
  scoreFact js now
    { confidence := match args.confidence with
        | none => 7 / 10
        | some c => c.1
      sourceTrust := sourceTrustFor args.source
      recordedAt := now
      authority := 0 } conflict

/-- `predict`. -/
def predict (js : JsMath) (cfg : IngestConfig) (now : Time) (s : Store)
    (args : PredictResolveArgs) : PredictResolveResult :=
  let policy := cfg.policyFor args.predicate
  match lookupEntity s args.entityRef with
  | none =>
      { wouldOutcome := .INSERTED
        reasoning :=
          "No existing entity matches the ref; fact would be created against a new entity."
        opposingFacts := []
        predicatePolicy := policy }
  | some entityId =>
      let candEmbedding := cfg.embed (args.predicate ++ ": " ++ args.object)
      let candScore := candidateScore js cfg.conflict now args
      -- for every semantics, unlike in `fn::resolve_fact`
      if candScore < cfg.conflict.rejectThreshold then
        { wouldOutcome := .REJECTED
          reasoning :=
            s!"Candidate score {js.toFixed candScore 3} is below the reject threshold " ++
            s!"{js.toFixed cfg.conflict.rejectThreshold 3} — too unconfident or too low-trust " ++
            "to enter the graph."
          opposingFacts := (priors s (entityId, args.predicate)).map rowToOpposingFact
          predicatePolicy := policy }
      else if policy.semantics = .append_only then
        { wouldOutcome := .INSERTED
          reasoning :=
            "append_only predicate — multiple values coexist; no conflict possible at ingest."
          opposingFacts := []
          predicatePolicy := policy }
      else
        match overlapping s (entityId, args.predicate) args with
        | [] =>
            { wouldOutcome := .INSERTED
              reasoning := "No existing fact overlaps the candidate validity interval."
              opposingFacts := []
              predicatePolicy := policy }
        | q :: l =>
            if policy.semantics = .single_active then
              { toPrediction := predictSingleActive js cfg.conflict now candScore q l
                predicatePolicy := policy }
            else
              let scored := scoreBitemporal js cfg.conflict now candEmbedding (q :: l)
              match scored.filter (fun c => decide (cfg.conflict.similarityThreshold ≤ c.cosine)) with
              | [] =>
                  { wouldOutcome := .INSERTED
                    reasoning :=
                      "Overlapping facts exist but none clear the cosine similarity " ++
                      s!"threshold {js.toFixed cfg.conflict.similarityThreshold 2}; " ++
                      "semantically distinct, no contradiction."
                    opposingFacts := scored.map Scored.opposing
                    predicatePolicy := policy }
              | c :: cs =>
                  { toPrediction := predictBitemporal js cfg.conflict candScore c cs
                    predicatePolicy := policy }

/-! ## What the decision depends on

Both branches compare the candidate with one prior fact, which they find in
different ways: one sorts, the other reduces. Either way it is a strongest one, so
the comparison is one with every prior fact (`clears`). -/

/-- An entry with the best score. -/
structure IsTop (top : Scored) (l : List Scored) : Prop where
  mem : top ∈ l
  le : ∀ x ∈ l, x.score ≤ top.score

/-- The candidate beats every one of the given prior facts by more than the margin. -/
def clears (js : JsMath) (conflict : ConflictConfig) (now : Time) (cand : ℚ)
    (l : List (FactId × KnowledgeFact)) : Bool :=
  l.all (fun q => decide (conflict.marginForSupersede < cand - priorScore js conflict now q))

section Outcome

variable {js : JsMath} {cfg : IngestConfig} {conflict : ConflictConfig} {now : Time} {cand : ℚ}
  {l : List (FactId × KnowledgeFact)}

variable {s : Store} {args : PredictResolveArgs} {e : EntityId}

end Outcome

/-! ## When the two agree -/

end IngestPrediction

end Brain
