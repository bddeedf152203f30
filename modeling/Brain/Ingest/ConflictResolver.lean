/-
`src/src/ingest/conflict-resolver.ts`: the predicate semantics, the scoring
configuration and the scoring arithmetic that the services share.

Scores are computed over the rationals. What the code takes from `Math` is a
parameter (`JsMath`): nothing below depends on the values of `exp` and `sqrt`
except where a theorem says so.
-/
import Brain.Db.KnowledgeFact

set_option autoImplicit false

namespace Brain

/-- `Semantics`: cardinality and time behaviour of a predicate. -/
inductive Semantics where
  | append_only | single_active | bitemporal
deriving DecidableEq, Repr

/-- `PredicatePolicy`, less the scope that only the read side looks at. -/
structure PredicatePolicy where
  semantics : Semantics
  decayHalfLifeDays : Option ℕ
  piiClass : String
deriving DecidableEq, Repr

/-- `DEFAULT_POLICY`. -/
def DEFAULT_POLICY : PredicatePolicy :=
  { semantics := .bitemporal, decayHalfLifeDays := some 60, piiClass := "none" }

/-- `ConflictConfig.weights`. -/
structure ConflictWeights where
  confidence : ℚ
  sourceTrust : ℚ
  recency : ℚ
  authority : ℚ
deriving DecidableEq, Repr

/-- `ConflictConfig`. -/
structure ConflictConfig where
  similarityThreshold : ℚ
  weights : ConflictWeights
  marginForSupersede : ℚ
  rejectThreshold : ℚ
deriving DecidableEq, Repr

/-- The configuration that both services fall back to when no variable is set. -/
def ConflictConfig.fallback : ConflictConfig where
  similarityThreshold := 85 / 100
  weights := { confidence := 30 / 100, sourceTrust := 40 / 100, recency := 20 / 100,
               authority := 10 / 100 }
  marginForSupersede := 15 / 100
  rejectThreshold := 30 / 100

/-! ## Source trust -/

/-- The entries of `SOURCE_TRUST` that `sourceTrustFor` reads. -/
structure SourceTrust where
  billing_event : ℚ
  incidents_event : ℚ
  auth_event : ℚ
  inbox_extraction : ℚ
  default : ℚ

def SOURCE_TRUST : SourceTrust where
  billing_event := 95 / 100
  incidents_event := 90 / 100
  auth_event := 90 / 100
  inbox_extraction := 50 / 100
  default := 50 / 100

/-- `String.prototype.startsWith` on an optional receiver (`?.`). -/
def startsWith? (s : Option String) (pre : String) : Bool :=
  match s with
  | none => false
  | some s => pre.toList.isPrefixOf s.toList

/-- `sourceTrustFor`, written out once in `ingest.service.ts` and once in
`ingest-predictor.service.ts`. -/
def sourceTrustFor (source : FactSource) : ℚ :=
  if startsWith? source.eventId "billing." then SOURCE_TRUST.billing_event
  else if startsWith? source.eventId "incidents." then SOURCE_TRUST.incidents_event
  else if startsWith? source.eventId "auth." then SOURCE_TRUST.auth_event
  -- an empty `messageId` is falsy
  else if source.messageId.any (fun m => !m.isEmpty) then SOURCE_TRUST.inbox_extraction
  else SOURCE_TRUST.default

/-! ## Scoring -/

/-- What the services use of `Math` and of number formatting. -/
structure JsMath where
  exp : ℚ → ℚ
  sqrt : ℚ → ℚ
  toFixed : ℚ → ℕ → String

/-- `Math` where the examples below use it: on facts scored at the instant they were
recorded, and on embeddings of length one. -/
def JsMath.atRecording : JsMath where
  exp x := if x = 0 then 1 else 0
  sqrt x := x
  toFixed q _ := toString q

/-- `recencyWeight`: exponential decay over 365 days. -/
def recencyWeight (js : JsMath) (recordedAt now : Time) : ℚ :=
  let ageDays : ℚ := ((now - recordedAt : ℤ) : ℚ) / (1000 * 60 * 60 * 24)
  js.exp (-ageDays / 365)

/-- `FactScoreInput`. -/
structure FactScoreInput where
  confidence : ℚ
  sourceTrust : ℚ
  recordedAt : Time
  authority : ℚ

/-- `scoreFact`; `now` is the clock that `recencyWeight` defaults to. -/
def scoreFact (js : JsMath) (now : Time) (f : FactScoreInput) (cfg : ConflictConfig) : ℚ :=
  cfg.weights.confidence * f.confidence
    + cfg.weights.sourceTrust * f.sourceTrust
    + cfg.weights.recency * recencyWeight js f.recordedAt now
    + cfg.weights.authority * f.authority

end Brain
