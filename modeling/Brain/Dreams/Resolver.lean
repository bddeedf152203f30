/-
`src/src/dreams/resolver.service.ts`: the cron that settles competing pairs by
asking a model which of the two is true.

The model's answer is a parameter (`judge`): any function of the facts and the
pair. What `markSuperseded` writes passes through the ASSERT on `retractedBy`,
and `'dreams'` is not among the values that column admits, so the UPDATE throws
and the run ends there. `dreamsRun_store` is the consequence that the later
modules use: a run, whatever the verdicts, leaves every fact as it was.
-/
import Brain.Db.KnowledgeFact

set_option autoImplicit false

namespace Brain

/-- The settings of the constructor that `run` depends on. -/
structure DreamsConfig where
  enabled : Bool
  minAgeDays : ℤ
  maxPairs : ℤ
deriving Repr

/-- The verdict of `judge`. -/
inductive JudgeVerdict where
  | a_wins | b_wins | unsure
deriving DecidableEq, Repr

/-- A fact as `findCompetingPairs` returns it. -/
abbrev CompetingFactRow := FactId × KnowledgeFact

/-- `ResolverResolution`. -/
structure ResolverResolution where
  winnerFactId : FactId
  loserFactId : FactId
  predicate : String
  entityId : EntityId
  winnerObject : String
  loserObject : String
deriving DecidableEq, Repr

/-- `ResolverResult`. -/
structure ResolverResult where
  pairsConsidered : ℕ := 0
  llmJudgements : ℕ := 0
  resolutionsApplied : ℕ := 0
  unsurePairs : ℕ := 0
  resolutions : List ResolverResolution := []
deriving DecidableEq, Repr

/-- `judge(db, pair)`: what the model answers may depend on all of the facts. -/
abbrev Judge := KeyedTable KnowledgeFact → CompetingFactRow → CompetingFactRow → JudgeVerdict

/-! ## Finding the pairs -/

/-- `ORDER BY entityId, predicate, recordedAt ASC`. -/
def competingOrder (p q : CompetingFactRow) : Prop :=
  p.2.entityId < q.2.entityId ∨ p.2.entityId = q.2.entityId ∧
    (p.2.predicate < q.2.predicate ∨ p.2.predicate = q.2.predicate ∧
      p.2.recordedAt ≤ q.2.recordedAt)

instance : DecidableRel competingOrder := fun p q => by
  unfold competingOrder
  exact inferInstance

/-- The groups of `byKey`, in the order in which their keys first appear. -/
def groupByKey (rows : List CompetingFactRow) : List (List CompetingFactRow) :=
  ((rows.map (fun q => q.2.key)).eraseDups).map
    (fun k => rows.filter (fun q => decide (q.2.key = k)))

/-- The loop over the groups: pairs only, and the cap is looked at after a push. -/
def collectPairs (maxPairs : ℤ) : List (List CompetingFactRow) →
    List (CompetingFactRow × CompetingFactRow) → List (CompetingFactRow × CompetingFactRow)
  | [], pairs => pairs
  | [a, b] :: groups, pairs =>
      let pairs := pairs ++ [(a, b)]
      if maxPairs ≤ pairs.length then pairs else collectPairs maxPairs groups pairs
  | _ :: groups, pairs => collectPairs maxPairs groups pairs

/-- `findCompetingPairs`, executed at `now`. -/
def findCompetingPairs (cfg : DreamsConfig) (now : Time) (t : KeyedTable KnowledgeFact) :
    List (CompetingFactRow × CompetingFactRow) :=
  let cutoff := now - cfg.minAgeDays * 24 * 60 * 60 * 1000
  let rows := t.select (fun _ f => f.isCompeting && decide (f.recordedAt ≤ cutoff))
  collectPairs cfg.maxPairs (groupByKey (rows.insertionSort competingOrder)) []

/-! ## Settling a pair -/

/-- `closeAt`: the winner's start, but no earlier than the loser's own. -/
def closeAt (winner loser : KnowledgeFact) : Time :=
  if loser.validFrom < winner.validFrom then winner.validFrom else loser.validFrom

/-- The SET of `markSuperseded`; `by_` has passed the column's ASSERT. -/
def dreamsSupersedeRow (by_ : AssertedBy) (winnerId : FactId) (winner loser row : KnowledgeFact) :
    KnowledgeFact :=
  { row with
    status := .superseded
    retractionReason := some "superseded"
    retractedBy := some by_
    supersededBy := some winnerId
    -- the clause is left out when there is nothing to snapshot
    priorValidUntil := match loser.validUntil with
      | none => row.priorValidUntil
      | some u => some u
    validUntil := some (closeAt winner loser) }

/-- `markSuperseded`. -/
def markSuperseded (t : KeyedTable KnowledgeFact) (loserId winnerId : FactId) :
    Except DbError (KeyedTable KnowledgeFact) :=
  match t.get? winnerId, t.get? loserId with
  | some winner, some loser =>
      match assertRetractedBy .dreams with
      | none => .error (.assertFailed "retractedBy")
      | some by_ => .ok (t.update loserId (dreamsSupersedeRow by_ winnerId winner loser))
  | _, _ => .ok t

/-- The loop of `run` over the pairs: the result or what was thrown, and the
facts as they are then. -/
def resolvePairs (judge : Judge) :
    List (CompetingFactRow × CompetingFactRow) → KeyedTable KnowledgeFact → ResolverResult →
      Except DbError ResolverResult × KeyedTable KnowledgeFact
  | [], t, result => (.ok result, t)
  | (a, b) :: pairs, t, result =>
      let result := { result with llmJudgements := result.llmJudgements + 1 }
      let settle (winner loser : CompetingFactRow) :=
        match markSuperseded t loser.1 winner.1 with
        -- nothing catches it: the pairs that are left stay as they are
        | .error e => (.error e, t)
        | .ok t' => resolvePairs judge pairs t'
            { result with
              resolutionsApplied := result.resolutionsApplied + 1
              resolutions := result.resolutions ++
                [{ winnerFactId := winner.1, loserFactId := loser.1,
                   predicate := winner.2.predicate, entityId := winner.2.entityId,
                   winnerObject := winner.2.object, loserObject := loser.2.object }] }
      match judge t a b with
      -- left for a later run
      | .unsure => resolvePairs judge pairs t { result with unsurePairs := result.unsurePairs + 1 }
      | .a_wins => settle a b
      | .b_wins => settle b a

/-- `run`, executed at `now`. -/
def dreamsRun (judge : Judge) (cfg : DreamsConfig) (now : Time) (s : Store) :
    Except DbError ResolverResult × Store :=
  if cfg.enabled then
    let pairs := findCompetingPairs cfg now s.facts
    let done := resolvePairs judge pairs s.facts { pairsConsidered := pairs.length }
    (done.1, { s with facts := done.2 })
  else (.ok {}, s)

/-! ## What a run does -/

section Spec

variable {judge : Judge} {t t' : KeyedTable KnowledgeFact}

/-- The interval that `markSuperseded` would leave is never inverted. -/
theorem ordered_dreamsSupersedeRow (by_ : AssertedBy) (winnerId : FactId)
    (winner loser : KnowledgeFact) :
    (dreamsSupersedeRow by_ winnerId winner loser loser).span.Ordered := by
  have hle : loser.validFrom ≤ closeAt winner loser := by
    unfold closeAt
    split
    · next h => exact le_of_lt h
    · exact le_refl _
  intro u hu
  simp only [dreamsSupersedeRow, KnowledgeFact.span, Option.mem_some_iff] at hu
  exact hu ▸ hle

/-- The ASSERT on `retractedBy` refuses what the service writes. -/
theorem assertRetractedBy_dreams : assertRetractedBy .dreams = none := by decide

/-- A call that does not throw has not written either: it found a row missing. -/
theorem markSuperseded_ok {loserId winnerId : FactId}
    (h : markSuperseded t loserId winnerId = .ok t') :
    t' = t ∧ (t.get? winnerId = none ∨ t.get? loserId = none) := by
  unfold markSuperseded at h
  cases hw : t.get? winnerId with
  | none => rw [hw] at h; cases h; exact ⟨rfl, Or.inl rfl⟩
  | some w =>
      cases hl : t.get? loserId with
      | none => rw [hw, hl] at h; cases h; exact ⟨rfl, Or.inr rfl⟩
      | some l =>
          rw [hw, hl] at h
          simp only [assertRetractedBy_dreams] at h
          cases h

/-- The loop ends with the table it started from, whether it throws or not. -/
theorem resolvePairs_facts (pairs : List (CompetingFactRow × CompetingFactRow)) :
    ∀ t result, (resolvePairs judge pairs t result).2 = t := by
  induction pairs with
  | nil => exact fun t result => rfl
  | cons p pairs ih =>
      obtain ⟨a, b⟩ := p
      intro t result
      rw [resolvePairs]
      dsimp only
      cases judge t a b with
      | unsure => exact ih _ _
      | a_wins =>
          dsimp only
          cases hm : markSuperseded t b.1 a.1 with
          | error e => rfl
          | ok t₁ => rw [ih, (markSuperseded_ok hm).1]
      | b_wins =>
          dsimp only
          cases hm : markSuperseded t a.1 b.1 with
          | error e => rfl
          | ok t₁ => rw [ih, (markSuperseded_ok hm).1]

/-- **A run leaves the store as it was**, whatever the verdicts. -/
theorem dreamsRun_store (judge : Judge) (cfg : DreamsConfig) (now : Time) (s : Store) :
    (dreamsRun judge cfg now s).2 = s := by
  unfold dreamsRun
  split
  · simp only [resolvePairs_facts]
  · rfl

end Spec

end Brain
