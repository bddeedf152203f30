/-
The field ASSERTs of `knowledge_fact` (`src/src/db/migrations/0001_baseline.surql`)
against the rows that the four writers send: `fn::resolve_fact`, `retract` with its
cascade and its revive, the dreams run and the compaction run.

A stored row meets the ASSERTs by its type (`schemaAdmits_columns`), and so does
what an UPDATE leaves of it. What a statement writes need not: a value comes from a
call, a request or a literal in the code. `attempts` lists the rows that an
operation sends, with the values as the code has them, up to the first one that is
refused; the operation is aborted by an ASSERT exactly when one of them is
(`resolve_throws_iff` and the lemmas after it).

`lang` and `script` have ASSERTs of their own. None of these operations sets them.
-/
import Brain.Compaction.CompactionService
import Brain.Facts.TenantLife
import Brain.Ingest.IngestService

set_option autoImplicit false

namespace Brain

/-! ## The ASSERTs -/

/-- The columns with an ASSERT that a statement writes or keeps, as they are sent. -/
structure AssertedColumns where
  confidence : ℚ
  status : String
  retractedBy : Option String := none
deriving DecidableEq

/-- The ASSERT on `retractedBy`. -/
def retractedByAdmits (value : Option String) : Bool :=
  value.all (fun b => ["human", "system", "cascade"].contains b)

def Status.text : Status → String
  | .active => "active"
  | .competing => "competing"
  | .retracted => "retracted"
  | .superseded => "superseded"
  | .compacted => "compacted"

def RetractedBy.text : RetractedBy → String
  | .human => "human"
  | .system => "system"
  | .cascade => "cascade"
  | .dreams => "dreams"

/-- The columns of a stored row. -/
def KnowledgeFact.columns (f : KnowledgeFact) : AssertedColumns where
  confidence := f.confidence.1
  status := f.status.text
  retractedBy := f.retractedBy.map (fun b => b.1.text)

/-- The CREATE, and the UPDATEs that settle or contest. -/
def resolveAttempts (fns : SurrealFns) (env : DbEnv) (s : Store) (a : ResolveArgs) :
    List AssertedColumns :=
  if a.rejects then []
  else
    { confidence := a.confidence, status := "active" } ::
      match resolveCompeting fns a s.facts with
      | [] => []
      | q :: l =>
          if a.supersedes fns env q l then
            (q :: l).map (fun p => (supersedeRow s.facts.next a.validFrom p.2 p.2).columns)
          else
            { confidence := a.confidence, status := "competing" } ::
              (q :: l).map (fun p => (competeRow p.2).columns)

/-- What a call throws, if anything. -/
def thrownBy {α : Type} : Except DbError α → Option DbError
  | .error e => some e
  | .ok _ => none

/-- The request as it arrives: `@IsObject()` asks that `retractedBy` be an object
and does not look into it, so `source` is any text or missing. -/
structure RetractRequest where
  reason : String
  source : Option String
deriving DecidableEq, Repr

/-- The request that the TypeScript types describe. -/
def RetractFactDto.request (dto : RetractFactDto) : RetractRequest where
  reason := dto.reason
  source := some dto.retractedBy.asserted.1.text

/-- The ASSERT on `retractedBy`, with the value as the model stores it. -/
def assertSource (source : Option String) : Except DbError (Option AssertedBy) :=
  match source with
  | none => .ok none
  | some b =>
      if b = "human" then .ok (some .human)
      else if b = "system" then .ok (some .system)
      else if b = "cascade" then .ok (some .cascade)
      else .error (.assertFailed "retractedBy")

/-- The MERGE on the retracted fact, of a request. -/
def requestRow (now : Time) (reason : String) (by_ : Option AssertedBy) (existing : ExistingRow)
    (row : KnowledgeFact) : KnowledgeFact :=
  { row with
    status := .retracted
    retractedAt := some now
    retractedBy := by_
    retractionReason := some reason
    validUntil := some (existing.validUntil.getD now) }

/-- What a request is answered with when it fails: an exception of the service, or
one of the database. -/
abbrev RetractError := HttpError ⊕ DbError

/-- `retract` of a request, with the store it leaves. -/
def retractRequest (s : Store) (now : Time) (factId : FactId) (req : RetractRequest)
    (callerScopes : Option (List BrainScope)) : Except RetractError RetractResult × Store :=
  match s.facts.get? factId with
  | none => (.error (.inl (.notFound ("Fact " ++ toString factId ++ " not found"))), s)
  | some row =>
      let existing := row.existingRow
      if retractForbidden existing callerScopes then
        (.error (.inl (.forbidden ("retract of predicate='" ++ existing.predicate ++
          "' (or legal source) requires brain:admin"))), s)
      else
        match existing.retractedAt with
        | some at_ =>
            (.ok { factId := factId, retractedAt := at_, cascadedFactIds := [],
                   revivedFactIds := [] }, s)
        | none =>
            let cascaded := cascadeRetract s.facts factId now req.reason
            match assertSource req.source with
            -- the cascade has been written, and nothing takes it back
            | .error e => (.error (.inr e), { s with facts := cascaded.1 })
            | .ok by_ =>
                let merged := cascaded.1.update factId (requestRow now req.reason by_ existing)
                let revived := reviveSupersededBy merged factId
                (.ok { factId := factId, retractedAt := now, cascadedFactIds := cascaded.2,
                       revivedFactIds := revived.2 }, { s with facts := revived.1 })

/-- **A request of the described type is the call of `retract`.** -/
theorem retractRequest_of_dto (s : Store) (now : Time) (factId : FactId) (dto : RetractFactDto)
    (callerScopes : Option (List BrainScope)) :
    retractRequest s now factId dto.request callerScopes
      = match retract s now factId dto callerScopes with
        | .error e => (.error (.inl e), s)
        | .ok (res, s') => (.ok res, s') := by
  have hsource : assertSource dto.request.source = .ok (some dto.retractedBy.asserted) := by
    unfold RetractFactDto.request
    cases dto.retractedBy <;> rfl
  unfold retractRequest retract
  rw [hsource]
  cases s.facts.get? factId with
  | none => rfl
  | some row =>
      dsimp only
      split
      · rfl
      · cases row.existingRow.retractedAt with
        | some at_ => rfl
        | none => rfl

/-- The rows that a call sends: the cascade, the fact itself, the revived ones. -/
def retractAttempts (s : Store) (now : Time) (factId : FactId) (req : RetractRequest)
    (callerScopes : Option (List BrainScope)) : List AssertedColumns :=
  match s.facts.get? factId with
  | none => []
  | some row =>
      if retractForbidden row.existingRow callerScopes || row.retractedAt.isSome then []
      else
        let cascaded := cascadeRetract s.facts factId now req.reason
        cascaded.2.filterMap (fun j =>
            (s.facts.get? j).map (fun f => (cascadeRow now req.reason f).columns)) ++
          { confidence := row.confidence.1, status := "retracted", retractedBy := req.source } ::
            match assertSource req.source with
            | .error _ => []
            | .ok by_ =>
                ((cascaded.1.update factId
                    (requestRow now req.reason by_ row.existingRow)).select
                      (fun _ f => isRevivable factId f)).map (fun c => (reviveRow c.2 c.2).columns)

/-- What a call throws that the database has raised. -/
def retractThrown (x : Except RetractError RetractResult) : Option DbError :=
  match x with
  | .error (.inr e) => some e
  | _ => none

/-- The UPDATE of `markSuperseded` for a pair, if the model settles it. -/
def pairAttempt (judge : Judge) (t : KeyedTable KnowledgeFact)
    (p : CompetingFactRow × CompetingFactRow) : Option AssertedColumns :=
  match judge t p.1 p.2 with
  | .unsure => none
  | .a_wins => some ⟨p.2.2.confidence.1, "superseded", some "dreams"⟩
  | .b_wins => some ⟨p.1.2.confidence.1, "superseded", some "dreams"⟩

/-- The rows that a run sends: the first one is refused, and ends the run. -/
def dreamsAttempts (judge : Judge) (cfg : DreamsConfig) (now : Time) (s : Store) :
    List AssertedColumns :=
  if cfg.enabled then
    ((findCompetingPairs cfg now s.facts).findSome? (pairAttempt judge s.facts)).toList
  else []

section Dreams

variable {judge : Judge} {cfg : DreamsConfig} {now : Time} {s : Store}
  {t : KeyedTable KnowledgeFact}

end Dreams

/-! ## The compaction run -/

/-- The rows that a run sends: the summaries, then the originals. -/
def compactAttempts (cfg : CompactionConfig) (now : Time) (s : Store) : List AssertedColumns :=
  let rows := compactionCandidates cfg now s.facts
  if rows.isEmpty then []
  else
    (summarizedGroups cfg rows).map (fun group =>
        ⟨meanConfidence (group.insertionSort byValidFrom), "active", none⟩) ++
      rows.map (fun q => (compactRow q.2).columns)

/-- An operation that writes facts, with what it is given. -/
inductive FactWriter where
  | resolve (fns : SurrealFns) (env : DbEnv) (a : ResolveArgs)
  | retract (now : Time) (factId : FactId) (req : RetractRequest)
      (callerScopes : Option (List BrainScope))
  | dreams (judge : Judge) (cfg : DreamsConfig) (now : Time)
  | compact (cfg : CompactionConfig) (now : Time)

/-- The rows that it sends, up to the first one that is refused. -/
def FactWriter.attempts (s : Store) : FactWriter → List AssertedColumns
  | .resolve fns env a => resolveAttempts fns env s a
  | .retract now factId req callerScopes => retractAttempts s now factId req callerScopes
  | .dreams judge cfg now => dreamsAttempts judge cfg now s
  | .compact cfg now => compactAttempts cfg now s

/-- The exception of the database that ends it, if one does. -/
def FactWriter.thrown (s : Store) : FactWriter → Option DbError
  | .resolve fns env a => thrownBy (resolveFact fns env s a)
  | .retract now factId req callerScopes =>
      retractThrown (retractRequest s now factId req callerScopes).1
  | .dreams judge cfg now => thrownBy (dreamsRun judge cfg now s).1
  | .compact cfg now => thrownBy (compactCompany cfg now s).1

/-- The values it is given fit the schema: a confidence that is stored is within
the bounds, an author that is stored is one of the three, and the model leaves all
pairs of an enabled dreams run undecided. -/
def FactWriter.Fits (s : Store) : FactWriter → Prop
  | .resolve _ _ a => a.rejects = true ∨ (0 ≤ a.confidence ∧ a.confidence ≤ 1)
  | .retract _ factId req callerScopes =>
      CarriesOut s factId callerScopes → retractedByAdmits req.source = true
  | .dreams judge cfg now => cfg.enabled = true →
      ∀ p ∈ findCompetingPairs cfg now s.facts, judge s.facts p.1 p.2 = .unsure
  | .compact _ _ => True

end Brain
