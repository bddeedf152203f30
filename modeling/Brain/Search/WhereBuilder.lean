/-
`src/src/search/internals/where-builder.ts`: the WHERE clause that every search
leg shares.

A clause is a test on a row, and `buildBaseWhere` is the list of the clauses that
the function pushes, in its order; the rows a leg may return are those that pass all
of them. The SQL text and its bound parameters are one thing here, but for
`$entityIds`: two later queries take over the text and bind that parameter to ids of
their own, so what the clause compares with is decided by the query
(`SearchDto.rebind`).
-/
import Brain.Db.KnowledgeFact

set_option autoImplicit false

namespace Brain

/-- The fields of `SearchDto` that `buildBaseWhere` reads. -/
structure SearchDto where
  minConfidence : Option ℚ := none
  predicates : List String := []
  entityIds : List EntityId := []
  disableLangFilter : Bool := false
  includeStale : Bool := false

/-- One clause of the conjunction. -/
abbrev WhereClause := KnowledgeFact → Bool

def notRetractedClause : WhereClause := fun f => f.retractedAt.isNone

def notContestedClause : WhereClause := fun f => f.status != .competing

def minConfidenceClause (c : ℚ) : WhereClause := fun f => decide (c ≤ f.confidence.1)

def predicatesClause (ps : List String) : WhereClause := fun f => ps.contains f.predicate

def entityIdsClause (es : List EntityId) : WhereClause := fun f => es.contains f.entityId

/-- Facts without a language tag pass. -/
def langClause (lang : String) : WhereClause := fun f => f.lang == some lang || f.lang.isNone

/-- The point-in-time clause. -/
def asOfClause (asOf : Time) : WhereClause := fun f =>
  (match f.retractedAt with
    | none => true
    | some r => decide (asOf < r)) &&
  decide (f.validFrom ≤ asOf) &&
  (match f.validUntil with
    | none => true
    | some u => decide (asOf < u)) &&
  f.status != .compacted

/-- The default clause: what is current at `now`. A superseded fact passes while
its interval still runs. -/
def currentClause (now : Time) : WhereClause := fun f =>
  decide (f.validFrom ≤ now) &&
  (match f.validUntil with
    | none => true
    | some u => decide (now < u)) &&
  f.status != .compacted &&
  (f.status != .superseded ||
    match f.validUntil with
    | none => false
    | some u => decide (now < u))

/-- `buildBaseWhere`; `now` is `time::now()` in the query that uses the clause. -/
def buildBaseWhere (now : Time) (dto : SearchDto) (asOf : Option Time)
    (includeRetracted includeContested : Bool) (langFilter : Option String) : List WhereClause :=
  (if includeRetracted then [] else [notRetractedClause]) ++
  (if includeContested then [] else [notContestedClause]) ++
  (match dto.minConfidence with
    | none => []
    | some c => [minConfidenceClause c]) ++
  (if dto.predicates.isEmpty then [] else [predicatesClause dto.predicates]) ++
  (if dto.entityIds.isEmpty then [] else [entityIdsClause dto.entityIds]) ++
  (match langFilter with
    | none => []
    -- the empty string is falsy
    | some lang => if lang.isEmpty || dto.disableLangFilter then [] else [langClause lang]) ++
  (match asOf with
    | some t => [asOfClause t]
    | none => if dto.includeStale then [] else [currentClause now])

/-- The request as the clauses see it in a query that binds `$entityIds` to `ids`: the
clause is there if the request had an anchor, and compares with `ids`. With no `ids`
such a query has no rows, whatever the clauses are. -/
def SearchDto.rebind (dto : SearchDto) (ids : List EntityId) : SearchDto :=
  if dto.entityIds.isEmpty then dto else { dto with entityIds := ids }

/-- Whether a row passes every clause. -/
def admits (clauses : List WhereClause) (f : KnowledgeFact) : Bool := clauses.all (fun c => c f)

/-- What a search as of `t` may return: no further filter is set, retracted facts
are left out and contested ones are not. -/
def visibleAsOf (t : Time) (f : KnowledgeFact) : Bool :=
  -- with an `asOf` the clauses do not mention the clock of the query
  admits (buildBaseWhere 0 {} (some t) false true none) f

/-- The facts of one `(entityId, predicate)` that a search as of `t` may return. -/
def searchAsOf (s : Store) (t : Time) (k : FactKey) : List (FactId × KnowledgeFact) :=
  s.facts.select (fun _ f => decide (f.key = k) && visibleAsOf t f)

/-- A point-in-time search never depends on when the query runs. -/
theorem buildBaseWhere_asOf_now (now now' : Time) (dto : SearchDto) (t : Time)
    (includeRetracted includeContested : Bool) (langFilter : Option String) :
    buildBaseWhere now dto (some t) includeRetracted includeContested langFilter
      = buildBaseWhere now' dto (some t) includeRetracted includeContested langFilter := rfl

/-- **The read-side gate** of a point-in-time search, in terms of the interval. -/
theorem visibleAsOf_iff {t : Time} {f : KnowledgeFact} :
    visibleAsOf t f = true ↔
      f.span.holds t = true ∧ f.retractedAt = none ∧ f.status ≠ .compacted := by
  rw [Span.holds_iff]
  cases hr : f.retractedAt with
  | some r => simp [visibleAsOf, admits, buildBaseWhere, notRetractedClause, hr]
  | none =>
      cases hu : f.validUntil <;>
        simp [visibleAsOf, admits, buildBaseWhere, notRetractedClause, asOfClause,
          KnowledgeFact.span, hr, hu, and_assoc]

end Brain
