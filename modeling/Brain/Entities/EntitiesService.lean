/-
`src/src/entities/entities.service.ts`: the profile and the timeline of an entity.

Both read the facts of the entity with their own WHERE, and then drop the facts
whose predicate asks for a scope that the caller does not hold. On a scoped
connection the database hides the `object` of the same predicates
(`src/src/db/migrations/0005_pii_permissions.surql`); these rows are dropped here
anyway, so it makes no difference to what is returned.
-/
import Brain.Facts.FactsService
import Brain.Search.GraphRetrieveDb

set_option autoImplicit false

namespace Brain

/-- `policyFor(predicate).requiresScope`: the entries of `CORE_PREDICATES` that ask
for a scope; other predicates have the default policy, which asks for none. -/
def requiresScope (predicate : String) : Option BrainScope :=
  if ["dob", "address"].contains predicate then some .read_pii else none

/-- Whether a caller with these scopes is shown facts with the predicate. -/
def scopeAllows (scopes : List BrainScope) (predicate : String) : Bool :=
  match requiresScope predicate with
  | none => true
  | some scope => scopes.contains scope

/-- A fact of `EntityProfile`. -/
structure ProfileFact where
  factId : FactId
  predicate : String
  object : String
  confidence : Confidence
  validFrom : Time
  validUntil : Option Time
  status : Status
deriving DecidableEq

/-- `EntityProfile`. -/
structure EntityProfile where
  entityId : EntityId
  type : String
  canonicalName : String
  externalRefs : List (String × String)
  mergedAt : Option Time
  mergedInto : Option EntityId
  facts : List ProfileFact
deriving DecidableEq

def toProfileFact (q : FactId × KnowledgeFact) : ProfileFact where
  factId := q.1
  predicate := q.2.predicate
  object := q.2.object
  confidence := q.2.confidence
  validFrom := q.2.validFrom
  validUntil := q.2.validUntil
  status := q.2.status

/-- The WHERE of the profile query. -/
def profileWhere (entityId : EntityId) (asOf : Option Time) (f : KnowledgeFact) : Bool :=
  f.entityId == entityId &&
    match asOf with
    | some t =>
        decide (f.recordedAt ≤ t) &&
          (match f.retractedAt with
            | none => true
            | some r => decide (t < r)) &&
          decide (f.validFrom ≤ t) &&
          (match f.validUntil with
            | none => true
            | some u => decide (t < u))
    | none => f.retractedAt.isNone

/-- The rows of the profile query: newest first, at most a hundred. -/
def profileRows (t : KeyedTable KnowledgeFact) (entityId : EntityId) (asOf : Option Time) :
    List (FactId × KnowledgeFact) :=
  ((t.rows.insertionSort newestFirst).filter (fun q => profileWhere entityId asOf q.2)).take 100

/-- `getProfile`. -/
def getProfile (s : Store) (entityId : EntityId) (asOf : Option Time) (scopes : List BrainScope) :
    Except HttpError EntityProfile :=
  match s.entities.get? entityId with
  | none => .error (.notFound ("Entity " ++ toString entityId ++ " not found"))
  | some entity =>
      let facts := (profileRows s.facts entityId asOf).filter
        (fun q => scopeAllows scopes q.2.predicate)
      .ok { entityId := entityId, type := entity.type, canonicalName := entity.canonicalName,
            externalRefs := entity.externalRefs, mergedAt := entity.mergedAt,
            mergedInto := entity.mergedInto, facts := facts.map toProfileFact }

/-! ## The timeline -/

/-- An event of the timeline. -/
inductive TimelineEvent where
  | recorded (at_ : Time) (factId : FactId) (predicate object : String) (source : FactSource)
      (confidence : Confidence)
  | retracted (at_ : Time) (factId : FactId) (retractedBy : Option AssertedBy)
      (reason : Option String) (supersededBy : Option FactId)
deriving DecidableEq

def TimelineEvent.at_ : TimelineEvent → Time
  | .recorded t .. => t
  | .retracted t .. => t

/-- `events.sort((a, b) => a.at.localeCompare(b.at))`. -/
def byEventTime (a b : TimelineEvent) : Prop := a.at_ ≤ b.at_

instance : DecidableRel byEventTime := fun a b => inferInstanceAs (Decidable (a.at_ ≤ b.at_))

/-- `ORDER BY recordedAt ASC`. -/
def oldestFirst (p q : FactId × KnowledgeFact) : Prop := p.2.recordedAt ≤ q.2.recordedAt

instance : DecidableRel oldestFirst := fun p q =>
  inferInstanceAs (Decidable (p.2.recordedAt ≤ q.2.recordedAt))

/-- The events of a row. -/
def timelineEvents (q : FactId × KnowledgeFact) : List TimelineEvent :=
  .recorded q.2.recordedAt q.1 q.2.predicate q.2.object q.2.source q.2.confidence ::
    match q.2.retractedAt with
    | none => []
    | some r => [.retracted r q.1 q.2.retractedBy q.2.retractionReason q.2.supersededBy]

/-- The WHERE of the timeline query. -/
def timelineWhere (entityId : EntityId) (since until_ : Option Time) (f : KnowledgeFact) : Bool :=
  f.entityId == entityId && since.all (fun t => decide (t ≤ f.recordedAt)) &&
    until_.all (fun t => decide (f.recordedAt ≤ t))

/-- `getTimeline`. -/
def getTimeline (s : Store) (entityId : EntityId) (since until_ : Option Time)
    (scopes : List BrainScope) : List TimelineEvent :=
  let rows := ((s.facts.rows.insertionSort oldestFirst).filter
    (fun q => timelineWhere entityId since until_ q.2)).filter
      (fun q => scopeAllows scopes q.2.predicate)
  (rows.flatMap timelineEvents).insertionSort byEventTime

end Brain
