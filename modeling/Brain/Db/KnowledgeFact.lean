/-
The tenant database as the fact pipeline sees it: the `knowledge_fact` table of
`src/src/db/migrations/0001_baseline.surql` (with `priorValidUntil` of 0021 and
`lang` of 0020), the dead-letter table, and the entity tables through which
an ingest finds its subject.

The table's field ASSERTs are part of the types. `confidence` is a number
between 0 and 1, `retractedBy` one of the three values its ASSERT admits and
`status` one of five, so a row that the schema rejects cannot be built; a
statement that would write one has to check first, and fails as the database
would.

Datetimes are integers (milliseconds since the epoch), record ids are natural
numbers drawn in creation order, and floats are rationals.
-/
import Brain.Lib.Table
import Brain.Lib.Timeline
import Mathlib.Tactic

set_option autoImplicit false

namespace Brain

abbrev FactId := ℕ
abbrev EntityId := ℕ
abbrev Time := ℤ

/-! ## Columns -/

/-- `status`; the ASSERT on the column admits these five values. -/
inductive Status where
  | active | competing | retracted | superseded | compacted
deriving DecidableEq, Repr

/-- The values that the code writes to `retractedBy`. -/
inductive RetractedBy where
  | human | system | cascade | dreams
deriving DecidableEq, Repr

/-- `ASSERT $value = NONE OR $value INSIDE ['human','system','cascade']`. -/
def RetractedBy.asserted : List RetractedBy := [.human, .system, .cascade]

/-- A `retractedBy` value that passes the column's ASSERT. -/
abbrev AssertedBy := { b : RetractedBy // b ∈ RetractedBy.asserted }

def AssertedBy.human : AssertedBy := ⟨.human, by decide⟩
def AssertedBy.system : AssertedBy := ⟨.system, by decide⟩
def AssertedBy.cascade : AssertedBy := ⟨.cascade, by decide⟩

/-- The ASSERT as a check at run time. -/
def assertRetractedBy (b : RetractedBy) : Option AssertedBy :=
  if h : b ∈ RetractedBy.asserted then some ⟨b, h⟩ else none

/-- `confidence ... ASSERT $value >= 0 AND $value <= 1`. -/
abbrev Confidence := { c : ℚ // 0 ≤ c ∧ c ≤ 1 }

/-- The ASSERT as a check at run time. -/
def assertConfidence (c : ℚ) : Option Confidence :=
  if h : 0 ≤ c ∧ c ≤ 1 then some ⟨c, h⟩ else none

/-- Full confidence. -/
def Confidence.full : Confidence := ⟨1, by norm_num, by norm_num⟩

/-- The `source` object: the fields that some reader looks at. -/
structure FactSource where
  vertical : Option String := none
  eventId : Option String := none
  conversationId : Option String := none
  messageId : Option String := none
  recorder : Option String := none
  kind : Option String := none
deriving DecidableEq, Repr

/-! ## Rows -/

/-- A row of `knowledge_fact`. -/
structure KnowledgeFact where
  entityId : EntityId
  predicate : String
  object : String
  objectMeta : Option String := none
  confidence : Confidence
  validFrom : Time
  validUntil : Option Time := none
  recordedAt : Time
  retractedAt : Option Time := none
  retractionReason : Option String := none
  retractedBy : Option AssertedBy := none
  supersededBy : Option FactId := none
  source : FactSource
  derivedFrom : List FactId := []
  status : Status := .active
  embedding : Option (List ℚ) := none
  priorValidUntil : Option Time := none
  lang : Option String := none
deriving DecidableEq

/-- What conflict resolution keys facts on. -/
abbrev FactKey := EntityId × String

namespace KnowledgeFact

def key (f : KnowledgeFact) : FactKey := (f.entityId, f.predicate)

/-- The validity interval `[validFrom, validUntil)`. -/
def span (f : KnowledgeFact) : Span Time := ⟨f.validFrom, f.validUntil⟩

/-- `status = 'active' AND retractedAt IS NONE`. -/
def isActive (f : KnowledgeFact) : Bool := f.status == .active && f.retractedAt.isNone

/-- `status = 'competing' AND retractedAt IS NONE`. -/
def isCompeting (f : KnowledgeFact) : Bool := f.status == .competing && f.retractedAt.isNone

theorem isActive_iff {f : KnowledgeFact} :
    f.isActive = true ↔ f.status = .active ∧ f.retractedAt = none := by
  simp [isActive]

theorem isCompeting_iff {f : KnowledgeFact} :
    f.isCompeting = true ↔ f.status = .competing ∧ f.retractedAt = none := by
  simp [isCompeting]

end KnowledgeFact

/-- A row of `knowledge_entity`. `mergedAt` and `mergedInto` are set on an entity that
was merged into another one. -/
structure KnowledgeEntity where
  type : String
  canonicalName : String
  externalRefs : List (String × String) := []
  mergedAt : Option Time := none
  mergedInto : Option EntityId := none
deriving DecidableEq, Repr

/-- A row of `knowledge_edge`, which relates entity `in_` to entity `out`. -/
structure KnowledgeEdge where
  in_ : EntityId
  out : EntityId
  kind : String
  weight : Confidence := .full

/-- A row of `ingest_dead_letter`. -/
structure DeadLetter where
  entityId : EntityId
  predicate : String
  object : String
  source : FactSource
  reason : String
deriving DecidableEq, Repr

/-- A row of `source_trust` (migration 0017). -/
structure SourceTrustRow where
  sourceKey : String
  agreementRate : ℚ
  sampleCount : ℕ
deriving DecidableEq, Repr

/-- The tenant database. `externalRefs` is `entity_external_ref`, key to entity. -/
structure Store where
  facts : KeyedTable KnowledgeFact := .empty
  deadLetters : List DeadLetter := []
  entities : KeyedTable KnowledgeEntity := .empty
  externalRefs : List (String × EntityId) := []

/-- A tenant database on which only the migrations have run. -/
def Store.empty : Store := {}

/-- What the database throws at the services. -/
inductive DbError where
  /-- A field ASSERT failed on a write to `knowledge_fact`. -/
  | assertFailed (field : String)
deriving DecidableEq, Repr

/-- The facts of one `(entityId, predicate)`, in the order they were recorded. -/
def Store.factsOn (s : Store) (k : FactKey) : List (FactId × KnowledgeFact) :=
  s.facts.select (fun _ f => decide (f.key = k))

/-- The active, unretracted facts of one `(entityId, predicate)`. -/
def Store.activeOn (s : Store) (k : FactKey) : List (FactId × KnowledgeFact) :=
  s.facts.select (fun _ f => decide (f.key = k) && f.isActive)

theorem Store.mem_activeOn {s : Store} {k : FactKey} {q : FactId × KnowledgeFact} :
    q ∈ s.activeOn k ↔ s.facts.get? q.1 = some q.2 ∧ q.2.key = k ∧ q.2.isActive = true := by
  simp [activeOn]

theorem Store.length_activeOn_le_one_iff {s : Store} {k : FactKey} :
    (s.activeOn k).length ≤ 1 ↔
      ∀ i f j g, s.facts.get? i = some f → s.facts.get? j = some g → f.key = k → g.key = k →
        f.isActive = true → g.isActive = true → i = j := by
  rw [activeOn, KeyedTable.length_select_le_one_iff]
  simp only [Bool.and_eq_true, decide_eq_true_eq]
  constructor
  · intro h i f j g hf hg hfk hgk hfa hga
    exact h i f j g hf ⟨hfk, hfa⟩ hg ⟨hgk, hga⟩
  · rintro h i f j g hf ⟨hfk, hfa⟩ hg ⟨hgk, hga⟩
    exact h i f j g hf hg hfk hgk hfa hga

end Brain
