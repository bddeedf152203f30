/-
`src/src/diff/memory-diff.service.ts`: what was learned, unlearned and replaced
between two instants.

The rows are read over the root pool and shown as they are: the service is not told
who is asking.
-/
import Brain.Db.TenantDb
import Brain.Entities.EntitiesService

set_option autoImplicit false

namespace Brain

/-- `MemoryDiffArgs`; `none` is a string that is no date. -/
structure MemoryDiffArgs where
  from_ : Option Time
  to_ : Option Time
  entityIds : List EntityId := []
  predicates : List String := []

/-- `FactRef`. -/
structure FactRef where
  factId : FactId
  entityId : EntityId
  predicate : String
  object : String
  confidence : Confidence
  validFrom : Time
  validUntil : Option Time
  recordedAt : Time
  retractedAt : Option Time
deriving DecidableEq

/-- `ChangedFact`; `before` carries `replacedBy` as its `supersededBy`. -/
structure ChangedFact where
  factId : FactId
  replacedBy : FactId
  before : FactRef
  after : Option FactRef
deriving DecidableEq

/-- `EntityRef` of the diff. -/
structure DiffEntityRef where
  entityId : EntityId
  type : String
  canonicalName : String
  externalRefs : List (String × String)
  createdAt : Time
deriving DecidableEq

/-- `ForgottenRef`. -/
structure ForgottenRef where
  entityIdHash : String
  reason : String
  requestId : Option String
  forgottenAt : Time
deriving DecidableEq

/-- `MemoryDiffResult`. -/
structure MemoryDiffResult where
  from_ : Time
  to_ : Time
  createdFacts : List FactRef
  retractedFacts : List FactRef
  changedFacts : List ChangedFact
  newEntities : List DiffEntityRef
  forgottenEntities : List ForgottenRef
deriving DecidableEq

/-- `rowToFactRef`. -/
def rowToFactRef (q : FactId × KnowledgeFact) : FactRef where
  factId := q.1
  entityId := q.2.entityId
  predicate := q.2.predicate
  object := q.2.object
  confidence := q.2.confidence
  validFrom := q.2.validFrom
  validUntil := q.2.validUntil
  recordedAt := q.2.recordedAt
  retractedAt := q.2.retractedAt

/-! ## The queries -/

/-- What the database makes of `entityId IN (SELECT type::thing(id) FROM $entityIds AS id)`. -/
abbrev EntityClause := List EntityId → EntityId → Bool

/-- `factClause` of `buildScoping`. -/
def diffFactClause (entityClause : EntityClause) (args : MemoryDiffArgs) (f : KnowledgeFact) :
    Bool :=
  (args.entityIds.isEmpty || entityClause args.entityIds f.entityId) &&
    (args.predicates.isEmpty || args.predicates.contains f.predicate)

/-- `t >= $from AND t < $to`. -/
def inWindow (from_ to_ t : Time) : Bool := decide (from_ ≤ t) && decide (t < to_)

/-- The WHERE of the created facts. -/
def createdWhere (entityClause : EntityClause) (args : MemoryDiffArgs) (from_ to_ : Time)
    (f : KnowledgeFact) : Bool :=
  inWindow from_ to_ f.recordedAt && diffFactClause entityClause args f

/-- The WHERE of the retracted facts; `NONE` is in no window. -/
def retractedWhere (entityClause : EntityClause) (args : MemoryDiffArgs) (from_ to_ : Time)
    (f : KnowledgeFact) : Bool :=
  f.retractedAt.any (fun t => inWindow from_ to_ t) && diffFactClause entityClause args f

/-- `ORDER BY retractedAt ASC`. -/
def byRetraction (p q : FactId × KnowledgeFact) : Prop :=
  p.2.retractedAt.getD 0 ≤ q.2.retractedAt.getD 0

instance : DecidableRel byRetraction := fun p q =>
  inferInstanceAs (Decidable (p.2.retractedAt.getD 0 ≤ q.2.retractedAt.getD 0))

def createdRows (entityClause : EntityClause) (t : KeyedTable KnowledgeFact)
    (args : MemoryDiffArgs) (from_ to_ : Time) : List (FactId × KnowledgeFact) :=
  (t.rows.insertionSort oldestFirst).filter (fun q => createdWhere entityClause args from_ to_ q.2)

def retractedRows (entityClause : EntityClause) (t : KeyedTable KnowledgeFact)
    (args : MemoryDiffArgs) (from_ to_ : Time) : List (FactId × KnowledgeFact) :=
  (t.rows.insertionSort byRetraction).filter
    (fun q => retractedWhere entityClause args from_ to_ q.2)

/-! ## The diff -/

/-- An entry of `changedFacts`, if the row has a successor. -/
def changedFact (t : KeyedTable KnowledgeFact) (q : FactId × KnowledgeFact) : Option ChangedFact :=
  q.2.supersededBy.map (fun w =>
    { factId := q.1, replacedBy := w, before := rowToFactRef q,
      after := (t.get? w).map (fun f => rowToFactRef (w, f)) })

/-- `diff` on a valid window. -/
def diffWindow (entityClause : EntityClause) (db : TenantDb) (args : MemoryDiffArgs)
    (from_ to_ : Time) : MemoryDiffResult :=
  let created := createdRows entityClause db.facts args from_ to_
  let retracted := retractedRows entityClause db.facts args from_ to_
  let changed := retracted.filterMap (changedFact db.facts)
  let newEntityRows := db.entities.select (fun e _ => inWindow from_ to_ (db.createdAt e) &&
    (args.entityIds.isEmpty || entityClause args.entityIds e))
  { from_ := from_
    to_ := to_
    -- a fact that was created and superseded in the window is listed as changed only
    createdFacts := (created.map rowToFactRef).filter
      (fun c => !(changed.map (fun x => x.factId)).contains c.factId)
    retractedFacts := (retracted.filter (fun q => q.2.supersededBy.isNone)).map rowToFactRef
    changedFacts := changed
    newEntities := (newEntityRows.insertionSort
      (fun p q => db.createdAt p.1 ≤ db.createdAt q.1)).map (fun q =>
        { entityId := q.1, type := if q.2.type.isEmpty then "unknown" else q.2.type,
          canonicalName := q.2.canonicalName, externalRefs := q.2.externalRefs,
          createdAt := db.createdAt q.1 })
    forgottenEntities := ((db.forgotten.filter (fun r => inWindow from_ to_ r.forgottenAt)).insertionSort
      (fun p q => p.forgottenAt ≤ q.forgottenAt)).map (fun r =>
        { entityIdHash := r.entityIdHash, reason := r.reason,
          requestId := if r.requestId.isEmpty then none else some r.requestId,
          forgottenAt := r.forgottenAt }) }

/-- `diff`. -/
def memoryDiff (entityClause : EntityClause) (db : TenantDb) (args : MemoryDiffArgs) :
    Except String MemoryDiffResult :=
  match args.from_, args.to_ with
  | some from_, some to_ =>
      if to_ ≤ from_ then .error "memory_diff: from must be strictly before to"
      else .ok (diffWindow entityClause db args from_ to_)
  | _, _ => .error "memory_diff: invalid from/to ISO datetime"

/-! ## What it shows -/

/-- The facts of a result, with their texts. -/
def MemoryDiffResult.facts (r : MemoryDiffResult) : List FactRef :=
  r.createdFacts ++ r.retractedFacts ++ r.changedFacts.map (fun c => c.before) ++
    r.changedFacts.filterMap (fun c => c.after)

section Shows

variable {entityClause : EntityClause} {db : TenantDb} {args : MemoryDiffArgs} {from_ to_ : Time}
  {i : FactId} {f : KnowledgeFact}

theorem mem_createdRows {q : FactId × KnowledgeFact} :
    q ∈ createdRows entityClause db.facts args from_ to_ ↔
      db.facts.get? q.1 = some q.2 ∧ createdWhere entityClause args from_ to_ q.2 = true := by
  rw [createdRows, List.mem_filter, List.mem_insertionSort, ← KeyedTable.mem_rows_iff]

theorem mem_retractedRows {q : FactId × KnowledgeFact} :
    q ∈ retractedRows entityClause db.facts args from_ to_ ↔
      db.facts.get? q.1 = some q.2 ∧ retractedWhere entityClause args from_ to_ q.2 = true := by
  rw [retractedRows, List.mem_filter, List.mem_insertionSort, ← KeyedTable.mem_rows_iff]

/-- The fact is created or retracted in the window and in scope, or replaces one that
is retracted there. -/
def DiffLists (entityClause : EntityClause) (db : TenantDb) (args : MemoryDiffArgs)
    (from_ to_ : Time) (i : FactId) (f : KnowledgeFact) : Prop :=
  createdWhere entityClause args from_ to_ f = true ∨
    retractedWhere entityClause args from_ to_ f = true ∨
      ∃ j g, db.facts.get? j = some g ∧ retractedWhere entityClause args from_ to_ g = true ∧
        g.supersededBy = some i

/-- Whatever a diff shows is a stored fact. -/
theorem stored_of_mem_facts {x : FactRef}
    (h : x ∈ (diffWindow entityClause db args from_ to_).facts) :
    ∃ f, db.facts.get? x.factId = some f ∧ x = rowToFactRef (x.factId, f) := by
  have hrow : ∀ q : FactId × KnowledgeFact, db.facts.get? q.1 = some q.2 → x = rowToFactRef q →
      ∃ f, db.facts.get? x.factId = some f ∧ x = rowToFactRef (x.factId, f) := by
    rintro q hq rfl
    exact ⟨q.2, hq, rfl⟩
  rw [MemoryDiffResult.facts, List.mem_append, List.mem_append, List.mem_append] at h
  rcases h with ((h | h) | h) | h
  · obtain ⟨q, hq, hx⟩ := List.mem_map.mp (List.mem_filter.mp h).1
    exact hrow q (mem_createdRows.mp hq).1 hx.symm
  · obtain ⟨q, hq, hx⟩ := List.mem_map.mp h
    exact hrow q (mem_retractedRows.mp (List.mem_filter.mp hq).1).1 hx.symm
  · obtain ⟨c, hc, hx⟩ := List.mem_map.mp h
    obtain ⟨q, hq, hchanged⟩ := List.mem_filterMap.mp hc
    obtain ⟨w, _, rfl⟩ := Option.map_eq_some_iff.mp hchanged
    exact hrow q (mem_retractedRows.mp hq).1 hx.symm
  · obtain ⟨c, hc, hx⟩ := List.mem_filterMap.mp h
    obtain ⟨q, hq, hchanged⟩ := List.mem_filterMap.mp hc
    obtain ⟨w, _, rfl⟩ := Option.map_eq_some_iff.mp hchanged
    obtain ⟨g, hg, hx⟩ := Option.map_eq_some_iff.mp hx
    exact hrow (w, g) hg hx.symm

/-- **A diff shows what it lists**, one way or the other. -/
theorem mem_facts_of_lists (hf : db.facts.get? i = some f)
    (h : DiffLists entityClause db args from_ to_ i f) :
    rowToFactRef (i, f) ∈ (diffWindow entityClause db args from_ to_).facts := by
  rw [MemoryDiffResult.facts, List.mem_append, List.mem_append, List.mem_append]
  -- a retracted row is shown as such, or as what was changed
  have hretracted : retractedWhere entityClause args from_ to_ f = true →
      rowToFactRef (i, f) ∈ (diffWindow entityClause db args from_ to_).retractedFacts ∨
        rowToFactRef (i, f) ∈ (diffWindow entityClause db args from_ to_).changedFacts.map
          (fun c => c.before) := by
    intro hwhere
    have hrow : (i, f) ∈ retractedRows entityClause db.facts args from_ to_ :=
      mem_retractedRows.mpr ⟨hf, hwhere⟩
    cases hw : f.supersededBy with
    | none =>
        refine Or.inl (List.mem_map.mpr ⟨(i, f), List.mem_filter.mpr ⟨hrow, ?_⟩, rfl⟩)
        rw [hw]
        rfl
    | some w =>
        have hchange : changedFact db.facts (i, f) = some ⟨i, w, rowToFactRef (i, f),
            (db.facts.get? w).map (fun g => rowToFactRef (w, g))⟩ := by
          rw [changedFact, hw]
          rfl
        exact Or.inr (List.mem_map.mpr ⟨_, List.mem_filterMap.mpr ⟨(i, f), hrow, hchange⟩, rfl⟩)
  rcases h with hwhere | hwhere | ⟨j, g, hg, hwhere, hw⟩
  · by_cases hchanged : (((retractedRows entityClause db.facts args from_ to_).filterMap
        (changedFact db.facts)).map (fun x => x.factId)).contains i
    · rw [List.contains_iff_mem, List.mem_map] at hchanged
      obtain ⟨c, hc, hid⟩ := hchanged
      obtain ⟨q, hq, hchange⟩ := List.mem_filterMap.mp hc
      obtain ⟨w, _, rfl⟩ := Option.map_eq_some_iff.mp hchange
      obtain ⟨hget, hret⟩ := mem_retractedRows.mp hq
      rw [show q.1 = i from hid, hf, Option.some.injEq] at hget
      rw [← hget] at hret
      rcases hretracted hret with h | h
      · exact Or.inl (Or.inl (Or.inr h))
      · exact Or.inl (Or.inr h)
    · refine Or.inl (Or.inl (Or.inl (List.mem_filter.mpr ⟨?_, ?_⟩)))
      · exact List.mem_map.mpr ⟨(i, f), mem_createdRows.mpr ⟨hf, hwhere⟩, rfl⟩
      · rw [Bool.not_eq_true] at hchanged
        show (!((_ : List FactId).contains i)) = true
        rw [hchanged]
        rfl
  · rcases hretracted hwhere with h | h
    · exact Or.inl (Or.inl (Or.inr h))
    · exact Or.inl (Or.inr h)
  · have hchange : changedFact db.facts (j, g) = some ⟨j, i, rowToFactRef (j, g),
        some (rowToFactRef (i, f))⟩ := by
      rw [changedFact, hw, Option.map_some, hf]
      rfl
    exact Or.inr (List.mem_filterMap.mpr ⟨_, List.mem_filterMap.mpr
      ⟨(j, g), mem_retractedRows.mpr ⟨hg, hwhere⟩, hchange⟩, rfl⟩)

end Shows

end Brain
