/-
`src/src/search/internals/graph-retrieve-db.ts`: `fetchFactsForEntities`, the facts
that the graph path shows of the entities it has found. The WHERE clause is written
out a second time here, next to that of `where-builder.ts`.
-/
import Brain.Db.KnowledgeFact
import Brain.Lib.Grouping

set_option autoImplicit false

namespace Brain

/-- `GraphFactRow`. -/
structure GraphFactRow where
  factId : FactId
  entityId : EntityId
  predicate : String
  object : String
  confidence : Confidence
  validFrom : Time
  validUntil : Option Time
  status : Status
  recordedAt : Time
deriving DecidableEq

def toGraphFactRow (q : FactId × KnowledgeFact) : GraphFactRow where
  factId := q.1
  entityId := q.2.entityId
  predicate := q.2.predicate
  object := q.2.object
  confidence := q.2.confidence
  validFrom := q.2.validFrom
  validUntil := q.2.validUntil
  status := q.2.status
  recordedAt := q.2.recordedAt

/-- The WHERE of the fact query; `now` is `time::now()`. -/
def graphFactsWhere (now : Time) (entityIds : List EntityId) (predicateHints : List String)
    (asOf : Option Time) (f : KnowledgeFact) : Bool :=
  entityIds.contains f.entityId &&
    (match asOf with
      | some t =>
          (match f.retractedAt with
            | none => true
            | some r => decide (t < r)) &&
          decide (f.validFrom ≤ t) &&
          (match f.validUntil with
            | none => true
            | some u => decide (t < u)) &&
          f.status != .compacted
      | none =>
          f.retractedAt.isNone &&
          decide (f.validFrom ≤ now) &&
          (match f.validUntil with
            | none => true
            | some u => decide (now < u)) &&
          f.status != .compacted) &&
    (predicateHints.isEmpty || predicateHints.contains f.predicate)

/-- `ORDER BY recordedAt DESC`. -/
def newestFirst (p q : FactId × KnowledgeFact) : Prop := q.2.recordedAt ≤ p.2.recordedAt

instance : DecidableRel newestFirst := fun p q =>
  inferInstanceAs (Decidable (q.2.recordedAt ≤ p.2.recordedAt))

/-- `fetchFactsForEntities`: two hundred rows, and sixteen of each entity; the
entries of the map in the order in which they are set. -/
def fetchFactsForEntities (now : Time) (t : KeyedTable KnowledgeFact) (entityIds : List EntityId)
    (predicateHints : List String) (asOf : Option Time) : List (List GraphFactRow) :=
  let rows := ((t.rows.insertionSort newestFirst).filter
    (fun q => graphFactsWhere now entityIds predicateHints asOf q.2)).take 200
  (Grouping.groups (fun q : FactId × KnowledgeFact => q.2.entityId) rows).map
    (fun group => (group.take 16).map toGraphFactRow)

/-- Every fact that is returned passes the WHERE. -/
theorem graphFactsWhere_of_mem_fetch {now : Time} {t : KeyedTable KnowledgeFact}
    {entityIds : List EntityId} {predicateHints : List String} {asOf : Option Time}
    {group : List GraphFactRow}
    (hgroup : group ∈ fetchFactsForEntities now t entityIds predicateHints asOf)
    {r : GraphFactRow} (hr : r ∈ group) :
    ∃ f, t.get? r.factId = some f ∧ graphFactsWhere now entityIds predicateHints asOf f = true := by
  obtain ⟨g, hg, rfl⟩ := List.mem_map.mp hgroup
  obtain ⟨q, hq, rfl⟩ := List.mem_map.mp hr
  have hrow := List.mem_of_mem_take (Grouping.mem_of_mem_groups hg (List.mem_of_mem_take hq))
  obtain ⟨hmem, hwhere⟩ := List.mem_filter.mp hrow
  rw [List.mem_insertionSort] at hmem
  exact ⟨q.2, KeyedTable.mem_rows_iff.mp hmem, hwhere⟩

end Brain
