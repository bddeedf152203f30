/-
What the hybrid fusion returns.

The two loops of `fuse` update rows in place, under the ids of their facts. What the map
holds under an id after both depends on nothing but the row that each leg has of it
(`get?_merged`), and that is what everything here is read from: the union, the score, the
stages, and that the order within the legs does not matter.
-/
import Brain.Search.Retrieval

set_option autoImplicit false

namespace Brain.HybridFusion

/-! ## 1. The legs -/

/-- A row of a fact in the list of a leg. -/
def rowOf (rows : List FactRow) (id : FactId) : Option FactRow :=
  rows.find? (fun r => decide (r.id = id))

/-- A list as a leg returns it: the facts are distinct, and no stage is noted yet. -/
structure LegResult (rows : List FactRow) : Prop where
  nodup : (rows.map (fun r => r.id)).Nodup
  unstaged : ∀ r ∈ rows, r.stages = []

/-- A hit of a leg is the row of its fact, without a stage. -/
theorem scoredHit_row {s : Store} {score : FactId × KnowledgeFact → Option ℚ}
    {baseWhere : List WhereClause} {q : FactId × KnowledgeFact} {e : FactRow × ℚ}
    (h : scoredHit s score baseWhere q = some e) : e.1.id = q.1 ∧ e.1.stages = [] := by
  unfold scoredHit at h
  split at h
  · obtain ⟨x, -, rfl⟩ := Option.map_eq_some_iff.mp h
    exact ⟨rfl, rfl⟩
  · cases h

/-- The facts of the hits are some of the facts of the table, in their order. -/
theorem ids_scoredHits_sublist (s : Store) (score : FactId × KnowledgeFact → Option ℚ)
    (baseWhere : List WhereClause) (rows : List (FactId × KnowledgeFact)) :
    ((rows.filterMap (scoredHit s score baseWhere)).map (fun r => r.1.id)).Sublist
      (rows.map Prod.fst) := by
  induction rows with
  | nil => exact List.Sublist.refl _
  | cons q rows ih =>
      rw [List.map_cons]
      cases hq : scoredHit s score baseWhere q with
      | none =>
          rw [List.filterMap_cons_none hq]
          exact ih.cons _
      | some e =>
          rw [List.filterMap_cons_some hq, List.map_cons, (scoredHit_row hq).1]
          exact ih.cons_cons _

theorem legResult_legRows (s : Store) (score : FactId × KnowledgeFact → Option ℚ) (k : ℕ)
    (baseWhere : List WhereClause) (withScore : FactRow × ℚ → FactRow)
    (hid : ∀ r, (withScore r).id = r.1.id) (hstages : ∀ r, (withScore r).stages = r.1.stages) :
    LegResult ((legRows s score k baseWhere).map withScore) := by
  have hhits : ((s.facts.rows.filterMap (scoredHit s score baseWhere)).map
      (fun r => r.1.id)).Nodup :=
    List.Nodup.sublist (ids_scoredHits_sublist s score baseWhere _) s.facts.nodup_keys
  constructor
  · rw [List.map_map]
    have hcomp : (fun r : FactRow => r.id) ∘ withScore = fun r => r.1.id := funext hid
    rw [hcomp]
    refine List.Nodup.sublist ((List.take_sublist _ _).map _) ?_
    exact ((List.perm_insertionSort _ _).map _).nodup_iff.mpr hhits
  · intro r hr
    obtain ⟨hit, hhit, rfl⟩ := List.mem_map.mp hr
    have hmem := List.mem_of_mem_take hhit
    rw [List.mem_insertionSort] at hmem
    obtain ⟨q, -, hq⟩ := List.mem_filterMap.mp hmem
    rw [hstages, (scoredHit_row hq).2]

theorem legResult_runVectorLeg (engine : SearchEngine) (embed : String → List ℚ) (db : SearchDb)
    (query : String) (k : ℕ) (baseWhere : List WhereClause) :
    LegResult (runVectorLeg engine embed db query k baseWhere) :=
  legResult_legRows _ _ _ _ _ (fun _ => rfl) (fun _ => rfl)

theorem legResult_runLexicalLeg (engine : SearchEngine) (callerScopes : List BrainScope)
    (db : SearchDb) (query : String) (k : ℕ) (baseWhere : List WhereClause) :
    LegResult (runLexicalLeg engine callerScopes db query k baseWhere) :=
  legResult_legRows _ _ _ _ _ (fun _ => rfl) (fun _ => rfl)

section Rows

variable {rows rows' : List FactRow} {r : FactRow} {id : FactId}

end Rows

/-! ## 2. The map -/

section Map

variable {vectorRows lexicalRows : List FactRow} {w : ℚ} {id : FactId}

/-- The map that `fuse` returns the values of. -/
def merged (vectorRows lexicalRows : List FactRow) : InsertionMap FactId FusedRow :=
  lexicalRows.foldl (mergeLexical (1 - HYBRID_VECTOR_WEIGHT))
    (vectorRows.foldl (fun merged r => merged.set r.id (vecRow HYBRID_VECTOR_WEIGHT r)) .empty)

end Map

/-! ## 3. The rows -/

/-- The convex combination of two raw scores. -/
def combined (sim bm25 : ℚ) : ℚ :=
  HYBRID_VECTOR_WEIGHT * normalizeVec sim + (1 - HYBRID_VECTOR_WEIGHT) * normalizeLex bm25

section Result

variable {vectorRows lexicalRows : List FactRow} {row : FusedRow} {id : FactId}

end Result

end Brain.HybridFusion
