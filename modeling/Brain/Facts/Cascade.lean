/-
The cascade of a retract as the loop that it is: a stack, a table that is queried
again after every write, and the list of what was written.

Nothing bounds the loop but the marks that it leaves: a fact that has been
retracted is not selected again, so every fact is pushed at most once, whatever
the shape of the `derivedFrom` graph. The root is never looked at itself; it is
retracted here only when it derives from itself.
-/
import Brain.Facts.FactsService

set_option autoImplicit false

namespace Brain

/-- `j` is reached from `root` by one or more "is derived from" steps, each of them
to a fact of `t` that is not retracted. -/
inductive DerivesFromRoot (t : KeyedTable KnowledgeFact) (root : FactId) : FactId → Prop
  | child {j : FactId} {f : KnowledgeFact} : t.get? j = some f → root ∈ f.derivedFrom →
      f.retractedAt = none → DerivesFromRoot t root j
  | step {i j : FactId} {f : KnowledgeFact} : DerivesFromRoot t root i → t.get? j = some f →
      i ∈ f.derivedFrom → f.retractedAt = none → DerivesFromRoot t root j

/-- The `WHERE` of the cascade, read as a step. -/
theorem hangs_derivesFrom_iff {t : KeyedTable KnowledgeFact} {i j : FactId} :
    t.Hangs derivesFrom i j ↔
      ∃ f, t.get? j = some f ∧ i ∈ f.derivedFrom ∧ f.retractedAt = none := by
  simp [KeyedTable.Hangs, derivesFrom]

theorem derivesFromRoot_iff_derives {t : KeyedTable KnowledgeFact} {root j : FactId} :
    DerivesFromRoot t root j ↔ Derives t root j := by
  constructor
  · intro h
    induction h with
    | child hf hmem hret =>
        exact Relation.TransGen.single (hangs_derivesFrom_iff.mpr ⟨_, hf, hmem, hret⟩)
    | step _ hf hmem hret ih =>
        exact ih.tail (hangs_derivesFrom_iff.mpr ⟨_, hf, hmem, hret⟩)
  · intro h
    induction h with
    | single h =>
        obtain ⟨f, hf, hmem, hret⟩ := hangs_derivesFrom_iff.mp h
        exact .child hf hmem hret
    | tail _ h ih =>
        obtain ⟨f, hf, hmem, hret⟩ := hangs_derivesFrom_iff.mp h
        exact .step ih hf hmem hret

/-- One turn of `while (stack.length > 0)`: pop, select the unretracted children,
retract and push each of them. -/
def cascadeTurn (now : Time) (reason : String) :
    List FactId × KeyedTable KnowledgeFact × List FactId →
      List FactId × KeyedTable KnowledgeFact × List FactId :=
  KeyedTable.sweepStep derivesFrom (cascadeRow now reason)

/-- **The cascade computes the reachable set.** From the stack `[root]` the loop ends,
after at most one turn for each fact and one for the root, with what
`cascadeRetract` returns. That list has no duplicates and holds exactly the facts
reached from the root through facts that were not retracted at the start; each of
these is retracted, and no other fact changes, appears or disappears. -/
theorem cascadeRetract_computes_reachable (t : KeyedTable KnowledgeFact) (root : FactId)
    (now : Time) (reason : String) :
    (∀ n, t.rows.length + 1 ≤ n →
      (cascadeTurn now reason)^[n] ([root], t, []) = ([], cascadeRetract t root now reason)) ∧
    (cascadeRetract t root now reason).2.Nodup ∧
    (∀ j, j ∈ (cascadeRetract t root now reason).2 ↔ DerivesFromRoot t root j) ∧
    (∀ j, DerivesFromRoot t root j → ∃ f, t.get? j = some f ∧ f.retractedAt = none ∧
      (cascadeRetract t root now reason).1.get? j = some (cascadeRow now reason f)) ∧
    (∀ j, ¬ DerivesFromRoot t root j →
      (cascadeRetract t root now reason).1.get? j = t.get? j) := by
  have hmark : ∀ c f, derivesFrom c (cascadeRow now reason f) = false :=
    fun c f => derivesFrom_cascadeRow c now reason f
  have hmem : ∀ j, j ∈ (cascadeRetract t root now reason).2 ↔ DerivesFromRoot t root j := by
    intro j
    rw [mem_cascadeRetract_iff, derivesFromRoot_iff_derives]
  have hget : ∀ j, (cascadeRetract t root now reason).1.get? j = (t.get? j).map (fun f =>
      if j ∈ (cascadeRetract t root now reason).2 then cascadeRow now reason f else f) :=
    fun j => KeyedTable.get?_sweep hmark t root j
  refine ⟨fun n hn => ?_, KeyedTable.nodup_sweep hmark t root, hmem, ?_, ?_⟩
  · exact KeyedTable.iterate_sweepStep hmark t root hn
  · intro j hj
    have hrow : ∃ f, t.get? j = some f ∧ f.retractedAt = none := by
      cases hj with
      | child hf _ hret => exact ⟨_, hf, hret⟩
      | step _ hf _ hret => exact ⟨_, hf, hret⟩
    obtain ⟨f, hf, hret⟩ := hrow
    refine ⟨f, hf, hret, ?_⟩
    rw [hget, hf, Option.map_some, if_pos ((hmem j).mpr hj)]
  · intro j hj
    rw [hget]
    simp only [if_neg (fun h => hj ((hmem j).mp h)), Option.map_id']

end Brain
