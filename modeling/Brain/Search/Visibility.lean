/-
The read-side gates next to each other.

`buildBaseWhere` has two temporal branches, with an `asOf` and without one, and the
graph path has its own copy of both. In the stores that a tenant's life leads to
the two branches of `buildBaseWhere` agree on the present moment
(`select_default_eq_asOf_now`): the one clause that only the default branch has is
about superseded facts without an end, and there are none. The graph path agrees
with `buildBaseWhere` except on facts that were retracted after the `asOf`
(`graph_agrees_iff`).
-/
import Brain.Facts.TenantLife
import Brain.Search.GraphRetrieveDb
import Brain.Search.WhereBuilder

set_option autoImplicit false

namespace Brain

/-- Two conditions select the same rows exactly when they agree on every row. -/
theorem select_eq_select_iff {t : KeyedTable KnowledgeFact} {p p' : KnowledgeFact → Bool} :
    t.select (fun _ f => p f) = t.select (fun _ f => p' f) ↔
      ∀ i f, t.get? i = some f → p f = p' f := by
  constructor
  · intro h i f hf
    have hiff : p f = true ↔ p' f = true := by
      have hmem : (i, f) ∈ t.select (fun _ f => p f) ↔ (i, f) ∈ t.select (fun _ f => p' f) := by
        rw [h]
      rw [KeyedTable.mem_select, KeyedTable.mem_select] at hmem
      exact ⟨fun hp => (hmem.mp ⟨hf, hp⟩).2, fun hp => (hmem.mpr ⟨hf, hp⟩).2⟩
    exact Bool.eq_iff_iff.mpr hiff
  · intro h
    exact List.filter_congr (fun q hq => h q.1 q.2 (KeyedTable.mem_rows_iff.mp hq))

/-! ## The default branch and the present moment -/

/-- An unretracted row that is superseded only with an end is current now exactly
when it is there as of now. -/
theorem currentClause_eq_asOfClause (now : Time) {f : KnowledgeFact}
    (hclosed : f.status = .superseded → f.validUntil ≠ none) (hat : f.retractedAt = none) :
    currentClause now f = asOfClause now f := by
  unfold currentClause asOfClause
  rw [hat]
  cases hu : f.validUntil with
  | none =>
      -- an open row is not a superseded one, so both clauses let it pass
      have hst : f.status ≠ .superseded := fun h => hclosed h hu
      simp [hst]
  | some u =>
      by_cases hlt : now < u
      · simp [hlt]
      · simp [hlt]

/-- **The default search is the search as of now**, on every store that is reached
and whatever the other filters are. -/
theorem select_default_eq_asOf_now (fns : SurrealFns) {s : Store}
    (h : TenantReaches fns (fun _ _ => True) s) (now : Time) (dto : SearchDto)
    (hstale : dto.includeStale = false) (includeContested : Bool) (langFilter : Option String) :
    s.facts.select (fun _ f =>
        admits (buildBaseWhere now dto none false includeContested langFilter) f)
      = s.facts.select (fun _ f =>
          admits (buildBaseWhere now dto (some now) false includeContested langFilter) f) := by
  rw [select_eq_select_iff]
  intro i f hf
  have hclosed : f.status = .superseded → f.validUntil ≠ none :=
    fun hst => ((books_of_tenantReaches h i f hf).superseded hst).2.2.1
  cases hat : f.retractedAt with
  | some r => simp [admits, buildBaseWhere, notRetractedClause, hat]
  | none =>
      -- the two WHEREs differ in this clause only
      have hclause := currentClause_eq_asOfClause now hclosed hat
      simp [admits, buildBaseWhere, hstale, hclause]

/-- An address that will be replaced at 10 is still the current one at 5. -/
theorem select_default_eq_asOf_now_future :
    (ingestAll .atRecording .empty [addressFrom 0, addressFrom 10]).facts.select (fun _ f =>
        admits (buildBaseWhere 5 {} none false true none) f)
      = (ingestAll .atRecording .empty [addressFrom 0, addressFrom 10]).facts.select (fun _ f =>
          admits (buildBaseWhere 5 {} (some 5) false true none) f) :=
  select_default_eq_asOf_now .atRecording
    (tenantReaches_ingestAll [addressFrom 0, addressFrom 10] (fun _ _ => trivial)) 5 {} rfl true none

/-! ## The graph path -/

/-- What `buildBaseWhere` admits of the facts of some entities with its default
flags. Without entities it has no entity clause at all, hence the first test. -/
def baseFactsWhere (now : Time) (entityIds : List EntityId) (asOf : Option Time)
    (f : KnowledgeFact) : Bool :=
  entityIds.contains f.entityId &&
    admits (buildBaseWhere now { entityIds := entityIds } asOf false true none) f

/-- What tells the two paths apart: with an `asOf`, a fact that holds then and is
retracted later; without one, a standing fact that is superseded and has no end. -/
def ToldApart (now : Time) : Option Time → KnowledgeFact → Prop
  | some t, f => (∃ r, f.retractedAt = some r ∧ t < r) ∧ f.span.holds t = true ∧
      f.status ≠ .compacted
  | none, f => f.retractedAt = none ∧ f.status = .superseded ∧ f.validFrom ≤ now ∧
      f.validUntil = none

section Paths

variable {now t : Time} {entityIds : List EntityId} {asOf : Option Time} {f : KnowledgeFact}

theorem graphFactsWhere_asOf_iff :
    graphFactsWhere now entityIds [] (some t) f = true ↔
      f.entityId ∈ entityIds ∧ (∀ r, f.retractedAt = some r → t < r) ∧ f.span.holds t = true ∧
        f.status ≠ .compacted := by
  rw [Span.holds_iff]
  cases hat : f.retractedAt <;> cases hu : f.validUntil <;>
    simp [graphFactsWhere, KnowledgeFact.span, hat, hu, and_assoc]

theorem graphFactsWhere_now_iff :
    graphFactsWhere now entityIds [] none f = true ↔
      f.entityId ∈ entityIds ∧ f.retractedAt = none ∧ f.span.holds now = true ∧
        f.status ≠ .compacted := by
  rw [Span.holds_iff]
  cases hu : f.validUntil <;>
    simp [graphFactsWhere, KnowledgeFact.span, hu, and_assoc]

theorem baseFactsWhere_asOf_iff :
    baseFactsWhere now entityIds (some t) f = true ↔
      f.entityId ∈ entityIds ∧ f.retractedAt = none ∧ f.span.holds t = true ∧
        f.status ≠ .compacted := by
  by_cases hid : f.entityId ∈ entityIds
  · have hne : entityIds ≠ [] := List.ne_nil_of_mem hid
    rw [Span.holds_iff]
    cases hat : f.retractedAt <;> cases hu : f.validUntil <;>
      simp [baseFactsWhere, admits, buildBaseWhere, notRetractedClause, entityIdsClause,
        asOfClause, KnowledgeFact.span, hid, hne, hat, hu, and_assoc]
  · simp [baseFactsWhere, hid]

theorem baseFactsWhere_now_iff :
    baseFactsWhere now entityIds none f = true ↔
      f.entityId ∈ entityIds ∧ f.retractedAt = none ∧ f.span.holds now = true ∧
        f.status ≠ .compacted ∧ (f.status = .superseded → f.validUntil ≠ none) := by
  by_cases hid : f.entityId ∈ entityIds
  · have hne : entityIds ≠ [] := List.ne_nil_of_mem hid
    rw [Span.holds_iff]
    cases hu : f.validUntil with
    | none =>
        simp [baseFactsWhere, admits, buildBaseWhere, notRetractedClause, entityIdsClause,
          currentClause, KnowledgeFact.span, hid, hne, hu, and_assoc]
    | some u =>
        simp [baseFactsWhere, admits, buildBaseWhere, notRetractedClause, entityIdsClause,
          currentClause, KnowledgeFact.span, hid, hne, hu, and_assoc]
        tauto
  · simp [baseFactsWhere, hid]

/-- Row by row. -/
theorem graphFactsWhere_eq_iff :
    graphFactsWhere now entityIds [] asOf f = baseFactsWhere now entityIds asOf f ↔
      (f.entityId ∈ entityIds → ¬ ToldApart now asOf f) := by
  rw [Bool.eq_iff_iff]
  cases asOf with
  | some t =>
      rw [graphFactsWhere_asOf_iff, baseFactsWhere_asOf_iff, ToldApart]
      cases hat : f.retractedAt with
      | none => simp
      | some r => simp
  | none =>
      rw [graphFactsWhere_now_iff, baseFactsWhere_now_iff, ToldApart, Span.holds_iff]
      cases hu : f.validUntil with
      | none =>
          by_cases hst : f.status = .superseded
          · simp [KnowledgeFact.span, hu, hst]
          · simp [KnowledgeFact.span, hst]
      | some u => simp

/-- **When the two paths agree.** On any store, for any entities and any `asOf` or
none, the graph path and `buildBaseWhere` with its default flags admit the same
facts exactly when no fact of these entities tells them apart. -/
theorem graph_agrees_iff (now : Time) (s : Store) (entityIds : List EntityId)
    (asOf : Option Time) :
    s.facts.select (fun _ f => graphFactsWhere now entityIds [] asOf f)
        = s.facts.select (fun _ f => baseFactsWhere now entityIds asOf f) ↔
      ∀ i f, s.facts.get? i = some f → f.entityId ∈ entityIds → ¬ ToldApart now asOf f := by
  rw [select_eq_select_iff]
  exact forall_congr' (fun i => forall_congr' (fun f => imp_congr_right
    (fun _ => graphFactsWhere_eq_iff)))

/-- An address that was taken back at 30 is shown by the graph path as of 10, and
by `buildBaseWhere` as of no time at all. -/
theorem graph_shows_retracted_address :
    ¬ ∀ (now : Time) (s : Store) (entityIds : List EntityId) (asOf : Option Time),
      s.facts.select (fun _ f => graphFactsWhere now entityIds [] asOf f)
        = s.facts.select (fun _ f => baseFactsWhere now entityIds asOf f) := by
  intro h
  -- the graph path has one row there, and the other none
  have heq := h 40 (afterRetract (ingestAll .atRecording .empty [addressFrom 0]) 30 0
    { reason := "typo", retractedBy := .human } none) [1] (some 10)
  have hlen := congrArg List.length heq
  revert hlen
  decide +kernel

/-- In the stores that are reached the paths agree on the present. -/
theorem graph_agrees_now (fns : SurrealFns) {s : Store}
    (h : TenantReaches fns (fun _ _ => True) s) (now : Time) (entityIds : List EntityId) :
    s.facts.select (fun _ f => graphFactsWhere now entityIds [] none f)
      = s.facts.select (fun _ f => baseFactsWhere now entityIds none f) := by
  rw [graph_agrees_iff]
  rintro i f hf _ ⟨_, hst, _, hu⟩
  exact ((books_of_tenantReaches h i f hf).superseded hst).2.2.1 hu

end Paths

end Brain
