/-
Everything that happens to the facts of a tenant over time: the calls of
`Lifecycle`, the compaction runs between them, calls and runs that fail half way,
and the operator's re-embedding of the table
(`src/src/ai/embedder/reindex-embeddings.service.ts`).

`Booked` is what holds of a row through all of it. Compaction makes rows with a
`derivedFrom`, and these are what a cascade follows; that every fact derives from
older facts only is why a cascade never comes back to its root
(`Books.not_derives_self`).
-/
import Brain.Facts.Lifecycle
import Brain.Facts.RetractStatements
import Brain.Compaction.CompactionService

set_option autoImplicit false

namespace Brain

/-- `reindexTenant`: the vectors of the rows that the run gets to. A page whose
embedding fails is skipped, a row whose UPDATE fails as well, and the cap may end
the run early; `reached` says which rows are left. -/
def reindexTenant (embed : String → List ℚ) (reached : FactId → Bool) (s : Store) : Store :=
  let reembed (f : KnowledgeFact) : KnowledgeFact :=
    { f with embedding := some (embed (f.predicate ++ ": " ++ f.object)) }
  { s with facts := s.facts.modify (fun i _ => reached i) reembed }

/-- An operation on a tenant, or a part of one. -/
inductive TenantOp where
  | fact (op : Op)
  /-- A retract that fails after `n` of its writes. -/
  | retractFails (now : Time) (factId : FactId) (dto : RetractFactDto)
      (callerScopes : Option (List BrainScope)) (n : ℕ)
  | compact (cfg : CompactionConfig) (now : Time)
  /-- A compaction run that fails after `n` of its writes. -/
  | compactFails (cfg : CompactionConfig) (now : Time) (n : ℕ)
  | reindex (embed : String → List ℚ) (reached : FactId → Bool)

/-- The store after an operation. -/
def execTenant (fns : SurrealFns) (s : Store) : TenantOp → Store
  | .fact op => execOp fns s op
  | .retractFails now factId dto callerScopes n =>
      interruptedRetract s now factId dto callerScopes n
  | .compact cfg now => afterCompact cfg now s
  | .compactFails cfg now n => interruptedCompact cfg now n s
  | .reindex embed reached => reindexTenant embed reached s

/-- The stores that operations which each meet `C` lead to from the empty one. -/
abbrev TenantReaches (fns : SurrealFns) (C : Store → TenantOp → Prop) (s : Store) : Prop :=
  Runs.Reached (execTenant fns) C Store.empty s

/-- What the fact operations reach, a tenant reaches. -/
theorem tenantReaches_of_reaches {fns : SurrealFns} {C : Store → Op → Prop}
    {D : Store → TenantOp → Prop} {s : Store} (h : Reaches fns C s)
    (hCD : ∀ s op, C s op → D s (.fact op)) : TenantReaches fns D s := by
  induction h with
  | start => exact Runs.Reached.start
  | next op _ hC ih => exact Runs.Reached.next (TenantOp.fact op) ih (hCD _ op hC)

/-- So is what a list of ingests makes of an empty tenant. -/
theorem tenantReaches_ingestAll {fns : SurrealFns} {D : Store → TenantOp → Prop}
    (calls : List ResolveCall) (hD : ∀ s op, D s (.fact op)) :
    TenantReaches fns D (ingestAll fns .empty calls) :=
  tenantReaches_of_reaches (C := fun _ _ => True) (reaches_ingestAll calls (fun _ _ _ => trivial))
    (fun s op _ => hD s op)

/-! ## Which columns a row carries -/

/-- What holds of row `f` under `i` of table `t` at all times. -/
structure Booked (t : KeyedTable KnowledgeFact) (i : FactId) (f : KnowledgeFact) : Prop where
  older : ∀ d ∈ f.derivedFrom, d < i
  fresh : f.status = .active ∨ f.status = .competing → f.retractedAt = none ∧ f.supersededBy = none
  /-- A superseded row is closed, and points at a later fact that is not derived. -/
  superseded : f.status = .superseded →
    f.retractedAt = none ∧ f.retractionReason = some "superseded" ∧ f.validUntil ≠ none ∧
      ∃ g h, f.supersededBy = some g ∧ i < g ∧ t.get? g = some h ∧ h.derivedFrom = []
  retracted : f.status = .retracted → f.retractedAt ≠ none

/-- Every row of the table is booked. -/
def Books (t : KeyedTable KnowledgeFact) : Prop := ∀ i f, t.get? i = some f → Booked t i f

/-- Rows stay under their identifiers, and keep what they derive from. -/
def KeepsDerivations (t t' : KeyedTable KnowledgeFact) : Prop :=
  ∀ i f, t.get? i = some f → ∃ f', t'.get? i = some f' ∧ f'.derivedFrom = f.derivedFrom

section Invariant

variable {fns : SurrealFns} {env : DbEnv} {a : ResolveArgs} {s : Store}
  {t t' : KeyedTable KnowledgeFact} {i : FactId} {f : KnowledgeFact}

/-- A row stays booked while the table keeps its derivations. -/
theorem Booked.mono (h : Booked t i f) (hkeep : KeepsDerivations t t') : Booked t' i f := by
  refine ⟨h.older, h.fresh, fun hst => ?_, h.retracted⟩
  obtain ⟨hat, hreason, huntil, g, r, hg, hlt, hr, hnil⟩ := h.superseded hst
  obtain ⟨r', hr', hder⟩ := hkeep g r hr
  exact ⟨hat, hreason, huntil, g, r', hg, hlt, hr', hder.trans hnil⟩

/-- A fact derives from older facts only. -/
theorem Books.lt_of_derives (h : Books t) {i j : FactId} (hd : Derives t i j) : i < j := by
  have hedge : ∀ {i j : FactId}, t.Hangs derivesFrom i j → i < j := by
    rintro i j ⟨f, hf, hder⟩
    rw [derivesFrom, Bool.and_eq_true, List.contains_iff_mem] at hder
    exact (h j f hf).older i hder.1
  induction hd with
  | single he => exact hedge he
  | tail _ he ih => exact Nat.lt_trans ih (hedge he)

/-- **A fact does not derive from itself.** -/
theorem Books.not_derives_self (h : Books t) (i : FactId) : ¬ Derives t i i :=
  fun hd => Nat.lt_irrefl i (h.lt_of_derives hd)

/-- What a fact has superseded is older than it. -/
theorem Books.lt_of_isRevivable (h : Books t) (hf : t.get? i = some f) {root : FactId}
    (hrev : isRevivable root f = true) : i < root := by
  obtain ⟨hptr, hst, _⟩ := isRevivable_iff.mp hrev
  obtain ⟨_, _, _, g, _, hg, hlt, _, _⟩ := (h i f hf).superseded hst
  rw [hptr] at hg
  exact Option.some.inj hg ▸ hlt

/-! ## Every operation keeps the books -/

theorem keepsDerivations_afterResolve :
    KeepsDerivations s.facts (afterResolve fns env s a).facts := by
  intro i f hf
  rcases afterResolve_cases fns env s a with ⟨hfacts, _⟩ | ⟨c, _, hfacts, _⟩ | ⟨c, _, _, hfacts, _⟩
  · exact ⟨f, by rw [hfacts, hf], rfl⟩
  · rw [hfacts, get?_settledFacts_of_get? hf]
    refine ⟨_, rfl, ?_⟩
    unfold settleRow
    split <;> rfl
  · rw [hfacts, get?_contestedFacts_of_get? hf]
    refine ⟨_, rfl, ?_⟩
    unfold contestRow
    split <;> rfl

theorem keepsDerivations_interruptedRetract (h : Books s.facts) (now : Time) (root : FactId)
    (dto : RetractFactDto) (callerScopes : Option (List BrainScope)) (n : ℕ) :
    KeepsDerivations s.facts (interruptedRetract s now root dto callerScopes n).facts := by
  intro i f hf
  rcases interruptedRetract_row_cases now dto callerScopes
    (h.not_derives_self root) n hf with h' | ⟨_, h'⟩ | ⟨_, h'⟩ | ⟨_, h', _⟩
  · exact ⟨_, h', rfl⟩
  · exact ⟨_, h', rfl⟩
  · exact ⟨_, h', rfl⟩
  · exact ⟨_, h', rfl⟩

theorem keepsDerivations_interruptedCompact (cfg : CompactionConfig) (now : Time) (n : ℕ) :
    KeepsDerivations s.facts (interruptedCompact cfg now n s).facts := by
  intro i f hf
  rcases get?_interruptedCompact cfg now n hf with h' | ⟨_, h'⟩
  · exact ⟨_, h', rfl⟩
  · exact ⟨_, h', rfl⟩

/-- An ingest keeps the books. -/
theorem Books.ingest (h : Books s.facts) : Books (afterResolve fns env s a).facts := by
  apply afterResolve_rows
  · exact fun i f hf => (h i f hf).mono keepsDerivations_afterResolve
  · intro c _
    exact ⟨⟨by simp [ResolveArgs.newRow], fun _ => ⟨rfl, rfl⟩, by simp [ResolveArgs.newRow],
        by simp [ResolveArgs.newRow]⟩,
      fun _ => ⟨by simp [competeRow, ResolveArgs.newRow], fun _ => ⟨rfl, rfl⟩,
        by simp [competeRow], by simp [competeRow]⟩⟩
  · -- a loser was active, and the fact it points at is the new one
    intro i f hmem hk
    obtain ⟨hf, hcomp⟩ := competes_of_mem_losers hmem
    obtain ⟨_, hact⟩ := ResolveArgs.isCandidate_iff.mp (ResolveArgs.isCandidate_of_competes hcomp)
    refine ⟨hk.older, by simp [supersedeRow], fun _ => ?_, by simp [supersedeRow]⟩
    refine ⟨(KnowledgeFact.isActive_iff.mp hact).2, rfl, by simp [supersedeRow], s.facts.next, ?_⟩
    rcases afterResolve_cases fns env s a with
      ⟨_, hnil⟩ | ⟨c, _, hfacts, _⟩ | ⟨c, _, _, _, hnil, _⟩
    · rw [hnil] at hmem
      cases hmem
    · refine ⟨a.newRow env c, rfl, KeyedTable.get?_lt_next hf, ?_, rfl⟩
      rw [hfacts, get?_settledFacts, if_pos rfl]
    · rw [hnil] at hmem
      cases hmem
  · intro i f hcomp _ hk
    obtain ⟨_, hact⟩ := ResolveArgs.isCandidate_iff.mp (ResolveArgs.isCandidate_of_competes hcomp)
    exact ⟨hk.older, fun _ => hk.fresh (Or.inl (KnowledgeFact.isActive_iff.mp hact).1),
      by simp [competeRow], by simp [competeRow]⟩

/-- A retract keeps the books wherever it ends. -/
theorem Books.interruptedRetract (h : Books s.facts) (now : Time) (root : FactId)
    (dto : RetractFactDto) (callerScopes : Option (List BrainScope)) (n : ℕ) :
    Books (interruptedRetract s now root dto callerScopes n).facts := by
  intro i f' hf'
  have hkeep := keepsDerivations_interruptedRetract h now root dto callerScopes n
  obtain ⟨f, hf⟩ := get?_of_interruptedRetract hf'
  have hk := (h i f hf).mono hkeep
  rcases interruptedRetract_row_cases now dto callerScopes
    (h.not_derives_self root) n hf with h' | ⟨_, h'⟩ | ⟨_, h'⟩ | ⟨_, h', _⟩
  · rw [hf'] at h'
    exact Option.some.inj h' ▸ hk
  · rw [hf', Option.some.injEq] at h'
    rw [h']
    exact ⟨hk.older, by simp [cascadeRow], by simp [cascadeRow], by simp [cascadeRow]⟩
  · rw [hf', Option.some.injEq] at h'
    rw [h']
    exact ⟨hk.older, by simp [retractRow], by simp [retractRow], by simp [retractRow]⟩
  · rw [hf', Option.some.injEq] at h'
    rw [h']
    exact ⟨hk.older, fun _ => ⟨rfl, rfl⟩, by simp [reviveRow], by simp [reviveRow]⟩

/-- A compaction run keeps the books wherever it ends. -/
theorem Books.interruptedCompact (h : Books s.facts) (cfg : CompactionConfig) (now : Time)
    (n : ℕ) : Books (interruptedCompact cfg now n s).facts := by
  intro i f' hf'
  have hkeep := keepsDerivations_interruptedCompact (s := s) cfg now n
  rcases interruptedCompact_row_cases hf' with hf | ⟨f, hf, _, rfl⟩ | ⟨hle, hmem⟩
  · exact (h i f' hf).mono hkeep
  · exact ⟨(h i f hf).older, by simp [compactRow], by simp [compactRow], by simp [compactRow]⟩
  · have hmem := List.mem_of_getElem? hmem
    obtain ⟨hst, hat, hsup, _⟩ := summary_columns hmem
    refine ⟨fun d hd => ?_, fun _ => ⟨hat, hsup⟩, by simp [hst], by simp [hst]⟩
    obtain ⟨q, hq, rfl⟩ := mem_candidates_of_mem_derivedFrom hmem hd
    exact Nat.lt_of_lt_of_le (KeyedTable.get?_lt_next (mem_compactionCandidates hq).1) hle

/-- Re-embedding keeps the books. -/
theorem Books.reindex (h : Books s.facts) (embed : String → List ℚ) (reached : FactId → Bool) :
    Books (reindexTenant embed reached s).facts := by
  have hrow : ∀ i, (reindexTenant embed reached s).facts.get? i = (s.facts.get? i).map (fun f =>
      if reached i then
        { f with embedding := some (embed (f.predicate ++ ": " ++ f.object)) } else f) :=
    fun i => KeyedTable.get?_modify _ _ _ i
  have hkeep : KeepsDerivations s.facts (reindexTenant embed reached s).facts := by
    intro i f hf
    rw [hrow, hf]
    refine ⟨_, rfl, ?_⟩
    split <;> rfl
  intro i f' hf'
  rw [hrow, Option.map_eq_some_iff] at hf'
  obtain ⟨f, hf, rfl⟩ := hf'
  have hk := (h i f hf).mono hkeep
  split
  · exact ⟨hk.older, hk.fresh, hk.superseded, hk.retracted⟩
  · exact hk

theorem afterRetract_eq_interrupted (now : Time) (root : FactId) (dto : RetractFactDto)
    (callerScopes : Option (List BrainScope)) :
    afterRetract s now root dto callerScopes
      = interruptedRetract s now root dto callerScopes
          (retractUpdates s now root dto callerScopes).length :=
  (interruptedRetract_of_length_le (le_refl _)).symm

/-- Every operation keeps the books. -/
theorem Books.execTenant (h : Books s.facts) (op : TenantOp) :
    Books (execTenant fns s op).facts := by
  cases op with
  | fact op =>
      cases op with
      | ingest env a => exact h.ingest
      | retract now root dto callerScopes =>
          show Books (afterRetract s now root dto callerScopes).facts
          rw [afterRetract_eq_interrupted]
          exact h.interruptedRetract now root dto callerScopes _
      | dreams judge cfg now =>
          show Books (Brain.execOp fns s (.dreams judge cfg now)).facts
          rw [execOp_dreams]
          exact h
  | retractFails now root dto callerScopes n => exact h.interruptedRetract now root dto callerScopes n
  | compact cfg now =>
      show Books (afterCompact cfg now s).facts
      rw [afterCompact_eq_interrupted]
      exact h.interruptedCompact cfg now _
  | compactFails cfg now n => exact h.interruptedCompact cfg now n
  | reindex embed reached => exact h.reindex embed reached

/-- **The books are kept in every store that is reached.** -/
theorem books_of_tenantReaches {C : Store → TenantOp → Prop} (h : TenantReaches fns C s) :
    Books s.facts :=
  h.invariant (P := fun s => Books s.facts) (fun i f hf => by cases hf)
    (fun s op hs _ => hs.execTenant op)

end Invariant

end Brain
