/-
Retracted facts and what still stands on them: the facts that derive from a
retracted one, and the facts that a retracted one hides.

The cascade of `retract` takes down whatever derives from its root, and its revive
releases whatever its root had superseded. Whether nothing is left standing or
hidden is a matter of the whole life of the tenant: compaction writes the
`derivedFrom` lists, and it may do so after the retract. Facts that supersede
something never derive from anything, which is why reviving for the root alone is
enough (`superseded_by_unretracted`).
-/
import Brain.Facts.TenantLife

set_option autoImplicit false

namespace Brain

/-- Operations that are not retracts failing half way. -/
def Completed : TenantOp → Prop
  | .retractFails .. => False
  | _ => True

section Columns

variable {fns : SurrealFns} {env : DbEnv} {a : ResolveArgs} {s : Store} {i : FactId}
  {f' : KnowledgeFact}

/-- An ingest neither retracts nor derives: its new fact is neither retracted nor
derived, and the others keep both columns. -/
theorem retraction_afterResolve (h : (afterResolve fns env s a).facts.get? i = some f') :
    (f'.retractedAt = none ∧ f'.derivedFrom = []) ∨
      ∃ f, s.facts.get? i = some f ∧ f'.retractedAt = f.retractedAt ∧
        f'.derivedFrom = f.derivedFrom := by
  revert h
  apply afterResolve_rows (P := fun i f' => (f'.retractedAt = none ∧ f'.derivedFrom = []) ∨
    ∃ f, s.facts.get? i = some f ∧ f'.retractedAt = f.retractedAt ∧
      f'.derivedFrom = f.derivedFrom)
  · exact fun i f hf => Or.inr ⟨f, hf, rfl, rfl⟩
  · exact fun c _ => ⟨Or.inl ⟨rfl, rfl⟩, fun _ => Or.inl ⟨rfl, rfl⟩⟩
  · exact fun i f _ h => h
  · exact fun i f _ _ h => h

/-- Compaction retracts nothing. -/
theorem retraction_interruptedCompact {cfg : CompactionConfig} {now : Time} {n : ℕ}
    (h : (interruptedCompact cfg now n s).facts.get? i = some f') :
    (f'.retractedAt = none ∧ s.facts.next ≤ i) ∨
      ∃ f, s.facts.get? i = some f ∧ f'.retractedAt = f.retractedAt ∧
        f'.derivedFrom = f.derivedFrom := by
  rcases interruptedCompact_row_cases h with hf | ⟨f, hf, _, rfl⟩ | ⟨hle, hmem⟩
  · exact Or.inr ⟨f', hf, rfl, rfl⟩
  · exact Or.inr ⟨f, hf, rfl, rfl⟩
  · exact Or.inl ⟨(summary_columns (List.mem_of_getElem? hmem)).2.1, hle⟩

/-- Neither does re-embedding, which changes one column only. -/
theorem get?_reindexTenant {embed : String → List ℚ} {reached : FactId → Bool}
    (h : (reindexTenant embed reached s).facts.get? i = some f') :
    ∃ f e, s.facts.get? i = some f ∧ f' = { f with embedding := e } := by
  rw [reindexTenant, KeyedTable.get?_modify, Option.map_eq_some_iff] at h
  obtain ⟨f, hf, rfl⟩ := h
  by_cases hi : reached i = true
  · rw [if_pos hi]
    exact ⟨f, _, hf, rfl⟩
  · rw [if_neg hi]
    exact ⟨f, f.embedding, hf, rfl⟩

end Columns

/-! ## Nothing hides behind a retracted fact -/

/-- No superseded fact points at a retracted one. -/
def NoneHidden (t : KeyedTable KnowledgeFact) : Prop :=
  ∀ i f g r, t.get? i = some f → f.status = .superseded → f.supersededBy = some g →
    t.get? g = some r → r.retractedAt = none

section Hidden

variable {fns : SurrealFns} {env : DbEnv} {a : ResolveArgs} {s : Store}

theorem NoneHidden.ingest (h : NoneHidden s.facts) :
    NoneHidden (afterResolve fns env s a).facts := by
  -- where a superseded row comes from: it was superseded before, or it has just lost
  have hrow : ∀ i f, (afterResolve fns env s a).facts.get? i = some f → f.status = .superseded →
      s.facts.get? i = some f ∨ f.supersededBy = some s.facts.next := by
    apply afterResolve_rows (P := fun i f => f.status = .superseded →
      s.facts.get? i = some f ∨ f.supersededBy = some s.facts.next)
    · exact fun i f hf _ => Or.inl hf
    · exact fun c _ => ⟨by simp [ResolveArgs.newRow], fun _ => by simp [competeRow]⟩
    · exact fun i f _ _ _ => Or.inr rfl
    · intro i f _ _ _ hst
      simp [competeRow] at hst
  intro i f g r hf hst hg hr
  rcases retraction_afterResolve hr with ⟨hat, _⟩ | ⟨r₀, hr₀, hat, _⟩
  · exact hat
  · rw [hat]
    rcases hrow i f hf hst with hf₀ | hnext
    · exact h i f g r₀ hf₀ hst hg hr₀
    · rw [hnext, Option.some.injEq] at hg
      rw [← hg, KeyedTable.get?_next] at hr₀
      cases hr₀

theorem NoneHidden.retract (h : NoneHidden s.facts) (hbook : Books s.facts) (now : Time)
    (root : FactId) (dto : RetractFactDto) (callerScopes : Option (List BrainScope)) :
    NoneHidden (afterRetract s now root dto callerScopes).facts := by
  by_cases hc : CarriesOut s root callerScopes
  · intro i f' g r' hf' hst hg hr'
    -- the superseded row was not touched, so it does not point at the root
    have hf : s.facts.get? i = some f' ∧ isRevivable root f' = false := by
      rw [get?_retract _ _ hc, Option.map_eq_some_iff] at hf'
      obtain ⟨f, hf, rfl⟩ := hf'
      unfold retractEffect at hst ⊢
      by_cases hi : i = root
      · simp [hi, retractRow] at hst
      · by_cases hmem : i ∈ (cascadeRetract s.facts root now dto.reason).2
        · simp [hi, hmem, cascadeRow] at hst
        · by_cases hrev : isRevivable root f = true
          · simp [hi, hmem, hrev, reviveRow] at hst
          · rw [if_neg hi, if_neg hmem, if_neg hrev]
            exact ⟨hf, by simpa using hrev⟩
    obtain ⟨hf, hrev⟩ := hf
    obtain ⟨_, hreason, _, g₀, r₀, hg₀, _, hr₀, hnil⟩ := (hbook i f' hf).superseded hst
    rw [hg, Option.some.injEq] at hg₀
    subst hg₀
    have hgroot : g ≠ root := by
      rintro rfl
      rw [isRevivable_iff.mpr ⟨hg, hst, hreason⟩] at hrev
      cases hrev
    -- what it points at derives from nothing, so the cascade has not reached it
    have hnot : g ∉ (cascadeRetract s.facts root now dto.reason).2 := by
      rw [mem_cascadeRetract_iff]
      intro hd
      obtain ⟨c, _, r, hr, hder⟩ := Relation.TransGen.tail'_iff.mp hd
      rw [hr₀, Option.some.injEq] at hr
      simp [derivesFrom, ← hr, hnil] at hder
    have hat := h i f' g r₀ hf hst hg hr₀
    rw [get?_retract _ _ hc, hr₀, Option.map_some, Option.some.injEq] at hr'
    rw [← hr', retractEffect, if_neg hgroot, if_neg hnot]
    split
    · rfl
    · exact hat
  · rw [afterRetract_of_not_carriesOut hc]
    exact h

theorem NoneHidden.interruptedCompact (h : NoneHidden s.facts) (cfg : CompactionConfig)
    (now : Time) (n : ℕ) :
    NoneHidden (interruptedCompact cfg now n s).facts := by
  intro i f g r hf hst hg hr
  rcases interruptedCompact_row_cases hf with hf₀ | ⟨f₀, _, _, rfl⟩ | ⟨_, hmem⟩
  · rcases retraction_interruptedCompact hr with ⟨hat, _⟩ | ⟨r₀, hr₀, hat, _⟩
    · exact hat
    · rw [hat]
      exact h i f g r₀ hf₀ hst hg hr₀
  · cases hst
  · rw [(summary_columns (List.mem_of_getElem? hmem)).1] at hst
    cases hst

theorem NoneHidden.reindex (h : NoneHidden s.facts) (embed : String → List ℚ)
    (reached : FactId → Bool) : NoneHidden (reindexTenant embed reached s).facts := by
  intro i f' g r' hf' hst hg hr'
  obtain ⟨f, _, hf, rfl⟩ := get?_reindexTenant hf'
  obtain ⟨r, _, hr, rfl⟩ := get?_reindexTenant hr'
  exact h i f g r hf hst hg hr

/-- Every operation that is not a retract failing half way leaves nothing hidden. -/
theorem NoneHidden.execTenant (h : NoneHidden s.facts) (hbook : Books s.facts) {op : TenantOp}
    (hop : Completed op) : NoneHidden (execTenant fns s op).facts := by
  cases op with
  | fact op =>
      cases op with
      | ingest env a => exact h.ingest
      | retract now root dto callerScopes => exact h.retract hbook now root dto callerScopes
      | dreams judge cfg now =>
          show NoneHidden (Brain.execOp fns s (.dreams judge cfg now)).facts
          rw [execOp_dreams]
          exact h
  | retractFails now root dto callerScopes n => exact hop.elim
  | compact cfg now =>
      show NoneHidden (afterCompact cfg now s).facts
      rw [afterCompact_eq_interrupted]
      exact h.interruptedCompact cfg now _
  | compactFails cfg now n => exact h.interruptedCompact cfg now n
  | reindex embed reached => exact h.reindex embed reached

/-- **No fact stays hidden behind a retracted successor**, in any store that is
reached by operations that complete: neither behind the root of a retract nor
behind what its cascade has retracted. -/
theorem superseded_by_unretracted (fns : SurrealFns) {s : Store}
    (h : TenantReaches fns (fun _ op => Completed op) s) :
    NoneHidden s.facts ∧
      ∀ now root dto callerScopes, CarriesOut s root callerScopes →
        ∀ g, g = root ∨ Derives s.facts root g →
          ∀ i f, (afterRetract s now root dto callerScopes).facts.get? i = some f →
            f.supersededBy = some g → f.status ≠ .superseded := by
  have hall : ∀ {s : Store}, TenantReaches fns (fun _ op => Completed op) s →
      NoneHidden s.facts := by
    intro s h
    exact h.invariant_of (I := fun s => Books s.facts) (P := fun s => NoneHidden s.facts)
      (fun _ hs => books_of_tenantReaches hs) (fun i f g r hf => by cases hf)
      (fun s op hbook hs hop => hs.execTenant hbook hop)
  refine ⟨hall h, ?_⟩
  intro now root dto callerScopes hc g hg i f hf hptr hst
  have hafter := hall (Runs.Reached.next
    (TenantOp.fact (Op.retract now root dto callerScopes)) h trivial)
  -- the root and what the cascade reaches are retracted now
  obtain ⟨r, hr, hat⟩ : ∃ r, (afterRetract s now root dto callerScopes).facts.get? g = some r ∧
      r.retractedAt = some now := by
    rcases hg with rfl | hd
    · obtain ⟨row, hrow, _⟩ := id hc
      refine ⟨_, by rw [get?_retract _ _ hc, hrow]; rfl, ?_⟩
      rw [retractEffect, if_pos rfl]
      rfl
    · obtain ⟨c, _, row, hrow, _⟩ := Relation.TransGen.tail'_iff.mp hd
      refine ⟨_, by rw [get?_retract _ _ hc, hrow]; rfl, ?_⟩
      rw [retractEffect, if_pos ((mem_cascadeRetract_iff _ _ _).mpr hd)]
      split <;> rfl
  have hnone := hafter i f g r hf hst hptr hr
  rw [hat] at hnone
  cases hnone

/-- Two addresses, a compaction that is not due yet, and the second one taken back. -/
theorem superseded_by_unretracted_address :
    NoneHidden (afterRetract (afterCompact .concat 30
      (ingestAll .atRecording .empty [addressFrom 0, addressFrom 10])) 40 1
      { reason := "typo", retractedBy := .human } none).facts :=
  (superseded_by_unretracted .atRecording (Runs.Reached.next
    (TenantOp.fact (Op.retract 40 1 { reason := "typo", retractedBy := .human } none))
    (Runs.Reached.next (TenantOp.compact .concat 30)
      (tenantReaches_ingestAll [addressFrom 0, addressFrom 10] (fun _ _ => trivial)) trivial)
    trivial)).1

end Hidden

/-! ## Nothing stands on a retracted fact -/

/-- No unretracted fact derives from a retracted one. -/
def DerivationClosed (t : KeyedTable KnowledgeFact) : Prop :=
  ∀ i f, t.get? i = some f → f.retractedAt = none →
    ∀ d ∈ f.derivedFrom, ∀ g, t.get? d = some g → g.retractedAt = none

/-- Operations that are not retracts failing half way, and do not summarize a
retracted fact: no group that gets a summary has one among its members. -/
def SummarizesUnretracted (s : Store) : TenantOp → Prop
  | .fact _ => True
  | .retractFails .. => False
  | .compact cfg now =>
      ∀ group ∈ summarizedGroups cfg (compactionCandidates cfg now s.facts),
        ∀ q ∈ group, q.2.retractedAt = none
  | .compactFails cfg now n =>
      ∀ group ∈ (summarizedGroups cfg (compactionCandidates cfg now s.facts)).take n,
        ∀ q ∈ group, q.2.retractedAt = none
  | .reindex .. => True

section Closure

variable {fns : SurrealFns} {env : DbEnv} {a : ResolveArgs} {s : Store}

theorem DerivationClosed.ingest (h : DerivationClosed s.facts) :
    DerivationClosed (afterResolve fns env s a).facts := by
  intro i f' hf' hat d hd g' hg'
  rcases retraction_afterResolve hg' with ⟨hgat, _⟩ | ⟨g, hg, hgat, _⟩
  · exact hgat
  · rcases retraction_afterResolve hf' with ⟨_, hnil⟩ | ⟨f, hf, hfat, hfd⟩
    · rw [hnil] at hd
      cases hd
    · rw [hgat]
      exact h i f hf (hfat ▸ hat) d (hfd ▸ hd) g hg

/-- The cascade is complete: what still stands after it does not derive from its
root, nor from anything that it has retracted. -/
theorem DerivationClosed.retract (h : DerivationClosed s.facts) (hbook : Books s.facts)
    (now : Time) (root : FactId) (dto : RetractFactDto)
    (callerScopes : Option (List BrainScope)) :
    DerivationClosed (afterRetract s now root dto callerScopes).facts := by
  by_cases hc : CarriesOut s root callerScopes
  · intro i f' hf' hat d hd g' hg'
    rw [get?_retract _ _ hc, Option.map_eq_some_iff] at hf' hg'
    obtain ⟨f, hf, rfl⟩ := hf'
    obtain ⟨g, hg, rfl⟩ := hg'
    -- `i` is neither the root nor cascaded, and was not retracted before
    have hi : i ∉ (cascadeRetract s.facts root now dto.reason).2 ∧ f.retractedAt = none ∧
        d ∈ f.derivedFrom := by
      unfold retractEffect at hat hd
      split at hat
      · cases hat
      · next hir =>
          split at hat
          · cases hat
          · next hmem =>
              rw [if_neg hir, if_neg hmem] at hd
              split at hat
              · next hrev =>
                  rw [if_pos hrev] at hd
                  have hst := (isRevivable_iff.mp hrev).2.1
                  exact ⟨hmem, ((hbook i f hf).superseded hst).1, hd⟩
              · next hrev =>
                  rw [if_neg hrev] at hd
                  exact ⟨hmem, hat, hd⟩
    obtain ⟨hmem, hfat, hdf⟩ := hi
    have hhangs : s.facts.Hangs derivesFrom d i :=
      ⟨f, hf, by simp [derivesFrom, hdf, hfat]⟩
    rw [mem_cascadeRetract_iff] at hmem
    have hdroot : d ≠ root := by
      rintro rfl
      exact hmem (Relation.TransGen.single hhangs)
    have hdmem : d ∉ (cascadeRetract s.facts root now dto.reason).2 := by
      rw [mem_cascadeRetract_iff]
      exact fun hdd => hmem (hdd.tail hhangs)
    rw [retractEffect, if_neg hdroot, if_neg hdmem]
    split
    · rfl
    · exact h i f hf hfat d hdf g hg
  · rw [afterRetract_of_not_carriesOut hc]
    exact h

theorem DerivationClosed.interruptedCompact (h : DerivationClosed s.facts)
    (cfg : CompactionConfig) (now : Time) (n : ℕ)
    (hspare : ∀ group ∈ (summarizedGroups cfg (compactionCandidates cfg now s.facts)).take n,
      ∀ q ∈ group, q.2.retractedAt = none) :
    DerivationClosed (interruptedCompact cfg now n s).facts := by
  intro i f' hf' hat d hd g' hg'
  rcases retraction_interruptedCompact hg' with ⟨hgat, _⟩ | ⟨g, hg, hgat, _⟩
  · exact hgat
  · rw [hgat]
    rcases interruptedCompact_row_cases hf' with hf | ⟨f, hf, _, rfl⟩ | ⟨_, hmem⟩
    · exact h i f' hf hat d hd g hg
    · exact h i f hf hat d hd g hg
    · -- a new summary: its members are the group's
      obtain ⟨group, hgroup, hsum⟩ := exists_group_of_mem_summaryRows (List.mem_of_getElem? hmem)
      obtain ⟨q, hq, rfl⟩ := (mem_derivedFrom_summaryOf_iff hsum).mp hd
      have hqrow := (mem_compactionCandidates
        (mem_of_mem_summarizedGroups (List.mem_of_mem_take hgroup) hq)).1
      rw [hg, Option.some.injEq] at hqrow
      rw [hqrow]
      exact hspare group hgroup q hq

theorem DerivationClosed.reindex (h : DerivationClosed s.facts) (embed : String → List ℚ)
    (reached : FactId → Bool) : DerivationClosed (reindexTenant embed reached s).facts := by
  intro i f' hf' hat d hd g' hg'
  obtain ⟨f, _, hf, rfl⟩ := get?_reindexTenant hf'
  obtain ⟨g, _, hg, rfl⟩ := get?_reindexTenant hg'
  exact h i f hf hat d hd g hg

theorem DerivationClosed.execTenant (h : DerivationClosed s.facts) (hbook : Books s.facts)
    {op : TenantOp} (hop : SummarizesUnretracted s op) :
    DerivationClosed (execTenant fns s op).facts := by
  cases op with
  | fact op =>
      cases op with
      | ingest env a => exact h.ingest
      | retract now root dto callerScopes => exact h.retract hbook now root dto callerScopes
      | dreams judge cfg now =>
          show DerivationClosed (Brain.execOp fns s (.dreams judge cfg now)).facts
          rw [execOp_dreams]
          exact h
  | retractFails now root dto callerScopes n => exact hop.elim
  | compact cfg now =>
      show DerivationClosed (afterCompact cfg now s).facts
      rw [afterCompact_eq_interrupted]
      exact h.interruptedCompact cfg now _
        (fun group hgroup => hop group (List.mem_of_mem_take hgroup))
  | compactFails cfg now n => exact h.interruptedCompact cfg now n hop
  | reindex embed reached => exact h.reindex embed reached

end Closure

end Brain
