/-
The history of a fact: what never changes in its row, and how its status moves.

A row is never removed, its identifier is never used again, and what it states (entity, predicate,
object, confidence, validity from, source, derivation) is never written again. Its status moves
along the edges of `Move`, whatever is ingested, retracted, compacted and re-embedded, and wherever
a call fails. A row that is retracted is closed: from then on it can only be compacted, and its
columns stay as they are (`fact_history`).
-/
import Brain.Facts.TenantLife

set_option autoImplicit false

namespace Brain

/-! ## The states of a row -/

/-- The status of a row, and whether it is retracted. -/
abbrev Phase := Status × Bool

/-- The moves of a row. -/
inductive Move : Phase → Phase → Prop
  | supersede : Move (.active, false) (.superseded, false)
  | contest : Move (.active, false) (.competing, false)
  | revive : Move (.superseded, false) (.active, false)
  | retract (st : Status) : Move (st, false) (.retracted, true)
  /-- Compaction takes old rows that are retracted as well as old rows that are not. -/
  | compact (st : Status) (retracted : Bool) : st ≠ .compacted →
      Move (st, retracted) (.compacted, retracted)

namespace KnowledgeFact

def phase (f : KnowledgeFact) : Phase := (f.status, f.retractedAt.isSome)

/-- What the row states: the columns that are written once. -/
def statement (f : KnowledgeFact) : KnowledgeFact :=
  { f with
    validUntil := none
    retractedAt := none
    retractionReason := none
    retractedBy := none
    supersededBy := none
    status := .active
    embedding := none
    priorValidUntil := none }

/-- The columns that are written when a fact ends. -/
def ending (f : KnowledgeFact) : Option Time × Option Time × Option String × Option AssertedBy ×
    Option FactId × Option Time :=
  (f.validUntil, f.retractedAt, f.retractionReason, f.retractedBy, f.supersededBy,
    f.priorValidUntil)

end KnowledgeFact

/-- `f'` is a later row of the fact that `f` is a row of. -/
structure Continues (f f' : KnowledgeFact) : Prop where
  statement : f'.statement = f.statement
  moves : Relation.ReflTransGen Move f.phase f'.phase
  closed : f.retractedAt ≠ none → f'.ending = f.ending

theorem Continues.refl (f : KnowledgeFact) : Continues f f := ⟨rfl, .refl, fun _ => rfl⟩

theorem KnowledgeFact.retractedAt_of_ending {f f' : KnowledgeFact} (h : f'.ending = f.ending) :
    f'.retractedAt = f.retractedAt := congrArg (fun e => e.2.1) h

theorem Continues.trans {f f' f'' : KnowledgeFact} (h : Continues f f') (h' : Continues f' f'') :
    Continues f f'' := by
  refine ⟨h'.statement.trans h.statement, h.moves.trans h'.moves, fun hat => ?_⟩
  have hending := h.closed hat
  refine (h'.closed ?_).trans hending
  rwa [KnowledgeFact.retractedAt_of_ending hending]

/-! ## Each write is a move -/

section Writes

variable {f : KnowledgeFact}

theorem phase_of_isActive (h : f.isActive = true) : f.phase = (.active, false) := by
  obtain ⟨hst, hat⟩ := KnowledgeFact.isActive_iff.mp h
  rw [KnowledgeFact.phase, hst, hat]
  rfl

theorem phase_of_unretracted (h : f.retractedAt = none) : f.phase = (f.status, false) := by
  rw [KnowledgeFact.phase, h]
  rfl

theorem continues_supersedeRow (h : f.isActive = true) (newId : FactId) (validFrom : Time) :
    Continues f (supersedeRow newId validFrom f f) := by
  obtain ⟨_, hat⟩ := KnowledgeFact.isActive_iff.mp h
  refine ⟨rfl, ?_, fun hne => absurd hat hne⟩
  have hphase : (supersedeRow newId validFrom f f).phase = (.superseded, false) :=
    phase_of_unretracted hat
  rw [phase_of_isActive h, hphase]
  exact .single .supersede

theorem continues_competeRow (h : f.isActive = true) : Continues f (competeRow f) := by
  obtain ⟨_, hat⟩ := KnowledgeFact.isActive_iff.mp h
  refine ⟨rfl, ?_, fun _ => rfl⟩
  have hphase : (competeRow f).phase = (.competing, false) := phase_of_unretracted hat
  rw [phase_of_isActive h, hphase]
  exact .single .contest

theorem continues_cascadeRow (h : f.retractedAt = none) (now : Time) (reason : String) :
    Continues f (cascadeRow now reason f) := by
  refine ⟨rfl, ?_, fun hne => absurd h hne⟩
  rw [phase_of_unretracted h]
  exact .single (.retract _)

theorem continues_retractRow (h : f.retractedAt = none) (now : Time) (dto : RetractFactDto)
    (existing : ExistingRow) : Continues f (retractRow now dto existing f) := by
  refine ⟨rfl, ?_, fun hne => absurd h hne⟩
  rw [phase_of_unretracted h]
  exact .single (.retract _)

theorem continues_reviveRow (hst : f.status = .superseded) (h : f.retractedAt = none) :
    Continues f (reviveRow f f) := by
  refine ⟨rfl, ?_, fun hne => absurd h hne⟩
  rw [phase_of_unretracted h, hst]
  exact .single .revive

theorem continues_compactRow (h : f.status ≠ .compacted) : Continues f (compactRow f) :=
  ⟨rfl, .single (.compact _ _ h), fun _ => rfl⟩

end Writes

/-! ## Each operation -/

section Operations

variable {fns : SurrealFns} {env : DbEnv} {a : ResolveArgs} {s s' : Store} {i : FactId}
  {f : KnowledgeFact}

/-- The rows of `s` are all in `s'`, under their identifiers, and continue. -/
def Carries (s s' : Store) : Prop :=
  s.facts.next ≤ s'.facts.next ∧
    ∀ i f, s.facts.get? i = some f → ∃ f', s'.facts.get? i = some f' ∧ Continues f f'

theorem Carries.refl (s : Store) : Carries s s := ⟨le_rfl, fun _ f hf => ⟨f, hf, .refl f⟩⟩

theorem Carries.trans {s'' : Store} (h : Carries s s') (h' : Carries s' s'') : Carries s s'' := by
  refine ⟨h.1.trans h'.1, fun i f hf => ?_⟩
  obtain ⟨f', hf', hcont⟩ := h.2 i f hf
  obtain ⟨f'', hf'', hcont'⟩ := h'.2 i f' hf'
  exact ⟨f'', hf'', hcont.trans hcont'⟩

theorem isActive_of_competes (h : a.competes fns f = true) : f.isActive = true :=
  (ResolveArgs.isCandidate_iff.mp (ResolveArgs.isCandidate_of_competes h)).2

theorem carries_ingest : Carries s (afterResolve fns env s a) := by
  rcases afterResolve_cases fns env s a with ⟨hfacts, _⟩ | ⟨c, _, hfacts, _⟩ | ⟨c, _, _, hfacts, _⟩
  · rw [Carries, hfacts]
    exact Carries.refl s
  · rw [Carries, hfacts]
    refine ⟨?_, fun i f hf => ⟨_, get?_settledFacts_of_get? hf, ?_⟩⟩
    · rw [settledFacts, KeyedTable.next_insert, KeyedTable.next_modify]
      exact Nat.le_succ _
    · unfold settleRow
      split
      · next hcomp => exact continues_supersedeRow (isActive_of_competes hcomp) _ _
      · exact .refl f
  · rw [Carries, hfacts]
    refine ⟨?_, fun i f hf => ⟨_, get?_contestedFacts_of_get? hf, ?_⟩⟩
    · rw [contestedFacts, KeyedTable.next_insert, KeyedTable.next_modify]
      exact Nat.le_succ _
    · unfold contestRow
      split
      · next hcomp => exact continues_competeRow (isActive_of_competes hcomp)
      · exact .refl f

/-- A fact that a cascade follows to is not retracted. -/
theorem unretracted_of_derives {root : FactId} (h : Derives s.facts root i)
    (hf : s.facts.get? i = some f) : f.retractedAt = none := by
  have hedge : ∃ j, s.facts.Hangs derivesFrom j i := by
    cases h with
    | single he => exact ⟨_, he⟩
    | tail _ he => exact ⟨_, he⟩
  obtain ⟨j, r, hr, hder⟩ := hedge
  rw [hf, Option.some.injEq] at hr
  rw [derivesFrom, Bool.and_eq_true, Option.isNone_iff_eq_none] at hder
  rw [hr]
  exact hder.2

/-- Only a row that is not retracted is. -/
theorem carries_retract (hbooks : Books s.facts) (now : Time) (root : FactId)
    (dto : RetractFactDto) (callerScopes : Option (List BrainScope)) (n : ℕ) :
    Carries s (interruptedRetract s now root dto callerScopes n) := by
  by_cases hc : CarriesOut s root callerScopes
  · refine ⟨(next_interruptedRetract n).ge, fun i f hf => ?_⟩
    rcases interruptedRetract_row_cases now dto callerScopes (hbooks.not_derives_self root) n hf
      with h | ⟨hder, h⟩ | ⟨hroot, h⟩ | ⟨hrev, h, _⟩
    · exact ⟨_, h, .refl f⟩
    · exact ⟨_, h, continues_cascadeRow (unretracted_of_derives hder hf) _ _⟩
    · obtain ⟨row, hrow, _, hat⟩ := hc
      rw [← hroot, hf] at hrow
      obtain rfl := Option.some.inj hrow
      exact ⟨_, h, continues_retractRow hat _ _ _⟩
    · obtain ⟨_, hst, _⟩ := isRevivable_iff.mp hrev
      exact ⟨_, h, continues_reviveRow hst ((hbooks i f hf).superseded hst).1⟩
  · rw [interruptedRetract_of_not_carriesOut hc]
    exact Carries.refl s

theorem next_le_execAll_create (l : List KnowledgeFact) : ∀ t : KeyedTable KnowledgeFact,
    t.next ≤ (t.execAll (l.map .create)).next := by
  induction l with
  | nil => exact fun t => le_rfl
  | cons r l ih =>
      intro t
      exact ((Nat.le_succ t.next).trans (KeyedTable.next_insert t r).ge).trans (ih (t.insert r))

theorem next_le_interruptedCompact (cfg : CompactionConfig) (now : Time) (n : ℕ) :
    s.facts.next ≤ (interruptedCompact cfg now n s).facts.next := by
  by_cases hrows : (compactionCandidates cfg now s.facts).isEmpty = true
  · rw [interruptedCompact_of_isEmpty hrows]
  · rw [facts_interruptedCompact (by simpa using hrows)]
    split
    · rw [KeyedTable.next_modify]
      exact next_le_execAll_create _ _
    · exact next_le_execAll_create _ _

theorem carries_compact (cfg : CompactionConfig) (now : Time) (n : ℕ) :
    Carries s (interruptedCompact cfg now n s) := by
  refine ⟨next_le_interruptedCompact cfg now n, fun i f hf => ?_⟩
  rcases get?_interruptedCompact cfg now n hf with h | ⟨hmem, h⟩
  · exact ⟨_, h, .refl f⟩
  · obtain ⟨q, hq, rfl⟩ := List.mem_map.mp hmem
    obtain ⟨hget, hcomp⟩ := mem_compactionCandidates hq
    rw [hf, Option.some.injEq] at hget
    rw [← hget, isCompactable, Bool.and_eq_true, Bool.and_eq_true, bne_iff_ne] at hcomp
    exact ⟨_, h, continues_compactRow hcomp.1.1⟩

theorem carries_reindex (embed : String → List ℚ) (reached : FactId → Bool) :
    Carries s (reindexTenant embed reached s) := by
  refine ⟨(KeyedTable.next_modify _ _ _).ge, fun i f hf => ?_⟩
  have hrow : (reindexTenant embed reached s).facts.get? i = (s.facts.get? i).map (fun f =>
      if reached i then
        { f with embedding := some (embed (f.predicate ++ ": " ++ f.object)) } else f) :=
    KeyedTable.get?_modify _ _ _ i
  rw [hf] at hrow
  refine ⟨_, hrow, ?_⟩
  split
  · exact ⟨rfl, .refl, fun _ => rfl⟩
  · exact .refl f

/-- **An operation**, carried out or failing on its way. -/
theorem carries_execTenant (hbooks : Books s.facts) (op : TenantOp) :
    Carries s (execTenant fns s op) := by
  cases op with
  | fact op =>
      cases op with
      | ingest env a => exact carries_ingest
      | retract now root dto callerScopes =>
          show Carries s (afterRetract s now root dto callerScopes)
          rw [afterRetract_eq_interrupted]
          exact carries_retract hbooks now root dto callerScopes _
      | dreams judge cfg now =>
          show Carries s (Brain.execOp fns s (.dreams judge cfg now))
          rw [execOp_dreams]
          exact Carries.refl s
  | retractFails now root dto callerScopes n => exact carries_retract hbooks now root dto callerScopes n
  | compact cfg now =>
      show Carries s (afterCompact cfg now s)
      rw [afterCompact_eq_interrupted]
      exact carries_compact cfg now _
  | compactFails cfg now n => exact carries_compact cfg now n
  | reindex embed reached => exact carries_reindex embed reached

end Operations

/-! ## Every run -/

/-- From a state that is retracted a row only gets compacted. -/
theorem status_of_moves {st : Status} {p : Phase} (h : Relation.ReflTransGen Move (st, true) p) :
    p.2 = true ∧ (p.1 = st ∨ p.1 = .compacted) := by
  induction h with
  | refl => exact ⟨rfl, Or.inl rfl⟩
  | tail _ hmove ih =>
      cases hmove with
      | supersede => cases ih.1
      | contest => cases ih.1
      | revive => cases ih.1
      | retract st => cases ih.1
      | compact st retracted _ => exact ⟨ih.1, Or.inr rfl⟩

/-- From a contest there is no way back to the active facts. -/
theorem not_active_of_moves {p : Phase}
    (h : Relation.ReflTransGen Move (.competing, false) p) :
    p.1 = .competing ∨ p.1 = .compacted ∨ p.1 = .retracted := by
  induction h with
  | refl => exact Or.inl rfl
  | tail _ hmove ih =>
      cases hmove with
      | supersede => simp at ih
      | contest => simp at ih
      | revive => simp at ih
      | retract st => exact Or.inr (Or.inr rfl)
      | compact st retracted _ => exact Or.inr (Or.inl rfl)

/-- **The history of a fact**: from any store that a tenant reaches, through any further
operations, each of which may fail on its way, every row stays under its identifier and states what
it stated; its status has moved along `Move`, and a contested fact is not active again; and if it
was retracted, the columns of its end are those of before and all that can have happened to it is
that it was compacted. -/
theorem fact_history {fns : SurrealFns} {C D : Store → TenantOp → Prop} {s s' : Store}
    (hs : TenantReaches fns C s) (hrun : Runs.Reached (execTenant fns) D s s') :
    s.facts.next ≤ s'.facts.next ∧
      ∀ i f, s.facts.get? i = some f → ∃ f', s'.facts.get? i = some f' ∧
        f'.statement = f.statement ∧ Relation.ReflTransGen Move f.phase f'.phase ∧
        (f.status = .competing → f'.status ∈ [.competing, .compacted, .retracted]) ∧
        (f.retractedAt ≠ none → f'.ending = f.ending ∧
          (f'.status = f.status ∨ f'.status = .compacted)) := by
  have hcarries : Books s'.facts ∧ Carries s s' :=
    hrun.invariant (P := fun s' => Books s'.facts ∧ Carries s s')
      ⟨books_of_tenantReaches hs, Carries.refl s⟩
      (fun _ op h _ => ⟨h.1.execTenant op, h.2.trans (carries_execTenant h.1 op)⟩)
  refine ⟨hcarries.2.1, fun i f hf => ?_⟩
  obtain ⟨f', hf', hcont⟩ := hcarries.2.2 i f hf
  have hmoves := hcont.moves
  refine ⟨f', hf', hcont.statement, hmoves, fun hst => ?_, fun hat => ⟨hcont.closed hat, ?_⟩⟩
  · have hopen := ((books_of_tenantReaches hs i f hf).fresh (Or.inr hst)).1
    rw [phase_of_unretracted hopen, hst] at hmoves
    have hlast : f'.status = .competing ∨ f'.status = .compacted ∨ f'.status = .retracted :=
      not_active_of_moves hmoves
    simpa using hlast
  · rw [KnowledgeFact.phase, Option.isSome_iff_ne_none.mpr hat] at hmoves
    exact (status_of_moves hmoves).2

/-- An address that is replaced and then retracted by the operator. -/
theorem fact_history_address : ∃ f',
    (execTenant .atRecording (ingestAll .atRecording .empty [addressFrom 0, addressFrom 10])
      (.fact (.retract 20 0 { reason := "typo", retractedBy := .human } (some [.write])))).facts.get? 0
        = some f' ∧ Relation.ReflTransGen Move (.superseded, false) f'.phase := by
  have hs : TenantReaches .atRecording (fun _ _ => True)
      (ingestAll .atRecording .empty [addressFrom 0, addressFrom 10]) :=
    tenantReaches_ingestAll _ (fun _ _ => trivial)
  have hrun : Runs.Reached (execTenant .atRecording) (fun _ _ => True)
      (ingestAll .atRecording .empty [addressFrom 0, addressFrom 10])
      (execTenant .atRecording (ingestAll .atRecording .empty [addressFrom 0, addressFrom 10])
        (.fact (.retract 20 0 { reason := "typo", retractedBy := .human } (some [.write])))) :=
    .next _ .start trivial
  obtain ⟨f', hf', _, hmoves, _⟩ := (fact_history hs hrun).2 0 _ rfl
  exact ⟨f', hf', hmoves⟩

end Brain
