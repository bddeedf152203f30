/-
Replacements in a diff.

The service takes what was replaced in a window from the rows that were retracted there
(`retractedAt` in the window) and point at a successor. A supersede writes the pointer
but no `retractedAt` (`supersedeRow`), so the fact that it replaces is not among them: it
is listed as replaced only if it is itself retracted later, inside of the window
(`replacement_reported_iff`).
-/
import Brain.Diff.Windows
import Brain.Facts.Lifecycle

set_option autoImplicit false

namespace Brain

variable {fns : SurrealFns} {s : Store} {op : Op} {i w : FactId} {f : KnowledgeFact}
  {from_ to_ : Time}

/-! ## What happens to a superseded fact -/

/-- The operation is a retract that revives the fact. -/
def Revives (i : FactId) (s : Store) (op : Op) : Prop :=
  ∃ now root dto callerScopes res s', op = .retract now root dto callerScopes ∧
    retract s now root dto callerScopes = .ok (res, s') ∧ i ∈ res.revivedFactIds

/-- The operation is a retract of the fact itself, in the window, and is carried out. -/
def RetractsWithin (from_ to_ : Time) (i : FactId) (s : Store) (op : Op) : Prop :=
  ∃ now dto callerScopes, op = .retract now i dto callerScopes ∧ CarriesOut s i callerScopes ∧
    inWindow from_ to_ now = true

/-- An ingest rewrites active facts only. -/
theorem get?_afterResolve_of_not_active {env : DbEnv} {a : ResolveArgs}
    (hf : s.facts.get? i = some f) (hact : f.status ≠ .active) :
    (afterResolve fns env s a).facts.get? i = some f := by
  have hno : a.competes fns f = false := by
    rw [Bool.eq_false_iff]
    intro hcomp
    have hcand := ResolveArgs.isCandidate_of_competes hcomp
    exact hact (KnowledgeFact.isActive_iff.mp (ResolveArgs.isCandidate_iff.mp hcand).2).1
  rcases afterResolve_cases fns env s a with ⟨hfacts, _⟩ | ⟨c, _, hfacts, _⟩ | ⟨c, _, _, hfacts, _⟩
  · rw [hfacts, hf]
  · rw [hfacts, get?_settledFacts_of_get? hf, settleRow, if_neg (by simp [hno])]
  · rw [hfacts, get?_contestedFacts_of_get? hf, contestRow, if_neg (by simp [hno])]

/-- What a carried-out retract says it has revived. -/
theorem mem_revived_of_isRevivable (hbook : Bookkeeping s.facts) {root : FactId} {now : Time}
    {dto : RetractFactDto} {callerScopes : Option (List BrainScope)}
    (hc : CarriesOut s root callerScopes) (hf : s.facts.get? i = some f) (hi : i ≠ root)
    (hrev : isRevivable root f = true) : Revives i s (.retract now root dto callerScopes) := by
  obtain ⟨row, _, hret⟩ := retract_eq_ok hc now dto
  refine ⟨now, root, dto, callerScopes, _, _, rfl, hret, ?_⟩
  have hcas : (cascadeRetract s.facts root now dto.reason).2 = [] :=
    cascadeRetract_eq_nil (fun i f hf => (hbook i f hf).underived) _ _ _
  show i ∈ ((_ : KeyedTable KnowledgeFact).select _).map Prod.fst
  rw [KeyedTable.mem_keys_select]
  refine ⟨f, ?_, hrev⟩
  rw [KeyedTable.get?_update, if_neg hi, cascadeRetract, KeyedTable.get?_sweep
    (fun c f => derivesFrom_cascadeRow c now dto.reason f), ← cascadeRetract, hcas, hf]
  simp

/-- **A retracted fact stays as it is.** -/
theorem get?_execOp_of_retracted (hbook : Bookkeeping s.facts) (hf : s.facts.get? i = some f)
    (hst : f.status = .retracted) (op : Op) : (execOp fns s op).facts.get? i = some f := by
  have hat := (hbook i f hf).retracted hst
  cases op with
  | ingest env a => exact get?_afterResolve_of_not_active hf (by simp [hst])
  | retract now root dto callerScopes =>
      show (afterRetract s now root dto callerScopes).facts.get? i = some f
      by_cases hc : CarriesOut s root callerScopes
      · obtain ⟨row, hrow, _, hnone⟩ := hc
        have hi : i ≠ root := by
          rintro rfl
          obtain rfl := Option.some.inj (hrow.symm.trans hf)
          exact hat hnone
        have hrev : isRevivable root f = false := by simp [isRevivable, hst]
        rw [hbook.get?_retract ⟨row, hrow, ‹_›, hnone⟩, hf]
        simp [retractEffect, hi, hrev]
      · rw [afterRetract_of_not_carriesOut hc]
        exact hf
  | dreams judge cfg now =>
      rw [execOp_dreams]
      exact hf

/-- **A superseded fact stays as it is** until it is revived or retracted itself. -/
theorem get?_execOp_of_superseded (fns : SurrealFns) (hbook : Bookkeeping s.facts)
    (hf : s.facts.get? i = some f) (hst : f.status = .superseded) (hrev : ¬ Revives i s op) :
    (∃ now dto callerScopes, op = .retract now i dto callerScopes ∧
        CarriesOut s i callerScopes ∧
        (execOp fns s op).facts.get? i = some (retractRow now dto f.existingRow f)) ∨
      (∀ now dto callerScopes, op = .retract now i dto callerScopes →
          ¬ CarriesOut s i callerScopes) ∧ (execOp fns s op).facts.get? i = some f := by
  cases op with
  | ingest env a =>
      refine Or.inr ⟨fun now dto callerScopes heq => ?_, ?_⟩
      · cases heq
      · exact get?_afterResolve_of_not_active hf (by simp [hst])
  | retract now root dto callerScopes =>
      by_cases hc : CarriesOut s root callerScopes
      · have hrow : (afterRetract s now root dto callerScopes).facts.get? i = _ :=
          hbook.get?_retract hc i
        rw [hf, Option.map_some, retractEffect] at hrow
        by_cases hi : i = root
        · subst hi
          rw [if_pos rfl] at hrow
          exact Or.inl ⟨now, dto, callerScopes, rfl, hc, hrow⟩
        · have hnot : isRevivable root f = false := by
            rw [Bool.eq_false_iff]
            exact fun h => hrev (mem_revived_of_isRevivable hbook hc hf hi h)
          rw [if_neg hi, if_neg List.not_mem_nil, if_neg (by simp [hnot])] at hrow
          refine Or.inr ⟨fun now' dto' callerScopes' heq => ?_, hrow⟩
          exact absurd (Op.retract.inj heq).2.1.symm hi
      · refine Or.inr ⟨fun now' dto' callerScopes' heq => ?_, ?_⟩
        · obtain ⟨_, hroot, _, hscopes⟩ := Op.retract.inj heq
          rw [← hroot, ← hscopes]
          exact hc
        · show (afterRetract s now root dto callerScopes).facts.get? i = some f
          rw [afterRetract_of_not_carriesOut hc]
          exact hf
  | dreams judge cfg now =>
      rw [execOp_dreams]
      refine Or.inr ⟨fun now dto callerScopes heq => ?_, hf⟩
      cases heq

/-- A run keeps a retracted fact, and retracts it no more. -/
theorem run_of_retracted (fns : SurrealFns) (from_ to_ : Time) (hbook : Bookkeeping s.facts)
    (hf : s.facts.get? i = some f) (hst : f.status = .retracted) (ops : List Op) :
    (ops.foldl (execOp fns) s).facts.get? i = some f ∧
      ¬ Runs.Happens (execOp fns) (RetractsWithin from_ to_ i) s ops := by
  have hkeep : ∀ (s : Store) (op : Op), Bookkeeping s.facts ∧ s.facts.get? i = some f →
      Bookkeeping (execOp fns s op).facts ∧ (execOp fns s op).facts.get? i = some f :=
    fun s op h => ⟨h.1.execOp op, get?_execOp_of_retracted h.1 h.2 hst op⟩
  constructor
  · induction ops generalizing s with
    | nil => exact hf
    | cons op ops ih =>
        obtain ⟨hbook', hf'⟩ := hkeep s op ⟨hbook, hf⟩
        exact ih hbook' hf'
  · refine Runs.not_happens hkeep ?_ ⟨hbook, hf⟩ ops
    rintro s op ⟨hbook, hf⟩ ⟨now, dto, callerScopes, _, ⟨row, hrow, _, hnone⟩, _⟩
    obtain rfl := Option.some.inj (hrow.symm.trans hf)
    exact (hbook i row hf).retracted hst hnone

/-- **The end of a superseded fact**: after a run that does not revive it, it still points
at its successor, and is retracted in the window exactly if a retract of it has been
carried out there. -/
theorem run_of_superseded (fns : SurrealFns) (from_ to_ : Time) (hbook : Bookkeeping s.facts)
    (hf : s.facts.get? i = some f) (hst : f.status = .superseded) (ops : List Op)
    (hrev : ¬ Runs.Happens (execOp fns) (Revives i) s ops) :
    ∃ f', (ops.foldl (execOp fns) s).facts.get? i = some f' ∧ f'.supersededBy = f.supersededBy ∧
      (f'.retractedAt.any (fun t => inWindow from_ to_ t) = true ↔
        Runs.Happens (execOp fns) (RetractsWithin from_ to_ i) s ops) := by
  induction ops generalizing s with
  | nil =>
      refine ⟨f, hf, rfl, ?_⟩
      rw [((hbook i f hf).superseded hst).1]
      exact ⟨nofun, False.elim⟩
  | cons op ops ih =>
      have hnow : ¬ Revives i s op := fun h => hrev (Or.inl h)
      rw [List.foldl_cons]
      rcases get?_execOp_of_superseded fns hbook hf hst hnow with
        ⟨now, dto, callerScopes, rfl, hc, hrow⟩ | ⟨hnot, hrow⟩
      · -- it is retracted now, and stays so
        obtain ⟨hfinal, hnever⟩ := run_of_retracted fns from_ to_
          (hbook.execOp (.retract now i dto callerScopes)) hrow rfl ops
        refine ⟨_, hfinal, rfl, fun hin => Or.inl ⟨now, dto, callerScopes, rfl, hc, hin⟩, ?_⟩
        rintro (⟨now', dto', callerScopes', heq, _, hin⟩ | hlater)
        · rw [← (Op.retract.inj heq).1] at hin
          exact hin
        · exact absurd hlater hnever
      · obtain ⟨f', hf', hptr, hiff⟩ := ih (hbook.execOp op) hrow (fun h => hrev (Or.inr h))
        refine ⟨f', hf', hptr, hiff.trans ⟨Or.inr, ?_⟩⟩
        rintro (⟨now, dto, callerScopes, heq, hc, _⟩ | hlater)
        · exact absurd hc (hnot now dto callerScopes heq)
        · exact hlater

/-! ## What a diff reports -/

/-- The replacement of `i` by `w` is reported: once, with its successor, and `i` does not
count as created. -/
structure MemoryDiffResult.Reports (r : MemoryDiffResult) (i w : FactId) : Prop where
  once : r.replaced.count i = 1
  replacedBy : ∀ c ∈ r.changedFacts, c.factId = i → c.replacedBy = w
  notCreated : ∀ x ∈ r.createdFacts, x.factId ≠ i

section Reported

variable {entityClause : EntityClause} {db : TenantDb} {args : MemoryDiffArgs}

theorem memoryDiff_eq_ok {r : MemoryDiffResult} (h : memoryDiff entityClause db args = .ok r) :
    r = diffWindow entityClause db args r.from_ r.to_ := by
  unfold memoryDiff at h
  split at h
  · split at h
    · cases h
    · obtain rfl := Except.ok.inj h
      rfl
  · cases h

/-- The facts that are replaced are retracted rows with a successor. -/
theorem replaced_eq (entityClause : EntityClause) (db : TenantDb) (args : MemoryDiffArgs)
    (from_ to_ : Time) : (diffWindow entityClause db args from_ to_).replaced
      = ((retractedRows entityClause db.facts args from_ to_).filter
          (fun q => q.2.supersededBy.isSome)).map Prod.fst := by
  have h : ∀ l : List (FactId × KnowledgeFact),
      (l.filterMap (changedFact db.facts)).map ChangedFact.factId
        = (l.filter (fun q => q.2.supersededBy.isSome)).map Prod.fst := by
    intro l
    induction l with
    | nil => rfl
    | cons q l ih =>
        cases hq : q.2.supersededBy with
        | none =>
            rw [List.filterMap_cons_none (by rw [changedFact, hq]; rfl),
              List.filter_cons_of_neg (by simp [hq]), ih]
        | some w =>
            rw [List.filterMap_cons_some (by rw [changedFact, hq]; rfl),
              List.filter_cons_of_pos (by simp [hq]), List.map_cons, List.map_cons, ih]
  exact h _

theorem mem_replaced_iff : i ∈ (diffWindow entityClause db args from_ to_).replaced ↔
    ∃ f, db.facts.get? i = some f ∧ retractedWhere entityClause args from_ to_ f = true ∧
      f.supersededBy.isSome = true := by
  rw [replaced_eq, List.mem_map]
  constructor
  · rintro ⟨q, hq, rfl⟩
    obtain ⟨hrow, hsome⟩ := List.mem_filter.mp hq
    obtain ⟨hget, hwhere⟩ := mem_retractedRows.mp hrow
    exact ⟨q.2, hget, hwhere, hsome⟩
  · rintro ⟨f, hget, hwhere, hsome⟩
    exact ⟨(i, f), List.mem_filter.mpr ⟨mem_retractedRows.mpr ⟨hget, hwhere⟩, hsome⟩, rfl⟩

/-- No fact is replaced twice. -/
theorem nodup_replaced (entityClause : EntityClause) (db : TenantDb) (args : MemoryDiffArgs)
    (from_ to_ : Time) : (diffWindow entityClause db args from_ to_).replaced.Nodup := by
  rw [replaced_eq]
  have hrows : ((db.facts.rows.insertionSort byRetraction).map Prod.fst).Nodup :=
    ((List.perm_insertionSort byRetraction _).map Prod.fst).nodup_iff.mpr db.facts.nodup_keys
  refine hrows.sublist (List.Sublist.map _ ?_)
  exact List.filter_sublist.trans List.filter_sublist

/-- **A replacement is reported** exactly if the replaced row was retracted in the window. -/
theorem reports_iff (hf : db.facts.get? i = some f) (hptr : f.supersededBy = some w)
    (hscope : diffFactClause entityClause args f = true) :
    (diffWindow entityClause db args from_ to_).Reports i w ↔
      f.retractedAt.any (fun t => inWindow from_ to_ t) = true := by
  have hmem : i ∈ (diffWindow entityClause db args from_ to_).replaced ↔
      f.retractedAt.any (fun t => inWindow from_ to_ t) = true := by
    rw [mem_replaced_iff]
    constructor
    · rintro ⟨g, hg, hwhere, _⟩
      obtain rfl := Option.some.inj (hf.symm.trans hg)
      exact (Bool.and_eq_true_iff.mp hwhere).1
    · intro hin
      refine ⟨f, hf, ?_, by rw [hptr]; rfl⟩
      rw [retractedWhere, hin, hscope]
      rfl
  rw [← hmem]
  constructor
  · intro h
    rw [← List.count_pos_iff, h.once]
    exact Nat.one_pos
  · intro h
    refine ⟨List.count_eq_one_of_mem (nodup_replaced _ _ _ _ _) h, ?_, ?_⟩
    · intro c hc hci
      obtain ⟨q, hq, hchanged⟩ := List.mem_filterMap.mp hc
      obtain ⟨w', hw', rfl⟩ := Option.map_eq_some_iff.mp hchanged
      have hget := (mem_retractedRows.mp hq).1
      rw [show q.1 = i from hci, hf, Option.some.injEq] at hget
      rw [← hget, hptr] at hw'
      exact (Option.some.inj hw').symm
    · rintro x hx rfl
      have hnot := (List.mem_filter.mp hx).2
      rw [Bool.not_eq_true', ← Bool.not_eq_true] at hnot
      exact hnot (List.contains_iff_mem.mpr h)

/-- What a supersede leaves of a loser. -/
theorem superseded_of_resolveFact {env : DbEnv} {a : ResolveArgs} {ids : List FactId} {v : Verdict}
    {s₁ : Store} (hres : resolveFact fns env s a = .ok (.superseded w ids v, s₁)) (hi : i ∈ ids) :
    ∃ f, s₁.facts.get? i = some f ∧ f.status = .superseded ∧ f.supersededBy = some w := by
  rcases resolveFact_cases hres with
    ⟨_, hr, _⟩ | ⟨c, _, _, hs₁, ⟨_, hr⟩ | ⟨q, l, hql, _, hr⟩⟩ | ⟨_, _, _, _, _, _, _, _, _, hr⟩
  · cases hr
  · cases hr
  · cases hr
    rw [← hql, resolveCompeting_eq, KeyedTable.mem_keys_select] at hi
    obtain ⟨f, hf, hcomp⟩ := hi
    refine ⟨supersedeRow s.facts.next a.validFrom f f, ?_, rfl, rfl⟩
    rw [hs₁]
    exact (get?_settledFacts_of_get? hf).trans (by rw [settleRow, if_pos hcomp])
  · cases hr

/-- **When a replacement is reported**: of the facts that an ingest has superseded, and that
no later retract has revived, a diff reports those that have themselves been retracted in
its window since. -/
theorem replacement_reported_iff {before after : List Op} {env : DbEnv} {a : ResolveArgs}
    {ids : List FactId} {v : Verdict} {s₁ : Store} {r : MemoryDiffResult}
    (hres : resolveFact fns env (before.foldl (execOp fns) Store.empty) a
      = .ok (.superseded w ids v, s₁)) (hi : i ∈ ids)
    (hrev : ¬ Runs.Happens (execOp fns) (Revives i) s₁ after)
    (hdb : db.facts = (after.foldl (execOp fns) s₁).facts)
    (hscope : ∀ f, db.facts.get? i = some f → diffFactClause entityClause args f = true)
    (hr : memoryDiff entityClause db args = .ok r) :
    r.Reports i w ↔ Runs.Happens (execOp fns) (RetractsWithin r.from_ r.to_ i) s₁ after := by
  have hs₁ : Bookkeeping s₁.facts := by
    have hreach : Reaches fns (fun _ _ => True) (before.foldl (execOp fns) Store.empty) :=
      Runs.reached_foldl Runs.Reached.start before
    have hbook := bookkeeping_of_reaches hreach
    have hafter : afterResolve fns env (before.foldl (execOp fns) Store.empty) a = s₁ := by
      rw [afterResolve, hres]
    exact hafter ▸ hbook.ingest
  obtain ⟨f, hf, hst, hptr⟩ := superseded_of_resolveFact hres hi
  obtain ⟨f', hf', hptr', hiff⟩ :=
    run_of_superseded fns r.from_ r.to_ hs₁ hf hst after hrev
  rw [← hdb] at hf'
  rw [← hiff, memoryDiff_eq_ok hr]
  exact reports_iff hf' (hptr'.trans hptr) (hscope f' hf')

/-! ## An address that is replaced -/

/-- An address is recorded at 5. -/
def housed : List Op := [.ingest { now := 5, sourceTrust := [] } (addressFrom 0).args]

/-- At 15 another one replaces it. -/
def moved : Store :=
  afterResolve .atRecording { now := 15, sourceTrust := [] }
    (housed.foldl (execOp .atRecording) Store.empty) (addressFrom 10).args

/-- At 18 the first one is retracted. -/
def retractHoused : Op := .retract 18 0 { reason := "typo", retractedBy := .human } none

/-- Then the replacement is reported. -/
theorem moved_reported :
    ∃ v r, resolveFact .atRecording { now := 15, sourceTrust := [] }
        (housed.foldl (execOp .atRecording) Store.empty) (addressFrom 10).args
        = .ok (.superseded 1 [0] v, moved) ∧
      memoryDiff (fun _ _ => true) { facts := (execOp .atRecording moved retractHoused).facts }
        ⟨some 0, some 20, [], []⟩ = .ok r ∧ r.Reports 0 1 := by
  refine ⟨_, _, rfl, rfl, ?_⟩
  have hnot : ¬ Runs.Happens (execOp .atRecording) (Revives 0) moved [retractHoused] := by
    rintro (⟨now, root, dto, callerScopes, res, s', heq, hret, hmem⟩ | hno)
    · cases heq
      cases hret
      revert hmem
      decide +kernel
    · exact hno
  have hcarry : CarriesOut moved 0 none := ⟨_, rfl, rfl, rfl⟩
  have hres : resolveFact .atRecording { now := 15, sourceTrust := [] }
      (housed.foldl (execOp .atRecording) Store.empty) (addressFrom 10).args
      = .ok (.superseded 1 [0] _, moved) := rfl
  have hdiff : memoryDiff (fun _ _ => true)
      { facts := (execOp .atRecording moved retractHoused).facts } ⟨some 0, some 20, [], []⟩
      = .ok _ := rfl
  refine (replacement_reported_iff hres (List.mem_singleton_self 0) hnot rfl (fun f _ => rfl)
    hdiff).mpr ?_
  exact Or.inl ⟨18, _, none, rfl, hcarry, by decide⟩

/-- Without the retract it is not, and both addresses count as created. -/
theorem moved_not_reported :
    ∃ v r, resolveFact .atRecording { now := 15, sourceTrust := [] }
        (housed.foldl (execOp .atRecording) Store.empty) (addressFrom 10).args
        = .ok (.superseded 1 [0] v, moved) ∧
      memoryDiff (fun _ _ => true) { facts := moved.facts } ⟨some 0, some 20, [], []⟩ = .ok r ∧
      r.createdFacts.map FactRef.factId = [0, 1] ∧ r.changedFacts = [] ∧ ¬ r.Reports 0 1 := by
  refine ⟨_, _, rfl, rfl, ?_, ?_, ?_⟩
  · decide +kernel
  · decide +kernel
  · intro h
    have honce := h.once
    revert honce
    decide +kernel

end Reported

end Brain
