/-
Following a memory by its diffs.

An agent that asks for the diff of each window since the last one, and applies what it is told, has
at any time exactly the facts that were recorded and not retracted by the end of the last window,
whatever was ingested, retracted and compacted in between (`follow_exact`). It rests on two things:
a window that has been read is over, for every later operation writes a later time; and a fact is
not retracted before it is recorded.
-/
import Brain.Diff.Windows
import Brain.Facts.History

set_option autoImplicit false

namespace Brain

variable {fns : SurrealFns} {entityClause : EntityClause} {args : MemoryDiffArgs}
  {s : Store} {op : TenantOp} {i : FactId} {f f' : KnowledgeFact}

/-! ## The times that an operation writes -/

/-- The wall time of an operation; a re-embedding writes none. -/
def TenantOp.time : TenantOp → Option Time
  | .fact (.ingest env _) => some env.now
  | .fact (.retract now _ _ _) => some now
  | .fact (.dreams _ _ now) => some now
  | .retractFails now _ _ _ _ => some now
  | .compact _ now => some now
  | .compactFails _ now _ => some now
  | .reindex _ _ => none

/-- A row keeps its time of retraction, or gets the time of the operation. -/
def RetractsAt (time : Option Time) (f f' : KnowledgeFact) : Prop :=
  f'.retractedAt = f.retractedAt ∨
    f.retractedAt = none ∧ ∃ now, time = some now ∧ f'.retractedAt = some now

/-- What the rows of `s'` carry that come from `s` by an operation at this time. -/
def Dated (time : Option Time) (s s' : Store) : Prop :=
  ∀ i f', s'.facts.get? i = some f' →
    (∃ f, s.facts.get? i = some f ∧ RetractsAt time f f') ∨
      (s.facts.get? i = none ∧ time = some f'.recordedAt ∧ f'.retractedAt = none)

theorem dated_self (time : Option Time) (s : Store) : Dated time s s :=
  fun _ f hf => Or.inl ⟨f, hf, Or.inl rfl⟩

theorem dated_ingest (env : DbEnv) (a : ResolveArgs) :
    Dated (some env.now) s (afterResolve fns env s a) := by
  intro i f' hf'
  rcases afterResolve_cases fns env s a with ⟨hfacts, _⟩ | ⟨c, _, hfacts, _⟩ | ⟨c, _, _, hfacts, _⟩
  · rw [hfacts] at hf'
    exact Or.inl ⟨f', hf', Or.inl rfl⟩
  · rw [hfacts] at hf'
    rcases settledFacts_cases hf' with ⟨rfl, rfl⟩ | ⟨f, hf, _, rfl⟩ | ⟨hf, _⟩
    · exact Or.inr ⟨KeyedTable.get?_next _, rfl, rfl⟩
    · exact Or.inl ⟨f, hf, Or.inl rfl⟩
    · exact Or.inl ⟨f', hf, Or.inl rfl⟩
  · rw [hfacts] at hf'
    rcases contestedFacts_cases hf' with ⟨rfl, rfl⟩ | ⟨f, hf, _, rfl⟩ | ⟨hf, _⟩
    · exact Or.inr ⟨KeyedTable.get?_next _, rfl, rfl⟩
    · exact Or.inl ⟨f, hf, Or.inl rfl⟩
    · exact Or.inl ⟨f', hf, Or.inl rfl⟩

theorem dated_retract (hbooks : Books s.facts) (now : Time) (root : FactId) (dto : RetractFactDto)
    (callerScopes : Option (List BrainScope)) (n : ℕ) :
    Dated (some now) s (interruptedRetract s now root dto callerScopes n) := by
  intro i f' hf'
  by_cases hc : CarriesOut s root callerScopes
  · obtain ⟨f, hf⟩ := get?_of_interruptedRetract hf'
    refine Or.inl ⟨f, hf, ?_⟩
    rcases interruptedRetract_row_cases now dto callerScopes (hbooks.not_derives_self root) n hf
      with h | ⟨hder, h⟩ | ⟨hroot, h⟩ | ⟨hrev, h, _⟩ <;>
      obtain rfl := Option.some.inj (hf'.symm.trans h)
    · exact Or.inl rfl
    · exact Or.inr ⟨unretracted_of_derives hder hf, now, rfl, rfl⟩
    · obtain ⟨row, hrow, _, hat⟩ := hc
      rw [← hroot, hf] at hrow
      obtain rfl := Option.some.inj hrow
      exact Or.inr ⟨hat, now, rfl, rfl⟩
    · obtain ⟨_, hst, _⟩ := isRevivable_iff.mp hrev
      exact Or.inl ((hbooks i f hf).superseded hst).1.symm
  · rw [interruptedRetract_of_not_carriesOut hc] at hf'
    exact Or.inl ⟨f', hf', Or.inl rfl⟩

theorem dated_compact (cfg : CompactionConfig) (now : Time) (n : ℕ) :
    Dated (some now) s (interruptedCompact cfg now n s) := by
  intro i f' hf'
  rcases interruptedCompact_row_cases hf' with hf | ⟨f, hf, _, rfl⟩ | ⟨hle, hmem⟩
  · exact Or.inl ⟨f', hf, Or.inl rfl⟩
  · exact Or.inl ⟨f, hf, Or.inl rfl⟩
  · have hmem := List.mem_of_getElem? hmem
    obtain ⟨_, hat, _⟩ := summary_columns hmem
    obtain ⟨group, _, hsum⟩ := exists_group_of_mem_summaryRows hmem
    obtain ⟨first, last, c, _, _, _, hrow, _⟩ := summaryOf_eq_some hsum
    refine Or.inr ⟨?_, by rw [hrow]; rfl, hat⟩
    cases hf : s.facts.get? i with
    | none => rfl
    | some f => exact absurd (KeyedTable.get?_lt_next hf) (not_lt.mpr hle)

theorem dated_reindex (embed : String → List ℚ) (reached : FactId → Bool) :
    Dated none s (reindexTenant embed reached s) := by
  intro i f' hf'
  rw [reindexTenant, KeyedTable.get?_modify, Option.map_eq_some_iff] at hf'
  obtain ⟨f, hf, rfl⟩ := hf'
  refine Or.inl ⟨f, hf, Or.inl ?_⟩
  split <;> rfl

theorem dated_execTenant (hbooks : Books s.facts) (op : TenantOp) :
    Dated op.time s (execTenant fns s op) := by
  cases op with
  | fact op =>
      cases op with
      | ingest env a => exact dated_ingest env a
      | retract now root dto callerScopes =>
          show Dated (some now) s (afterRetract s now root dto callerScopes)
          rw [afterRetract_eq_interrupted]
          exact dated_retract hbooks now root dto callerScopes _
      | dreams judge cfg now =>
          show Dated (some now) s (Brain.execOp fns s (.dreams judge cfg now))
          rw [execOp_dreams]
          exact dated_self _ s
  | retractFails now root dto callerScopes n => exact dated_retract hbooks now root dto callerScopes n
  | compact cfg now =>
      show Dated (some now) s (afterCompact cfg now s)
      rw [afterCompact_eq_interrupted]
      exact dated_compact cfg now _
  | compactFails cfg now n => exact dated_compact cfg now n
  | reindex embed reached => exact dated_reindex embed reached

/-! ## What is known at a time -/

/-- The fact was recorded before `t` and not retracted before, and is in scope. -/
def Known (entityClause : EntityClause) (args : MemoryDiffArgs) (t : Time) (f : KnowledgeFact) :
    Prop :=
  f.recordedAt < t ∧ (∀ r, f.retractedAt = some r → t ≤ r) ∧
    diffFactClause entityClause args f = true

/-- No time in the store is later than the clock, and no fact ends before it begins. -/
def OnTime (clock : Time) (s : Store) : Prop :=
  ∀ i f, s.facts.get? i = some f →
    f.recordedAt ≤ clock ∧ ∀ r, f.retractedAt = some r → f.recordedAt ≤ r ∧ r ≤ clock

theorem recordedAt_of_statement (h : f'.statement = f.statement) : f'.recordedAt = f.recordedAt := by
  show f'.statement.recordedAt = f.statement.recordedAt
  rw [h]

theorem diffFactClause_of_statement (h : f'.statement = f.statement) :
    diffFactClause entityClause args f' = diffFactClause entityClause args f := by
  show diffFactClause entityClause args f'.statement = diffFactClause entityClause args f.statement
  rw [h]

/-- A row that comes from an earlier one states the same. -/
theorem statement_execTenant (hbooks : Books s.facts) (hf : s.facts.get? i = some f)
    (hf' : (execTenant fns s op).facts.get? i = some f') : f'.statement = f.statement := by
  obtain ⟨g, hg, hcont⟩ := (carries_execTenant hbooks op).2 i f hf
  rw [hf', Option.some.injEq] at hg
  rw [hg]
  exact hcont.statement

theorem OnTime.execTenant {clock : Time} (h : OnTime clock s) (hbooks : Books s.facts)
    (htime : clock ≤ op.time.getD clock) :
    OnTime (op.time.getD clock) (execTenant fns s op) := by
  intro i f' hf'
  rcases dated_execTenant hbooks op i f' hf' with ⟨f, hf, hat⟩ | ⟨_, hrecorded, hat⟩
  · obtain ⟨hle, hretracted⟩ := h i f hf
    have hsame := recordedAt_of_statement (statement_execTenant hbooks hf hf')
    rw [hsame]
    refine ⟨hle.trans htime, fun r hr => ?_⟩
    rcases hat with heq | ⟨_, now, hnow, heq⟩
    · obtain ⟨hr', hclock⟩ := hretracted r (heq ▸ hr)
      exact ⟨hr', hclock.trans htime⟩
    · rw [hnow, Option.getD_some] at htime ⊢
      obtain rfl := Option.some.inj (heq.symm.trans hr)
      exact ⟨hle.trans htime, le_rfl⟩
  · rw [hrecorded, hat]
    exact ⟨le_rfl, fun r hr => by cases hr⟩

/-- **The past stays as it is**: an operation does not change what was known when the clock had
already passed. -/
theorem known_execTenant_iff {clock t : Time} (hbooks : Books s.facts) (ht : t ≤ clock)
    (htime : clock ≤ op.time.getD clock) (i : FactId) :
    (∃ f, (execTenant fns s op).facts.get? i = some f ∧ Known entityClause args t f) ↔
      ∃ f, s.facts.get? i = some f ∧ Known entityClause args t f := by
  constructor
  · rintro ⟨f', hf', hrecorded, hretracted, hclause⟩
    rcases dated_execTenant hbooks op i f' hf' with ⟨f, hf, hat⟩ | ⟨_, hnew, _⟩
    · have hsame := statement_execTenant hbooks hf hf'
      refine ⟨f, hf, recordedAt_of_statement hsame ▸ hrecorded, fun r hr => ?_,
        diffFactClause_of_statement hsame ▸ hclause⟩
      rcases hat with heq | ⟨hnone, _⟩
      · exact hretracted r (heq.trans hr)
      · rw [hnone] at hr
        cases hr
    · -- what is recorded now is not recorded before
      rw [hnew, Option.getD_some] at htime
      exact absurd hrecorded (not_lt.mpr (ht.trans htime))
  · rintro ⟨f, hf, hrecorded, hretracted, hclause⟩
    obtain ⟨f', hf', hcont⟩ := (@carries_execTenant fns _ hbooks op).2 i f hf
    refine ⟨f', hf', (recordedAt_of_statement hcont.statement).symm ▸ hrecorded, fun r hr => ?_,
      (diffFactClause_of_statement hcont.statement).symm ▸ hclause⟩
    rcases dated_execTenant hbooks op i f' hf' with ⟨g, hg, hat⟩ | ⟨hnone, _⟩
    · obtain rfl := Option.some.inj (hf.symm.trans hg)
      rcases hat with heq | ⟨_, now, hnow, heq⟩
      · exact hretracted r (heq ▸ hr)
      · rw [hnow, Option.getD_some] at htime
        obtain rfl := Option.some.inj (heq.symm.trans hr)
        exact ht.trans htime
    · rw [hf] at hnone
      cases hnone

/-! ## Applying a diff -/

/-- What the agent knows when it has applied a diff. -/
def applyDiff (known : List FactId) (r : MemoryDiffResult) : List FactId :=
  (known ++ r.createdFacts.map FactRef.factId).filter (fun i => !r.ended.contains i)

theorem mem_ended_iff {db : TenantDb} {a b : Time} :
    i ∈ (diffWindow entityClause db args a b).ended ↔
      ∃ f, db.facts.get? i = some f ∧ retractedWhere entityClause args a b f = true := by
  refine ⟨retractedWhere_of_mem_ended, ?_⟩
  rintro ⟨f, hf, hwhere⟩
  have hrow : (i, f) ∈ retractedRows entityClause db.facts args a b :=
    mem_retractedRows.mpr ⟨hf, hwhere⟩
  rw [MemoryDiffResult.ended, List.mem_append]
  cases hw : f.supersededBy with
  | none =>
      refine Or.inl (List.mem_map.mpr ⟨rowToFactRef (i, f), ?_, rfl⟩)
      exact List.mem_map.mpr ⟨(i, f), List.mem_filter.mpr ⟨hrow, by rw [hw]; rfl⟩, rfl⟩
  | some w =>
      refine Or.inr (List.mem_map.mpr ⟨⟨i, w, rowToFactRef (i, f),
        (db.facts.get? w).map (fun g => rowToFactRef (w, g))⟩,
        List.mem_filterMap.mpr ⟨(i, f), hrow, ?_⟩, rfl⟩)
      rw [changedFact, hw]
      rfl

/-- A fact that is created in the window is listed, unless it ends there. -/
theorem mem_created_iff {db : TenantDb} {a b : Time}
    (hend : i ∉ (diffWindow entityClause db args a b).ended) :
    i ∈ (diffWindow entityClause db args a b).createdFacts.map FactRef.factId ↔
      ∃ f, db.facts.get? i = some f ∧ createdWhere entityClause args a b f = true := by
  rw [List.mem_map]
  constructor
  · rintro ⟨x, hx, rfl⟩
    obtain ⟨q, hq, rfl⟩ := List.mem_map.mp (List.mem_filter.mp hx).1
    exact ⟨q.2, mem_createdRows.mp hq⟩
  · rintro ⟨f, hf, hwhere⟩
    refine ⟨rowToFactRef (i, f), List.mem_filter.mpr ⟨?_, ?_⟩, rfl⟩
    · exact List.mem_map.mpr ⟨(i, f), mem_createdRows.mpr ⟨hf, hwhere⟩, rfl⟩
    · rw [Bool.not_eq_true', Bool.eq_false_iff, Ne, List.contains_iff_mem]
      exact fun hmem => hend (List.mem_append_right _ hmem)

/-- **A diff takes what was known to what is known.** -/
theorem mem_applyDiff_iff {db : TenantDb} {a b clock : Time} {known : List FactId} (hab : a ≤ b)
    (hclock : OnTime clock db.toStore)
    (hknown : i ∈ known ↔ ∃ f, db.facts.get? i = some f ∧ Known entityClause args a f) :
    i ∈ applyDiff known (diffWindow entityClause db args a b) ↔
      ∃ f, db.facts.get? i = some f ∧ Known entityClause args b f := by
  rw [applyDiff, List.mem_filter, Bool.not_eq_true', Bool.eq_false_iff, Ne, List.contains_iff_mem,
    List.mem_append]
  constructor
  · rintro ⟨hmem, hend⟩
    rw [mem_created_iff hend, hknown] at hmem
    rw [mem_ended_iff] at hend
    rcases hmem with ⟨f, hf, hrecorded, hretracted, hclause⟩ | ⟨f, hf, hwhere⟩
    · refine ⟨f, hf, hrecorded.trans_le hab, fun r hr => ?_, hclause⟩
      by_contra hlt
      refine hend ⟨f, hf, ?_⟩
      rw [retractedWhere, hr, hclause, Bool.and_true]
      exact inWindow_iff.mpr ⟨hretracted r hr, not_le.mp hlt⟩
    · rw [createdWhere, Bool.and_eq_true, inWindow_iff] at hwhere
      obtain ⟨⟨hle, hlt⟩, hclause⟩ := hwhere
      refine ⟨f, hf, hlt, fun r hr => ?_, hclause⟩
      by_contra hearly
      refine hend ⟨f, hf, ?_⟩
      rw [retractedWhere, hr, hclause, Bool.and_true]
      exact inWindow_iff.mpr ⟨hle.trans ((hclock i f hf).2 r hr).1, not_le.mp hearly⟩
  · rintro ⟨f, hf, hrecorded, hretracted, hclause⟩
    have hend : i ∉ (diffWindow entityClause db args a b).ended := by
      rw [mem_ended_iff]
      rintro ⟨g, hg, hwhere⟩
      obtain rfl := Option.some.inj (hf.symm.trans hg)
      rw [retractedWhere, Bool.and_eq_true, Option.any_eq_true] at hwhere
      obtain ⟨⟨r, hr, hin⟩, _⟩ := hwhere
      exact absurd (inWindow_iff.mp hin).2 (not_lt.mpr (hretracted r hr))
    refine ⟨?_, hend⟩
    rw [mem_created_iff hend, hknown]
    rcases lt_or_ge f.recordedAt a with hlt | hle
    · exact Or.inl ⟨f, hf, hlt, fun r hr => hab.trans (hretracted r hr), hclause⟩
    · refine Or.inr ⟨f, hf, ?_⟩
      rw [createdWhere, inWindow_iff.mpr ⟨hle, hrecorded⟩, hclause]
      rfl

/-! ## Following a memory -/

/-- A tenant, its wall clock, and an agent that knows its facts up to a time. -/
structure Follower where
  store : Store := .empty
  clock : Time
  known : List FactId := []
  upTo : Time

inductive FollowStep where
  | op (op : TenantOp)
  /-- The agent asks for what has changed since it last asked. -/
  | diff (to_ : Time)

def follow (fns : SurrealFns) (entityClause : EntityClause) (args : MemoryDiffArgs) (x : Follower) :
    FollowStep → Follower
  | .op op => { x with store := execTenant fns x.store op, clock := op.time.getD x.clock }
  | .diff to_ =>
      match memoryDiff entityClause { facts := x.store.facts }
        { args with from_ := some x.upTo, to_ := some to_ } with
      | .ok r => { x with known := applyDiff x.known r, upTo := to_ }
      | .error _ => x

/-- Time passes, and the agent does not ask for what is yet to come. -/
def InTime (x : Follower) : FollowStep → Prop
  | .op op => x.clock ≤ op.time.getD x.clock
  | .diff to_ => to_ ≤ x.clock

/-- The agent knows what there was to know. -/
structure UpToDate (entityClause : EntityClause) (args : MemoryDiffArgs) (x : Follower) : Prop where
  books : Books x.store.facts
  onTime : OnTime x.clock x.store
  past : x.upTo ≤ x.clock
  known : ∀ i, i ∈ x.known ↔
    ∃ f, x.store.facts.get? i = some f ∧ Known entityClause args x.upTo f

theorem UpToDate.follow {x : Follower} (h : UpToDate entityClause args x) {step : FollowStep}
    (hstep : InTime x step) : UpToDate entityClause args (follow fns entityClause args x step) := by
  cases step with
  | op op =>
      refine ⟨h.books.execTenant op, h.onTime.execTenant h.books hstep,
        h.past.trans hstep, fun i => ?_⟩
      exact (h.known i).trans (known_execTenant_iff h.books h.past hstep i).symm
  | diff to_ =>
      unfold Brain.follow
      dsimp only
      by_cases hlt : x.upTo < to_
      · have hok : memoryDiff entityClause { facts := x.store.facts }
            { args with from_ := some x.upTo, to_ := some to_ }
            = .ok (diffWindow entityClause { facts := x.store.facts }
              { args with from_ := some x.upTo, to_ := some to_ } x.upTo to_) := by
          unfold memoryDiff
          dsimp only
          rw [if_neg (not_le.mpr hlt)]
        rw [hok]
        exact ⟨h.books, h.onTime, hstep,
          fun i => mem_applyDiff_iff hlt.le h.onTime (h.known i)⟩
      · have herror : memoryDiff entityClause { facts := x.store.facts }
            { args with from_ := some x.upTo, to_ := some to_ }
            = .error "memory_diff: from must be strictly before to" := by
          unfold memoryDiff
          dsimp only
          rw [if_pos (not_lt.mp hlt)]
        rw [herror]
        exact h

/-- **An agent that follows a memory by its diffs** knows what there was to know: after any
operations on the tenant at non-decreasing times, each of which may fail on its way, and any diffs
of consecutive windows that were over when they were read, the agent has exactly the facts in its
scope that were recorded before the end of the last window and not retracted before it. -/
theorem follow_exact {clock upTo : Time} (hpast : upTo ≤ clock) {x : Follower}
    (h : Runs.Reached (follow fns entityClause args) InTime { clock := clock, upTo := upTo } x)
    (i : FactId) :
    i ∈ x.known ↔ ∃ f, x.store.facts.get? i = some f ∧ f.recordedAt < x.upTo ∧
      (∀ r, f.retractedAt = some r → x.upTo ≤ r) ∧ diffFactClause entityClause args f = true := by
  have hfollows : UpToDate entityClause args x :=
    h.invariant (P := UpToDate entityClause args)
      ⟨fun i f hf => (by cases hf), fun i f hf => (by cases hf), hpast,
        fun i => ⟨fun hi => (by cases hi), fun ⟨f, hf, _⟩ => (by cases hf)⟩⟩
      (fun _ _ hx hstep => hx.follow hstep)
  exact hfollows.known i

def wholeMemory : MemoryDiffArgs where
  from_ := none
  to_ := none

def nobodyYet : Follower where
  clock := 0
  upTo := 0

/-- An address is recorded. -/
def addressKnown : Follower :=
  follow .atRecording (fun _ _ => true) wholeMemory nobodyYet
    (.op (.fact (.ingest { now := 5, sourceTrust := [] } (addressFrom 0).args)))

/-- A compaction run comes after it, and the agent asks for what there was before. -/
def addressRead : Follower :=
  follow .atRecording (fun _ _ => true) wholeMemory
    (follow .atRecording (fun _ _ => true) wholeMemory addressKnown (.op (.compact .concat 7)))
    (.diff 6)

theorem follow_exact_address :
    addressRead.known = [0] ∧
    ∀ i, i ∈ addressRead.known ↔
      ∃ f, addressRead.store.facts.get? i = some f ∧ f.recordedAt < addressRead.upTo ∧
        (∀ r, f.retractedAt = some r → addressRead.upTo ≤ r) ∧
        diffFactClause (fun _ _ => true) wholeMemory f = true := by
  have hknown : Runs.Reached (follow .atRecording (fun _ _ => true) wholeMemory) InTime nobodyYet
      addressKnown := .next _ .start (show (0 : ℤ) ≤ 5 by decide)
  have hcompact := Runs.Reached.next (FollowStep.op (.compact .concat 7)) hknown
    (show (5 : ℤ) ≤ 7 by decide)
  have hread := Runs.Reached.next (FollowStep.diff 6) hcompact (show (6 : ℤ) ≤ 7 by decide)
  refine ⟨?_, follow_exact (le_refl (0 : Time)) hread⟩
  decide +kernel

end Brain
