/-
A job with a `dedupKey` is put into the queue once.

No statement removes a row of `job_run` or changes its number, its type or its key, so a key
that has been taken stays taken: whatever the workers, the reaper and the other callers do
meanwhile, and in whatever state the job is by then, every later call with the key answers
with the run that the first one has created (`enqueue_once`).
-/
import Brain.Jobs.JobQueue

set_option autoImplicit false

namespace Brain.Jobs

variable {q q' : Queue} {ref : JobRef} {r r' : JobRun} {op : QueueOp}

/-! ## What a row keeps -/

/-- The columns that say which job a row is. -/
structure SameJob (r r' : JobRun) : Prop where
  runId : r'.runId = r.runId
  jobType : r'.jobType = r.jobType
  dedupKey : r'.dedupKey = r.dedupKey

theorem RowStep.sameJob (h : RowStep q ref r op r') : SameJob r r' := by
  cases h with
  | claimed => exact ⟨rfl, rfl, rfl⟩
  | owner hw _ =>
      cases hw with
      | renew => exact ⟨rfl, rfl, rfl⟩
      | complete => exact ⟨rfl, rfl, rfl⟩
      | fail _ input clientNow random _ =>
          unfold FailInput.write
          split <;> exact ⟨rfl, rfl, rfl⟩
      | cancelled => exact ⟨rfl, rfl, rfl⟩
  | cancelFlagged => exact ⟨rfl, rfl, rfl⟩
  | reaped =>
      unfold Zombie.write
      split <;> exact ⟨rfl, rfl, rfl⟩

/-- A row after a step is the job that it was. -/
theorem sameJob_of_step (h : q.row? ref = some r) (h' : (q.step op).row? ref = some r') :
    SameJob r r' := by
  rcases row?_step_of_eq h h' with rfl | hstep
  · exact ⟨rfl, rfl, rfl⟩
  · exact hstep.sameJob

theorem collides_iff : r.collides r' = true ↔
    r.runId = r'.runId ∨ r.dedupKey.isSome = true ∧ r.jobType = r'.jobType ∧
      r.dedupKey = r'.dedupKey := by
  simp only [JobRun.collides, Bool.or_eq_true, Bool.and_eq_true, beq_iff_eq, and_assoc]

theorem collides_symm (h : r.collides r' = true) : r'.collides r = true := by
  rw [collides_iff] at h ⊢
  rcases h with hrun | ⟨hsome, htype, hkey⟩
  · exact Or.inl hrun.symm
  · exact Or.inr ⟨hkey ▸ hsome, htype.symm, hkey.symm⟩

theorem SameJob.collides_iff {s s' : JobRun} (h : SameJob r r') (hs : SameJob s s') :
    r'.collides s' = r.collides s := by
  unfold JobRun.collides
  rw [h.runId, h.jobType, h.dedupKey, hs.runId, hs.jobType, hs.dedupKey]

/-! ## The unique indexes -/

/-- No two rows of a tenant that an index does not admit together. -/
def Queue.Indexed (q : Queue) : Prop :=
  ∀ (c : String) (i j : ℕ) (r r' : JobRun), q.row? ⟨c, i⟩ = some r → q.row? ⟨c, j⟩ = some r' →
    r.collides r' = true → i = j

theorem Queue.Indexed.step (h : q.Indexed) (op : QueueOp) : (q.step op).Indexed := by
  intro c i j r r' hr hr' hcollides
  cases hi : q.row? ⟨c, i⟩ with
  | some r₀ =>
      have hsame := sameJob_of_step hi hr
      cases hj : q.row? ⟨c, j⟩ with
      | some r₀' =>
          refine h c i j r₀ r₀' hi hj ?_
          rw [← hsame.collides_iff (sameJob_of_step hj hr')]
          exact hcollides
      | none =>
          -- the second row is new, and collides with none that is there
          obtain ⟨_, _, _, _, _, _, _, hfree⟩ := step_new_row hj hr'
          have hnot := hfree i r₀ hi
          rw [← SameJob.collides_iff ⟨rfl, rfl, rfl⟩ hsame, collides_symm hcollides] at hnot
          cases hnot
  | none =>
      obtain ⟨_, _, _, _, _, _, hid, hfree⟩ := step_new_row hi hr
      cases hj : q.row? ⟨c, j⟩ with
      | some r₀' =>
          have hnot := hfree j r₀' hj
          rw [← SameJob.collides_iff ⟨rfl, rfl, rfl⟩ (sameJob_of_step hj hr'), hcollides] at hnot
          cases hnot
      | none =>
          obtain ⟨_, _, _, _, _, _, hid', _⟩ := step_new_row hj hr'
          exact hid.trans hid'.symm

theorem indexed_of_reachable {clock : Time} (h : q.Reachable clock) : q.Indexed :=
  h.invariant (fun _ _ _ _ _ hr => by cases hr) (fun _ op hq _ => hq.step op)

/-! ## A key that is taken -/

/-- A row of the tenant has the key. -/
def Queue.Taken (q : Queue) (c : String) (jobType : JobType) (key runId : String) : Prop :=
  ∃ i r, q.row? ⟨c, i⟩ = some r ∧ r.jobType = jobType ∧ r.dedupKey = some key ∧ r.runId = runId

variable {c key runId : String} {jobType : JobType}

theorem Queue.Taken.step (h : q.Taken c jobType key runId) (op : QueueOp) :
    (q.step op).Taken c jobType key runId := by
  obtain ⟨i, r, hr, htype, hkey, hrun⟩ := h
  obtain ⟨r', hr', _⟩ := step_row hr op
  have hsame := sameJob_of_step hr hr'
  exact ⟨i, r', hr', hsame.jobType.trans htype, hsame.dedupKey.trans hkey, hsame.runId.trans hrun⟩

/-- The row that `findByDedup` returns is the one with the key. -/
theorem findByDedup_of_taken (hq : q.Indexed) (h : q.Taken c jobType key runId) :
    findByDedup jobType key (q.dbs c) = some runId := by
  obtain ⟨i, r, hr, htype, hkey, hrun⟩ := h
  have hmem : (i, r) ∈ (q.dbs c).select
      (fun _ r => r.jobType == jobType && r.dedupKey == some key) := by
    rw [KeyedTable.mem_select]
    exact ⟨hr, by rw [htype, hkey, beq_self_eq_true, beq_self_eq_true, Bool.and_self]⟩
  unfold findByDedup
  cases hrows : (q.dbs c).select
      (fun _ r => r.jobType == jobType && r.dedupKey == some key) with
  | nil =>
      rw [hrows] at hmem
      cases hmem
  | cons p rest =>
      have hp : p ∈ (q.dbs c).select
          (fun _ r => r.jobType == jobType && r.dedupKey == some key) := by
        rw [hrows]
        exact List.mem_cons_self
      obtain ⟨hget, hwhere⟩ := KeyedTable.mem_select.mp hp
      rw [Bool.and_eq_true, beq_iff_eq, beq_iff_eq] at hwhere
      have hcollides : r.collides p.2 = true := by
        rw [collides_iff, hkey, hwhere.2, htype, hwhere.1]
        exact Or.inr ⟨rfl, rfl, rfl⟩
      obtain rfl : i = p.1 := hq c i p.1 r p.2 hr hget hcollides
      have hrow : r = p.2 := Option.some.inj (hr.symm.trans hget)
      rw [List.head?_cons, Option.map_some, ← hrow, hrun]

/-- A call with a key that is taken answers with its run, and leaves the table as it is. -/
theorem enqueue_of_taken (hq : q.Indexed) (h : q.Taken c jobType key runId) (hempty : key ≠ "")
    {input : EnqueueInput} (htype : input.jobType = jobType) (hkey : input.dedupKey = some key)
    (newId : String) (traceparent : Option String) (now clientNow : Time) :
    enqueue input newId traceparent now clientNow (q.dbs c) = (some (runId, false), q.dbs c) := by
  have hfind := findByDedup_of_taken hq h
  obtain ⟨i, r, hr, hrtype, hrkey, _⟩ := h
  have hnone : createJobRun (input.row newId traceparent now clientNow) (q.dbs c) = none := by
    unfold createJobRun
    refine if_neg (fun hfree => ?_)
    have hnot := KeyedTable.select_eq_nil_iff.mp (List.isEmpty_iff.mp hfree) i r hr
    have hcollides : (input.row newId traceparent now clientNow).collides r = true := by
      rw [collides_iff, hrtype, hrkey]
      exact Or.inr ⟨by rw [EnqueueInput.row, hkey]; rfl, htype, hkey⟩
    rw [hcollides] at hnot
    cases hnot
  unfold enqueue
  rw [hnone, hkey]
  dsimp only
  rw [if_neg hempty, htype, hfind]
  rfl

/-- The row of a call that answers `created`. -/
theorem taken_of_enqueue {input : EnqueueInput} {runId newId : String}
    {traceparent : Option String} {clientNow : Time} (hkey : input.dedupKey = some key)
    (h : (enqueue input newId traceparent q.clock clientNow (q.dbs c)).1 = some (runId, true)) :
    (q.step (.enqueue c input newId traceparent clientNow)).Taken c input.jobType key runId := by
  have hdb : (q.step (.enqueue c input newId traceparent clientNow)).dbs c
      = (enqueue input newId traceparent q.clock clientNow (q.dbs c)).2 := Function.update_self ..
  cases hcreate : createJobRun (input.row newId traceparent q.clock clientNow) (q.dbs c) with
  | some db' =>
      obtain ⟨rfl, _⟩ := createJobRun_eq_some hcreate
      have henqueue : enqueue input newId traceparent q.clock clientNow (q.dbs c)
          = (some (newId, true),
              (q.dbs c).insert (input.row newId traceparent q.clock clientNow)) := by
        unfold enqueue
        rw [hcreate]
      rw [henqueue] at h hdb
      obtain ⟨rfl, _⟩ := Prod.mk.inj (Option.some.inj h)
      refine ⟨(q.dbs c).next, input.row newId traceparent q.clock clientNow, ?_, rfl, hkey, rfl⟩
      rw [Queue.row?, hdb, KeyedTable.get?_insert, if_pos rfl]
  | none =>
      unfold enqueue at h
      rw [hcreate, hkey] at h
      dsimp only at h
      split at h
      · cases h
      · obtain ⟨existing, _, heq⟩ := Option.map_eq_some_iff.mp h
        cases heq

/-- **A job is enqueued once**: in every state that some interleaving of all users of the queue
leads to, no two rows of a tenant have one number, or one type and key; and once a call has
created a run for a key, every call with the key, at any time after it, answers with this run and
creates none. -/
theorem enqueue_once {clock : Time} {q : Queue} (h : q.Reachable clock) :
    (∀ (c : String) (i j : ℕ) (r r' : JobRun), q.row? ⟨c, i⟩ = some r → q.row? ⟨c, j⟩ = some r' →
        r.runId = r'.runId ∨ r.dedupKey.isSome = true ∧ r.jobType = r'.jobType ∧
          r.dedupKey = r'.dedupKey → i = j) ∧
      ∀ (c key : String) (input : EnqueueInput) (newId runId : String)
        (traceparent : Option String) (clientNow : Time), input.dedupKey = some key → key ≠ "" →
        (enqueue input newId traceparent q.clock clientNow (q.dbs c)).1 = some (runId, true) →
        ∀ q', Runs.Reached Queue.step (fun _ _ => True)
            (q.step (.enqueue c input newId traceparent clientNow)) q' →
          ∀ (input' : EnqueueInput) (newId' : String) (traceparent' : Option String)
            (clientNow' : Time), input'.jobType = input.jobType → input'.dedupKey = some key →
            enqueue input' newId' traceparent' q'.clock clientNow' (q'.dbs c)
              = (some (runId, false), q'.dbs c) := by
  have hindexed := indexed_of_reachable h
  refine ⟨fun c i j r r' hr hr' hcollides => hindexed c i j r r' hr hr' (collides_iff.mpr hcollides),
    ?_⟩
  intro c key input newId runId traceparent clientNow hkey hempty hcreated q' hlater input' newId'
    traceparent' clientNow' htype' hkey'
  have hlast : q'.Indexed ∧ q'.Taken c input.jobType key runId :=
    hlater.invariant (P := fun q' => q'.Indexed ∧ q'.Taken c input.jobType key runId)
      ⟨hindexed.step _, taken_of_enqueue hkey hcreated⟩
      (fun _ op hq _ => ⟨hq.1.step op, hq.2.step op⟩)
  exact enqueue_of_taken hlast.1 hlast.2 hempty htype' hkey' newId' traceparent' _ clientNow'

/-- The daily job of a tenant. -/
def dailyDreams : EnqueueInput where
  jobType := .dreams
  triggeredBy := .cron
  dedupKey := some "dreams_2026-01-01"

/-- Two pods at the same hour. -/
theorem enqueue_once_two_pods :
    enqueue dailyDreams "b" none 0 0
        (((Queue.init 0).step (.enqueue "acme" dailyDreams "a" none 0)).dbs "acme")
      = (some ("a", false),
          ((Queue.init 0).step (.enqueue "acme" dailyDreams "a" none 0)).dbs "acme") :=
  (enqueue_once (q := Queue.init 0) .start).2 "acme" "dreams_2026-01-01" dailyDreams "a" "a" none 0
    rfl (by decide) rfl _ .start dailyDreams "b" none 0 rfl rfl

end Brain.Jobs
