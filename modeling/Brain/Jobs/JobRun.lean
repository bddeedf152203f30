/-
The rows of `job_run` (`src/src/db/migrations/0025_job_run.surql`, with the claim columns
of 0028, `payload` of 0030 and `traceparent` of 0031), in the database of one tenant, and
the cancellation of `src/src/jobs/job-run.service.ts`.

Objects that the queue only carries (`payload`, `progress`, `result`) are lists of
fields. Record ids are natural numbers drawn in creation order.
-/
import Brain.Db.KnowledgeFact

set_option autoImplicit false

namespace Brain.Jobs

/-! ## Columns -/

inductive JobType where
  | dreams | compaction | calibrationRefit | sourceTrustRefit | reindexEmbeddings | changefeedDrain
deriving DecidableEq, Repr

inductive JobStatus where
  | pending | running | succeeded | failed | cancelled
deriving DecidableEq, Repr

/-- The statuses that a row is to end in. -/
def JobStatus.Terminal (s : JobStatus) : Prop := s = .succeeded ∨ s = .failed ∨ s = .cancelled

instance (s : JobStatus) : Decidable s.Terminal := by
  unfold JobStatus.Terminal
  infer_instance

inductive TriggeredBy where
  | cron | manual | startup
deriving DecidableEq, Repr

/-- `{ message, name }`. -/
structure JobError where
  message : String
  name : Option String := none
deriving DecidableEq, Repr

/-- A free-form object. -/
abbrev JobObject := List (String × String)

/-- `hostname#pid`. -/
abbrev WorkerId := String

/-- A row of `job_run`. -/
structure JobRun where
  runId : String
  jobType : JobType
  status : JobStatus
  triggeredBy : TriggeredBy
  triggeredByActor : Option String := none
  startedAt : Time
  finishedAt : Option Time := none
  progress : Option JobObject := none
  payload : Option JobObject := none
  result : Option JobObject := none
  error : Option JobError := none
  cancelRequested : Bool := false
  claimedBy : Option WorkerId := none
  claimedAt : Option Time := none
  leaseUntil : Option Time := none
  heartbeatAt : Option Time := none
  attempts : ℕ := 0
  dedupKey : Option String := none
  visibleAfter : Time
  traceparent : Option String := none
deriving DecidableEq

/-- The table of one tenant. -/
abbrev JobDb := KeyedTable JobRun

/-! ## Cancellation -/

/-- `WHERE runId = $runId AND status IN ['pending', 'running']`. -/
def JobRun.cancellable (runId : String) (r : JobRun) : Bool :=
  r.runId == runId && (r.status == .pending || r.status == .running)

/-- The `SET` of `requestCancel`: a pending row is cancelled, a running one is flagged. -/
def JobRun.cancelFlagged (now : Time) (r : JobRun) : JobRun :=
  { r with
    cancelRequested := true
    status := if r.status = .pending then .cancelled else r.status
    finishedAt := if r.status = .pending then some now else r.finishedAt
    claimedBy := if r.status = .pending then none else r.claimedBy
    leaseUntil := if r.status = .pending then none else r.leaseUntil }

/-- `JobRunService.requestCancel`: the answer, and the table it leaves. `persistEnabled`
is `JOB_RUN_PERSIST !== '0'`; without it the request only leaves a hint in the process
that received it. -/
def requestCancel (persistEnabled : Bool) (runId : String) (now : Time) (db : JobDb) :
    Bool × JobDb :=
  if persistEnabled then
    (!(db.select (fun _ r => r.cancellable runId)).isEmpty,
      db.modify (fun _ r => r.cancellable runId) (JobRun.cancelFlagged now))
  else (true, db)

/-- A request that reaches the table and is granted has found its row. -/
theorem requestCancel_granted {runId : String} {now : Time} {db : JobDb}
    (h : (requestCancel true runId now db).1 = true) :
    ∃ i r, db.get? i = some r ∧ r.cancellable runId = true := by
  by_contra hno
  have hnil : db.select (fun _ r => r.cancellable runId) = [] := by
    apply KeyedTable.select_eq_nil_iff.mpr
    intro i r hr
    by_contra hc
    exact hno ⟨i, r, hr, by simpa using hc⟩
  simp [requestCancel, hnil] at h

theorem JobRun.status_of_cancellable {runId : String} {r : JobRun}
    (h : r.cancellable runId = true) : r.status = .pending ∨ r.status = .running := by
  simp only [JobRun.cancellable, Bool.and_eq_true, Bool.or_eq_true, beq_iff_eq] at h
  exact h.2

theorem JobRun.runId_of_cancellable {runId : String} {r : JobRun}
    (h : r.cancellable runId = true) : r.runId = runId := by
  simp only [JobRun.cancellable, Bool.and_eq_true, beq_iff_eq] at h
  exact h.1

/-- A flagged row is not pending. -/
theorem JobRun.cancelFlagged_status_ne_pending (now : Time) (r : JobRun) :
    (r.cancelFlagged now).status ≠ .pending := by
  unfold JobRun.cancelFlagged
  dsimp only
  split
  · simp
  · assumption

end Brain.Jobs
