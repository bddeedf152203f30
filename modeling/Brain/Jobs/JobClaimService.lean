/-
The CAS primitives on `job_run` (`src/src/jobs/job-claim.service.ts`), each a function on
the table of one tenant.

What a worker writes goes through `WHERE claimedBy = $me AND status = 'running'`
(`updateOwned`). What a sweep of the reaper writes does not: it has selected its rows
before, and updates them by their ids (`reapRow`).

`now` is the clock of the database, `clientNow` that of the process that calls, and
`random` what `Math.random()` returns there. Where a statement leaves a choice to the
database, its choice is an argument too.
-/
import Brain.Jobs.JobRun

set_option autoImplicit false

namespace Brain.Jobs

/-! ## `enqueue` -/

structure EnqueueInput where
  jobType : JobType
  triggeredBy : TriggeredBy
  triggeredByActor : Option String := none
  dedupKey : Option String := none
  payload : Option JobObject := none
  visibleAfter : Option Time := none

/-- The row that `enqueue` creates. -/
def EnqueueInput.row (input : EnqueueInput) (runId : String) (traceparent : Option String)
    (now clientNow : Time) : JobRun where
  runId := runId
  jobType := input.jobType
  status := .pending
  triggeredBy := input.triggeredBy
  triggeredByActor := input.triggeredByActor
  startedAt := now
  progress := input.payload
  payload := input.payload
  dedupKey := input.dedupKey
  visibleAfter := input.visibleAfter.getD clientNow
  traceparent := traceparent

/-- Two rows that one of the unique indexes of the table does not admit together:
`job_run_runId_idx`, or `job_run_dedup_idx` where there is a key. -/
def JobRun.collides (r r' : JobRun) : Bool :=
  r.runId == r'.runId ||
    (r.dedupKey.isSome && r.jobType == r'.jobType && r.dedupKey == r'.dedupKey)

/-- `CREATE job_run`; `none` is a unique violation. -/
def createJobRun (r : JobRun) (db : JobDb) : Option JobDb :=
  if (db.select (fun _ r' => r.collides r')).isEmpty then some (db.insert r) else none

/-- `findByDedup`. -/
def findByDedup (jobType : JobType) (dedupKey : String) (db : JobDb) : Option String :=
  ((db.select (fun _ r => r.jobType == jobType && r.dedupKey == some dedupKey)).head?).map
    (fun q => q.2.runId)

/-- `enqueue`: the answer `{ runId, created }`, or `none` where it throws. -/
def enqueue (input : EnqueueInput) (runId : String) (traceparent : Option String)
    (now clientNow : Time) (db : JobDb) : Option (String × Bool) × JobDb :=
  match createJobRun (input.row runId traceparent now clientNow) db with
  | some db' => (some (runId, true), db')
  | none =>
      match input.dedupKey with
      | none => (none, db)
      | some key =>
          -- an empty key is falsy
          if key = "" then (none, db)
          else ((findByDedup input.jobType key db).map (fun existing => (existing, false)), db)

/-! ## `claimNext` -/

/-- `WHERE jobType = $jobType AND status = 'pending' AND visibleAfter <= time::now()`. -/
def JobRun.claimable (jobType : JobType) (now : Time) (r : JobRun) : Bool :=
  r.jobType == jobType && r.status == .pending && decide (r.visibleAfter ≤ now)

/-- Whether `ORDER BY visibleAfter ASC LIMIT 1` may return row `i`: of several earliest
rows it returns some. -/
def earliestClaimable (jobType : JobType) (now : Time) (i : ℕ) (db : JobDb) : Bool :=
  match db.get? i with
  | none => false
  | some r =>
      r.claimable jobType now &&
        (db.select (fun _ r' => r'.claimable jobType now)).all
          (fun q => decide (r.visibleAfter ≤ q.2.visibleAfter))

/-- The `SET` of `claimNext`. -/
def JobRun.claimed (me : WorkerId) (ttlSeconds : ℕ) (now : Time) (r : JobRun) : JobRun :=
  { r with
    status := .running
    claimedBy := some me
    claimedAt := some now
    leaseUntil := some (now + 1000 * ttlSeconds)
    heartbeatAt := some now
    attempts := r.attempts + 1 }

structure JobClaim where
  recordId : ℕ
  runId : String
  jobType : JobType
  companyId : String
  attempts : ℕ
  payload : Option JobObject
  leaseUntil : Time
  traceparent : Option String
deriving DecidableEq

/-- The claim on a row as `claimNext` has left it. A row without a `runId` is none. -/
def JobRun.toClaim (companyId : String) (recordId : ℕ) (ttlSeconds : ℕ) (now : Time)
    (r : JobRun) : Option JobClaim :=
  if r.runId = "" then none
  else some
    { recordId := recordId
      runId := r.runId
      jobType := r.jobType
      companyId := companyId
      attempts := r.attempts
      payload := r.payload
      leaseUntil := now + 1000 * ttlSeconds
      traceparent := r.traceparent }

/-- `claimNext`, where the `SELECT` returns row `pick`. -/
def claimNext (me : WorkerId) (companyId : String) (jobType : JobType) (ttlSeconds : ℕ)
    (now : Time) (pick : ℕ) (db : JobDb) : Option JobClaim × JobDb :=
  if earliestClaimable jobType now pick db then
    let db' := db.update pick (JobRun.claimed me ttlSeconds now)
    ((db'.get? pick).bind (JobRun.toClaim companyId pick ttlSeconds now), db')
  else (none, db)

/-! ## What the owner of a claim writes -/

/-- `WHERE claimedBy = $me AND status = 'running'`. -/
def JobRun.ownedBy (me : WorkerId) (r : JobRun) : Bool :=
  r.claimedBy == some me && r.status == .running

/-- `UPDATE type::thing($rid) SET ... WHERE claimedBy = $me AND status = 'running'`. -/
def updateOwned (me : WorkerId) (rid : ℕ) (f : JobRun → JobRun) (db : JobDb) : JobDb :=
  db.update rid (fun r => if r.ownedBy me then f r else r)

/-- The row that such a statement returns, as it was. -/
def ownedRow (me : WorkerId) (rid : ℕ) (db : JobDb) : Option JobRun :=
  (db.get? rid).filter (fun r => r.ownedBy me)

def JobRun.renewed (ttlSeconds : ℕ) (now : Time) (r : JobRun) : JobRun :=
  { r with leaseUntil := some (now + 1000 * ttlSeconds), heartbeatAt := some now }

structure RenewAnswer where
  stillOwned : Bool
  cancelRequested : Bool
deriving DecidableEq

/-- `renew`. -/
def renew (me : WorkerId) (rid ttlSeconds : ℕ) (now : Time) (db : JobDb) : RenewAnswer × JobDb :=
  (match ownedRow me rid db with
    | none => { stillOwned := false, cancelRequested := false }
    | some r => { stillOwned := true, cancelRequested := r.cancelRequested },
    updateOwned me rid (JobRun.renewed ttlSeconds now) db)

/-- A terminal status with a result, which is what `complete` and `cancelled` write. -/
def JobRun.finished (status : JobStatus) (result : JobObject) (now : Time) (r : JobRun) : JobRun :=
  { r with
    status := status
    finishedAt := some now
    result := some result
    claimedBy := none
    leaseUntil := none }

/-- The statement of `complete` and `cancelled`. A missing result is sent as `null`, which
the column `option<object>` does not admit: the statement fails, and this is only logged. -/
def finish (status : JobStatus) (me : WorkerId) (rid : ℕ) (result : Option JobObject)
    (now : Time) (db : JobDb) : JobDb :=
  match result with
  | none => db
  | some result => updateOwned me rid (JobRun.finished status result now) db

/-- `complete`. -/
def complete (me : WorkerId) (rid : ℕ) (result : Option JobObject) (now : Time) (db : JobDb) :
    JobDb :=
  finish .succeeded me rid result now db

/-- `cancelled`. -/
def cancelled (me : WorkerId) (rid : ℕ) (result : Option JobObject) (now : Time) (db : JobDb) :
    JobDb :=
  finish .cancelled me rid result now db

/-- `Math.min(baseMs * Math.pow(2, attempts - 1) * jitter, 3_600_000)`, with
`jitter = 0.5 + Math.random() * 0.5`. -/
def backoffMs (baseMs : ℚ) (attempts : ℕ) (random : ℚ) : ℚ :=
  min (baseMs * 2 ^ ((attempts : ℤ) - 1) * (1 / 2 + random * (1 / 2))) 3600000

/-- `new Date(Date.now() + backoffMs)`, to the millisecond. -/
def visibleAgain (baseMs : ℚ) (attempts : ℕ) (random : ℚ) (clientNow : Time) : Time :=
  ⌊(clientNow : ℚ) + backoffMs baseMs attempts random⌋

/-- Back in the queue, which is what `fail` and the reaper write. -/
def JobRun.requeued (visibleAfter : Time) (error : JobError) (r : JobRun) : JobRun :=
  { r with
    status := .pending
    error := some error
    claimedBy := none
    leaseUntil := none
    visibleAfter := visibleAfter }

/-- Given up, which is what `fail` and the reaper write. -/
def JobRun.abandoned (now : Time) (error : JobError) (r : JobRun) : JobRun :=
  { r with
    status := .failed
    finishedAt := some now
    error := some error
    claimedBy := none
    leaseUntil := none }

structure FailInput where
  recordId : ℕ
  attempts : ℕ
  error : JobError
  requeue : Option Bool := none
  maxAttempts : Option ℤ := none
  backoffBaseMs : Option ℚ := none

/-- `willRequeue`. -/
def FailInput.willRequeue (input : FailInput) : Bool :=
  (input.requeue != some false) && decide ((input.attempts : ℤ) < input.maxAttempts.getD 3)

/-- The `SET` of `fail`. -/
def FailInput.write (input : FailInput) (now clientNow : Time) (random : ℚ) (r : JobRun) : JobRun :=
  if input.willRequeue then
    r.requeued (visibleAgain (input.backoffBaseMs.getD 30000) input.attempts random clientNow)
      input.error
  else r.abandoned now input.error

/-- `fail`: whether the row was requeued, and the table. -/
def fail (me : WorkerId) (input : FailInput) (now clientNow : Time) (random : ℚ) (db : JobDb) :
    Bool × JobDb :=
  ((ownedRow me input.recordId db).isSome && input.willRequeue,
    updateOwned me input.recordId (input.write now clientNow random) db)

/-! ## `reapZombies` -/

/-- `leaseUntil < time::now()`; `NONE` is below every datetime. -/
def JobRun.leaseExpired (now : Time) (r : JobRun) : Bool :=
  match r.leaseUntil with
  | none => true
  | some t => decide (t < now)

/-- `WHERE status = 'running' AND leaseUntil < time::now()`. -/
def JobRun.zombie (now : Time) (r : JobRun) : Bool :=
  r.status == .running && r.leaseExpired now

/-- A row of the reaper's selection. -/
structure Zombie where
  id : ℕ
  attempts : ℕ
  claimedBy : Option WorkerId
deriving DecidableEq

/-- `SELECT id, attempts, claimedBy ... LIMIT 200`, where the scan comes to the rows in
the order of `visit`. -/
def selectZombies (visit : List ℕ) (now : Time) (db : JobDb) : List Zombie :=
  (visit.dedup.filterMap (fun i =>
    ((db.get? i).filter (fun r => r.zombie now)).map
      (fun r => { id := i, attempts := r.attempts, claimedBy := r.claimedBy }))).take 200

/-- Whether the reaper puts the row back. -/
def Zombie.willRequeue (maxAttempts : ℤ) (z : Zombie) : Bool :=
  decide ((z.attempts : ℤ) < maxAttempts)

/-- The `SET` of the reaper's update. -/
def Zombie.write (maxAttempts : ℤ) (baseMs : ℚ) (now clientNow : Time) (random : ℚ) (z : Zombie)
    (r : JobRun) : JobRun :=
  let holder := z.claimedBy.getD "unknown"
  if z.willRequeue maxAttempts then
    r.requeued (visibleAgain baseMs z.attempts random clientNow)
      { message := "lease expired while held by " ++ holder ++ "; requeued (attempt "
          ++ toString z.attempts ++ "/" ++ toString maxAttempts ++ ")"
        name := some "ZombieReclaim" }
  else
    r.abandoned now
      { message := "lease expired while held by " ++ holder ++ "; abandoned after "
          ++ toString z.attempts ++ " attempt(s)"
        name := some "ZombieAbandoned" }

/-- The update of one selected row: by its id, whatever it holds by now. -/
def reapRow (maxAttempts : ℤ) (baseMs : ℚ) (now clientNow : Time) (random : ℚ) (z : Zombie)
    (db : JobDb) : JobDb :=
  db.update z.id (z.write maxAttempts baseMs now clientNow random)

end Brain.Jobs
