/-
Cancelled jobs.

A granted `requestCancel` cancels a pending row, and flags a running one. The flag stays on
the row for good, but the query of `claimNext` does not look at it. So a flagged row that
goes back to the queue, by a failure that is retried or by the reaper, is started again
(`cancelled_then_started`). If no statement puts a flagged row back (`NotPutBack`), and the
request reaches the table at all, it is not (`not_started_of_cancelled`).
-/
import Brain.Jobs.JobQueue

set_option autoImplicit false

namespace Brain.Jobs

variable {q q' : Queue} {ref ref' : JobRef} {r r' : JobRun} {op : QueueOp} {clock : Time}
  {runId companyId : String}

/-! ## What stays on a row -/

/-- A job keeps its `runId`. -/
theorem RowStep.runId_eq (h : RowStep q ref r op r') : r'.runId = r.runId := by
  cases h with
  | claimed => rfl
  | owner hw _ =>
      cases hw with
      | renew => rfl
      | complete => rfl
      | fail me input clientNow random _ =>
          unfold FailInput.write
          split <;> rfl
      | cancelled => rfl
  | cancelFlagged => rfl
  | reaped =>
      unfold Zombie.write
      split <;> rfl

/-- Nothing takes the flag away. -/
theorem RowStep.cancelRequested_of (h : RowStep q ref r op r') (hr : r.cancelRequested = true) :
    r'.cancelRequested = true := by
  cases h with
  | claimed => exact hr
  | owner hw _ =>
      cases hw with
      | renew => exact hr
      | complete => exact hr
      | fail me input clientNow random _ =>
          unfold FailInput.write
          split <;> exact hr
      | cancelled => exact hr
  | cancelFlagged => rfl
  | reaped =>
      unfold Zombie.write
      split <;> exact hr

/-- The rows of a tenant carry different `runId`s. -/
def DistinctRunIds (q : Queue) : Prop :=
  ∀ ref ref' r r', q.row? ref = some r → q.row? ref' = some r' →
    ref.companyId = ref'.companyId → r.runId = r'.runId → ref = ref'

/-- A row after a step is a row from before with the same `runId`, or has just been
created and shares its own with none. -/
theorem runId_step (h : (q.step op).row? ref = some r') :
    (∃ r, q.row? ref = some r ∧ r.runId = r'.runId) ∨
    (q.row? ref = none ∧ ∀ i r, q.row? { companyId := ref.companyId, id := i } = some r →
      r.runId ≠ r'.runId) := by
  cases hr : q.row? ref with
  | some r =>
      left
      rcases row?_step_of_eq hr h with rfl | hrow
      · exact ⟨_, rfl, rfl⟩
      · exact ⟨r, rfl, hrow.runId_eq.symm⟩
  | none =>
      right
      obtain ⟨input, runId, traceparent, clientNow, _, rfl, _, hfree⟩ := step_new_row hr h
      refine ⟨rfl, fun i r hi e => ?_⟩
      have hno := hfree i r hi
      simp [JobRun.collides, e] at hno

/-- A step keeps them apart. -/
theorem DistinctRunIds.step (hd : DistinctRunIds q) (op : QueueOp) : DistinctRunIds (q.step op) := by
  intro ref ref' r r' hr hr' hc hid
  rcases runId_step hr with ⟨s, hs, hsid⟩ | ⟨hnone, hnew⟩
  · rcases runId_step hr' with ⟨s', hs', hsid'⟩ | ⟨_, hnew'⟩
    · exact hd ref ref' s s' hs hs' hc (by rw [hsid, hsid', hid])
    · -- the second row is new, and the first was there
      refine absurd (hsid.trans hid) (hnew' ref.id s ?_)
      rw [← hc]
      exact hs
  · rcases runId_step hr' with ⟨s', hs', hsid'⟩ | ⟨hnone', _⟩
    · refine absurd (hsid'.trans hid.symm) (hnew ref'.id s' ?_)
      rw [hc]
      exact hs'
    · -- one step makes one row, under the next identifier
      obtain ⟨_, _, _, _, _, _, hi, _⟩ := step_new_row hnone hr
      obtain ⟨_, _, _, _, _, _, hi', _⟩ := step_new_row hnone' hr'
      rcases ref with ⟨c, i⟩
      rcases ref' with ⟨c', i'⟩
      simp only at hc hi hi'
      rw [hi, hi', hc]

theorem distinctRunIds_of_reached {C : Queue → QueueOp → Prop}
    (h : Runs.Reached Queue.step C (Queue.init clock) q) : DistinctRunIds q := by
  refine h.invariant ?_ (fun _ op hd _ => hd.step op)
  intro ref ref' r r' hr
  cases hr

/-! ## Flagged rows -/

/-- The statement does not put a flagged row back in the queue, neither as a failure that
is retried nor as the reaper's update. -/
def NotPutBack (q : Queue) (op : QueueOp) : Prop :=
  (∀ me companyId input clientNow random r, op = .fail me companyId input clientNow random →
    q.row? { companyId := companyId, id := input.recordId } = some r → r.ownedBy me = true →
    input.willRequeue = true → r.cancelRequested = false) ∧
  (∀ s clientNow random sw z rest r, op = .reapUpdate s clientNow random →
    q.sweeps s = some sw → sw.remaining = z :: rest →
    q.row? { companyId := sw.companyId, id := z.id } = some r →
    z.willRequeue sw.maxAttempts = true → r.cancelRequested = false)

/-- Flagged, and not waiting to be claimed. -/
def JobRun.CalledOff (r : JobRun) : Prop := r.cancelRequested = true ∧ r.status ≠ .pending

/-- No change of a row undoes it. -/
theorem RowStep.calledOff (h : RowStep q ref r op r') (hq : q.row? ref = some r)
    (hb : NotPutBack q op) (hr : r.CalledOff) : r'.CalledOff := by
  refine ⟨h.cancelRequested_of hr.1, ?_⟩
  cases h with
  | claimed me jobType ttlSeconds _ hc =>
      simp only [JobRun.claimable, Bool.and_eq_true, beq_iff_eq] at hc
      exact absurd hc.1.2 hr.2
  | owner hw hown =>
      cases hw with
      | renew => exact hr.2
      | complete => simp [JobRun.finished]
      | fail _ input clientNow random hid =>
          rw [FailInput.write_status]
          split
          · next hback =>
              have hno := hb.1 _ ref.companyId input clientNow random r rfl
                (by rw [hid]; exact hq) hown hback
              rw [hr.1] at hno
              cases hno
          · simp
      | cancelled => simp [JobRun.finished]
  | cancelFlagged => exact JobRun.cancelFlagged_status_ne_pending _ _
  | reaped s clientNow random sw z rest hsw hc hrem hz =>
      rw [Zombie.write_status]
      split
      · next hback =>
          have hno := hb.2 s clientNow random sw z rest r rfl hsw hrem
            (by rw [hc, hz]; exact hq) hback
          rw [hr.1] at hno
          cases hno
      · simp

/-- A granted request leaves the row of that `runId` called off. -/
theorem calledOff_of_granted
    (hgranted : (requestCancel true runId q.clock (q.dbs companyId)).1 = true) :
    ∃ i r, (q.step (.requestCancel true runId companyId)).row?
        { companyId := companyId, id := i } = some r ∧ r.runId = runId ∧ r.CalledOff := by
  obtain ⟨i, r, hr, hcan⟩ := requestCancel_granted hgranted
  have hid : r.runId = runId := JobRun.runId_of_cancellable hcan
  refine ⟨i, r.cancelFlagged q.clock, ?_, hid, rfl, JobRun.cancelFlagged_status_ne_pending _ _⟩
  simp only [Queue.step, requestCancel, if_true, Queue.row?_setDb]
  rw [KeyedTable.get?_modify, hr, Option.map_some, if_pos hcan]

/-- **A cancelled job is not started again**, in every run that puts no flagged row back:
after a granted request no claim finds the row pending. -/
theorem not_started_of_cancelled
    (h : Runs.Reached Queue.step NotPutBack (Queue.init clock) q)
    (hgranted : (requestCancel true runId q.clock (q.dbs companyId)).1 = true)
    (h' : Runs.Reached Queue.step NotPutBack (q.step (.requestCancel true runId companyId)) q') :
    ∀ me jobType ttlSeconds pick i r r',
      q'.row? { companyId := companyId, id := i } = some r → r.runId = runId →
      (q'.step (.claimNext me companyId jobType ttlSeconds pick)).row?
        { companyId := companyId, id := i } = some r' →
      ¬ (r.status = .pending ∧ r'.status = .running) := by
  have hd := distinctRunIds_of_reached h
  obtain ⟨i, r, hr, hid, hoff⟩ := calledOff_of_granted hgranted
  -- the row stays called off, and no other row gets its `runId`
  have hinv : DistinctRunIds q' ∧ ∃ r, q'.row? { companyId := companyId, id := i } = some r ∧
      r.runId = runId ∧ r.CalledOff := by
    refine h'.invariant (P := fun q => DistinctRunIds q ∧ ∃ r,
      q.row? { companyId := companyId, id := i } = some r ∧ r.runId = runId ∧ r.CalledOff)
      ⟨hd.step _, r, hr, hid, hoff⟩ ?_
    rintro q op ⟨hd, r, hr, hid, hoff⟩ hb
    obtain ⟨r', hr', rfl | hrow⟩ := step_row hr op
    · exact ⟨hd.step op, _, hr', hid, hoff⟩
    · exact ⟨hd.step op, r', hr', hrow.runId_eq.trans hid, hrow.calledOff hr hb hoff⟩
  obtain ⟨hd', s, hs, hsid, hsoff⟩ := hinv
  rintro me jobType ttlSeconds pick j r r' hr hrid _ ⟨hpending, _⟩
  have hji := hd' _ _ r s hr hs rfl (hrid.trans hsid.symm)
  rw [hji, hs] at hr
  obtain rfl := Option.some.inj hr
  exact hsoff.2 hpending

/-- A job that runs, with a request to cancel it. -/
def runningJob : Queue :=
  [.enqueue "acme" { jobType := .dreams, triggeredBy := .cron } "run-1" none 0,
    .claimNext "a#1" "acme" .dreams 1200 0].foldl Queue.step (Queue.init 0)

theorem runningJob_not_started_again :
    (requestCancel true "run-1" runningJob.clock (runningJob.dbs "acme")).1 = true ∧
    ∀ q', Runs.Reached Queue.step NotPutBack (runningJob.step (.requestCancel true "run-1" "acme"))
        q' →
      ∀ me jobType ttlSeconds pick i r r',
        q'.row? { companyId := "acme", id := i } = some r → r.runId = "run-1" →
        (q'.step (.claimNext me "acme" jobType ttlSeconds pick)).row?
          { companyId := "acme", id := i } = some r' →
        ¬ (r.status = .pending ∧ r'.status = .running) := by
  have hgranted : (requestCancel true "run-1" runningJob.clock (runningJob.dbs "acme")).1 = true := by
    decide
  have h : Runs.Reached Queue.step NotPutBack (Queue.init 0) runningJob := by
    simp only [runningJob, List.foldl_cons, List.foldl_nil]
    refine .next _ (.next _ .start ?_) ?_
    · constructor <;> intros <;> contradiction
    · constructor <;> intros <;> contradiction
  exact ⟨hgranted, fun q' h' => not_started_of_cancelled h hgranted h'⟩

/-- What the worker reports that fails before it hears of the request. -/
def firstFailure : FailInput where
  recordId := 0
  attempts := 1
  error := { message := "rate limited" }
  requeue := some true
  maxAttempts := some 3

/-- The failure is retried. -/
def retriedFailure : List QueueOp :=
  [.requestCancel true "run-1" "acme", .fail "a#1" "acme" firstFailure 0 0, .advance 15000]

/-- The flagged job is claimed again. -/
theorem cancelled_then_started :
    runningJob.Reachable 0 ∧
    (requestCancel true "run-1" runningJob.clock (runningJob.dbs "acme")).1 = true ∧
    ((retriedFailure.foldl Queue.step runningJob).row? { companyId := "acme", id := 0 }).map
        (fun r => (r.runId, r.status)) = some ("run-1", .pending) ∧
    (((retriedFailure.foldl Queue.step runningJob).step (.claimNext "a#1" "acme" .dreams 1200 0)).row?
        { companyId := "acme", id := 0 }).map (fun r => (r.runId, r.status))
      = some ("run-1", .running) := by
  refine ⟨Runs.reached_foldl Runs.Reached.start _, ?_, ?_, ?_⟩
  · decide
  · decide
  · decide +kernel

end Brain.Jobs
