/-
The workers over the queue (`src/src/jobs/worker-loop.service.ts`): each runs, for each
registered job type, a poll loop that claims one job, dispatches it, and claims the next
one only when the dispatch is over.

A dispatch renews its claim on a timer and remembers from the answers whether a
cancellation was requested and whether the claim was lost. When the handler is done, these
two flags decide what is written. A dispatch can also end without a write: the claim was
lost, the statement failed, or the process stopped. Process names may come back after a
restart.

`log` is no part of the program. It records the claims and the reaper's updates of the
run, so that claims can be counted and a dispatch can be compared with what came after
its claim.
-/
import Brain.Jobs.JobQueue

set_option autoImplicit false

namespace Brain.Jobs

/-! ## Handlers and dispatches -/

/-- `RegisteredHandler`, as far as a dispatch uses it. -/
structure RegisteredHandler where
  ttlSeconds : ℕ := 300
  maxAttempts : ℤ := 3

/-- The registrations of the services: `calibration-refit.service.ts`,
`compaction.service.ts` and `dreams.service.ts`. -/
def registeredHandlers : JobType → Option RegisteredHandler
  | .dreams => some { ttlSeconds := 1200, maxAttempts := 3 }
  | .compaction => some { ttlSeconds := 900, maxAttempts := 2 }
  | .calibrationRefit => some { ttlSeconds := 600, maxAttempts := 2 }
  | .sourceTrustRefit => some { ttlSeconds := 600, maxAttempts := 2 }
  | .reindexEmbeddings => none
  | .changefeedDrain => none

/-- A claim, or a reaper's update. -/
inductive Touch where
  | claimed (ref : JobRef) (me : WorkerId)
  | reaped (ref : JobRef)
deriving DecidableEq

def Touch.ref : Touch → JobRef
  | .claimed ref _ => ref
  | .reaped ref => ref

/-- What a statement adds to the log. -/
def Queue.touches (q : Queue) : QueueOp → List Touch
  | .claimNext me companyId jobType _ pick =>
      if earliestClaimable jobType q.clock pick (q.dbs companyId) then
        [.claimed { companyId := companyId, id := pick } me]
      else []
  | .reapUpdate sweep _ _ =>
      match q.sweeps sweep with
      | none => []
      | some sw => (sw.remaining.head?.map (fun z =>
          Touch.reaped { companyId := sw.companyId, id := z.id })).toList
  | _ => []

/-- A dispatch that is under way. -/
structure Dispatch where
  claim : JobClaim
  cancelRequested : Bool := false
  lostClaim : Bool := false
  /-- The length of the log before the claim. -/
  claimedAt : ℕ

/-- The row that a dispatch works on. -/
def Dispatch.ref (d : Dispatch) : JobRef :=
  { companyId := d.claim.companyId, id := d.claim.recordId }

/-- The flags after the answer of a renewal. -/
def Dispatch.hear (d : Dispatch) (answer : RenewAnswer) : Dispatch :=
  { d with
    lostClaim := d.lostClaim || !answer.stillOwned
    cancelRequested := d.cancelRequested || (answer.stillOwned && answer.cancelRequested) }

/-- How a handler ends. -/
inductive Outcome where
  | resolved (result : Option JobObject)
  | threw (error : JobError)

/-- The result of a cancelled job. -/
def Outcome.cancelledResult : Outcome → Option JobObject
  | .resolved result => result
  | .threw error => some [("reason", "cancel_requested"), ("message", error.message)]

/-- What `dispatchBody` writes when the handler has ended. -/
def Dispatch.terminalWrite (me : WorkerId) (reg : RegisteredHandler) (d : Dispatch)
    (outcome : Outcome) (clientNow : Time) (random : ℚ) : Option QueueOp :=
  if d.cancelRequested then
    some (.cancelled me d.claim.companyId d.claim.recordId outcome.cancelledResult)
  else if d.lostClaim then none
  else match outcome with
    | .resolved result => some (.complete me d.claim.companyId d.claim.recordId result)
    | .threw error =>
        some (.fail me d.claim.companyId
          { recordId := d.claim.recordId
            attempts := d.claim.attempts
            error := error
            requeue := some true
            maxAttempts := some reg.maxAttempts } clientNow random)

/-! ## The system -/

structure Fleet where
  queue : Queue
  dispatches : WorkerId × JobType → Option Dispatch
  log : List Touch

def Fleet.init (clock : Time) : Fleet :=
  { queue := Queue.init clock, dispatches := fun _ => none, log := [] }

/-- A statement at the database. -/
def Fleet.exec (f : Fleet) (op : QueueOp) : Fleet :=
  { f with queue := f.queue.step op, log := f.log ++ f.queue.touches op }

def Fleet.setDispatch (f : Fleet) (key : WorkerId × JobType) (d : Option Dispatch) : Fleet :=
  { f with dispatches := Function.update f.dispatches key d }

/-- Statements that no dispatch makes. -/
def QueueOp.outside : QueueOp → Bool
  | .advance _ | .enqueue .. | .requestCancel .. | .reapSelect .. | .reapUpdate .. | .reapStop _ =>
      true
  | _ => false

inductive FleetOp where
  /-- Time, producers, operators and the reaper. -/
  | outside (op : QueueOp)
  /-- A poll loop without a dispatch claims a job, if there is one. -/
  | poll (me : WorkerId) (jobType : JobType) (companyId : String) (pick : ℕ)
  /-- The renewal of a dispatch. `heard`: the answer comes before the handler ends. -/
  | renew (me : WorkerId) (jobType : JobType) (heard : Bool)
  /-- A renewal that fails, which is taken for a lost claim. -/
  | renewFailed (me : WorkerId) (jobType : JobType)
  /-- A renewal that comes to the database when its dispatch is over. -/
  | renewLate (me : WorkerId) (companyId : String) (rid ttlSeconds : ℕ)
  /-- The handler has ended, and its outcome is written. -/
  | settle (me : WorkerId) (jobType : JobType) (outcome : Outcome) (clientNow : Time) (random : ℚ)
  /-- A dispatch ends without a write. -/
  | stop (me : WorkerId) (jobType : JobType)

/-- One step of the system. -/
def Fleet.step (handlers : JobType → Option RegisteredHandler) (f : Fleet) : FleetOp → Fleet
  | .outside op => if op.outside then f.exec op else f
  | .poll me jobType companyId pick =>
      match handlers jobType, f.dispatches (me, jobType) with
      | some reg, none =>
          let claim := (claimNext me companyId jobType reg.ttlSeconds f.queue.clock pick
            (f.queue.dbs companyId)).1
          (f.exec (.claimNext me companyId jobType reg.ttlSeconds pick)).setDispatch (me, jobType)
            (claim.map (fun c => { claim := c, claimedAt := f.log.length }))
      | _, _ => f
  | .renew me jobType heard =>
      match handlers jobType, f.dispatches (me, jobType) with
      | some reg, some d =>
          let answer := (Jobs.renew me d.claim.recordId reg.ttlSeconds f.queue.clock
            (f.queue.dbs d.claim.companyId)).1
          (f.exec (.renew me d.claim.companyId d.claim.recordId reg.ttlSeconds)).setDispatch
            (me, jobType) (some (if heard then d.hear answer else d))
      | _, _ => f
  | .renewFailed me jobType =>
      f.setDispatch (me, jobType) ((f.dispatches (me, jobType)).map
        (fun d => d.hear { stillOwned := false, cancelRequested := false }))
  | .renewLate me companyId rid ttlSeconds => f.exec (.renew me companyId rid ttlSeconds)
  | .settle me jobType outcome clientNow random =>
      match handlers jobType, f.dispatches (me, jobType) with
      | some reg, some d =>
          match d.terminalWrite me reg outcome clientNow random with
          | some op => (f.exec op).setDispatch (me, jobType) none
          | none => f.setDispatch (me, jobType) none
      | _, _ => f
  | .stop me jobType => f.setDispatch (me, jobType) none

/-- The states that some interleaving leads to. -/
def Fleet.Reachable (handlers : JobType → Option RegisteredHandler) (clock : Time) (f : Fleet) :
    Prop :=
  Runs.Reached (Fleet.step handlers) (fun _ _ => True) (Fleet.init clock) f

variable {q : Queue} {ref : JobRef} {r r' : JobRun} {op : QueueOp} {f : Fleet}
  {handlers : JobType → Option RegisteredHandler}

@[simp] theorem Fleet.queue_exec (f : Fleet) (op : QueueOp) : (f.exec op).queue = f.queue.step op :=
  rfl

@[simp] theorem Fleet.log_exec (f : Fleet) (op : QueueOp) :
    (f.exec op).log = f.log ++ f.queue.touches op := rfl

@[simp] theorem Fleet.dispatches_exec (f : Fleet) (op : QueueOp) :
    (f.exec op).dispatches = f.dispatches := rfl

@[simp] theorem Fleet.queue_setDispatch (f : Fleet) (key : WorkerId × JobType)
    (d : Option Dispatch) : (f.setDispatch key d).queue = f.queue := rfl

@[simp] theorem Fleet.log_setDispatch (f : Fleet) (key : WorkerId × JobType)
    (d : Option Dispatch) : (f.setDispatch key d).log = f.log := rfl

theorem Fleet.dispatches_setDispatch (f : Fleet) (key key' : WorkerId × JobType)
    (d : Option Dispatch) :
    (f.setDispatch key d).dispatches key' = if key' = key then d else f.dispatches key' :=
  Function.update_apply ..

@[simp] theorem Dispatch.ref_hear (d : Dispatch) (answer : RenewAnswer) :
    (d.hear answer).ref = d.ref := rfl

/-- The statement that a step of the system makes. -/
inductive Fleet.Issues (handlers : JobType → Option RegisteredHandler) (f : Fleet) :
    FleetOp → QueueOp → Prop
  | outside {op : QueueOp} (h : op.outside = true) : Issues handlers f (.outside op) op
  | poll {me : WorkerId} {jobType : JobType} {companyId : String} {pick : ℕ}
      {reg : RegisteredHandler} (hreg : handlers jobType = some reg)
      (hnone : f.dispatches (me, jobType) = none) :
      Issues handlers f (.poll me jobType companyId pick)
        (.claimNext me companyId jobType reg.ttlSeconds pick)
  | renew {me : WorkerId} {jobType : JobType} {heard : Bool} {reg : RegisteredHandler}
      {d : Dispatch} (hreg : handlers jobType = some reg)
      (hd : f.dispatches (me, jobType) = some d) :
      Issues handlers f (.renew me jobType heard)
        (.renew me d.claim.companyId d.claim.recordId reg.ttlSeconds)
  | renewLate {me : WorkerId} {companyId : String} {rid ttlSeconds : ℕ} :
      Issues handlers f (.renewLate me companyId rid ttlSeconds)
        (.renew me companyId rid ttlSeconds)
  | settle {me : WorkerId} {jobType : JobType} {outcome : Outcome} {clientNow : Time} {random : ℚ}
      {reg : RegisteredHandler} {d : Dispatch} {op : QueueOp} (hreg : handlers jobType = some reg)
      (hd : f.dispatches (me, jobType) = some d)
      (hop : d.terminalWrite me reg outcome clientNow random = some op) :
      Issues handlers f (.settle me jobType outcome clientNow random) op

/-- A step leaves the tables and the log, or makes one statement. -/
theorem Fleet.step_cases (handlers : JobType → Option RegisteredHandler) (f : Fleet)
    (fop : FleetOp) :
    ((f.step handlers fop).queue = f.queue ∧ (f.step handlers fop).log = f.log) ∨
    ∃ op, f.Issues handlers fop op ∧ (f.step handlers fop).queue = (f.exec op).queue ∧
      (f.step handlers fop).log = (f.exec op).log := by
  cases fop with
  | outside op =>
      by_cases hout : op.outside = true
      · exact Or.inr ⟨op, .outside hout, by simp [Fleet.step, hout], by simp [Fleet.step, hout]⟩
      · exact Or.inl ⟨by simp [Fleet.step, hout], by simp [Fleet.step, hout]⟩
  | poll me jobType companyId pick =>
      simp only [Fleet.step]
      split
      · next reg hreg hnone => exact Or.inr ⟨_, .poll hreg hnone, rfl, rfl⟩
      · exact Or.inl ⟨rfl, rfl⟩
  | renew me jobType heard =>
      simp only [Fleet.step]
      split
      · next reg d hreg hd => exact Or.inr ⟨_, .renew hreg hd, rfl, rfl⟩
      · exact Or.inl ⟨rfl, rfl⟩
  | renewFailed me jobType => exact Or.inl ⟨rfl, rfl⟩
  | renewLate me companyId rid ttlSeconds => exact Or.inr ⟨_, .renewLate, rfl, rfl⟩
  | settle me jobType outcome clientNow random =>
      simp only [Fleet.step]
      split
      · next reg d hreg hd =>
          split
          · next op hop => exact Or.inr ⟨op, .settle hreg hd hop, rfl, rfl⟩
          · exact Or.inl ⟨rfl, rfl⟩
      · exact Or.inl ⟨rfl, rfl⟩
  | stop me jobType => exact Or.inl ⟨rfl, rfl⟩

/-! ## The log and the rows -/

/-- A row that a claim takes. -/
theorem row?_claimNext {me : WorkerId} {c : String} {jobType : JobType} {ttlSeconds pick : ℕ}
    (h : earliestClaimable jobType q.clock pick (q.dbs c) = true)
    (hr : q.row? { companyId := c, id := pick } = some r) :
    (q.step (.claimNext me c jobType ttlSeconds pick)).row? { companyId := c, id := pick }
      = some (r.claimed me ttlSeconds q.clock) := by
  simp only [Queue.step, claimNext, if_pos h, Queue.row?_setDb, if_true]
  rw [KeyedTable.get?_update, if_pos rfl]
  exact congrArg (Option.map _) hr

/-- A row that the log records was claimed, or written by the reaper. -/
theorem rowStep_of_touched (hr : q.row? ref = some r) {t : Touch} (ht : t ∈ q.touches op)
    (href : t.ref = ref) :
    ∃ r', (q.step op).row? ref = some r' ∧ RowStep q ref r op r' ∧
      ((∃ me jobType ttlSeconds, op = .claimNext me ref.companyId jobType ttlSeconds ref.id ∧
          t = .claimed ref me) ∨
        (∃ s clientNow random, op = .reapUpdate s clientNow random ∧ t = .reaped ref)) := by
  subst href
  cases op with
  | claimNext me c jobType ttlSeconds pick =>
      simp only [Queue.touches] at ht
      split at ht
      · next hpick =>
          obtain rfl := List.mem_singleton.mp ht
          obtain ⟨r₀, hr₀, hc, _⟩ := earliestClaimable_iff.mp hpick
          obtain rfl : r₀ = r := Option.some.inj (hr₀.symm.trans hr)
          exact ⟨_, row?_claimNext hpick hr, .claimed me jobType ttlSeconds hpick hc,
            Or.inl ⟨me, jobType, ttlSeconds, rfl, rfl⟩⟩
      · cases ht
  | reapUpdate s clientNow random =>
      simp only [Queue.touches] at ht
      split at ht
      · cases ht
      · next sw hsw =>
          cases hrem : sw.remaining with
          | nil => simp [hrem] at ht
          | cons z rest =>
              simp only [hrem, List.head?_cons, Option.map_some, Option.toList_some,
                List.mem_singleton] at ht
              subst ht
              refine ⟨_, ?_, .reaped s clientNow random sw z rest hsw rfl hrem rfl,
                Or.inr ⟨s, clientNow, random, rfl, rfl⟩⟩
              simp only [Queue.step, hsw, hrem, Queue.row?_setSweep, Queue.row?_setDb, Touch.ref,
                if_true, reapRow]
              rw [KeyedTable.get?_update, if_pos rfl]
              exact congrArg (Option.map _) hr
  | _ => cases ht

/-- And the other way round: a claim and the reaper's update are in the log. -/
theorem touched_of_claimed {me : WorkerId} {c : String} {jobType : JobType} {ttlSeconds pick : ℕ}
    (h : earliestClaimable jobType q.clock pick (q.dbs c) = true) :
    q.touches (.claimNext me c jobType ttlSeconds pick)
      = [.claimed { companyId := c, id := pick } me] := if_pos h

/-- A row that a step does not touch keeps its holder, unless it loses it, and its count. -/
theorem ownedBy_of_untouched (hr : q.row? ref = some r) (hr' : (q.step op).row? ref = some r')
    (ht : ∀ t ∈ q.touches op, t.ref ≠ ref) :
    r'.attempts = r.attempts ∧ ∀ me, r'.ownedBy me = true → r.ownedBy me = true := by
  rcases row?_step_of_eq hr hr' with rfl | hrow
  · exact ⟨rfl, fun _ h => h⟩
  · cases hrow with
    | claimed me jobType ttlSeconds hpick _ =>
        refine absurd rfl (ht (.claimed ref me) ?_)
        rw [touched_of_claimed hpick]
        exact List.mem_singleton.mpr rfl
    | owner hw hown =>
        cases hw with
        | renew => exact ⟨rfl, fun _ h => h⟩
        | complete => exact ⟨rfl, fun _ h => by simp [JobRun.ownedBy, JobRun.finished] at h⟩
        | fail _ input clientNow random _ =>
            unfold FailInput.write
            split
            · exact ⟨rfl, fun _ h => by simp [JobRun.ownedBy, JobRun.requeued] at h⟩
            · exact ⟨rfl, fun _ h => by simp [JobRun.ownedBy, JobRun.abandoned] at h⟩
        | cancelled => exact ⟨rfl, fun _ h => by simp [JobRun.ownedBy, JobRun.finished] at h⟩
    | cancelFlagged runId hcan =>
        refine ⟨rfl, fun me h => ?_⟩
        by_cases hp : r.status = .pending
        · simp [JobRun.ownedBy, JobRun.cancelFlagged, hp] at h
        · simpa [JobRun.ownedBy, JobRun.cancelFlagged, hp] using h
    | reaped s clientNow random sw z rest hsw hc hrem hz =>
        refine absurd ?_ (ht (.reaped ref) ?_)
        · rfl
        · simp [Queue.touches, hsw, hrem, hc, hz]

end Brain.Jobs
