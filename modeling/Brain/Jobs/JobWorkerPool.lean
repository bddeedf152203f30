/-
The pool of worker threads of `src/src/jobs/job-worker-pool.service.ts`: `run`, `acquire`,
`release` and what the workers' events do, from the end of `onModuleInit` on and without a
shutdown.

What happens between two turns of the event loop is one step. A call that gets a worker posts its
job in the same turn, before any event of a worker; the settling of its promise and its `finally`
block are two steps, since a worker may have several events in one turn. A worker answers a job
with one reply, which may still be on its way when the 'error' of the worker arrives; a thread
that has errored takes no further jobs.

The death of a worker takes nobody from the queue, between its 'error' and its 'exit' it is
handed on like any other, and a reply settles whatever job its worker has now. So the pool keeps
its promise in exactly the runs whose steps are `Healthy` (`serves_iff`).
-/
import Brain.Lib.HandOff
import Brain.Lib.Runs

set_option autoImplicit false

namespace Brain.JobWorkerPool

/-! ## 1. The pool -/

/-- What the constructor and `onModuleInit` leave: not every worker has to come up. -/
structure Config where
  poolSize : ℕ
  spawned : ℕ
  spawned_le : spawned ≤ poolSize

/-- `PooledWorker`; `errored` says that the thread has emitted its 'error'. -/
structure Slot where
  errored : Bool := false
  dead : Bool := false
  /-- The job whose promise `inFlight` settles. -/
  inFlight : Option ℕ := none
deriving DecidableEq

/-- Neither errored nor exited. -/
def Slot.alive (slot : Slot) : Bool := !slot.errored && !slot.dead

/-- The promise that `run` awaits. -/
inductive Promise where
  | pending
  /-- Settled by the reply to `job`. -/
  | replied (job : ℕ)
  | rejected
deriving DecidableEq

/-- The reply to a job. -/
inductive Reply where
  | none
  /-- The job has been posted to the worker. -/
  | due (worker : ℕ)
  | come
deriving DecidableEq

/-- The service; workers and jobs are numbered. -/
structure World where
  /-- `idle` and `waiters`, and the worker that each call has. -/
  pool : HandOff.Pool ℕ ℕ
  workers : List ℕ
  slots : ℕ → Slot
  nextJob : ℕ
  promises : ℕ → Promise
  replies : ℕ → Reply
  /-- The jobs handed out, each with the slot that it was handed to. -/
  handed : List (ℕ × Slot)

/-- All workers that have come up lie idle. -/
def initial (config : Config) : World where
  pool := ⟨List.range config.spawned, [], fun _ => none⟩
  workers := List.range config.spawned
  slots := fun _ => {}
  nextJob := 0
  promises := fun _ => .pending
  replies := fun _ => .none
  handed := []

namespace World

def setSlot (w : World) (worker : ℕ) (slot : Slot) : World :=
  { w with slots := Function.update w.slots worker slot }

/-- A promise is settled once. -/
def settle (w : World) (job : ℕ) (outcome : Promise) : World :=
  if w.promises job = .pending then
    { w with promises := Function.update w.promises job outcome }
  else w

/-- `run` after its `await`: the job is set in flight and posted. -/
def post (w : World) (worker job : ℕ) : World :=
  let slot := w.slots worker
  { w with
    slots := Function.update w.slots worker { slot with inFlight := some job }
    replies := if slot.alive then Function.update w.replies job (.due worker) else w.replies
    handed := w.handed ++ [(job, slot)] }

/-- Reject the job in flight, if there is one. -/
def rejectInFlight (w : World) (worker : ℕ) : World :=
  match (w.slots worker).inFlight with
  | none => w
  | some job => (w.settle job .rejected).setSlot worker { w.slots worker with inFlight := none }

/-- `release`, for the worker that `job` has. -/
def release (w : World) (worker job : ℕ) : World :=
  if (w.slots worker).dead || !w.workers.contains worker then
    { w with pool := w.pool.discard job }
  else
    let given : World := { w with pool := w.pool.giveBack job }
    match w.pool.waiters with
    | next :: _ => given.post worker next
    | [] => given

end World

/-! ## 2. Steps -/

/-- What happens. -/
inductive Event where
  | run
  /-- The reply to `job` arrives from `worker`. -/
  | reply (worker job : ℕ)
  | error (worker : ℕ)
  | exit (worker : ℕ)
  /-- The `finally` block of the call. -/
  | finish (job : ℕ)
deriving DecidableEq

namespace World

/-- `run` up to its `await`, and past it if a worker is idle. -/
def run (config : Config) (w : World) : World :=
  let entered : World := { w with nextJob := w.nextJob + 1 }
  if config.poolSize = 0 then entered.settle w.nextJob .rejected
  else
    let acquired : World := { entered with pool := w.pool.acquire w.nextJob }
    match w.pool.idle with
    | worker :: _ => acquired.post worker w.nextJob
    | [] => acquired

/-- The 'message' handler. -/
def onMessage (w : World) (worker job : ℕ) : World :=
  let arrived : World := { w with replies := Function.update w.replies job .come }
  match (w.slots worker).inFlight with
  | none => arrived
  | some inFlight => arrived.settle inFlight (.replied job)

/-- The 'error' handler. -/
def onError (w : World) (worker : ℕ) : World :=
  (w.setSlot worker { w.slots worker with errored := true }).rejectInFlight worker

/-- The 'exit' handler. -/
def onExit (w : World) (worker : ℕ) : World :=
  let rejected :=
    (w.setSlot worker { w.slots worker with dead := true }).rejectInFlight worker
  { rejected with
    workers := rejected.workers.erase worker
    pool := rejected.pool.retire worker }

/-- The `finally` block. -/
def finish (w : World) (worker job : ℕ) : World :=
  (w.setSlot worker { w.slots worker with inFlight := none }).release worker job

end World

/-- The service after an event; one that cannot happen changes nothing. -/
def exec (config : Config) (w : World) : Event → World
  | .run => w.run config
  | .reply worker job =>
      if w.replies job = .due worker ∧ worker ∈ w.workers then w.onMessage worker job else w
  | .error worker => if worker ∈ w.workers then w.onError worker else w
  | .exit worker => if worker ∈ w.workers then w.onExit worker else w
  | .finish job =>
      match w.pool.held job with
      | none => w
      | some worker => if w.promises job = .pending then w else w.finish worker job

/-! ## 3. What the pool promises, and when a step keeps it -/

/-- Nobody is stranded, and nobody is misrouted. -/
structure Serves (w : World) : Prop where
  /-- Somebody waits only while a worker that is alive is busy with the job of another. -/
  waiting : w.pool.waiters ≠ [] →
    ∃ worker ∈ w.workers, (w.slots worker).alive = true ∧ ∃ job, w.pool.held job = some worker
  /-- No job has been handed to a worker that had errored or exited. -/
  handed : ∀ h ∈ w.handed, h.2.alive = true
  /-- A reply that has come has settled the promise of its job. -/
  come : ∀ job, w.replies job = .come → w.promises job = .replied job
  /-- No promise has been settled by the reply to another job. -/
  own : ∀ job other, w.promises job = .replied other → other = job

/-- The step does not go wrong in `w`. -/
def Healthy (config : Config) (w : World) : Event → Prop
  | .run =>
      -- the idle worker in line is alive; if none is idle, one that is busy is
      config.poolSize ≠ 0 →
        match w.pool.idle with
        | worker :: _ => (w.slots worker).alive = true
        | [] => ∃ worker ∈ w.workers, (w.slots worker).alive = true
  | .reply worker job =>
      -- the job is still in flight on the worker
      w.replies job = .due worker → worker ∈ w.workers → (w.slots worker).inFlight = some job
  | .error worker =>
      -- another one is alive if somebody waits
      worker ∈ w.workers → w.pool.waiters ≠ [] →
        ∃ other ∈ w.workers, other ≠ worker ∧ (w.slots other).alive = true
  | .exit worker =>
      worker ∈ w.workers → w.pool.waiters ≠ [] →
        ∃ other ∈ w.workers, other ≠ worker ∧ (w.slots other).alive = true
  | .finish job =>
      -- what goes to the next in the queue is alive
      w.promises job ≠ .pending → w.pool.waiters ≠ [] →
        ∀ worker ∈ w.workers, w.pool.held job = some worker → (w.slots worker).errored = false

/-! ## 4. The invariant -/

/-- Nothing has happened to the job. -/
def World.Untouched (w : World) (job : ℕ) : Prop :=
  w.promises job = .pending ∧ w.replies job = .none

/-- What holds of the service at all times, whether its steps are healthy or not. -/
structure Inv (w : World) : Prop where
  sound : w.pool.Sound
  idle_workers : ∀ worker ∈ w.pool.idle, worker ∈ w.workers
  member : ∀ worker ∈ w.workers, w.pool.Member worker
  workers_nodup : w.workers.Nodup
  live : ∀ worker ∈ w.workers, (w.slots worker).dead = false
  known : ∀ job worker, w.pool.held job = some worker → job < w.nextJob
  queued : ∀ job ∈ w.pool.waiters, job < w.nextJob ∧ w.Untouched job
  fresh : ∀ job, w.nextJob ≤ job → w.Untouched job
  /-- A worker works on the job of the call that has it. -/
  inFlight_held : ∀ worker job, (w.slots worker).inFlight = some job →
    w.pool.held job = some worker
  inFlight_open : ∀ worker job, (w.slots worker).inFlight = some job → w.promises job ≠ .rejected
  /-- What settles a promise has come. -/
  replied : ∀ job other, w.promises job = .replied other → w.replies other = .come

section Invariant

variable {config : Config} {w : World} {worker job : ℕ}

theorem slots_setSlot_self {slot : Slot} : (w.setSlot worker slot).slots worker = slot :=
  Function.update_self _ _ _

theorem slots_setSlot_of_ne {slot : Slot} {other : ℕ} (h : other ≠ worker) :
    (w.setSlot worker slot).slots other = w.slots other := Function.update_of_ne h _ _

theorem settle_of_pending {outcome : Promise} (h : w.promises job = .pending) :
    w.settle job outcome = { w with promises := Function.update w.promises job outcome } := by
  rw [World.settle, if_pos h]

theorem settle_of_settled {outcome : Promise} (h : w.promises job ≠ .pending) :
    w.settle job outcome = w := by
  rw [World.settle, if_neg h]

/-- Settling concerns the promises only. -/
theorem settle_eq (outcome : Promise) :
    w.settle job outcome = { w with promises := (w.settle job outcome).promises } := by
  by_cases h : w.promises job = .pending
  · rw [settle_of_pending h]
  · rw [settle_of_settled h]

theorem setSlot_settle {outcome : Promise} {slot : Slot} :
    (w.settle job outcome).setSlot worker slot = (w.setSlot worker slot).settle job outcome := by
  by_cases h : w.promises job = .pending
  · rw [settle_of_pending h, settle_of_pending (w := w.setSlot worker slot) h]
    rfl
  · rw [settle_of_settled h, settle_of_settled (w := w.setSlot worker slot) h]

/-- What a promise is after another one has been settled, or the same. -/
theorem promises_settle_or (w : World) (job : ℕ) (outcome : Promise) (j : ℕ) :
    (w.settle job outcome).promises j = w.promises j ∨
      j = job ∧ w.promises job = .pending ∧ (w.settle job outcome).promises j = outcome := by
  by_cases h : w.promises job = .pending
  · rw [settle_of_pending h]
    by_cases hj : j = job
    · rw [hj]
      exact Or.inr ⟨rfl, h, Function.update_self _ _ _⟩
    · exact Or.inl (Function.update_of_ne hj _ _)
  · rw [settle_of_settled h]
    exact Or.inl rfl

theorem Inv.setPool (h : Inv w) {pool : HandOff.Pool ℕ ℕ} (hsound : pool.Sound)
    (hidle : ∀ r ∈ pool.idle, r ∈ w.workers) (hmember : ∀ r ∈ w.workers, pool.Member r)
    (hknown : ∀ j r, pool.held j = some r → j < w.nextJob)
    (hqueued : ∀ j ∈ pool.waiters, j < w.nextJob ∧ w.Untouched j)
    (hinFlight : ∀ r j, (w.slots r).inFlight = some j → pool.held j = some r) :
    Inv { w with pool := pool } :=
  ⟨hsound, hidle, hmember, h.workers_nodup, h.live, hknown, hqueued, h.fresh, hinFlight,
    h.inFlight_open, h.replied⟩

/-- A worker that goes on as it is, or has nothing in flight any more. -/
theorem Inv.setSlot (h : Inv w) {slot : Slot}
    (hinFlight : ∀ j, slot.inFlight = some j → (w.slots worker).inFlight = some j)
    (hlive : worker ∈ w.workers → slot.dead = false) : Inv (w.setSlot worker slot) := by
  have hkept : ∀ r j, ((w.setSlot worker slot).slots r).inFlight = some j →
      (w.slots r).inFlight = some j := by
    intro r j hj
    by_cases hr : r = worker
    · subst hr
      rw [slots_setSlot_self] at hj
      exact hinFlight j hj
    · rwa [slots_setSlot_of_ne hr] at hj
  refine ⟨h.sound, h.idle_workers, h.member, h.workers_nodup, fun r hr => ?_, h.known, h.queued,
    h.fresh, fun r j hj => h.inFlight_held r j (hkept r j hj),
    fun r j hj => h.inFlight_open r j (hkept r j hj), h.replied⟩
  by_cases hne : r = worker
  · subst hne
    rw [slots_setSlot_self]
    exact hlive hr
  · rw [slots_setSlot_of_ne hne]
    exact h.live r hr

/-- Settling a job that is not in the queue; one that is in flight is not rejected. -/
theorem Inv.settle (h : Inv w) {outcome : Promise} (hknown : job < w.nextJob)
    (hqueued : job ∉ w.pool.waiters)
    (hopen : outcome = .rejected → ∀ r, (w.slots r).inFlight ≠ some job)
    (hreplied : ∀ other, outcome = .replied other → w.replies other = .come) :
    Inv (w.settle job outcome) := by
  have huntouched : ∀ j, j ≠ job → w.Untouched j →
      (w.settle job outcome).promises j = .pending ∧ w.replies j = .none := by
    intro j hj hun
    refine ⟨?_, hun.2⟩
    rcases promises_settle_or w job outcome j with hsame | ⟨hjob, _, _⟩
    · rw [hsame]
      exact hun.1
    · exact absurd hjob hj
  rw [settle_eq]
  refine ⟨h.sound, h.idle_workers, h.member, h.workers_nodup, h.live, h.known, fun j hj => ?_,
    fun j hj => ?_, h.inFlight_held, fun r j hj => ?_, fun j other hj => ?_⟩
  · exact ⟨(h.queued j hj).1, huntouched j (fun heq => hqueued (heq ▸ hj)) (h.queued j hj).2⟩
  · have hle : w.nextJob ≤ j := hj
    exact huntouched j (by omega) (h.fresh j hle)
  · dsimp only
    rcases promises_settle_or w job outcome j with
      hsame | ⟨rfl, _, hnew⟩
    · rw [hsame]
      exact h.inFlight_open r j hj
    · rw [hnew]
      exact fun hrejected => hopen hrejected r hj
  · dsimp only at hj ⊢
    rcases promises_settle_or w job outcome j with
      hsame | ⟨_, _, hnew⟩
    · rw [hsame] at hj
      exact h.replied j other hj
    · rw [hnew] at hj
      exact hreplied other hj

/-- A job that is in flight is known, and not in the queue. -/
theorem Inv.of_inFlight (h : Inv w) (hin : (w.slots worker).inFlight = some job) :
    job < w.nextJob ∧ job ∉ w.pool.waiters := by
  have hheld := h.inFlight_held worker job hin
  refine ⟨h.known job worker hheld, fun hwait => ?_⟩
  rw [h.sound.held_of_waiter job hwait] at hheld
  cases hheld

theorem Inv.rejectInFlight (h : Inv w) (worker : ℕ) : Inv (w.rejectInFlight worker) := by
  unfold World.rejectInFlight
  cases hin : (w.slots worker).inFlight with
  | none => exact h
  | some job =>
      dsimp only
      obtain ⟨hknown, hqueued⟩ := h.of_inFlight hin
      rw [setSlot_settle]
      have hidle : Inv (w.setSlot worker { w.slots worker with inFlight := none }) :=
        h.setSlot (fun j hj => by cases hj) (h.live worker)
      refine hidle.settle hknown hqueued (fun _ r hr => ?_) (fun other hother => by cases hother)
      -- no other worker has the job in flight: the call has only this one
      by_cases hne : r = worker
      · subst hne
        rw [slots_setSlot_self] at hr
        cases hr
      · rw [slots_setSlot_of_ne hne] at hr
        have hheld := h.inFlight_held r job hr
        rw [h.inFlight_held worker job hin] at hheld
        exact hne (Option.some.inj hheld).symm

theorem Inv.onError (h : Inv w) : Inv (w.onError worker) := by
  have herrored : Inv (w.setSlot worker { w.slots worker with errored := true }) :=
    h.setSlot (fun _ hj => hj) (h.live worker)
  exact herrored.rejectInFlight worker

/-- The worker is gone from the pool. -/
theorem Inv.remove (h : Inv w) (worker : ℕ) :
    Inv { w with workers := w.workers.erase worker, pool := w.pool.retire worker } := by
  refine ⟨h.sound.retire, fun r hr => ?_, fun r hr => ?_, h.workers_nodup.erase worker,
    fun r hr => h.live r (List.mem_of_mem_erase hr), h.known, h.queued, h.fresh, h.inFlight_held,
    h.inFlight_open, h.replied⟩
  · have hr' := (List.Nodup.mem_erase_iff h.sound.idle_nodup).mp hr
    exact (List.Nodup.mem_erase_iff h.workers_nodup).mpr ⟨hr'.1, h.idle_workers r hr'.2⟩
  · have hr' := (List.Nodup.mem_erase_iff h.workers_nodup).mp hr
    exact HandOff.Pool.member_retire_of_ne hr'.1 (h.member r hr'.2)

/-- `dead` may as well be set at the end. -/
theorem rejectInFlight_setDead :
    (w.setSlot worker { w.slots worker with dead := true }).rejectInFlight worker =
      (w.rejectInFlight worker).setSlot worker
        { (w.rejectInFlight worker).slots worker with dead := true } := by
  have htwice : ∀ (w : World) (a b : Slot),
      (w.setSlot worker a).setSlot worker b = w.setSlot worker b := by
    intro w a b
    unfold World.setSlot
    rw [Function.update_idem]
  unfold World.rejectInFlight
  rw [slots_setSlot_self]
  cases hin : (w.slots worker).inFlight with
  | none => rfl
  | some job =>
      dsimp only
      rw [slots_setSlot_self, setSlot_settle, setSlot_settle, htwice, setSlot_settle, htwice]

theorem Inv.onExit (h : Inv w) : Inv (w.onExit worker) := by
  unfold World.onExit
  rw [rejectInFlight_setDead]
  have hremoved := (h.rejectInFlight worker).remove worker
  exact hremoved.setSlot (fun _ hj => hj)
    (fun hmem => absurd hmem (h.rejectInFlight worker).workers_nodup.not_mem_erase)

theorem replies_post_of_ne {j : ℕ} (hne : j ≠ job) :
    (w.post worker job).replies j = w.replies j := by
  unfold World.post
  dsimp only
  split
  · exact Function.update_of_ne hne _ _
  · rfl

theorem slots_post_of_ne {r : ℕ} (hne : r ≠ worker) :
    (w.post worker job).slots r = w.slots r := Function.update_of_ne hne _ _

theorem slots_post_self :
    (w.post worker job).slots worker = { w.slots worker with inFlight := some job } :=
  Function.update_self _ _ _

/-- The call that has the worker posts its job. -/
theorem Inv.post (h : Inv w) (hheld : w.pool.held job = some worker) (hun : w.Untouched job) :
    Inv (w.post worker job) := by
  have hinFlight : ∀ r j, ((w.post worker job).slots r).inFlight = some j →
      r = worker ∧ j = job ∨ (w.slots r).inFlight = some j := by
    intro r j hj
    by_cases hr : r = worker
    · subst hr
      rw [slots_post_self] at hj
      exact Or.inl ⟨rfl, (Option.some.inj hj).symm⟩
    · rw [slots_post_of_ne hr] at hj
      exact Or.inr hj
  have huntouched : ∀ j, j ≠ job → w.Untouched j → (w.post worker job).Untouched j := by
    intro j hj hunj
    refine ⟨hunj.1, ?_⟩
    rw [replies_post_of_ne hj]
    exact hunj.2
  refine ⟨h.sound, h.idle_workers, h.member, h.workers_nodup, fun r hr => ?_, h.known,
    fun j hj => ⟨(h.queued j hj).1, huntouched j (fun heq => ?_) (h.queued j hj).2⟩,
    fun j hj => huntouched j (fun heq => ?_) (h.fresh j hj), fun r j hj => ?_, fun r j hj => ?_,
    fun j other hj => ?_⟩
  · by_cases hne : r = worker
    · subst hne
      rw [slots_post_self]
      exact h.live r hr
    · rw [slots_post_of_ne hne]
      exact h.live r hr
  · rw [heq] at hj
    rw [h.sound.held_of_waiter job hj] at hheld
    cases hheld
  · have hlt := h.known job worker hheld
    have hle : w.nextJob ≤ j := hj
    omega
  · rcases hinFlight r j hj with ⟨rfl, rfl⟩ | hold
    · exact hheld
    · exact h.inFlight_held r j hold
  · rcases hinFlight r j hj with ⟨rfl, rfl⟩ | hold
    · show w.promises j ≠ .rejected
      rw [hun.1]
      exact Promise.noConfusion
    · exact h.inFlight_open r j hold
  · -- the reply that settled `j` is not that of the job, which has none yet
    have hcome := h.replied j other hj
    have hne : other ≠ job := by
      intro heq
      rw [heq, hun.2] at hcome
      cases hcome
    rw [replies_post_of_ne hne]
    exact hcome

/-- The call that gives its worker back has nothing in flight on it any more. -/
theorem Inv.setPool_giveBack (h : Inv w) (hheld : w.pool.held job = some worker)
    (hmem : worker ∈ w.workers) (hin : (w.slots worker).inFlight = none) :
    Inv { w with pool := w.pool.giveBack job } := by
  refine h.setPool h.sound.giveBack (fun r hr => ?_)
    (fun r hr => (HandOff.Pool.member_giveBack h.sound).mpr (h.member r hr)) (fun j r hj => ?_)
    (fun j hj => h.queued j (HandOff.Pool.of_mem_waiters_giveBack hj)) (fun r j hj => ?_)
  · rcases HandOff.Pool.of_mem_idle_giveBack hr with hidle | hgiven
    · exact h.idle_workers r hidle
    · rw [hheld] at hgiven
      exact Option.some.inj hgiven ▸ hmem
  · rcases HandOff.Pool.of_held_giveBack hj with hold | hwait
    · exact h.known j r hold
    · exact (h.queued j hwait).1
  · have hjheld := h.inFlight_held r j hj
    refine h.sound.held_giveBack_of_ne (fun heq => ?_) hjheld
    rw [heq, hheld] at hjheld
    rw [← Option.some.inj hjheld, hin] at hj
    cases hj

/-- The same if the worker has exited. -/
theorem Inv.setPool_discard (h : Inv w) (hheld : w.pool.held job = some worker)
    (hmem : worker ∉ w.workers) (hin : (w.slots worker).inFlight = none) :
    Inv { w with pool := w.pool.discard job } := by
  refine h.setPool h.sound.discard h.idle_workers (fun r hr => ?_)
    (fun j r hj => h.known j r (HandOff.Pool.of_held_discard hj).2) h.queued (fun r j hj => ?_)
  · refine (HandOff.Pool.member_discard h.sound hheld).mpr ⟨h.member r hr, fun heq => ?_⟩
    exact hmem (heq ▸ hr)
  · have hjheld := h.inFlight_held r j hj
    have hne : j ≠ job := by
      intro heq
      rw [heq, hheld] at hjheld
      rw [← Option.some.inj hjheld, hin] at hj
      cases hj
    exact (Function.update_of_ne hne _ _).trans hjheld

/-- `release` looks twice for the same: a worker is dead when it is no longer listed. -/
theorem Inv.release_eq (h : Inv w) :
    w.release worker job =
      if worker ∈ w.workers then
        match w.pool.waiters with
        | next :: _ => ({ w with pool := w.pool.giveBack job } : World).post worker next
        | [] => { w with pool := w.pool.giveBack job }
      else { w with pool := w.pool.discard job } := by
  unfold World.release
  by_cases hmem : worker ∈ w.workers
  · rw [if_pos hmem, if_neg]
    simp [h.live worker hmem, hmem]
  · rw [if_neg hmem, if_pos]
    simp [hmem]

theorem held_giveBack_next {next : ℕ} {waiters : List ℕ} (hheld : w.pool.held job = some worker)
    (hwaiters : w.pool.waiters = next :: waiters) :
    (w.pool.giveBack job).held next = some worker := by
  rw [HandOff.Pool.giveBack_of_cons hheld hwaiters]
  exact Function.update_self _ _ _

theorem Inv.release (h : Inv w) (hheld : w.pool.held job = some worker)
    (hin : (w.slots worker).inFlight = none) : Inv (w.release worker job) := by
  rw [h.release_eq]
  split
  · next hmem =>
      have hgiven := h.setPool_giveBack hheld hmem hin
      cases hwaiters : w.pool.waiters with
      | nil => exact hgiven
      | cons next waiters =>
          refine hgiven.post (held_giveBack_next hheld hwaiters) ?_
          exact (h.queued next (by rw [hwaiters]; exact List.mem_cons_self)).2
  · next hmem => exact h.setPool_discard hheld hmem hin

theorem Inv.finish (h : Inv w) (hheld : w.pool.held job = some worker) :
    Inv (w.finish worker job) := by
  have hidle : Inv (w.setSlot worker { w.slots worker with inFlight := none }) :=
    h.setSlot (fun j hj => by cases hj) (h.live worker)
  refine hidle.release hheld ?_
  rw [slots_setSlot_self]

theorem Inv.onMessage (h : Inv w) (hdue : w.replies job = .due worker) :
    Inv (w.onMessage worker job) := by
  have hne : ∀ j, w.Untouched j → j ≠ job := by
    intro j hun heq
    have hnone := hun.2
    rw [heq, hdue] at hnone
    cases hnone
  have hupdate : ∀ j, w.Untouched j →
      w.promises j = .pending ∧ Function.update w.replies job .come j = .none := by
    intro j hun
    rw [Function.update_of_ne (hne j hun)]
    exact hun
  have harrived : Inv { w with replies := Function.update w.replies job .come } := by
    refine ⟨h.sound, h.idle_workers, h.member, h.workers_nodup, h.live, h.known,
      fun j hj => ⟨(h.queued j hj).1, hupdate j (h.queued j hj).2⟩,
      fun j hj => hupdate j (h.fresh j hj), h.inFlight_held, h.inFlight_open, fun j other hj => ?_⟩
    by_cases hother : other = job
    · rw [hother]
      exact Function.update_self _ _ _
    · exact (Function.update_of_ne hother _ _).trans (h.replied j other hj)
  unfold World.onMessage
  cases hin : (w.slots worker).inFlight with
  | none => exact harrived
  | some inFlight =>
      obtain ⟨hknown, hqueued⟩ := h.of_inFlight hin
      refine harrived.settle hknown hqueued (fun hrejected => by cases hrejected) ?_
      intro other hother
      cases hother
      exact Function.update_self _ _ _

/-- The next job. -/
theorem Inv.enter (h : Inv w) : Inv { w with nextJob := w.nextJob + 1 } :=
  ⟨h.sound, h.idle_workers, h.member, h.workers_nodup, h.live,
    fun j r hj => Nat.lt_succ_of_lt (h.known j r hj),
    fun j hj => ⟨Nat.lt_succ_of_lt (h.queued j hj).1, (h.queued j hj).2⟩,
    fun j hj => h.fresh j (Nat.le_of_succ_le hj), h.inFlight_held, h.inFlight_open, h.replied⟩

/-- The call to come has no worker and waits for none. -/
theorem Inv.held_nextJob (h : Inv w) :
    w.pool.held w.nextJob = none ∧ w.nextJob ∉ w.pool.waiters := by
  refine ⟨Option.eq_none_iff_forall_ne_some.mpr (fun r hr => ?_), fun hwait => ?_⟩
  · exact absurd (h.known _ r hr) (lt_irrefl _)
  · exact absurd (h.queued _ hwait).1 (lt_irrefl _)

theorem Inv.acquire (h : Inv w) :
    Inv { w with nextJob := w.nextJob + 1, pool := w.pool.acquire w.nextJob } := by
  obtain ⟨hheld, hwait⟩ := h.held_nextJob
  refine h.enter.setPool (h.sound.acquire hwait hheld)
    (fun r hr => h.idle_workers r (HandOff.Pool.of_mem_idle_acquire hr))
    (fun r hr => (HandOff.Pool.member_acquire hheld).mpr (h.member r hr)) (fun j r hj => ?_)
    (fun j hj => ?_) (fun r j hj => ?_)
  · rcases HandOff.Pool.of_held_acquire hj with rfl | hold
    · exact Nat.lt_succ_self _
    · exact Nat.lt_succ_of_lt (h.known j r hold)
  · rcases HandOff.Pool.of_mem_waiters_acquire hj with rfl | hold
    · exact ⟨Nat.lt_succ_self _, h.fresh _ (le_refl _)⟩
    · exact ⟨Nat.lt_succ_of_lt (h.queued j hold).1, (h.queued j hold).2⟩
  · have hjheld := h.inFlight_held r j hj
    have hne : j ≠ w.nextJob := by
      intro heq
      rw [heq, hheld] at hjheld
      cases hjheld
    show (w.pool.acquire w.nextJob).held j = some r
    rw [HandOff.Pool.held_acquire_of_ne hne, hjheld]

theorem Inv.run (h : Inv w) (config : Config) : Inv (w.run config) := by
  unfold World.run
  dsimp only
  split
  · refine h.enter.settle (Nat.lt_succ_self _) h.held_nextJob.2 (fun _ r hr => ?_)
      (fun other hother => by cases hother)
    have hheld := h.inFlight_held r _ hr
    rw [h.held_nextJob.1] at hheld
    cases hheld
  · cases hidle : w.pool.idle with
    | nil => exact h.acquire
    | cons worker idle =>
        refine h.acquire.post ?_ (h.fresh _ (le_refl _))
        show (w.pool.acquire w.nextJob).held w.nextJob = some worker
        rw [HandOff.Pool.acquire_of_cons hidle]
        exact Function.update_self _ _ _

theorem inv_initial : Inv (initial config) := by
  refine ⟨⟨List.nodup_range, List.nodup_nil, fun hne => absurd rfl hne,
      fun _ hj => absurd hj List.not_mem_nil, fun _ _ _ hj => (nomatch hj),
      fun _ _ hj => (nomatch hj)⟩,
    fun _ hr => hr, fun _ hr => Or.inl hr, List.nodup_range, fun _ _ => rfl,
    fun _ _ hj => (nomatch hj), fun _ hj => absurd hj List.not_mem_nil, fun _ _ => ⟨rfl, rfl⟩,
    fun _ _ hj => (nomatch hj), fun _ _ hj => (nomatch hj), fun _ _ hj => (nomatch hj)⟩

/-- Every event keeps the invariant. -/
theorem Inv.step (h : Inv w) (event : Event) : Inv (exec config w event) := by
  cases event with
  | run => exact h.run config
  | reply worker job =>
      unfold exec
      dsimp only
      split
      · next hguard => exact h.onMessage hguard.1
      · exact h
  | error worker =>
      unfold exec
      dsimp only
      split
      · exact h.onError
      · exact h
  | exit worker =>
      unfold exec
      dsimp only
      split
      · exact h.onExit
      · exact h
  | finish job =>
      unfold exec
      dsimp only
      split
      · exact h
      · next worker hheld =>
          split
          · exact h
          · exact h.finish hheld

end Invariant

/-! ## 5. Which steps keep the promise -/

section Steps

variable {config : Config} {w : World} {worker job : ℕ}

/-- The replies and the promises fit. -/
def Answered (w : World) : Prop :=
  (∀ job, w.replies job = .come → w.promises job = .replied job) ∧
    ∀ job other, w.promises job = .replied other → other = job

/-- Nothing lies idle while somebody waits, so that a worker that is alive is busy then. -/
theorem Inv.serves_iff_parts (h : Inv w) :
    Serves w ↔
      (w.pool.waiters ≠ [] → ∃ worker ∈ w.workers, (w.slots worker).alive = true) ∧
        (∀ q ∈ w.handed, q.2.alive = true) ∧ Answered w := by
  constructor
  · intro hs
    refine ⟨fun hne => ?_, hs.handed, hs.come, hs.own⟩
    obtain ⟨worker, hmem, halive, _⟩ := hs.waiting hne
    exact ⟨worker, hmem, halive⟩
  · rintro ⟨hwaiting, hhanded, hcome, hown⟩
    refine ⟨fun hne => ?_, hhanded, hcome, hown⟩
    obtain ⟨worker, hmem, halive⟩ := hwaiting hne
    refine ⟨worker, hmem, halive, ?_⟩
    rcases h.member worker hmem with hidle | hheld
    · rw [h.sound.idle_of_waiters hne] at hidle
      exact absurd hidle List.not_mem_nil
    · exact hheld

/-- Rejecting a promise spoils no reply: what has come has settled its own. -/
theorem Answered.settle_rejected (h : Answered w) : Answered (w.settle job .rejected) := by
  rw [settle_eq]
  refine ⟨fun j hj => ?_, fun j other hj => ?_⟩
  · have hreplied := h.1 j hj
    rcases promises_settle_or w job .rejected j with
      hsame | ⟨rfl, hpending, _⟩
    · exact hsame.trans hreplied
    · rw [hpending] at hreplied
      cases hreplied
  · dsimp only at hj
    rcases promises_settle_or w job .rejected j with
      hsame | ⟨_, _, hnew⟩
    · rw [hsame] at hj
      exact h.2 j other hj
    · rw [hnew] at hj
      cases hj

theorem Answered.post (h : Answered w) (hreply : w.replies job = .none) :
    Answered (w.post worker job) := by
  refine ⟨fun j hj => ?_, h.2⟩
  by_cases hne : j = job
  · subst hne
    unfold World.post at hj
    dsimp only at hj
    split at hj
    · rw [Function.update_self] at hj
      cases hj
    · rw [hreply] at hj
      cases hj
  · rw [replies_post_of_ne hne] at hj
    exact h.1 j hj

theorem Answered.rejectInFlight (h : Answered w) : Answered (w.rejectInFlight worker) := by
  unfold World.rejectInFlight
  split
  · exact h
  · exact h.settle_rejected

/-- What a rejection leaves alone. -/
theorem rejectInFlight_frame (w : World) (worker : ℕ) :
    (w.rejectInFlight worker).pool = w.pool ∧ (w.rejectInFlight worker).workers = w.workers ∧
      (w.rejectInFlight worker).handed = w.handed := by
  unfold World.rejectInFlight
  split
  · exact ⟨rfl, rfl, rfl⟩
  · rw [settle_eq]
    exact ⟨rfl, rfl, rfl⟩

/-- A slot is as alive with a job in flight as without. -/
theorem alive_setSlot_inFlight {inFlight : Option ℕ} (r : ℕ) :
    ((w.setSlot worker { w.slots worker with inFlight := inFlight }).slots r).alive =
      (w.slots r).alive := by
  by_cases hr : r = worker
  · subst hr
    rw [slots_setSlot_self]
    rfl
  · rw [slots_setSlot_of_ne hr]

theorem alive_rejectInFlight (r : ℕ) :
    ((w.rejectInFlight worker).slots r).alive = (w.slots r).alive := by
  unfold World.rejectInFlight
  split
  · rfl
  · rw [setSlot_settle, settle_eq]
    exact alive_setSlot_inFlight r

/-- Nothing goes wrong when a worker has nothing in flight any more. -/
theorem Serves.idle (h : Serves w) :
    Serves (w.setSlot worker { w.slots worker with inFlight := none }) := by
  refine ⟨fun hne => ?_, h.handed, h.come, h.own⟩
  obtain ⟨r, hmem, halive, hheld⟩ := h.waiting hne
  exact ⟨r, hmem, by rw [alive_setSlot_inFlight, halive], hheld⟩

/-- `run` keeps the promise if the idle worker in line is alive, or else some worker is. -/
theorem Inv.serves_run_iff (h : Inv w) (hs : Serves w) :
    Serves (w.run config) ↔ Healthy config w .run := by
  obtain ⟨hwaiting, hhanded, hanswered⟩ := h.serves_iff_parts.mp hs
  rw [(h.run config).serves_iff_parts]
  unfold World.run Healthy
  by_cases hsize : config.poolSize = 0
  · simp only [if_pos hsize]
    rw [settle_eq]
    refine ⟨fun _ hne => absurd hsize hne, fun _ => ⟨hwaiting, hhanded, ?_⟩⟩
    have hrejected : Answered (({ w with nextJob := w.nextJob + 1 } : World).settle w.nextJob
      .rejected) := Answered.settle_rejected hanswered
    rw [settle_eq] at hrejected
    exact hrejected
  · simp only [if_neg hsize]
    cases hidle : w.pool.idle with
    | nil =>
        -- the caller queues, so from here on somebody waits
        have hwaiters : (w.pool.acquire w.nextJob).waiters ≠ [] := by
          rw [HandOff.Pool.acquire_of_nil hidle]
          exact List.append_ne_nil_of_right_ne_nil _ (List.cons_ne_nil _ _)
        constructor
        · rintro ⟨hnow, -, -⟩ -
          exact hnow hwaiters
        · intro hsome
          exact ⟨fun _ => hsome hsize, hhanded, hanswered⟩
    | cons worker idle =>
        -- something lies idle, so nobody waits
        have hwaiters : (w.pool.acquire w.nextJob).waiters = [] := by
          rw [HandOff.Pool.acquire_of_cons hidle]
          by_contra hne
          rw [h.sound.idle_of_waiters hne] at hidle
          cases hidle
        constructor
        · rintro ⟨-, hnow, -⟩ -
          exact hnow (w.nextJob, w.slots worker)
            (List.mem_append_right _ (List.mem_singleton_self _))
        · intro halive
          refine ⟨fun hne => absurd hwaiters hne, fun q hq => ?_, ?_⟩
          · rcases List.mem_append.mp hq with hold | hnew
            · exact hhanded q hold
            · rw [List.mem_singleton.mp hnew]
              exact halive hsize
          · exact Answered.post hanswered (h.fresh _ (le_refl _)).2

/-- The promise of a job whose reply is due has not been settled by that reply. -/
theorem Inv.ne_replied_of_due (h : Inv w) (hdue : w.replies job = .due worker) :
    w.promises job ≠ .replied job := by
  intro hreplied
  have hcome := h.replied job job hreplied
  rw [hdue] at hcome
  cases hcome

/-- A job that is in flight and whose reply is due is pending. -/
theorem Inv.pending_of_inFlight (h : Inv w) (hanswered : Answered w)
    (hin : (w.slots worker).inFlight = some job) (hdue : w.replies job = .due worker) :
    w.promises job = .pending := by
  cases hp : w.promises job with
  | pending => rfl
  | replied other =>
      obtain rfl := hanswered.2 job other hp
      exact absurd hp (h.ne_replied_of_due hdue)
  | rejected => exact absurd hp (h.inFlight_open worker job hin)

/-- The reply to a job settles its own promise. -/
theorem Answered.settle_own (h : Answered w) (hpending : w.promises job = .pending) :
    Answered (World.settle { w with replies := Function.update w.replies job .come } job
      (.replied job)) := by
  rw [settle_of_pending (w := { w with replies := Function.update w.replies job .come }) hpending]
  refine ⟨fun j hj => ?_, fun j other hj => ?_⟩
  · by_cases hne : j = job
    · rw [hne]
      exact Function.update_self _ _ _
    · dsimp only at hj ⊢
      rw [Function.update_of_ne hne] at hj ⊢
      exact h.1 j hj
  · dsimp only at hj
    by_cases hne : j = job
    · subst hne
      rw [Function.update_self] at hj
      exact (Promise.replied.inj hj).symm
    · rw [Function.update_of_ne hne] at hj
      exact h.2 j other hj

/-- A reply keeps it if its job is in flight on the worker: it is pending then. -/
theorem Inv.serves_onMessage_iff (h : Inv w) (hs : Serves w) (hdue : w.replies job = .due worker) :
    Serves (w.onMessage worker job) ↔ (w.slots worker).inFlight = some job := by
  obtain ⟨hwaiting, hhanded, hanswered⟩ := h.serves_iff_parts.mp hs
  have hopen := h.ne_replied_of_due hdue
  rw [(h.onMessage hdue).serves_iff_parts]
  unfold World.onMessage
  cases hin : (w.slots worker).inFlight with
  | none =>
      -- a stray reply settles nothing, so its job stays without one
      refine ⟨fun hparts => ?_, fun hnone => by cases hnone⟩
      exact absurd (hparts.2.2.1 job (Function.update_self _ _ _)) hopen
  | some inFlight =>
      dsimp only
      rw [Option.some.injEq]
      constructor
      · rintro ⟨-, -, hnow⟩
        by_contra hne
        rw [settle_eq] at hnow
        have hreplied := hnow.1 job (Function.update_self _ _ _)
        rcases promises_settle_or { w with replies := Function.update w.replies job .come } inFlight
            (.replied job) job with hsame | ⟨heq, -, -⟩
        · exact hopen (hsame.symm.trans hreplied)
        · exact hne heq.symm
      · rintro rfl
        have hown := hanswered.settle_own (h.pending_of_inFlight hanswered hin hdue)
        rw [settle_eq] at hown ⊢
        exact ⟨hwaiting, hhanded, hown⟩

/-- An 'error' keeps it if another worker is alive while somebody waits. -/
theorem Inv.serves_onError_iff (h : Inv w) (hs : Serves w) :
    Serves (w.onError worker) ↔ (w.pool.waiters ≠ [] →
      ∃ other ∈ w.workers, other ≠ worker ∧ (w.slots other).alive = true) := by
  obtain ⟨-, hhanded, hanswered⟩ := h.serves_iff_parts.mp hs
  have halive : ∀ r, ((w.onError worker).slots r).alive = true ↔
      r ≠ worker ∧ (w.slots r).alive = true := by
    intro r
    unfold World.onError
    rw [alive_rejectInFlight]
    by_cases hr : r = worker
    · subst hr
      rw [slots_setSlot_self]
      simp [Slot.alive]
    · rw [slots_setSlot_of_ne hr]
      exact (and_iff_right hr).symm
  obtain ⟨hpool, hworkers, hhands⟩ := rejectInFlight_frame
    (w.setSlot worker { w.slots worker with errored := true }) worker
  have hrejected : Answered (w.onError worker) := Answered.rejectInFlight hanswered
  rw [h.onError.serves_iff_parts]
  simp only [halive]
  unfold World.onError at hrejected ⊢
  rw [hpool, hworkers, hhands]
  exact ⟨fun hparts => hparts.1, fun hother => ⟨hother, hhanded, hrejected⟩⟩

/-- So does an 'exit'. -/
theorem Inv.serves_onExit_iff (h : Inv w) (hs : Serves w) :
    Serves (w.onExit worker) ↔ (w.pool.waiters ≠ [] →
      ∃ other ∈ w.workers, other ≠ worker ∧ (w.slots other).alive = true) := by
  obtain ⟨-, hhanded, hanswered⟩ := h.serves_iff_parts.mp hs
  have halive : ∀ r, r ≠ worker → ((w.onExit worker).slots r).alive = (w.slots r).alive := by
    intro r hr
    show ((World.rejectInFlight _ worker).slots r).alive = _
    rw [alive_rejectInFlight, slots_setSlot_of_ne hr]
  obtain ⟨hpool, hworkers, hhands⟩ := rejectInFlight_frame
    (w.setSlot worker { w.slots worker with dead := true }) worker
  have hmem : ∀ r, r ∈ (w.onExit worker).workers ↔ r ≠ worker ∧ r ∈ w.workers := by
    intro r
    show r ∈ (World.rejectInFlight _ worker).workers.erase worker ↔ _
    rw [hworkers]
    exact List.Nodup.mem_erase_iff h.workers_nodup
  have hwaiters : (w.onExit worker).pool.waiters = w.pool.waiters := by
    show (World.rejectInFlight _ worker).pool.waiters = _
    rw [hpool]
    rfl
  have hrejected : Answered (w.onExit worker) := Answered.rejectInFlight hanswered
  rw [h.onExit.serves_iff_parts, hwaiters]
  constructor
  · rintro ⟨hnow, -, -⟩ hne
    obtain ⟨r, hr, hralive⟩ := hnow hne
    obtain ⟨hrne, hrmem⟩ := (hmem r).mp hr
    exact ⟨r, hrmem, hrne, by rw [← halive r hrne, hralive]⟩
  · intro hother
    refine ⟨fun hne => ?_, fun q hq => ?_, hrejected⟩
    · obtain ⟨r, hrmem, hrne, hralive⟩ := hother hne
      exact ⟨r, (hmem r).mpr ⟨hrne, hrmem⟩, by rw [halive r hrne, hralive]⟩
    · have hq' : q ∈ w.handed := hhands ▸ hq
      exact hhanded q hq'

/-- `release` keeps it if what goes to the next in the queue has not errored. -/
theorem Inv.serves_release_iff (h : Inv w) (hs : Serves w) (hheld : w.pool.held job = some worker)
    (hin : (w.slots worker).inFlight = none) :
    Serves (w.release worker job) ↔
      (w.pool.waiters ≠ [] → worker ∈ w.workers → (w.slots worker).errored = false) := by
  obtain ⟨hwaiting, hhanded, hanswered⟩ := h.serves_iff_parts.mp hs
  rw [(h.release hheld hin).serves_iff_parts, h.release_eq]
  by_cases hmem : worker ∈ w.workers
  · rw [if_pos hmem]
    have halive : (w.slots worker).alive = true ↔ (w.slots worker).errored = false := by
      unfold Slot.alive
      rw [h.live worker hmem]
      simp
    cases hwaiters : w.pool.waiters with
    | nil =>
        have hnone : (w.pool.giveBack job).waiters = [] := by
          rw [HandOff.Pool.giveBack_of_nil hheld hwaiters]
          exact hwaiters
        exact ⟨fun _ hne => absurd rfl hne,
          fun _ => ⟨fun hne => absurd hnone hne, hhanded, hanswered⟩⟩
    | cons next waiters =>
        -- the rest of the queue now waits for the worker that is handed on
        have hnext := (h.queued next (by rw [hwaiters]; exact List.mem_cons_self)).2
        constructor
        · rintro ⟨-, hnow, -⟩ - -
          rw [← halive]
          exact hnow (next, w.slots worker) (List.mem_append_right _ (List.mem_singleton_self _))
        · intro hok
          have hworker := halive.mpr (hok (List.cons_ne_nil _ _) hmem)
          refine ⟨fun _ => ⟨worker, hmem, ?_⟩, fun q hq => ?_, Answered.post hanswered hnext.2⟩
          · rw [slots_post_self]
            exact hworker
          · rcases List.mem_append.mp hq with hold | hnew
            · exact hhanded q hold
            · rw [List.mem_singleton.mp hnew]
              exact hworker
  · rw [if_neg hmem]
    exact ⟨fun _ _ hin => absurd hin hmem, fun _ => ⟨hwaiting, hhanded, hanswered⟩⟩

/-- The `finally` block keeps it on the same condition. -/
theorem Inv.serves_finish_iff (h : Inv w) (hs : Serves w) (hheld : w.pool.held job = some worker) :
    Serves (w.finish worker job) ↔
      (w.pool.waiters ≠ [] → worker ∈ w.workers → (w.slots worker).errored = false) := by
  have hidle : Inv (w.setSlot worker { w.slots worker with inFlight := none }) :=
    h.setSlot (fun j hj => by cases hj) (h.live worker)
  have hrelease := hidle.serves_release_iff hs.idle hheld (by rw [slots_setSlot_self])
  rw [slots_setSlot_self] at hrelease
  exact hrelease

/-- **A step keeps the promise** exactly if it is healthy. -/
theorem Inv.serves_exec_iff (h : Inv w) (hs : Serves w) (event : Event) :
    Serves (exec config w event) ↔ Healthy config w event := by
  cases event with
  | run => exact h.serves_run_iff hs
  | reply worker job =>
      unfold exec Healthy
      dsimp only
      split
      · next hguard =>
          rw [h.serves_onMessage_iff hs hguard.1]
          exact ⟨fun hin _ _ => hin, fun hin => hin hguard.1 hguard.2⟩
      · next hguard =>
          exact ⟨fun _ hdue hmem => absurd ⟨hdue, hmem⟩ hguard, fun _ => hs⟩
  | error worker =>
      unfold exec Healthy
      dsimp only
      split
      · next hmem =>
          rw [h.serves_onError_iff hs]
          exact ⟨fun hother _ => hother, fun hother => hother hmem⟩
      · next hmem => exact ⟨fun _ hin => absurd hin hmem, fun _ => hs⟩
  | exit worker =>
      unfold exec Healthy
      dsimp only
      split
      · next hmem =>
          rw [h.serves_onExit_iff hs]
          exact ⟨fun hother _ => hother, fun hother => hother hmem⟩
      · next hmem => exact ⟨fun _ hin => absurd hin hmem, fun _ => hs⟩
  | finish job =>
      unfold exec Healthy
      dsimp only
      cases hheld : w.pool.held job with
      | none => exact ⟨fun _ _ _ _ _ hnone => (nomatch hnone), fun _ => hs⟩
      | some worker =>
          dsimp only
          split
          · next hpending => exact ⟨fun _ hne => absurd hpending hne, fun _ => hs⟩
          · next hsettled =>
              rw [h.serves_finish_iff hs hheld]
              constructor
              · intro hok _ hne r hr heq
                obtain rfl := Option.some.inj heq
                exact hok hne hr
              · exact fun hok hne hmem => hok hsettled hne worker hmem rfl

/-- **Nobody is stranded or misrouted, from the start of a run to its end**, exactly if all its
steps are healthy. -/
theorem serves_iff (config : Config) (events : List Event) :
    (∀ past, past <+: events → Serves (past.foldl (exec config) (initial config))) ↔
      ∀ past event, past ++ [event] <+: events →
        Healthy config (past.foldl (exec config) (initial config)) event := by
  have hstart : Serves (initial config) :=
    ⟨fun hne => absurd rfl hne, fun _ hq => absurd hq List.not_mem_nil,
      fun _ hcome => (nomatch hcome), fun _ _ hreplied => (nomatch hreplied)⟩
  exact Runs.prefixes_iff inv_initial (fun _ event h => h.step event) hstart
    (fun _ event h hs => h.serves_exec_iff hs event) events

end Steps

/-- One worker. -/
def single : Config := ⟨1, 1, le_refl 1⟩

/-- The pool after the events. -/
def after (config : Config) (events : List Event) : World :=
  events.foldl (exec config) (initial config)

/-- A worker is handed on between its 'error' and its 'exit'. -/
def handedOn : List Event := [.run, .run, .error 0, .finish 0]

/-- The reply to the first job comes after that. -/
def misrouted : List Event := handedOn ++ [.reply 0 0]

/-- The last worker exits while somebody waits. -/
def stranded : List Event := [.run, .run, .run, .error 0, .finish 0, .exit 0, .finish 1, .run]

/-- The worker of the first job errors. Until it exits it is handed on to the second, which the
reply to the first settles; the third is left in the queue of a pool without workers, and so is
who comes later. -/
theorem serves_not_always :
    (after single handedOn).handed.map (fun q => (q.1, q.2.errored)) = [(0, false), (1, true)] ∧
    (after single misrouted).promises 1 = .replied 0 ∧
    (after single stranded).workers = [] ∧ (after single stranded).pool.waiters = [2, 3] ∧
    ¬ Serves (after single handedOn) ∧ ¬ Serves (after single misrouted) ∧
    ¬ Serves (after single stranded) := by
  have hworkers : (after single stranded).workers = [] := by decide
  refine ⟨by decide, by decide, hworkers, by decide, fun h => ?_, fun h => ?_, fun h => ?_⟩
  · exact absurd (h.handed (1, { errored := true }) (by decide)) (by decide)
  · exact absurd (h.own 1 0 (by decide)) (by decide)
  · obtain ⟨worker, hmem, _⟩ := h.waiting (by decide)
    rw [hworkers] at hmem
    exact absurd hmem List.not_mem_nil

end Brain.JobWorkerPool
