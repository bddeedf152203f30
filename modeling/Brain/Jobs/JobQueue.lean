/-
The job queue as a system: the tables of all tenants, the clock of the database, and the
sweeps of the reaper that are under way.

A step is one statement of one caller, so a run is an interleaving of any number of
workers, operators and sweeps. A sweep selects its rows in one step and updates them in
later ones. A worker or a sweep that crashes takes no further step.

What a step can do to a row is said once (`RowStep`, `step_row`); the invariants of the
modules over this one come from it.
-/
import Brain.Jobs.JobClaimService
import Brain.Lib.Runs

set_option autoImplicit false

namespace Brain.Jobs

/-- A row of some tenant's table. -/
structure JobRef where
  companyId : String
  id : ℕ
deriving DecidableEq

/-- A call of `reapZombies` after its `SELECT`. -/
structure Sweep where
  companyId : String
  maxAttempts : ℤ
  baseMs : ℚ
  remaining : List Zombie
  requeued : ℕ := 0
  failed : ℕ := 0

structure Queue where
  clock : Time
  dbs : String → JobDb
  sweeps : ℕ → Option Sweep

/-- No rows, and no sweep. -/
def Queue.init (clock : Time) : Queue :=
  { clock := clock, dbs := fun _ => KeyedTable.empty, sweeps := fun _ => none }

/-- The row that `ref` stands for. -/
def Queue.row? (q : Queue) (ref : JobRef) : Option JobRun := (q.dbs ref.companyId).get? ref.id

def Queue.setDb (q : Queue) (companyId : String) (db : JobDb) : Queue :=
  { q with dbs := Function.update q.dbs companyId db }

def Queue.setSweep (q : Queue) (sweep : ℕ) (sw : Option Sweep) : Queue :=
  { q with sweeps := Function.update q.sweeps sweep sw }

inductive QueueOp where
  /-- Time passes. -/
  | advance (ms : ℕ)
  | enqueue (companyId : String) (input : EnqueueInput) (runId : String)
      (traceparent : Option String) (clientNow : Time)
  | claimNext (me : WorkerId) (companyId : String) (jobType : JobType) (ttlSeconds pick : ℕ)
  | renew (me : WorkerId) (companyId : String) (rid ttlSeconds : ℕ)
  | complete (me : WorkerId) (companyId : String) (rid : ℕ) (result : Option JobObject)
  | fail (me : WorkerId) (companyId : String) (input : FailInput) (clientNow : Time) (random : ℚ)
  | cancelled (me : WorkerId) (companyId : String) (rid : ℕ) (result : Option JobObject)
  | requestCancel (persistEnabled : Bool) (runId companyId : String)
  /-- A sweep starts. The name of one that is under way is not used again. -/
  | reapSelect (sweep : ℕ) (companyId : String) (maxAttempts : ℤ) (baseMs : ℚ) (visit : List ℕ)
  /-- A sweep updates the next of its rows. -/
  | reapUpdate (sweep : ℕ) (clientNow : Time) (random : ℚ)
  /-- A sweep ends, in the middle or not. -/
  | reapStop (sweep : ℕ)

/-- A sweep after the update of `z`. -/
def Sweep.after (sw : Sweep) (z : Zombie) (rest : List Zombie) : Sweep :=
  { sw with
    remaining := rest
    requeued := if z.willRequeue sw.maxAttempts then sw.requeued + 1 else sw.requeued
    failed := if z.willRequeue sw.maxAttempts then sw.failed else sw.failed + 1 }

/-- One statement. -/
def Queue.step (q : Queue) : QueueOp → Queue
  | .advance ms => { q with clock := q.clock + ms }
  | .enqueue companyId input runId traceparent clientNow =>
      q.setDb companyId
        (Jobs.enqueue input runId traceparent q.clock clientNow (q.dbs companyId)).2
  | .claimNext me companyId jobType ttlSeconds pick =>
      q.setDb companyId
        (Jobs.claimNext me companyId jobType ttlSeconds q.clock pick (q.dbs companyId)).2
  | .renew me companyId rid ttlSeconds =>
      q.setDb companyId (Jobs.renew me rid ttlSeconds q.clock (q.dbs companyId)).2
  | .complete me companyId rid result =>
      q.setDb companyId (Jobs.complete me rid result q.clock (q.dbs companyId))
  | .fail me companyId input clientNow random =>
      q.setDb companyId (Jobs.fail me input q.clock clientNow random (q.dbs companyId)).2
  | .cancelled me companyId rid result =>
      q.setDb companyId (Jobs.cancelled me rid result q.clock (q.dbs companyId))
  | .requestCancel persistEnabled runId companyId =>
      q.setDb companyId (Jobs.requestCancel persistEnabled runId q.clock (q.dbs companyId)).2
  | .reapSelect sweep companyId maxAttempts baseMs visit =>
      match q.sweeps sweep with
      | some _ => q
      | none =>
          q.setSweep sweep (some
            { companyId := companyId
              maxAttempts := maxAttempts
              baseMs := baseMs
              remaining := selectZombies visit q.clock (q.dbs companyId) })
  | .reapUpdate sweep clientNow random =>
      match q.sweeps sweep with
      | none => q
      | some sw =>
          match sw.remaining with
          | [] => q
          | z :: rest =>
              (q.setDb sw.companyId
                (reapRow sw.maxAttempts sw.baseMs q.clock clientNow random z
                  (q.dbs sw.companyId))).setSweep sweep (some (sw.after z rest))
  | .reapStop sweep => q.setSweep sweep none

/-- The states that some interleaving leads to. -/
def Queue.Reachable (clock : Time) (q : Queue) : Prop :=
  Runs.Reached Queue.step (fun _ _ => True) (Queue.init clock) q

/-! ## Simple facts about the state -/

@[simp] theorem Queue.clock_setDb (q : Queue) (c : String) (db : JobDb) :
    (q.setDb c db).clock = q.clock := rfl

@[simp] theorem Queue.sweeps_setDb (q : Queue) (c : String) (db : JobDb) :
    (q.setDb c db).sweeps = q.sweeps := rfl

@[simp] theorem Queue.clock_setSweep (q : Queue) (s : ℕ) (sw : Option Sweep) :
    (q.setSweep s sw).clock = q.clock := rfl

@[simp] theorem Queue.row?_setSweep (q : Queue) (s : ℕ) (sw : Option Sweep) (ref : JobRef) :
    (q.setSweep s sw).row? ref = q.row? ref := rfl

theorem Queue.sweeps_setSweep (q : Queue) (s t : ℕ) (sw : Option Sweep) :
    (q.setSweep s sw).sweeps t = if t = s then sw else q.sweeps t := Function.update_apply ..

theorem Queue.row?_setDb (q : Queue) (c : String) (db : JobDb) (ref : JobRef) :
    (q.setDb c db).row? ref = if ref.companyId = c then db.get? ref.id else q.row? ref := by
  unfold Queue.row? Queue.setDb
  by_cases h : ref.companyId = c
  · simp [h]
  · simp [h]

@[simp] theorem Queue.setDb_self (q : Queue) (c : String) : q.setDb c (q.dbs c) = q := by
  simp [Queue.setDb]

/-- A row that an owner's statement finds is the owner's. -/
theorem get?_updateOwned {me : WorkerId} {rid i : ℕ} {f : JobRun → JobRun} {db : JobDb}
    {r : JobRun} (h : db.get? i = some r) :
    (updateOwned me rid f db).get? i
      = some (if i = rid ∧ r.ownedBy me = true then f r else r) := by
  rw [updateOwned, KeyedTable.get?_update, h]
  by_cases hi : i = rid
  · simp [hi]
  · simp [hi]

theorem get?_updateOwned_none {me : WorkerId} {rid i : ℕ} {f : JobRun → JobRun} {db : JobDb}
    (h : db.get? i = none) : (updateOwned me rid f db).get? i = none := by
  rw [updateOwned, KeyedTable.get?_update, h]
  simp

theorem earliestClaimable_iff {jobType : JobType} {now : Time} {i : ℕ} {db : JobDb} :
    earliestClaimable jobType now i db = true ↔
      ∃ r, db.get? i = some r ∧ r.claimable jobType now = true ∧
        ∀ j r', db.get? j = some r' → r'.claimable jobType now = true →
          r.visibleAfter ≤ r'.visibleAfter := by
  unfold earliestClaimable
  cases h : db.get? i with
  | none => simp
  | some r =>
      simp only [Bool.and_eq_true, List.all_eq_true, KeyedTable.mem_select, decide_eq_true_eq,
        Option.some.injEq, exists_eq_left', Prod.forall, and_imp]

/-! ## What a step does to a row -/

/-- A statement of `me` on row `ref` that its `WHERE` guards, with what it sets. -/
inductive OwnerWrite (q : Queue) (ref : JobRef) : QueueOp → WorkerId → (JobRun → JobRun) → Prop
  | renew (me : WorkerId) (ttlSeconds : ℕ) :
      OwnerWrite q ref (.renew me ref.companyId ref.id ttlSeconds) me
        (JobRun.renewed ttlSeconds q.clock)
  | complete (me : WorkerId) (result : JobObject) :
      OwnerWrite q ref (.complete me ref.companyId ref.id (some result)) me
        (JobRun.finished .succeeded result q.clock)
  | fail (me : WorkerId) (input : FailInput) (clientNow : Time) (random : ℚ)
      (hid : input.recordId = ref.id) :
      OwnerWrite q ref (.fail me ref.companyId input clientNow random) me
        (input.write q.clock clientNow random)
  | cancelled (me : WorkerId) (result : JobObject) :
      OwnerWrite q ref (.cancelled me ref.companyId ref.id (some result)) me
        (JobRun.finished .cancelled result q.clock)

/-- What a step that changes row `ref` can be, and what it makes of the row. -/
inductive RowStep (q : Queue) (ref : JobRef) (r : JobRun) : QueueOp → JobRun → Prop
  | claimed (me : WorkerId) (jobType : JobType) (ttlSeconds : ℕ)
      (h : earliestClaimable jobType q.clock ref.id (q.dbs ref.companyId) = true)
      (hr : r.claimable jobType q.clock = true) :
      RowStep q ref r (.claimNext me ref.companyId jobType ttlSeconds ref.id)
        (r.claimed me ttlSeconds q.clock)
  | owner {op : QueueOp} {me : WorkerId} {f : JobRun → JobRun} (h : OwnerWrite q ref op me f)
      (hr : r.ownedBy me = true) : RowStep q ref r op (f r)
  | cancelFlagged (runId : String) (hr : r.cancellable runId = true) :
      RowStep q ref r (.requestCancel true runId ref.companyId) (r.cancelFlagged q.clock)
  | reaped (sweep : ℕ) (clientNow : Time) (random : ℚ) (sw : Sweep) (z : Zombie)
      (rest : List Zombie) (hsw : q.sweeps sweep = some sw) (hc : sw.companyId = ref.companyId)
      (hrem : sw.remaining = z :: rest) (hz : z.id = ref.id) :
      RowStep q ref r (.reapUpdate sweep clientNow random)
        (z.write sw.maxAttempts sw.baseMs q.clock clientNow random r)

variable {q q' : Queue} {ref : JobRef} {r r' : JobRun} {op : QueueOp}

theorem createJobRun_eq_some {db db' : JobDb} (h : createJobRun r db = some db') :
    db' = db.insert r ∧ ∀ i r', db.get? i = some r' → r.collides r' = false := by
  unfold createJobRun at h
  split at h
  · next hfree =>
      refine ⟨(Option.some.inj h).symm, ?_⟩
      exact KeyedTable.select_eq_nil_iff.mp (List.isEmpty_iff.mp hfree)
  · cases h

/-- `enqueue` leaves the table, or the table with its row. -/
theorem enqueue_cases (input : EnqueueInput) (runId : String) (traceparent : Option String)
    (now clientNow : Time) (db : JobDb) :
    (enqueue input runId traceparent now clientNow db).2 = db ∨
      (enqueue input runId traceparent now clientNow db).2
          = db.insert (input.row runId traceparent now clientNow) ∧
        ∀ i r', db.get? i = some r' →
          (input.row runId traceparent now clientNow).collides r' = false := by
  unfold enqueue
  cases h : createJobRun (input.row runId traceparent now clientNow) db with
  | some db' =>
      obtain ⟨rfl, hfree⟩ := createJobRun_eq_some h
      exact Or.inr ⟨rfl, hfree⟩
  | none =>
      left
      cases input.dedupKey with
      | none => rfl
      | some key =>
          dsimp only
          split <;> rfl

/-- A statement on another table, or on other rows of this one. -/
theorem row?_setDb_of_get? {c : String} {db : JobDb} (h : q.row? ref = some r)
    (hdb : ref.companyId = c → db.get? ref.id = some r) : (q.setDb c db).row? ref = some r := by
  rw [Queue.row?_setDb]
  split
  · next hc => exact hdb hc
  · exact h

/-- An owner's statement, as a step of its row. -/
theorem row?_updateOwned {me : WorkerId} {c : String} {rid : ℕ} {f : JobRun → JobRun}
    (h : q.row? ref = some r)
    (hw : ref.companyId = c → ref.id = rid → OwnerWrite q ref op me f) :
    ∃ r', (q.setDb c (updateOwned me rid f (q.dbs c))).row? ref = some r' ∧
      (r' = r ∨ RowStep q ref r op r') := by
  rw [Queue.row?_setDb]
  split
  · next hc =>
      subst hc
      rw [get?_updateOwned h]
      by_cases hown : ref.id = rid ∧ r.ownedBy me = true
      · rw [if_pos hown]
        exact ⟨_, rfl, Or.inr (.owner (hw rfl hown.1) hown.2)⟩
      · rw [if_neg hown]
        exact ⟨_, rfl, Or.inl rfl⟩
  · exact ⟨r, h, Or.inl rfl⟩

/-- **What a step does to a row**: it leaves the row as it is, or is one of the changes of
`RowStep`. No step removes a row. -/
theorem step_row (h : q.row? ref = some r) (op : QueueOp) :
    ∃ r', (q.step op).row? ref = some r' ∧ (r' = r ∨ RowStep q ref r op r') := by
  have hget : ∀ {c : String}, ref.companyId = c → (q.dbs c).get? ref.id = some r := by
    rintro c rfl
    exact h
  cases op with
  | advance ms => exact ⟨r, h, Or.inl rfl⟩
  | enqueue c input runId traceparent clientNow =>
      refine ⟨r, row?_setDb_of_get? h (fun hc => ?_), Or.inl rfl⟩
      rcases enqueue_cases input runId traceparent q.clock clientNow (q.dbs c) with he | ⟨he, _⟩
      · rw [he]
        exact hget hc
      · -- the new row has an id of its own
        rw [he, KeyedTable.get?_insert, if_neg (Nat.ne_of_lt (KeyedTable.get?_lt_next (hget hc)))]
        exact hget hc
  | claimNext me c jobType ttlSeconds pick =>
      simp only [Queue.step, claimNext]
      split
      · next hpick =>
          by_cases hc : ref.companyId = c ∧ ref.id = pick
          · obtain ⟨rfl, rfl⟩ := hc
            obtain ⟨r₀, hr₀, hclaim, _⟩ := earliestClaimable_iff.mp hpick
            obtain rfl : r₀ = r := Option.some.inj (hr₀.symm.trans h)
            refine ⟨_, ?_, Or.inr (.claimed me jobType ttlSeconds hpick hclaim)⟩
            rw [Queue.row?_setDb, if_pos rfl, KeyedTable.get?_update, if_pos rfl, hr₀]
            rfl
          · refine ⟨r, row?_setDb_of_get? h (fun hc' => ?_), Or.inl rfl⟩
            rw [KeyedTable.get?_update, if_neg (fun hi => hc ⟨hc', hi⟩)]
            exact hget hc'
      · exact ⟨r, by rwa [Queue.setDb_self], Or.inl rfl⟩
  | renew me c rid ttlSeconds =>
      exact row?_updateOwned h (by rintro rfl rfl; exact .renew me ttlSeconds)
  | complete me c rid result =>
      cases result with
      | none =>
          refine ⟨r, ?_, Or.inl rfl⟩
          simpa [Queue.step, complete, finish] using h
      | some result => exact row?_updateOwned h (by rintro rfl rfl; exact .complete me result)
  | fail me c input clientNow random =>
      exact row?_updateOwned h (by rintro rfl hid; exact .fail me input clientNow random hid.symm)
  | cancelled me c rid result =>
      cases result with
      | none =>
          refine ⟨r, ?_, Or.inl rfl⟩
          simpa [Queue.step, cancelled, finish] using h
      | some result => exact row?_updateOwned h (by rintro rfl rfl; exact .cancelled me result)
  | requestCancel persistEnabled runId c =>
      cases persistEnabled with
      | false =>
          refine ⟨r, ?_, Or.inl rfl⟩
          simpa [Queue.step, requestCancel] using h
      | true =>
          simp only [Queue.step, requestCancel, if_true, Queue.row?_setDb]
          split
          · next hc =>
              subst hc
              rw [KeyedTable.get?_modify, hget rfl, Option.map_some]
              by_cases hcan : r.cancellable runId = true
              · rw [if_pos hcan]
                exact ⟨_, rfl, Or.inr (.cancelFlagged runId hcan)⟩
              · rw [if_neg hcan]
                exact ⟨r, rfl, Or.inl rfl⟩
          · exact ⟨r, h, Or.inl rfl⟩
  | reapSelect sweep c maxAttempts baseMs visit =>
      refine ⟨r, ?_, Or.inl rfl⟩
      simp only [Queue.step]
      split <;> exact h
  | reapUpdate sweep clientNow random =>
      simp only [Queue.step]
      cases hsw : q.sweeps sweep with
      | none => exact ⟨r, h, Or.inl rfl⟩
      | some sw =>
          cases hrem : sw.remaining with
          | nil => exact ⟨r, by simpa [hrem] using h, Or.inl rfl⟩
          | cons z rest =>
              simp only [hrem]
              by_cases hc : sw.companyId = ref.companyId ∧ z.id = ref.id
              · refine ⟨_, ?_, Or.inr (.reaped sweep clientNow random sw z rest hsw hc.1 hrem hc.2)⟩
                change (q.setDb _ _).row? ref = _
                rw [Queue.row?_setDb, if_pos hc.1.symm, reapRow, KeyedTable.get?_update,
                  if_pos hc.2.symm, hget hc.1.symm]
                rfl
              · refine ⟨r, ?_, Or.inl rfl⟩
                change (q.setDb _ _).row? ref = _
                refine row?_setDb_of_get? h (fun hc' => ?_)
                rw [reapRow, KeyedTable.get?_update, if_neg (fun hi => hc ⟨hc'.symm, hi.symm⟩)]
                exact hget hc'
  | reapStop sweep => exact ⟨r, h, Or.inl rfl⟩

/-- The changes of `RowStep` are what happens, not only what may. -/
theorem row?_step_of_eq (h : q.row? ref = some r) (h' : (q.step op).row? ref = some r') :
    r' = r ∨ RowStep q ref r op r' := by
  obtain ⟨r'', hr'', hstep⟩ := step_row h op
  obtain rfl : r'' = r' := Option.some.inj (hr''.symm.trans h')
  exact hstep

/-- **Where rows come from**: only `enqueue` makes one, and it collides with none. -/
theorem step_new_row (h : q.row? ref = none) (h' : (q.step op).row? ref = some r') :
    ∃ input runId traceparent clientNow,
      op = .enqueue ref.companyId input runId traceparent clientNow ∧
      r' = input.row runId traceparent q.clock clientNow ∧
      ref.id = (q.dbs ref.companyId).next ∧
      ∀ i r, (q.dbs ref.companyId).get? i = some r → r'.collides r = false := by
  have hget : ∀ {c : String}, ref.companyId = c → (q.dbs c).get? ref.id = none := by
    rintro c rfl
    exact h
  -- all other statements leave a table without the row without it
  have hno : ∀ {c : String} {db : JobDb}, (ref.companyId = c → db.get? ref.id = none) →
      (q.setDb c db).row? ref ≠ some r' := by
    intro c db hdb e
    rw [Queue.row?_setDb] at e
    split at e
    · next hc => rw [hdb hc] at e; cases e
    · rw [h] at e; cases e
  have howner : ∀ (me : WorkerId) (c : String) (rid : ℕ) (f : JobRun → JobRun),
      (q.setDb c (updateOwned me rid f (q.dbs c))).row? ref ≠ some r' :=
    fun me c rid f => hno (fun hc => get?_updateOwned_none (hget hc))
  cases op with
  | advance ms => exact absurd (h.symm.trans h') (by simp)
  | enqueue c input runId traceparent clientNow =>
      simp only [Queue.step] at h'
      rcases enqueue_cases input runId traceparent q.clock clientNow (q.dbs c) with he | ⟨he, hfree⟩
      · rw [he] at h'
        exact absurd h' (hno hget)
      · rw [he, Queue.row?_setDb] at h'
        split at h'
        · next hc =>
            subst hc
            rw [KeyedTable.get?_insert] at h'
            split at h'
            · next hi =>
                obtain rfl := Option.some.inj h'
                exact ⟨input, runId, traceparent, clientNow, rfl, rfl, hi, hfree⟩
            · rw [hget rfl] at h'
              cases h'
        · rw [h] at h'
          cases h'
  | claimNext me c jobType ttlSeconds pick =>
      simp only [Queue.step, claimNext] at h'
      split at h'
      · refine absurd h' (hno (fun hc => ?_))
        rw [KeyedTable.get?_update, hget hc]
        simp
      · exact absurd h' (hno hget)
  | renew me c rid ttlSeconds => exact absurd h' (howner me c rid _)
  | complete me c rid result =>
      cases result with
      | none => exact absurd h' (hno hget)
      | some result => exact absurd h' (howner me c rid _)
  | fail me c input clientNow random => exact absurd h' (howner me c _ _)
  | cancelled me c rid result =>
      cases result with
      | none => exact absurd h' (hno hget)
      | some result => exact absurd h' (howner me c rid _)
  | requestCancel persistEnabled runId c =>
      simp only [Queue.step, requestCancel] at h'
      split at h'
      · refine absurd h' (hno (fun hc => ?_))
        rw [KeyedTable.get?_modify, hget hc]
        rfl
      · exact absurd h' (hno hget)
  | reapSelect sweep c maxAttempts baseMs visit =>
      simp only [Queue.step] at h'
      split at h'
      · rw [h] at h'
        cases h'
      · exact absurd (h.symm.trans h') (by simp)
  | reapUpdate sweep clientNow random =>
      simp only [Queue.step] at h'
      split at h'
      · rw [h] at h'
        cases h'
      · split at h'
        · rw [h] at h'
          cases h'
        · change (q.setDb _ _).row? ref = _ at h'
          refine absurd h' (hno (fun hc => ?_))
          rw [reapRow, KeyedTable.get?_update, hget hc]
          simp
  | reapStop sweep => exact absurd (h.symm.trans h') (by simp)

/-- A property that new rows have, and that no change of a row loses, holds of all rows. -/
theorem rows_invariant {C : Queue → QueueOp → Prop} {q₀ : Queue} {P : JobRun → Prop}
    (h : Runs.Reached Queue.step C q₀ q) (h0 : ∀ ref r, q₀.row? ref = some r → P r)
    (hnew : ∀ (input : EnqueueInput) runId traceparent now clientNow,
      P (input.row runId traceparent now clientNow))
    (hstep : ∀ q op ref r r', C q op → P r → RowStep q ref r op r' → P r') :
    ∀ ref r, q.row? ref = some r → P r := by
  refine h.invariant (P := fun q => ∀ ref r, q.row? ref = some r → P r) h0 ?_
  intro q op hP hC ref r' hr'
  cases hr : q.row? ref with
  | none =>
      obtain ⟨input, runId, traceparent, clientNow, _, rfl, _, _⟩ := step_new_row hr hr'
      exact hnew ..
  | some r =>
      rcases row?_step_of_eq hr hr' with rfl | hrow
      · exact hP ref _ hr
      · exact hstep q op ref r r' hC (hP ref r hr) hrow

/-- The worker and the row of a statement with an owner's guard. -/
def QueueOp.guarded : QueueOp → Option (WorkerId × JobRef)
  | .renew me companyId rid _ => some (me, { companyId := companyId, id := rid })
  | .complete me companyId rid _ => some (me, { companyId := companyId, id := rid })
  | .fail me companyId input _ _ => some (me, { companyId := companyId, id := input.recordId })
  | .cancelled me companyId rid _ => some (me, { companyId := companyId, id := rid })
  | _ => none

theorem OwnerWrite.guarded {me : WorkerId} {f : JobRun → JobRun} (h : OwnerWrite q ref op me f) :
    op.guarded = some (me, ref) := by
  cases h with
  | fail _ input clientNow random hid => simp [QueueOp.guarded, hid]
  | _ => rfl

/-- A statement with a guard changes only the row it names, and only for its owner. -/
theorem RowStep.of_guarded {me : WorkerId} {ref₀ : JobRef} (h : RowStep q ref r op r')
    (hg : op.guarded = some (me, ref₀)) : ref = ref₀ ∧ r.ownedBy me = true := by
  cases h with
  | owner hw hown =>
      rw [hw.guarded, Option.some.injEq, Prod.mk.injEq] at hg
      obtain ⟨rfl, rfl⟩ := hg
      exact ⟨rfl, hown⟩
  | _ => cases hg

/-- Only a claim counts. -/
theorem RowStep.attempts_eq (h : RowStep q ref r op r')
    (hop : ∀ me c jobType ttlSeconds pick, op ≠ .claimNext me c jobType ttlSeconds pick) :
    r'.attempts = r.attempts := by
  cases h with
  | claimed me jobType ttlSeconds _ _ =>
      exact absurd rfl (hop me ref.companyId jobType ttlSeconds ref.id)
  | owner hw _ =>
      cases hw with
      | renew => rfl
      | complete => rfl
      | fail _ input clientNow random _ =>
          unfold FailInput.write
          split <;> rfl
      | cancelled => rfl
  | cancelFlagged => rfl
  | reaped =>
      unfold Zombie.write
      split <;> rfl

/-! ## Running rows have leases -/

/-- A row that runs has a holder and a lease. -/
def JobRun.Leased (r : JobRun) : Prop :=
  r.status = .running → r.claimedBy.isSome = true ∧ r.leaseUntil.isSome = true

theorem leased_of_not_running (h : r.status ≠ .running) : r.Leased := fun hrun => absurd hrun h

/-- What the reaper writes is not running. -/
theorem Zombie.write_status (z : Zombie) (maxAttempts : ℤ) (baseMs : ℚ) (now clientNow : Time)
    (random : ℚ) (r : JobRun) :
    (z.write maxAttempts baseMs now clientNow random r).status
      = if z.willRequeue maxAttempts then .pending else .failed := by
  unfold Zombie.write
  split <;> rfl

theorem FailInput.write_status (input : FailInput) (now clientNow : Time) (random : ℚ)
    (r : JobRun) :
    (input.write now clientNow random r).status
      = if input.willRequeue then .pending else .failed := by
  unfold FailInput.write
  split <;> rfl

theorem RowStep.leased (h : RowStep q ref r op r') (hr : r.Leased) : r'.Leased := by
  cases h with
  | claimed me jobType ttlSeconds _ _ => exact fun _ => ⟨rfl, rfl⟩
  | owner hw hown =>
      cases hw with
      | renew me ttlSeconds => exact fun hrun => ⟨(hr hrun).1, rfl⟩
      | complete me result => exact leased_of_not_running (by simp [JobRun.finished])
      | fail me input clientNow random _ =>
          apply leased_of_not_running
          rw [FailInput.write_status]
          split <;> simp
      | cancelled me result => exact leased_of_not_running (by simp [JobRun.finished])
  | cancelFlagged runId hcan =>
      intro hrun
      have hne : r.status ≠ .pending := by
        intro e
        simp [JobRun.cancelFlagged, e] at hrun
      simp only [JobRun.cancelFlagged, if_neg hne] at hrun ⊢
      exact hr hrun
  | reaped sweep clientNow random sw z rest _ _ _ _ =>
      apply leased_of_not_running
      rw [Zombie.write_status]
      split <;> simp

/-- In every state reached, a row that runs has a holder and a lease. -/
theorem leased_of_reached {C : Queue → QueueOp → Prop} {clock : Time}
    (h : Runs.Reached Queue.step C (Queue.init clock) q) (hr : q.row? ref = some r) : r.Leased :=
  rows_invariant h (fun ref r hr => by simp [Queue.init, Queue.row?] at hr)
    (fun _ _ _ _ _ => leased_of_not_running (by simp [EnqueueInput.row]))
    (fun _ _ _ _ _ _ hP hrow => hrow.leased hP) ref r hr

end Brain.Jobs
