/-
Terminal statuses, and the rows that the reaper changes.

A sweep updates its rows by their ids, without a look at what they hold by then. So a row
that its worker finishes, or renews, after the sweep has selected it is requeued or failed
all the same (`succeeded_then_requeued`). Where no statement comes between the selection
and the update of a row (`Undisturbed`), terminal statuses stay, and a sweep changes only
rows that run with an expired lease (`terminal_of_undisturbed`).
-/
import Brain.Jobs.JobQueue

set_option autoImplicit false

namespace Brain.Jobs

variable {q q' : Queue} {ref : JobRef} {r r' : JobRun} {op : QueueOp} {clock : Time}

/-! ## The sweeps under way -/

/-- Sweep `s` still has row `ref` to update. -/
def Queue.Listed (q : Queue) (s : ℕ) (ref : JobRef) : Prop :=
  ∃ sw z, q.sweeps s = some sw ∧ sw.companyId = ref.companyId ∧ z ∈ sw.remaining ∧ z.id = ref.id

/-- What a step does to the sweeps. -/
theorem sweeps_step {s : ℕ} {sw' : Sweep} (h : (q.step op).sweeps s = some sw') :
    q.sweeps s = some sw' ∨
    (∃ c maxAttempts baseMs visit, op = .reapSelect s c maxAttempts baseMs visit ∧
      sw'.companyId = c ∧ sw'.remaining = selectZombies visit q.clock (q.dbs c)) ∨
    (∃ clientNow random sw z rest, op = .reapUpdate s clientNow random ∧ q.sweeps s = some sw ∧
      sw.remaining = z :: rest ∧ sw' = sw.after z rest) := by
  cases op with
  | reapSelect t c maxAttempts baseMs visit =>
      simp only [Queue.step] at h
      split at h
      · exact Or.inl h
      · rw [Queue.sweeps_setSweep] at h
        split at h
        · next hs =>
            subst hs
            obtain rfl := Option.some.inj h
            exact Or.inr (Or.inl ⟨c, maxAttempts, baseMs, visit, rfl, rfl, rfl⟩)
        · exact Or.inl h
  | reapUpdate t clientNow random =>
      simp only [Queue.step] at h
      split at h
      · exact Or.inl h
      · next sw hsw =>
          split at h
          · exact Or.inl h
          · next z rest hrem =>
              rw [Queue.sweeps_setSweep, Queue.sweeps_setDb] at h
              split at h
              · next hs =>
                  subst hs
                  obtain rfl := Option.some.inj h
                  exact Or.inr (Or.inr ⟨clientNow, random, sw, z, rest, rfl, hsw, hrem, rfl⟩)
              · exact Or.inl h
  | reapStop t =>
      simp only [Queue.step, Queue.sweeps_setSweep] at h
      split at h
      · cases h
      · exact Or.inl h
  | advance ms => exact Or.inl h
  | enqueue c input runId traceparent clientNow => exact Or.inl h
  | claimNext me c jobType ttlSeconds pick => exact Or.inl h
  | renew me c rid ttlSeconds => exact Or.inl h
  | complete me c rid result => exact Or.inl h
  | fail me c input clientNow random => exact Or.inl h
  | cancelled me c rid result => exact Or.inl h
  | requestCancel persistEnabled runId c => exact Or.inl h

/-- The clock does not go back. -/
theorem clock_le_step (q : Queue) (op : QueueOp) : q.clock ≤ (q.step op).clock := by
  cases op with
  | advance ms => exact Int.le_add_of_nonneg_right (Int.natCast_nonneg ms)
  | reapSelect s c maxAttempts baseMs visit =>
      simp only [Queue.step]
      split <;> exact le_refl _
  | reapUpdate s clientNow random =>
      simp only [Queue.step]
      split
      · exact le_refl _
      · split <;> exact le_refl _
  | _ => exact le_refl _

theorem zombie_iff {now : Time} :
    r.zombie now = true ↔ r.status = .running ∧ r.leaseExpired now = true := by
  simp only [JobRun.zombie, Bool.and_eq_true, beq_iff_eq]

/-- An expired lease stays expired. -/
theorem JobRun.zombie_mono {now now' : Time} (hle : now ≤ now') (h : r.zombie now = true) :
    r.zombie now' = true := by
  obtain ⟨hrun, hexp⟩ := zombie_iff.mp h
  refine zombie_iff.mpr ⟨hrun, ?_⟩
  unfold JobRun.leaseExpired at hexp ⊢
  split at hexp
  · rfl
  · rw [decide_eq_true_eq] at hexp ⊢
    exact lt_of_lt_of_le hexp hle

/-- **The selection of a sweep**: rows that run with an expired lease, none of them twice. -/
theorem mem_selectZombies {visit : List ℕ} {now : Time} {db : JobDb} {z : Zombie}
    (h : z ∈ selectZombies visit now db) :
    ∃ r, db.get? z.id = some r ∧ r.zombie now = true := by
  obtain ⟨i, _, hi⟩ := List.mem_filterMap.mp (List.mem_of_mem_take h)
  obtain ⟨r, hr, rfl⟩ := Option.map_eq_some_iff.mp hi
  exact ⟨r, Option.filter_eq_some_iff.mp hr⟩

theorem nodup_selectZombies (visit : List ℕ) (now : Time) (db : JobDb) :
    ((selectZombies visit now db).map Zombie.id).Nodup := by
  refine List.Nodup.sublist ((List.take_sublist _ _).map _) ?_
  rw [List.map_filterMap]
  apply visit.nodup_dedup.filterMap
  intro i j k hi hj
  simp only [Option.mem_def, Option.map_map, Option.map_eq_some_iff] at hi hj
  obtain ⟨_, _, hik⟩ := hi
  obtain ⟨_, _, hjk⟩ := hj
  exact hik.trans hjk.symm

/-! ## Undisturbed sweeps -/

/-- The statement does not come between the selection of a row and its update: a statement
of the holder that its guard lets through, or the update of a sweep, goes to a row that no
other sweep has still on its list. -/
def Undisturbed (q : Queue) (op : QueueOp) : Prop :=
  (∀ ref r me f, OwnerWrite q ref op me f → q.row? ref = some r → r.ownedBy me = true →
    ∀ s, ¬ q.Listed s ref) ∧
  (∀ s clientNow random sw z rest, op = .reapUpdate s clientNow random → q.sweeps s = some sw →
    sw.remaining = z :: rest → ∀ t, t ≠ s → ¬ q.Listed t { companyId := sw.companyId, id := z.id })

theorem undisturbed_of_no_sweep (h : ∀ s, q.sweeps s = none) (op : QueueOp) :
    Undisturbed q op := by
  constructor
  · rintro ref r me f _ _ _ s ⟨sw, z, hs, _⟩
    rw [h] at hs
    cases hs
  · intro s _ _ sw z rest _ hs
    rw [h] at hs
    cases hs

/-- What every sweep may still assume of its rows. -/
def SweepsFresh (q : Queue) : Prop :=
  ∀ s sw, q.sweeps s = some sw → (sw.remaining.map Zombie.id).Nodup ∧
    ∀ z ∈ sw.remaining, ∃ r, q.row? { companyId := sw.companyId, id := z.id } = some r ∧
      r.zombie q.clock = true

theorem sweepsFresh_init : SweepsFresh (Queue.init clock) := by
  intro s sw h
  cases h

/-- A row on a list after an undisturbed step still runs with an expired lease. -/
theorem zombie_step (hq : q.row? ref = some r) (hrow : RowStep q ref r op r') (hu : Undisturbed q op)
    (hz : r.zombie q.clock = true) {s : ℕ} (hl : q.Listed s ref)
    (hself : ∀ clientNow random, op ≠ .reapUpdate s clientNow random) :
    r'.zombie q.clock = true := by
  obtain ⟨hrun, hexp⟩ := zombie_iff.mp hz
  cases hrow with
  | claimed me jobType ttlSeconds _ hr =>
      -- only pending rows are claimed
      simp [JobRun.claimable, hrun] at hr
  | owner hw hown =>
      exact absurd hl (hu.1 ref r _ _ hw hq hown s)
  | cancelFlagged runId hcan =>
      refine zombie_iff.mpr ?_
      have hne : r.status ≠ .pending := by simp [hrun]
      simp only [JobRun.cancelFlagged, if_neg hne]
      exact ⟨hrun, hexp⟩
  | reaped t clientNow random sw z rest hsw hc hrem hz' =>
      have hts : s ≠ t := by
        rintro rfl
        exact hself clientNow random rfl
      refine absurd hl ?_
      have := hu.2 t clientNow random sw z rest rfl hsw hrem s hts
      rwa [hc, hz'] at this

/-- The selection of a sweep changes no row. -/
theorem not_rowStep_reapSelect {s : ℕ} {c : String} {maxAttempts : ℤ} {baseMs : ℚ}
    {visit : List ℕ} : ¬ RowStep q ref r (.reapSelect s c maxAttempts baseMs visit) r' := by
  intro h
  cases h with
  | owner hw _ => cases hw

/-- A row on the list of a sweep, as the step leaves it, unless the step is its update. -/
theorem SweepsFresh.row_step (hf : SweepsFresh q) (hu : Undisturbed q op) {s : ℕ} {sw : Sweep}
    {z : Zombie} (hsw : q.sweeps s = some sw) (hz : z ∈ sw.remaining)
    (hself : ∀ clientNow random, op ≠ .reapUpdate s clientNow random) :
    ∃ r, (q.step op).row? { companyId := sw.companyId, id := z.id } = some r ∧
      r.zombie (q.step op).clock = true := by
  obtain ⟨r, hr, hzr⟩ := (hf s sw hsw).2 z hz
  obtain ⟨r', hr', hstep⟩ := step_row hr op
  refine ⟨r', hr', JobRun.zombie_mono (clock_le_step q op) ?_⟩
  rcases hstep with rfl | hrow
  · exact hzr
  · exact zombie_step hr hrow hu hzr ⟨sw, z, hsw, rfl, hz, rfl⟩ hself

/-- An undisturbed step keeps it. -/
theorem SweepsFresh.step (hf : SweepsFresh q) (hu : Undisturbed q op) :
    SweepsFresh (q.step op) := by
  intro s sw' hsw'
  rcases sweeps_step hsw' with hsw | ⟨c, maxAttempts, baseMs, visit, rfl, rfl, hrem⟩ |
    ⟨clientNow, random, sw, z, rest, rfl, hsw, hrem, rfl⟩
  · -- a sweep that the step leaves alone
    refine ⟨(hf s sw' hsw).1, fun z hz => ?_⟩
    by_cases hself : ∃ clientNow random, op = .reapUpdate s clientNow random
    · obtain ⟨clientNow, random, rfl⟩ := hself
      cases hrem : sw'.remaining with
      | nil =>
          rw [hrem] at hz
          cases hz
      | cons a rest =>
          -- its update would have shortened the list
          simp only [Queue.step, hsw, hrem, Queue.sweeps_setSweep, if_true, Option.some.injEq]
            at hsw'
          have hlen := congrArg (fun sw => sw.remaining.length) hsw'
          simp [Sweep.after, hrem] at hlen
    · exact hf.row_step hu hsw hz (fun clientNow random e => hself ⟨clientNow, random, e⟩)
  · -- a new one, which has just made its selection
    rw [hrem]
    refine ⟨nodup_selectZombies _ _ _, fun z hz => ?_⟩
    obtain ⟨r, hr, hzr⟩ := mem_selectZombies hz
    have hrow : q.row? { companyId := sw'.companyId, id := z.id } = some r := hr
    obtain ⟨r', hr', hstep⟩ := step_row hrow (.reapSelect s sw'.companyId maxAttempts baseMs visit)
    refine ⟨r', hr', JobRun.zombie_mono (clock_le_step q _) ?_⟩
    rcases hstep with rfl | hrow
    · exact hzr
    · exact absurd hrow not_rowStep_reapSelect
  · -- the one that updates `z`: the rest of its rows are other rows
    obtain ⟨hnd, hrows⟩ := hf s sw hsw
    rw [hrem, List.map_cons, List.nodup_cons] at hnd
    refine ⟨hnd.2, fun y hy => ?_⟩
    have hyz : y.id ≠ z.id := by
      intro e
      exact hnd.1 (e ▸ List.mem_map_of_mem hy)
    obtain ⟨r, hr, hzr⟩ := hrows y (by rw [hrem]; exact List.mem_cons_of_mem _ hy)
    refine ⟨r, ?_, JobRun.zombie_mono (clock_le_step q _) hzr⟩
    simp only [Queue.step, hsw, hrem, Queue.row?_setSweep]
    refine row?_setDb_of_get? hr (fun _ => ?_)
    rw [reapRow, KeyedTable.get?_update, if_neg hyz]
    exact hr

/-- In a run of undisturbed steps every sweep may assume it. -/
theorem sweepsFresh_of_reached (h : Runs.Reached Queue.step Undisturbed (Queue.init clock) q) :
    SweepsFresh q :=
  h.invariant sweepsFresh_init (fun _ _ hf hu => hf.step hu)

/-! ## Terminal rows -/

/-- An undisturbed update of a sweep changes a row that runs with an expired lease. -/
theorem reaped_zombie (hf : SweepsFresh q) {s : ℕ} {clientNow : Time} {random : ℚ}
    (hr : q.row? ref = some r) (hrow : RowStep q ref r (.reapUpdate s clientNow random) r') :
    r.zombie q.clock = true := by
  cases hrow with
  | owner hw _ => cases hw
  | reaped _ _ _ sw z rest hsw hc hrem hz =>
      obtain ⟨r₀, hr₀, hzr⟩ := (hf s sw hsw).2 z (by rw [hrem]; exact List.mem_cons_self)
      rw [hc, hz, hr] at hr₀
      obtain rfl := Option.some.inj hr₀
      exact hzr

theorem not_running_of_terminal (h : r.status.Terminal) : r.status ≠ .running := by
  rcases h with h | h | h <;> simp [h]

theorem not_pending_of_terminal (h : r.status.Terminal) : r.status ≠ .pending := by
  rcases h with h | h | h <;> simp [h]

/-- Such a step leaves a terminal row alone: only the reaper's update has no guard. -/
theorem terminal_step (hf : SweepsFresh q) (hr : q.row? ref = some r) (ht : r.status.Terminal)
    (op : QueueOp) : (q.step op).row? ref = some r := by
  obtain ⟨r', hr', rfl | hrow⟩ := step_row hr op
  · exact hr'
  · exfalso
    have hrun := not_running_of_terminal ht
    have hpend := not_pending_of_terminal ht
    cases hrow with
    | claimed me jobType ttlSeconds _ hc =>
        simp only [JobRun.claimable, Bool.and_eq_true, beq_iff_eq] at hc
        exact hpend hc.1.2
    | owner hw hown =>
        simp only [JobRun.ownedBy, Bool.and_eq_true, beq_iff_eq] at hown
        exact hrun hown.2
    | cancelFlagged runId hcan =>
        exact (JobRun.status_of_cancellable hcan).elim hpend hrun
    | reaped s clientNow random sw z rest hsw hc hrem hz =>
        have hzr := reaped_zombie hf hr (.reaped s clientNow random sw z rest hsw hc hrem hz)
        exact hrun (zombie_iff.mp hzr).1

/-- **Terminal statuses stay, and the reaper changes zombies only**, in every run of
undisturbed steps. -/
theorem terminal_of_undisturbed
    (h : Runs.Reached Queue.step Undisturbed (Queue.init clock) q) :
    (∀ q', Runs.Reached Queue.step Undisturbed q q' → ∀ ref r, q.row? ref = some r →
      r.status.Terminal → q'.row? ref = some r) ∧
    (∀ s clientNow random ref r, q.row? ref = some r →
      (q.step (.reapUpdate s clientNow random)).row? ref ≠ some r →
      r.status = .running ∧ ∃ t, r.leaseUntil = some t ∧ t < q.clock) := by
  have hf := sweepsFresh_of_reached h
  constructor
  · intro q' h' ref r hr ht
    have hinv : SweepsFresh q' ∧ q'.row? ref = some r := by
      refine h'.invariant (P := fun q => SweepsFresh q ∧ q.row? ref = some r) ⟨hf, hr⟩ ?_
      rintro q op ⟨hf, hr⟩ hu
      exact ⟨hf.step hu, terminal_step hf hr ht op⟩
    exact hinv.2
  · intro s clientNow random ref r hr hne
    obtain ⟨r', hr', rfl | hrow⟩ := step_row hr (.reapUpdate s clientNow random)
    · exact absurd hr' hne
    · obtain ⟨hrun, hexp⟩ := zombie_iff.mp (reaped_zombie hf hr hrow)
      refine ⟨hrun, ?_⟩
      -- a running row has a lease, so `NONE < time::now()` does not come up
      obtain ⟨t, ht⟩ := Option.isSome_iff_exists.mp (leased_of_reached h hr hrun).2
      simp only [JobRun.leaseExpired, ht, decide_eq_true_eq] at hexp
      exact ⟨t, ht, hexp⟩

/-- A worker finishes while no sweep is under way, and one selects its rows after that. -/
def timelyCompletion : List QueueOp :=
  [.enqueue "acme" { jobType := .compaction, triggeredBy := .cron } "run-1" none 0,
    .claimNext "a#1" "acme" .compaction 900 0,
    .complete "a#1" "acme" 0 (some [("factsCompacted", "12")]),
    .reapSelect 0 "acme" 3 30000 [0]]

theorem timelyCompletion_stays :
    ∃ q r, q = timelyCompletion.foldl Queue.step (Queue.init 0) ∧
      q.row? { companyId := "acme", id := 0 } = some r ∧ r.status = .succeeded ∧
      ∀ q', Runs.Reached Queue.step Undisturbed q q' →
        q'.row? { companyId := "acme", id := 0 } = some r := by
  have h : Runs.Reached Queue.step Undisturbed (Queue.init 0)
      (timelyCompletion.foldl Queue.step (Queue.init 0)) := by
    simp only [timelyCompletion, List.foldl_cons, List.foldl_nil]
    refine .next _ (.next _ (.next _ (.next _ .start ?_) ?_) ?_) ?_
    all_goals exact undisturbed_of_no_sweep (fun _ => rfl) _
  have hr : ((timelyCompletion.foldl Queue.step (Queue.init 0)).row?
      { companyId := "acme", id := 0 }).map JobRun.status = some .succeeded := by decide
  obtain ⟨r, hr, hst⟩ := Option.map_eq_some_iff.mp hr
  exact ⟨_, r, rfl, hr, hst, fun q' h' =>
    (terminal_of_undisturbed h).1 q' h' _ r hr (Or.inl hst)⟩

/-- A worker outlives its lease, a sweep selects its row, and the worker finishes before
the sweep comes to the update. -/
def lateCompletion : List QueueOp :=
  [.enqueue "acme" { jobType := .compaction, triggeredBy := .cron } "run-1" none 0,
    .claimNext "a#1" "acme" .compaction 900 0,
    .advance 900001,
    .reapSelect 0 "acme" 3 30000 [0],
    .complete "a#1" "acme" 0 (some [("factsCompacted", "12")])]

/-- The update of the sweep puts the finished job back in the queue. -/
theorem succeeded_then_requeued :
    ∃ q : Queue, q.Reachable 0 ∧
      (q.row? { companyId := "acme", id := 0 }).map JobRun.status = some .succeeded ∧
      ((q.step (.reapUpdate 0 900001 0)).row? { companyId := "acme", id := 0 }).map JobRun.status
        = some .pending :=
  ⟨lateCompletion.foldl Queue.step (Queue.init 0),
    Runs.reached_foldl Runs.Reached.start lateCompletion, by decide, by decide⟩

end Brain.Jobs
