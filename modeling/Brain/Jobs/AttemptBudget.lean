/-
The number of times that a job is claimed.

Two places decide whether a job goes back to the queue: a failure compares the attempts
with the `maxAttempts` of the handler, the reaper with a limit of its own
(`JOB_RUN_MAX_ATTEMPTS`, 3 by default, for all job types). A compaction is registered with
two attempts, and is claimed a third time if its workers crash (`claimed_three_times`).
If the reaper puts back only jobs that have attempts left (`WithinBudget`), the bound of
the handler holds (`claims_le_maxAttempts`).
-/
import Brain.Jobs.LostClaim

set_option autoImplicit false

namespace Brain.Jobs

variable {q : Queue} {ref : JobRef} {r r' : JobRun} {op : QueueOp} {f : Fleet} {fop : FleetOp}
  {clock : Time} {handlers : JobType → Option RegisteredHandler} {me : WorkerId}
  {jobType : JobType} {d : Dispatch}

/-- Whether an entry of the log is a claim of row `ref`. -/
def Touch.claims (ref : JobRef) : Touch → Bool
  | .claimed ref' _ => decide (ref' = ref)
  | .reaped _ => false

/-- How often a job has been claimed. -/
def Fleet.claims (f : Fleet) (ref : JobRef) : ℕ := f.log.countP (Touch.claims ref)

/-- The step is no update of the reaper that puts back a job without attempts left. -/
def WithinBudget (handlers : JobType → Option RegisteredHandler) (f : Fleet) (fop : FleetOp) : Prop :=
  ∀ s clientNow random sw z rest r reg, fop = .outside (.reapUpdate s clientNow random) →
    f.queue.sweeps s = some sw → sw.remaining = z :: rest →
    f.queue.row? { companyId := sw.companyId, id := z.id } = some r →
    handlers r.jobType = some reg → z.willRequeue sw.maxAttempts = true →
    (r.attempts : ℤ) < reg.maxAttempts

/-! ## Claims and attempts -/

/-- One statement, one entry at most. -/
theorem touches_eq_of_mem {t : Touch} (ht : t ∈ q.touches op) : q.touches op = [t] := by
  cases op with
  | claimNext me c jobType ttlSeconds pick =>
      simp only [Queue.touches] at ht ⊢
      split at ht
      · next hpick =>
          obtain rfl := List.mem_singleton.mp ht
          rw [if_pos hpick]
      · cases ht
  | reapUpdate s clientNow random =>
      simp only [Queue.touches] at ht ⊢
      cases hsw : q.sweeps s with
      | none => simp [hsw] at ht
      | some sw =>
          cases hrem : sw.remaining with
          | nil => simp [hsw, hrem] at ht
          | cons z rest =>
              simp only [hsw, hrem, List.head?_cons, Option.map_some, Option.toList_some,
                List.mem_singleton] at ht ⊢
              rw [ht]
  | _ => cases ht

/-- A claim is of a row that is there. -/
theorem row?_of_claimed (h : .claimed ref me ∈ q.touches op) : ∃ r, q.row? ref = some r := by
  cases op with
  | claimNext you c jobType ttlSeconds pick =>
      simp only [Queue.touches] at h
      split at h
      · next hpick =>
          obtain ⟨rfl, rfl⟩ := Touch.claimed.inj (List.mem_singleton.mp h)
          obtain ⟨r, hr, _⟩ := earliestClaimable_iff.mp hpick
          exact ⟨r, hr⟩
      · cases h
  | reapUpdate s clientNow random =>
      simp only [Queue.touches] at h
      split at h
      · cases h
      · next sw _ => cases hrem : sw.remaining <;> simp [hrem] at h
  | _ => cases h

/-- The counter of a row is the number of its claims; there is none of a row to come. -/
def Fleet.CountsClaims (f : Fleet) : Prop :=
  ∀ ref, f.claims ref = ((f.queue.row? ref).map JobRun.attempts).getD 0

theorem claims_exec (f : Fleet) (op : QueueOp) (ref : JobRef) :
    (f.exec op).claims ref = f.claims ref + (f.queue.touches op).countP (Touch.claims ref) := by
  rw [Fleet.claims, Fleet.log_exec, List.countP_append, Fleet.claims]

/-- A statement that does not claim the row. -/
theorem claims_exec_of_not_claimed (h : ∀ me, Touch.claimed ref me ∉ f.queue.touches op) :
    (f.exec op).claims ref = f.claims ref := by
  rw [claims_exec, Nat.add_eq_left, List.countP_eq_zero]
  intro t ht
  cases t with
  | claimed ref' me =>
      intro e
      obtain rfl := of_decide_eq_true e
      exact h me ht
  | reaped ref' => simp [Touch.claims]

theorem Fleet.CountsClaims.exec (h : f.CountsClaims) (op : QueueOp) : (f.exec op).CountsClaims := by
  intro ref
  have hcount := h ref
  rw [Fleet.queue_exec]
  cases hr : f.queue.row? ref with
  | none =>
      rw [hr] at hcount
      rw [claims_exec_of_not_claimed, hcount]
      · cases hr' : (f.queue.step op).row? ref with
        | none => rfl
        | some r' =>
            -- a new row has no attempts
            obtain ⟨_, _, _, _, _, rfl, _⟩ := step_new_row hr hr'
            rfl
      · intro me hme
        obtain ⟨r, hr'⟩ := row?_of_claimed hme
        rw [hr] at hr'
        cases hr'
  | some r =>
      rw [hr, Option.map_some, Option.getD_some] at hcount
      by_cases hclaimed : ∃ me, Touch.claimed ref me ∈ f.queue.touches op
      · obtain ⟨me, hme⟩ := hclaimed
        obtain ⟨r', hr', hrow, hwhat⟩ := rowStep_of_touched hr hme rfl
        rw [claims_exec, touches_eq_of_mem hme, hr', hcount]
        rcases hwhat with ⟨you, jobType, ttlSeconds, rfl, _⟩ | ⟨_, _, _, _, ht⟩
        · cases hrow with
          | claimed => simp [JobRun.claimed, Touch.claims]
          | owner hw _ => cases hw
        · cases ht
      · have hno : ∀ me, Touch.claimed ref me ∉ f.queue.touches op :=
          fun me hme => hclaimed ⟨me, hme⟩
        rw [claims_exec_of_not_claimed hno, hcount]
        obtain ⟨r', hr', hstep⟩ := step_row hr op
        rw [hr', Option.map_some, Option.getD_some]
        rcases hstep with rfl | hrow
        · rfl
        · refine (hrow.attempts_eq ?_).symm
          rintro me c jobType ttlSeconds pick rfl
          cases hrow with
          | claimed me jobType ttlSeconds hpick _ =>
              refine hno me ?_
              rw [touched_of_claimed hpick]
              exact List.mem_singleton.mpr rfl
          | owner hw _ => cases hw

theorem Fleet.CountsClaims.step (h : f.CountsClaims) (fop : FleetOp) :
    (f.step handlers fop).CountsClaims := by
  intro ref
  rcases f.step_cases handlers fop with ⟨hq, hlog⟩ | ⟨op, _, hq, hlog⟩
  · rw [Fleet.claims, hlog, hq]
    exact h ref
  · rw [Fleet.claims, hlog, hq]
    exact h.exec op ref

/-- The counter is right in every state reached. -/
theorem countsClaims_of_reached {C : Fleet → FleetOp → Prop}
    (h : Runs.Reached (Fleet.step handlers) C (Fleet.init clock) f) : f.CountsClaims :=
  h.invariant (P := Fleet.CountsClaims) (fun _ => rfl) (fun _ fop hc _ => hc.step fop)

/-! ## The budget -/

/-- The row has had no more claims than its type admits, and one less if it waits for
another. -/
def JobRun.HasBudget (handlers : JobType → Option RegisteredHandler) (r : JobRun) : Prop :=
  ∀ reg, handlers r.jobType = some reg → 1 ≤ reg.maxAttempts →
    (r.attempts : ℤ) ≤ reg.maxAttempts ∧ (r.status = .pending → (r.attempts : ℤ) < reg.maxAttempts)

/-- The statement puts back only rows with attempts left. -/
def PutsBackWithin (handlers : JobType → Option RegisteredHandler) (q : Queue) (op : QueueOp) : Prop :=
  ∀ ref r r' reg, q.row? ref = some r → RowStep q ref r op r' → r'.status = .pending →
    handlers r.jobType = some reg → (r.attempts : ℤ) < reg.maxAttempts

theorem RowStep.hasBudget (h : RowStep q ref r op r') (hq : q.row? ref = some r)
    (hop : PutsBackWithin handlers q op) (hr : r.HasBudget handlers) : r'.HasBudget handlers := by
  intro reg hreg hpos
  rw [h.jobType_eq] at hreg
  obtain ⟨hle, hpending⟩ := hr reg hreg hpos
  by_cases hclaim : ∃ me jobType ttlSeconds pick c, op = .claimNext me c jobType ttlSeconds pick
  · obtain ⟨me, jobType, ttlSeconds, pick, c, rfl⟩ := hclaim
    cases h with
    | claimed _ _ _ _ hc =>
        simp only [JobRun.claimable, Bool.and_eq_true, beq_iff_eq] at hc
        have hlt := hpending hc.1.2
        refine ⟨?_, fun hp => by cases hp⟩
        simp only [JobRun.claimed]
        omega
    | owner hw _ => cases hw
  · have hatt : r'.attempts = r.attempts := h.attempts_eq (fun me c jobType ttlSeconds pick e =>
      hclaim ⟨me, jobType, ttlSeconds, pick, c, e⟩)
    rw [hatt]
    exact ⟨hle, fun hp => hop ref r r' reg hq h hp hreg⟩

/-- All rows have it. -/
def Fleet.HasBudget (handlers : JobType → Option RegisteredHandler) (f : Fleet) : Prop :=
  ∀ ref r, f.queue.row? ref = some r → r.HasBudget handlers

theorem Fleet.HasBudget.exec (h : f.HasBudget handlers)
    (hop : PutsBackWithin handlers f.queue op) : (f.exec op).HasBudget handlers := by
  intro ref r' hr'
  rw [Fleet.queue_exec] at hr'
  cases hr : f.queue.row? ref with
  | none =>
      obtain ⟨input, _, _, _, _, rfl, _⟩ := step_new_row hr hr'
      intro reg _ hpos
      simp only [EnqueueInput.row, Nat.cast_zero]
      omega
  | some r =>
      rcases row?_step_of_eq hr hr' with rfl | hrow
      · exact h ref _ hr
      · exact hrow.hasBudget hr hop (h ref r hr)

/-- Only a failure and the reaper put a row back. -/
theorem putsBackWithin_of
    (hfail : ∀ me c input clientNow random ref r reg, op = .fail me c input clientNow random →
      ref = { companyId := c, id := input.recordId } → q.row? ref = some r →
      r.ownedBy me = true → input.willRequeue = true → handlers r.jobType = some reg →
      (r.attempts : ℤ) < reg.maxAttempts)
    (hreap : ∀ s clientNow random sw z rest r reg, op = .reapUpdate s clientNow random →
      q.sweeps s = some sw → sw.remaining = z :: rest →
      q.row? { companyId := sw.companyId, id := z.id } = some r →
      handlers r.jobType = some reg → z.willRequeue sw.maxAttempts = true →
      (r.attempts : ℤ) < reg.maxAttempts) : PutsBackWithin handlers q op := by
  intro ref r r' reg hr hrow hpending hreg
  cases hrow with
  | claimed => cases hpending
  | owner hw hown =>
      cases hw with
      | renew =>
          simp only [JobRun.ownedBy, Bool.and_eq_true, beq_iff_eq] at hown
          rw [JobRun.renewed, hown.2] at hpending
          cases hpending
      | complete => cases hpending
      | fail _ input clientNow random hid =>
          rw [FailInput.write_status] at hpending
          split at hpending
          · next hback =>
              exact hfail _ ref.companyId input clientNow random ref r reg rfl (by rw [hid]) hr
                hown hback hreg
          · cases hpending
      | cancelled => cases hpending
  | cancelFlagged => exact absurd hpending (JobRun.cancelFlagged_status_ne_pending _ _)
  | reaped s clientNow random sw z rest hsw hc hrem hz =>
      rw [Zombie.write_status] at hpending
      split at hpending
      · next hback =>
          exact hreap s clientNow random sw z rest r reg rfl hsw hrem (by rw [hc, hz]; exact hr)
            hreg hback
      · cases hpending

/-- A dispatch asks for a retry while its claim is below the bound of its handler. -/
theorem attempts_lt_of_terminalWrite {reg : RegisteredHandler} {outcome : Outcome}
    {clientNow clientNow' : Time} {random random' : ℚ} {c : String} {input : FailInput}
    (hop : d.terminalWrite me reg outcome clientNow random
      = some (.fail me c input clientNow' random'))
    (hback : input.willRequeue = true) : (d.claim.attempts : ℤ) < reg.maxAttempts := by
  unfold Dispatch.terminalWrite at hop
  split at hop
  · cases hop
  · split at hop
    · cases hop
    · cases outcome with
      | resolved result => cases hop
      | threw error =>
          cases hop
          simp only [FailInput.willRequeue, Bool.and_eq_true, decide_eq_true_eq,
            Option.getD_some] at hback
          exact hback.2

/-- What a dispatch writes puts back its own job, and compares the right counter. -/
theorem putsBackWithin_terminalWrite (ht : f.Tracks) {reg : RegisteredHandler}
    (hreg : handlers jobType = some reg) (hd : f.dispatches (me, jobType) = some d)
    {outcome : Outcome} {clientNow : Time} {random : ℚ}
    (hop : d.terminalWrite me reg outcome clientNow random = some op) :
    PutsBackWithin handlers f.queue op := by
  have hg := guarded_of_terminalWrite hop
  apply putsBackWithin_of
  · rintro you c input clientNow' random' ref r reg' rfl rfl hr hown hback hreg'
    obtain ⟨_, _, _, _, r₀, hr₀, htype, howned⟩ := ht (me, jobType) d hd
    simp only [QueueOp.guarded, Option.some.injEq, Prod.mk.injEq] at hg
    obtain ⟨rfl, href⟩ := hg
    rw [href] at hr
    obtain rfl : r₀ = r := Option.some.inj (hr₀.symm.trans hr)
    rw [htype, hreg] at hreg'
    obtain rfl := Option.some.inj hreg'
    rw [(howned hown).1]
    exact attempts_lt_of_terminalWrite hop hback
  · rintro s clientNow' random' sw z rest r reg' rfl
    cases hg

theorem Fleet.HasBudget.step (h : f.HasBudget handlers) (ht : f.Tracks)
    (hC : WithinBudget handlers f fop) : (f.step handlers fop).HasBudget handlers := by
  rcases f.step_cases handlers fop with ⟨hq, _⟩ | ⟨op, hop, hq, _⟩
  · intro ref r hr
    rw [hq] at hr
    exact h ref r hr
  · have hwithin : PutsBackWithin handlers f.queue op := by
      cases hop with
      | outside hout =>
          apply putsBackWithin_of
          · rintro me c input clientNow random ref r reg rfl
            cases hout
          · rintro s clientNow random sw z rest r reg rfl
            exact hC s clientNow random sw z rest r reg rfl
      | poll => apply putsBackWithin_of <;> intros <;> contradiction
      | renew => apply putsBackWithin_of <;> intros <;> contradiction
      | renewLate => apply putsBackWithin_of <;> intros <;> contradiction
      | settle hreg hd hop => exact putsBackWithin_terminalWrite ht hreg hd hop
    intro ref r hr
    rw [hq] at hr
    exact h.exec hwithin ref r hr

/-- **The budget of a job type**: in every run in which the reaper puts back only jobs with
attempts left, a job is claimed at most as often as its handler was registered for. -/
theorem claims_le_maxAttempts
    (h : Runs.Reached (Fleet.step handlers) (WithinBudget handlers) (Fleet.init clock) f)
    {reg : RegisteredHandler} (hr : f.queue.row? ref = some r)
    (hreg : handlers r.jobType = some reg) (hpos : 1 ≤ reg.maxAttempts) :
    (f.claims ref : ℤ) ≤ reg.maxAttempts := by
  have hbudget : f.HasBudget handlers := by
    refine h.invariant_of (I := Fleet.Tracks) (P := Fleet.HasBudget handlers)
      (fun f hf => tracks_of_reached hf) ?_ (fun f fop ht hb hC => hb.step ht hC)
    intro ref r hr
    cases hr
  have hcount := countsClaims_of_reached h ref
  rw [hr, Option.map_some, Option.getD_some] at hcount
  rw [hcount]
  exact (hbudget ref r hr reg hreg hpos).1

/-- A handler that fails twice. -/
def failsTwice : List FleetOp :=
  [.outside (.enqueue "acme" { jobType := .compaction, triggeredBy := .cron } "run-1" none 0),
    .poll "a#1" .compaction "acme" 0,
    .settle "a#1" .compaction (.threw { message := "rate limited" }) 0 0,
    .outside (.advance 15000),
    .poll "a#1" .compaction "acme" 0,
    .settle "a#1" .compaction (.threw { message := "rate limited" }) 15000 0]

/-- Steps that are no update of the reaper. -/
theorem withinBudget_of (h : ∀ s clientNow random, fop ≠ .outside (.reapUpdate s clientNow random)) :
    WithinBudget handlers f fop := by
  rintro s clientNow random sw z rest r reg rfl
  exact absurd rfl (h s clientNow random)

theorem failsTwice_claims :
    (((failsTwice.foldl (Fleet.step registeredHandlers) (Fleet.init 0)).claims
      { companyId := "acme", id := 0 } : ℕ) : ℤ) ≤ 2 := by
  have h : Runs.Reached (Fleet.step registeredHandlers) (WithinBudget registeredHandlers)
      (Fleet.init 0) (failsTwice.foldl (Fleet.step registeredHandlers) (Fleet.init 0)) := by
    simp only [failsTwice, List.foldl_cons, List.foldl_nil]
    refine .next _ (.next _ (.next _ (.next _ (.next _ (.next _ .start ?_) ?_) ?_) ?_) ?_) ?_
    all_goals exact withinBudget_of (by simp)
  have hrow : ((failsTwice.foldl (Fleet.step registeredHandlers) (Fleet.init 0)).queue.row?
      { companyId := "acme", id := 0 }).map JobRun.jobType = some .compaction := by decide +kernel
  obtain ⟨r, hr, htype⟩ := Option.map_eq_some_iff.mp hrow
  have hreg : registeredHandlers r.jobType = some { ttlSeconds := 900, maxAttempts := 2 } := by
    rw [htype]
    rfl
  exact claims_le_maxAttempts h hr hreg (by decide)

/-- Two workers stop without a write. The reaper admits three attempts. -/
def crashesTwice : List FleetOp :=
  [.outside (.enqueue "acme" { jobType := .compaction, triggeredBy := .cron } "run-1" none 0),
    .poll "a#1" .compaction "acme" 0,
    .stop "a#1" .compaction,
    .outside (.advance 900001),
    .outside (.reapSelect 0 "acme" 3 30000 [0]),
    .outside (.reapUpdate 0 900001 0),
    .outside (.advance 60000),
    .poll "b#1" .compaction "acme" 0,
    .stop "b#1" .compaction,
    .outside (.advance 900001),
    .outside (.reapSelect 1 "acme" 3 30000 [0]),
    .outside (.reapUpdate 1 1860002 0),
    .outside (.advance 60000),
    .poll "c#1" .compaction "acme" 0]

/-- The job has been claimed three times, though compaction is registered with two
attempts. -/
theorem claimed_three_times :
    (registeredHandlers .compaction).map RegisteredHandler.maxAttempts = some 2 ∧
    ∃ f : Fleet, f.Reachable registeredHandlers 0 ∧
      (f.queue.row? { companyId := "acme", id := 0 }).map JobRun.jobType = some .compaction ∧
      f.claims { companyId := "acme", id := 0 } = 3 := by
  refine ⟨rfl, crashesTwice.foldl (Fleet.step registeredHandlers) (Fleet.init 0),
    Runs.reached_foldl Runs.Reached.start crashesTwice, ?_, ?_⟩
  · decide +kernel
  · decide +kernel

end Brain.Jobs
