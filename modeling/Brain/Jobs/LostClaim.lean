/-
Lost claims.

Ownership of a job is the name of its worker, not a token of the claim. That is enough
because a worker has one dispatch of a job type at a time: while the dispatch is under
way the worker does not claim again, and any other claim or update of the reaper puts
another name, or none, on the row. So a row that still carries the name has not been
touched since (`Dispatch.Tracked`), and a terminal write that goes through belongs to the
last claim (`terminalWrite_of_untouched`).
-/
import Brain.Jobs.WorkerLoop

set_option autoImplicit false

namespace Brain.Jobs

variable {q : Queue} {ref : JobRef} {r r' : JobRun} {op : QueueOp} {f : Fleet} {clock : Time}
  {handlers : JobType → Option RegisteredHandler} {me : WorkerId} {jobType : JobType}
  {d : Dispatch}

/-- A job keeps its type. -/
theorem RowStep.jobType_eq (h : RowStep q ref r op r') : r'.jobType = r.jobType := by
  cases h with
  | claimed => rfl
  | owner hw _ =>
      cases hw with
      | renew => rfl
      | complete => rfl
      | fail _ input clientNow random _ =>
          unfold FailInput.write
          split <;> rfl
      | cancelled => rfl
  | cancelFlagged => rfl
  | reaped =>
      unfold Zombie.write
      split <;> rfl

/-- What a claim says of the row it was made on. -/
theorem claimNext_eq_some {c : String} {ttlSeconds pick : ℕ} {now : Time} {db : JobDb}
    {claim : JobClaim} (h : (claimNext me c jobType ttlSeconds now pick db).1 = some claim) :
    earliestClaimable jobType now pick db = true ∧ claim.companyId = c ∧ claim.recordId = pick ∧
      ∃ r, db.get? pick = some r ∧ r.jobType = jobType ∧ claim.attempts = r.attempts + 1 := by
  unfold claimNext at h
  split at h
  · next hpick =>
      obtain ⟨r, hr, hc, _⟩ := earliestClaimable_iff.mp hpick
      simp only [JobRun.claimable, Bool.and_eq_true, beq_iff_eq] at hc
      simp only [KeyedTable.get?_update, if_true, hr, Option.map_some, Option.bind_some,
        JobRun.toClaim] at h
      split at h
      · cases h
      · obtain rfl := Option.some.inj h
        exact ⟨hpick, rfl, rfl, r, hr, hc.1.1, rfl⟩
  · cases h

/-! ## Dispatches and the rows they work on -/

/-- The claim of the dispatch is in the log, and as long as its row carries the name of
the worker, the row has its number of attempts and nothing after the claim touched it. -/
def Dispatch.Tracked (f : Fleet) (me : WorkerId) (jobType : JobType) (d : Dispatch) : Prop :=
  ∃ before after, f.log = before ++ .claimed d.ref me :: after ∧ before.length = d.claimedAt ∧
    ∃ r, f.queue.row? d.ref = some r ∧ r.jobType = jobType ∧
      (r.ownedBy me = true → r.attempts = d.claim.attempts ∧ ∀ t ∈ after, t.ref ≠ d.ref)

/-- It holds of every dispatch. -/
def Fleet.Tracks (f : Fleet) : Prop :=
  ∀ key d, f.dispatches key = some d → d.Tracked f key.1 key.2

/-- A statement that is no claim of the same poll loop keeps it. -/
theorem Dispatch.Tracked.exec (h : d.Tracked f me jobType)
    (hop : ∀ c ttlSeconds pick, op ≠ .claimNext me c jobType ttlSeconds pick) :
    d.Tracked (f.exec op) me jobType := by
  obtain ⟨before, after, hlog, hlen, r, hr, htype, howned⟩ := h
  refine ⟨before, after ++ f.queue.touches op, ?_, hlen, ?_⟩
  · rw [Fleet.log_exec, hlog, List.append_assoc, List.cons_append]
  · by_cases htouched : ∃ t ∈ f.queue.touches op, t.ref = d.ref
    · -- the row gets another name, or none
      obtain ⟨t, ht, href⟩ := htouched
      obtain ⟨r', hr', hrow, hwhat⟩ := rowStep_of_touched hr ht href
      refine ⟨r', hr', hrow.jobType_eq.trans htype, fun hmine => ?_⟩
      exfalso
      rcases hwhat with ⟨you, jobType', ttlSeconds, rfl, _⟩ | ⟨s, clientNow, random, rfl, _⟩
      · cases hrow with
        | claimed _ _ _ _ hc =>
            simp only [JobRun.ownedBy, JobRun.claimed, Bool.and_eq_true, beq_iff_eq,
              Option.some.injEq] at hmine
            simp only [JobRun.claimable, Bool.and_eq_true, beq_iff_eq] at hc
            obtain rfl := hmine.1
            exact hop d.ref.companyId ttlSeconds d.ref.id (by rw [← htype, hc.1.1])
        | owner hw _ => cases hw
      · cases hrow with
        | owner hw _ => cases hw
        | reaped _ _ _ sw z rest _ _ _ _ =>
            simp only [JobRun.ownedBy, Bool.and_eq_true, beq_iff_eq, Zombie.write_status] at hmine
            have hrun := hmine.2
            split at hrun <;> cases hrun
    · obtain ⟨r', hr', hstep⟩ := step_row hr op
      have hun : ∀ t ∈ f.queue.touches op, t.ref ≠ d.ref := by
        intro t ht href
        exact htouched ⟨t, ht, href⟩
      obtain ⟨hatt, hkeep⟩ := ownedBy_of_untouched hr hr' hun
      refine ⟨r', hr', ?_, fun hmine => ?_⟩
      · rcases hstep with rfl | hrow
        · exact htype
        · exact hrow.jobType_eq.trans htype
      · obtain ⟨hcount, hafter⟩ := howned (hkeep me hmine)
        refine ⟨hatt.trans hcount, fun t ht => ?_⟩
        rcases List.mem_append.mp ht with ht | ht
        · exact hafter t ht
        · exact hun t ht

/-- Setting a flag keeps it. -/
theorem Dispatch.Tracked.hear (h : d.Tracked f me jobType) (answer : RenewAnswer) :
    (d.hear answer).Tracked f me jobType := h

/-- A claim that was made now. -/
theorem tracked_of_claim {c : String} {ttlSeconds pick : ℕ} {claim : JobClaim}
    (h : (claimNext me c jobType ttlSeconds f.queue.clock pick (f.queue.dbs c)).1 = some claim) :
    Dispatch.Tracked (f.exec (.claimNext me c jobType ttlSeconds pick)) me jobType
      { claim := claim, claimedAt := f.log.length } := by
  obtain ⟨hpick, hc, hid, r, hr, htype, hatt⟩ := claimNext_eq_some h
  have href : Dispatch.ref { claim := claim, claimedAt := f.log.length }
      = { companyId := c, id := pick } := by
    simp only [Dispatch.ref, hc, hid]
  refine ⟨f.log, [], ?_, rfl, r.claimed me ttlSeconds f.queue.clock, ?_, htype, fun _ => ?_⟩
  · rw [Fleet.log_exec, touched_of_claimed hpick, href]
  · rw [href]
    exact row?_claimNext hpick hr
  · exact ⟨hatt.symm, fun t ht => absurd ht List.not_mem_nil⟩

theorem Fleet.Tracks.exec (h : f.Tracks)
    (hop : ∀ me c jobType ttlSeconds pick, op = .claimNext me c jobType ttlSeconds pick →
      f.dispatches (me, jobType) = none) : (f.exec op).Tracks := by
  intro key d hd
  rw [Fleet.dispatches_exec] at hd
  apply (h key d hd).exec
  rintro c ttlSeconds pick rfl
  rw [hop _ _ _ _ _ rfl] at hd
  cases hd

theorem Fleet.Tracks.setDispatch (h : f.Tracks) {key : WorkerId × JobType} {x : Option Dispatch}
    (hx : ∀ d, x = some d → d.Tracked f key.1 key.2) : (f.setDispatch key x).Tracks := by
  intro key' d hd
  rw [Fleet.dispatches_setDispatch] at hd
  split at hd
  · next hkey =>
      subst hkey
      exact hx d hd
  · exact h key' d hd

/-- What a dispatch writes has an owner's guard, on the row of the dispatch. -/
theorem guarded_of_terminalWrite {reg : RegisteredHandler} {outcome : Outcome} {clientNow : Time}
    {random : ℚ} (h : d.terminalWrite me reg outcome clientNow random = some op) :
    op.guarded = some (me, d.ref) := by
  unfold Dispatch.terminalWrite at h
  split at h
  · obtain rfl := Option.some.inj h
    rfl
  · split at h
    · cases h
    · cases outcome with
      | resolved result =>
          obtain rfl := Option.some.inj h
          rfl
      | threw error =>
          obtain rfl := Option.some.inj h
          rfl

/-- Every step of the system keeps it. -/
theorem Fleet.Tracks.step (h : f.Tracks) (fop : FleetOp) : (f.step handlers fop).Tracks := by
  cases fop with
  | outside op =>
      simp only [Fleet.step]
      split
      · next hout =>
          apply h.exec
          rintro me c jobType ttlSeconds pick rfl
          cases hout
      · exact h
  | poll me jobType c pick =>
      simp only [Fleet.step]
      split
      · next reg hreg hnone =>
          have hexec : (f.exec (.claimNext me c jobType reg.ttlSeconds pick)).Tracks := by
            apply h.exec
            rintro _ _ _ _ _ ⟨⟩
            exact hnone
          apply hexec.setDispatch
          intro d hd
          obtain ⟨claim, hclaim, rfl⟩ := Option.map_eq_some_iff.mp hd
          exact tracked_of_claim hclaim
      · exact h
  | renew me jobType heard =>
      simp only [Fleet.step]
      split
      · next reg d hreg hd =>
          have hexec :
              (f.exec (.renew me d.claim.companyId d.claim.recordId reg.ttlSeconds)).Tracks := by
            apply h.exec
            rintro _ _ _ _ _ ⟨⟩
          apply hexec.setDispatch
          intro d' hd'
          have htracked := hexec (me, jobType) d hd
          obtain rfl := Option.some.inj hd'
          split
          · exact htracked.hear _
          · exact htracked
      · exact h
  | renewFailed me jobType =>
      apply h.setDispatch
      intro d' hd'
      obtain ⟨d, hd, rfl⟩ := Option.map_eq_some_iff.mp hd'
      exact (h (me, jobType) d hd).hear _
  | renewLate me c rid ttlSeconds =>
      apply h.exec
      rintro _ _ _ _ _ ⟨⟩
  | settle me jobType outcome clientNow random =>
      simp only [Fleet.step]
      split
      · next reg d hreg hd =>
          split
          · next op hop =>
              have hexec : (f.exec op).Tracks :=
                h.exec (fun you c jt ttlSeconds pick e => by
                  have hg := guarded_of_terminalWrite hop
                  rw [e] at hg
                  cases hg)
              exact hexec.setDispatch (fun d hd => by cases hd)
          · exact h.setDispatch (fun d hd => by cases hd)
      · exact h
  | stop me jobType => exact h.setDispatch (fun d hd => by cases hd)

/-- In every state reached, whatever condition the run meets. -/
theorem tracks_of_reached {C : Fleet → FleetOp → Prop}
    (h : Runs.Reached (Fleet.step handlers) C (Fleet.init clock) f) : f.Tracks :=
  h.invariant (fun key d hd => by cases hd) (fun _ fop ht _ => ht.step fop)

/-! ## Terminal writes -/

/-- **A lost claim is not written**: if what a dispatch writes at its end changes a row, it
is the row of its claim, and the log holds nothing about that row after the claim. -/
theorem terminalWrite_of_untouched (h : f.Reachable handlers clock)
    (hd : f.dispatches (me, jobType) = some d) (outcome : Outcome) (clientNow : Time) (random : ℚ)
    (ref : JobRef)
    (hne : (f.step handlers (.settle me jobType outcome clientNow random)).queue.row? ref
      ≠ f.queue.row? ref) :
    ref = d.ref ∧ ∃ before after, f.log = before ++ .claimed d.ref me :: after ∧
      before.length = d.claimedAt ∧ ∀ t ∈ after, t.ref ≠ d.ref := by
  simp only [Fleet.step, hd] at hne
  cases hreg : handlers jobType with
  | none => simp [hreg] at hne
  | some reg =>
      simp only [hreg] at hne
      cases hop : d.terminalWrite me reg outcome clientNow random with
      | none => simp [hop] at hne
      | some op =>
          simp only [hop, Fleet.queue_setDispatch, Fleet.queue_exec] at hne
          cases hr : f.queue.row? ref with
          | none =>
              -- only `enqueue` makes a row
              cases hr' : (f.queue.step op).row? ref with
              | none => exact absurd (hr'.trans hr.symm) hne
              | some r' =>
                  obtain ⟨_, _, _, _, rfl, _⟩ := step_new_row hr hr'
                  cases guarded_of_terminalWrite hop
          | some r =>
              obtain ⟨r', hr', rfl | hrow⟩ := step_row hr op
              · exact absurd (hr'.trans hr.symm) hne
              · obtain ⟨rfl, hown⟩ := hrow.of_guarded (guarded_of_terminalWrite hop)
                obtain ⟨before, after, hlog, hlen, r₀, hr₀, _, howned⟩ :=
                  tracks_of_reached h (me, jobType) d hd
                obtain rfl : r₀ = r := Option.some.inj (hr₀.symm.trans hr)
                exact ⟨rfl, before, after, hlog, hlen, (howned hown).2⟩

/-- A worker with a job that it has just claimed. -/
def claimedOnce : Fleet :=
  [.outside (.enqueue "acme" { jobType := .compaction, triggeredBy := .cron } "run-1" none 0),
    .poll "a#1" .compaction "acme" 0].foldl (Fleet.step registeredHandlers) (Fleet.init 0)

theorem claimedOnce_untouched :
    ∃ d, claimedOnce.dispatches ("a#1", .compaction) = some d ∧
      (claimedOnce.step registeredHandlers (.settle "a#1" .compaction (.resolved (some [])) 0 0)).queue.row?
        { companyId := "acme", id := 0 } ≠ claimedOnce.queue.row? { companyId := "acme", id := 0 } ∧
      { companyId := "acme", id := 0 } = d.ref ∧
      ∃ before after, claimedOnce.log = before ++ .claimed d.ref "a#1" :: after ∧
        before.length = d.claimedAt ∧ ∀ t ∈ after, t.ref ≠ d.ref := by
  have hd : (claimedOnce.dispatches ("a#1", .compaction)).isSome = true := by decide
  obtain ⟨d, hd⟩ := Option.isSome_iff_exists.mp hd
  have hbefore : (claimedOnce.queue.row? { companyId := "acme", id := 0 }).map JobRun.status
      = some .running := by decide
  have hafter : ((claimedOnce.step registeredHandlers
      (.settle "a#1" .compaction (.resolved (some [])) 0 0)).queue.row?
        { companyId := "acme", id := 0 }).map JobRun.status = some .succeeded := by decide
  have hne : (claimedOnce.step registeredHandlers
      (.settle "a#1" .compaction (.resolved (some [])) 0 0)).queue.row?
        { companyId := "acme", id := 0 } ≠ claimedOnce.queue.row? { companyId := "acme", id := 0 } := by
    intro e
    rw [e, hbefore] at hafter
    cases hafter
  exact ⟨d, hd, hne, terminalWrite_of_untouched (Runs.reached_foldl Runs.Reached.start _) hd
    (.resolved (some [])) 0 0 _ hne⟩

end Brain.Jobs
