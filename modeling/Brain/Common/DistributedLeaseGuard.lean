/-
Guarded bodies (`src/src/common/distributed-lease.guard.ts`, over
`src/src/common/in-flight-guard.ts`).

A call of `run` passes the map of its process first, then tries to acquire the lease of
its key, and runs its body only if that goes through; after the body it releases the
lease. Each of these is a step, so a run is an interleaving of the calls of any number of
processes. Answers may get lost, releases may fail, and a process may stop at any point
and come back under its name.

If the bodies of a key finish before their leases run out, no two of them run at the same
time (`one_body_at_a_time`). What carries the proof is that a running body has the lease
of its process in the table (`Holding`), which nobody else can take or remove.
-/
import Brain.Jobs.LeaderLeaseService
import Brain.Lib.Runs

set_option autoImplicit false

namespace Brain

open Jobs

/-- Where a call of `run` stands. -/
inductive Stage where
  | acquiring
  /-- The lease has been acquired, until `leaseUntil`; the answer is on its way. -/
  | granted (leaseUntil : Time)
  | running (leaseUntil : Time)
  | releasing
deriving DecidableEq

/-- The end of the lease that the call has acquired, and not yet used up. -/
def Stage.held : Stage → Option Time
  | .granted u => some u
  | .running u => some u
  | _ => none

/-- A call of `run` that has passed the map of its process. -/
structure GuardCall where
  process : LeaderId
  key : String
  ttlSeconds : ℕ
  stage : Stage
deriving DecidableEq

structure GuardState where
  clock : Time
  leases : LeaseTable
  /-- `InFlightGuard.active` of each process. -/
  active : LeaderId → String → Bool
  calls : ℕ → Option GuardCall

/-- Whatever leases there are, nobody has called. -/
def GuardState.init (clock : Time) (leases : LeaseTable) : GuardState :=
  { clock := clock, leases := leases, active := fun _ _ => false, calls := fun _ => none }

inductive GuardOp where
  | advance (ms : ℕ)
  /-- `run` is called, under a number of its own. -/
  | call (id : ℕ) (process : LeaderId) (key : String) (ttlSeconds : ℕ)
  /-- The transaction of `tryAcquire`. -/
  | acquire (id : ℕ)
  /-- `tryAcquire` answers `false` after an error: the transaction failed, or its answer is
  lost. -/
  | acquireFails (id : ℕ)
  /-- The answer is there, and the body starts. -/
  | bodyStarts (id : ℕ)
  /-- The body resolves or rejects. -/
  | bodyEnds (id : ℕ)
  /-- `release`, which may fail. -/
  | release (id : ℕ) (written : Bool)
  | crash (process : LeaderId)

namespace GuardState

def setCall (s : GuardState) (id : ℕ) (c : Option GuardCall) : GuardState :=
  { s with calls := Function.update s.calls id c }

/-- `active.set(key, p)`. -/
def enter (s : GuardState) (process : LeaderId) (key : String) : GuardState :=
  { s with active := Function.update s.active process (Function.update (s.active process) key true) }

/-- The call returns, and `active.delete(key)`. -/
def leave (s : GuardState) (id : ℕ) (c : GuardCall) : GuardState :=
  { s.setCall id none with
    active := Function.update s.active c.process
      (Function.update (s.active c.process) c.key false) }

/-- One step. An operation that does not fit the stage of its call changes nothing. -/
def step (s : GuardState) : GuardOp → GuardState
  | .advance ms => { s with clock := s.clock + ms }
  | .call id process key ttlSeconds =>
      match s.calls id with
      | some _ => s
      | none =>
          if s.active process key then s
          else (s.enter process key).setCall id (some
            { process := process, key := key, ttlSeconds := ttlSeconds, stage := .acquiring })
  | .acquire id =>
      match s.calls id with
      | some c =>
          if c.stage = .acquiring then
            let got := tryAcquire c.process c.key c.ttlSeconds s.clock s.leases
            if got.1 then
              { s with leases := got.2 }.setCall id (some
                { c with stage := .granted (s.clock + 1000 * c.ttlSeconds) })
            else s.leave id c
          else s
      | none => s
  | .acquireFails id =>
      match s.calls id with
      | some c =>
          match c.stage with
          | .acquiring => s.leave id c
          | .granted _ => s.leave id c
          | _ => s
      | none => s
  | .bodyStarts id =>
      match s.calls id with
      | some c =>
          match c.stage with
          | .granted u => s.setCall id (some { c with stage := .running u })
          | _ => s
      | none => s
  | .bodyEnds id =>
      match s.calls id with
      | some c =>
          match c.stage with
          | .running _ => s.setCall id (some { c with stage := .releasing })
          | _ => s
      | none => s
  | .release id written =>
      match s.calls id with
      | some c =>
          if c.stage = .releasing then
            { s with
              leases := if written then Jobs.release c.process c.key s.leases else s.leases }.leave id c
          else s
      | none => s
  | .crash process =>
      { s with
        active := Function.update s.active process (fun _ => false)
        calls := fun id => (s.calls id).filter (fun c => c.process != process) }

variable {s : GuardState} {id id' : ℕ} {c c' : GuardCall} {op : GuardOp} {key : String}

/-! ## One call for each process and key -/

/-- A call that is under way is in the map of its process, which has room for one. -/
structure Entered (s : GuardState) : Prop where
  active : ∀ id c, s.calls id = some c → s.active c.process c.key = true
  one : ∀ id id' c c', s.calls id = some c → s.calls id' = some c' → c.process = c'.process →
    c.key = c'.key → id = id'

theorem calls_setCall (s : GuardState) (id id' : ℕ) (c : Option GuardCall) :
    (s.setCall id c).calls id' = if id' = id then c else s.calls id' := Function.update_apply ..

theorem calls_leave (s : GuardState) (id id' : ℕ) (c : GuardCall) :
    (s.leave id c).calls id' = if id' = id then none else s.calls id' := Function.update_apply ..

/-- A call that moves to another stage. -/
theorem Entered.setCall (h : s.Entered) (hc : s.calls id = some c) (hp : c'.process = c.process)
    (hk : c'.key = c.key) : (s.setCall id (some c')).Entered := by
  -- the calls of the new state are calls of the old one, up to their stages
  have hold : ∀ j d', (s.setCall id (some c')).calls j = some d' →
      ∃ d, s.calls j = some d ∧ d.process = d'.process ∧ d.key = d'.key := by
    intro j d' hd'
    rw [calls_setCall] at hd'
    split at hd'
    · next hj =>
        obtain rfl := Option.some.inj hd'
        exact ⟨c, by rw [hj, hc], hp.symm, hk.symm⟩
    · exact ⟨d', hd', rfl, rfl⟩
  constructor
  · intro j d' hd'
    obtain ⟨d, hd, hdp, hdk⟩ := hold j d' hd'
    rw [← hdp, ← hdk]
    exact h.active j d hd
  · intro j j' d' e' hd' he' hpp hkk
    obtain ⟨d, hd, hdp, hdk⟩ := hold j d' hd'
    obtain ⟨e, he, hep, hek⟩ := hold j' e' he'
    exact h.one j j' d e hd he (by rw [hdp, hpp, hep]) (by rw [hdk, hkk, hek])

/-- A call that returns. -/
theorem Entered.leave (h : s.Entered) (hc : s.calls id = some c) : (s.leave id c).Entered := by
  have hold : ∀ j d, (s.leave id c).calls j = some d → j ≠ id ∧ s.calls j = some d := by
    intro j d hd
    rw [calls_leave] at hd
    split at hd
    · cases hd
    · next hj => exact ⟨hj, hd⟩
  constructor
  · intro j d hd
    obtain ⟨hj, hd⟩ := hold j d hd
    -- it is not the call of this process and key
    have hne : ¬ (d.process = c.process ∧ d.key = c.key) := by
      rintro ⟨hp, hk⟩
      exact hj (h.one j id d c hd hc hp hk)
    have hactive := h.active j d hd
    simp only [GuardState.leave, Function.update_apply]
    split
    · next hp =>
        rw [Function.update_of_ne (fun hk => hne ⟨hp, hk⟩), ← hp]
        exact hactive
    · exact hactive
  · intro j j' d e hd he
    exact h.one j j' d e (hold j d hd).2 (hold j' e he).2

/-- A call that finds no other of its process and key. -/
theorem Entered.call (h : s.Entered) (hfree : s.active c.process c.key = false) :
    ((s.enter c.process c.key).setCall id (some c)).Entered := by
  have hold : ∀ j d, ((s.enter c.process c.key).setCall id (some c)).calls j = some d →
      (j = id ∧ d = c) ∨ s.calls j = some d := by
    intro j d hd
    rw [calls_setCall] at hd
    split at hd
    · next hj => exact Or.inl ⟨hj, (Option.some.inj hd).symm⟩
    · exact Or.inr hd
  -- the calls that were there are for another process or another key
  have hother : ∀ j d, s.calls j = some d → ¬ (d.process = c.process ∧ d.key = c.key) := by
    rintro j d hd ⟨hp, hk⟩
    have hactive := h.active j d hd
    rw [hp, hk, hfree] at hactive
    cases hactive
  constructor
  · intro j d hd
    simp only [GuardState.setCall, GuardState.enter, Function.update_apply]
    rcases hold j d hd with ⟨_, rfl⟩ | hd
    · simp
    · split
      · next hp =>
          rw [Function.update_of_ne (fun hk => hother j d hd ⟨hp, hk⟩), ← hp]
          exact h.active j d hd
      · exact h.active j d hd
  · intro j j' d e hd he hp hk
    rcases hold j d hd with ⟨rfl, rfl⟩ | hd₀
    · rcases hold j' e he with ⟨rfl, _⟩ | he₀
      · rfl
      · exact absurd ⟨hp.symm, hk.symm⟩ (hother j' e he₀)
    · rcases hold j' e he with ⟨_, rfl⟩ | he₀
      · exact absurd ⟨hp, hk⟩ (hother j d hd₀)
      · exact h.one j j' d e hd₀ he₀ hp hk

/-- A process that stops takes its calls and its map along. -/
theorem Entered.crash (h : s.Entered) (process : LeaderId) : (s.step (.crash process)).Entered := by
  have hold : ∀ j d, (s.step (.crash process)).calls j = some d →
      s.calls j = some d ∧ d.process ≠ process := by
    intro j d hd
    obtain ⟨hd, hp⟩ := Option.filter_eq_some_iff.mp hd
    exact ⟨hd, by simpa using hp⟩
  constructor
  · intro j d hd
    obtain ⟨hd, hp⟩ := hold j d hd
    change Function.update s.active process (fun _ => false) d.process d.key = true
    rw [Function.update_of_ne hp]
    exact h.active j d hd
  · intro j j' d e hd he
    exact h.one j j' d e (hold j d hd).1 (hold j' e he).1

/-! ## The lease of a call -/

/-- A call that has acquired its lease has it in the table until it runs out. -/
def Holding (s : GuardState) : Prop :=
  ∀ id c u, s.calls id = some c → c.stage.held = some u → s.clock ≤ u →
    ∃ row, s.leases c.key = some row ∧ row.leaderId = c.process ∧ row.leaseUntil = u

/-- Steps that leave the leases, and hold no more than before. -/
theorem Holding.mono {s' : GuardState} (h : s.Holding) (hleases : s'.leases = s.leases)
    (hclock : s.clock ≤ s'.clock)
    (hcalls : ∀ id c u, s'.calls id = some c → c.stage.held = some u →
      ∃ d, s.calls id = some d ∧ d.stage.held = some u ∧ d.key = c.key ∧ d.process = c.process) :
    s'.Holding := by
  intro id c u hc hu hle
  obtain ⟨d, hd, hdu, hk, hp⟩ := hcalls id c u hc hu
  rw [hleases, ← hk, ← hp]
  exact h id d u hd hdu (le_trans hclock hle)

theorem Holding.leave (h : s.Holding) (id : ℕ) (c : GuardCall) : (s.leave id c).Holding := by
  refine h.mono rfl (le_refl _) (fun j d u hd hu => ?_)
  rw [calls_leave] at hd
  split at hd
  · cases hd
  · exact ⟨d, hd, hu, rfl, rfl⟩

theorem Holding.setCall (h : s.Holding) (hc : s.calls id = some c) (hp : c'.process = c.process)
    (hk : c'.key = c.key) (hu : ∀ u, c'.stage.held = some u → c.stage.held = some u) :
    (s.setCall id (some c')).Holding := by
  refine h.mono rfl (le_refl _) (fun j d u hd hdu => ?_)
  rw [calls_setCall] at hd
  split at hd
  · next hj =>
      obtain rfl := Option.some.inj hd
      exact ⟨c, by rw [hj, hc], hu u hdu, hk.symm, hp.symm⟩
  · exact ⟨d, hd, hdu, rfl, rfl⟩

/-- **An acquisition** gives its call the lease, and takes it from no call that has it. -/
theorem Holding.acquire (h : s.Holding) (he : s.Entered) (hc : s.calls id = some c)
    (hgot : (tryAcquire c.process c.key c.ttlSeconds s.clock s.leases).1 = true) :
    ({ s with leases := (tryAcquire c.process c.key c.ttlSeconds s.clock s.leases).2 }.setCall id
      (some { c with stage := .granted (s.clock + 1000 * c.ttlSeconds) })).Holding := by
  intro j d u hd hu hle
  rw [calls_setCall] at hd
  change ∃ row, (tryAcquire c.process c.key c.ttlSeconds s.clock s.leases).2 d.key = some row ∧
    row.leaderId = d.process ∧ row.leaseUntil = u
  split at hd
  · obtain rfl := Option.some.inj hd
    obtain rfl := Option.some.inj hu
    exact ⟨_, tryAcquire_true hgot, rfl, rfl⟩
  · next hj =>
      obtain ⟨row, hrow, hrp, hru⟩ := h j d u hd hu hle
      by_cases hk : d.key = c.key
      · -- the lease of another process would not have been given away
        exfalso
        have hp : row.leaderId ≠ c.process := by
          intro e
          exact hj (he.one j id d c hd hc (hrp.symm.trans e) hk)
        have hlive : s.clock ≤ row.leaseUntil := by
          rw [hru]
          exact hle
        rw [hk] at hrow
        rw [tryAcquire_of_held hrow hlive hp] at hgot
        cases hgot
      · rw [tryAcquire_of_ne hk]
        exact ⟨row, hrow, hrp, hru⟩

/-- **A release** takes the lease of no other call. -/
theorem Holding.release (h : s.Holding) (he : s.Entered) (hc : s.calls id = some c) :
    ({ s with leases := Jobs.release c.process c.key s.leases }.leave id c).Holding := by
  intro j d u hd hu hle
  rw [calls_leave] at hd
  change ∃ row, Jobs.release c.process c.key s.leases d.key = some row ∧
    row.leaderId = d.process ∧ row.leaseUntil = u
  split at hd
  · cases hd
  · next hj =>
      obtain ⟨row, hrow, hrp, hru⟩ := h j d u hd hu hle
      refine ⟨row, ?_, hrp, hru⟩
      by_cases hp : d.process = c.process
      · have hk : d.key ≠ c.key := fun hk => hj (he.one j id d c hd hc hp hk)
        rw [release_of_ne hk]
        exact hrow
      · exact release_of_ne_leader hrow (by rw [hrp]; exact hp)

/-! ## Mutual exclusion -/

/-- What holds in every state, in time or not. -/
structure Guarded (s : GuardState) : Prop where
  entered : s.Entered
  holding : s.Holding

theorem guarded_init (clock : Time) (leases : LeaseTable) : (init clock leases).Guarded := by
  refine ⟨⟨?_, ?_⟩, ?_⟩
  · rintro id c ⟨⟩
  · rintro id id' c c' ⟨⟩
  · rintro id c u ⟨⟩

/-- Every step keeps it. -/
theorem Guarded.step (h : s.Guarded) (op : GuardOp) : (s.step op).Guarded := by
  obtain ⟨he, hh⟩ := h
  cases op with
  | advance ms =>
      refine ⟨⟨he.active, he.one⟩, hh.mono rfl ?_ (fun id c u hc hu => ⟨c, hc, hu, rfl, rfl⟩)⟩
      exact Int.le_add_of_nonneg_right (Int.natCast_nonneg ms)
  | call id process key ttlSeconds =>
      simp only [GuardState.step]
      split
      · exact ⟨he, hh⟩
      · split
        · exact ⟨he, hh⟩
        · next hfree =>
            refine ⟨he.call (c := ⟨process, key, ttlSeconds, .acquiring⟩) (by simpa using hfree),
              hh.mono rfl (le_refl _) ?_⟩
            intro j d u hd hu
            rw [calls_setCall] at hd
            split at hd
            · -- the new call holds nothing
              obtain rfl := Option.some.inj hd
              cases hu
            · exact ⟨d, hd, hu, rfl, rfl⟩
  | acquire id =>
      simp only [GuardState.step]
      split
      · next c hc =>
          split
          · cases hgot : (tryAcquire c.process c.key c.ttlSeconds s.clock s.leases).1 with
            | true =>
                refine ⟨?_, hh.acquire he hc hgot⟩
                exact Entered.setCall (s := { s with leases := _ }) ⟨he.active, he.one⟩ hc rfl rfl
            | false => exact ⟨he.leave hc, hh.leave id c⟩
          · exact ⟨he, hh⟩
      · exact ⟨he, hh⟩
  | acquireFails id =>
      simp only [GuardState.step]
      split
      · next c hc =>
          split
          · exact ⟨he.leave hc, hh.leave id c⟩
          · exact ⟨he.leave hc, hh.leave id c⟩
          · exact ⟨he, hh⟩
      · exact ⟨he, hh⟩
  | bodyStarts id =>
      simp only [GuardState.step]
      split
      · next c hc =>
          split
          · next u hstage =>
              refine ⟨he.setCall hc rfl rfl, hh.setCall hc rfl rfl (fun v hv => ?_)⟩
              rw [hstage]
              exact hv
          · exact ⟨he, hh⟩
      · exact ⟨he, hh⟩
  | bodyEnds id =>
      simp only [GuardState.step]
      split
      · next c hc =>
          split
          · exact ⟨he.setCall hc rfl rfl, hh.setCall hc rfl rfl (fun v hv => by cases hv)⟩
          · exact ⟨he, hh⟩
      · exact ⟨he, hh⟩
  | release id written =>
      simp only [GuardState.step]
      split
      · next c hc =>
          split
          · cases written with
            | true =>
                refine ⟨?_, hh.release he hc⟩
                exact Entered.leave (s := { s with leases := _ }) ⟨he.active, he.one⟩ hc
            | false => exact ⟨he.leave hc, hh.leave id c⟩
          · exact ⟨he, hh⟩
      · exact ⟨he, hh⟩
  | crash process =>
      refine ⟨he.crash process, hh.mono rfl (le_refl _) (fun j d u hd hu => ?_)⟩
      exact ⟨d, (Option.filter_eq_some_iff.mp hd).1, hu, rfl, rfl⟩

/-- Call `id` runs its body, for `key`, under a lease until `u`. -/
def Running (s : GuardState) (id : ℕ) (key : String) (u : Time) : Prop :=
  ∃ c, s.calls id = some c ∧ c.key = key ∧ c.stage = .running u

/-- Bodies of one key that are both within their leases are one. -/
theorem Guarded.running_unique (h : s.Guarded) {u u' : Time} (hrun : s.Running id key u)
    (hrun' : s.Running id' key u') (hu : s.clock ≤ u) (hu' : s.clock ≤ u') : id = id' := by
  obtain ⟨c, hc, hk, hstage⟩ := hrun
  obtain ⟨c', hc', hk', hstage'⟩ := hrun'
  obtain ⟨row, hrow, hp, _⟩ := h.holding id c u hc (by rw [hstage]; rfl) hu
  obtain ⟨row', hrow', hp', _⟩ := h.holding id' c' u' hc' (by rw [hstage']; rfl) hu'
  -- the key has one lease, and its process one call
  rw [hk] at hrow
  rw [hk', hrow] at hrow'
  obtain rfl := Option.some.inj hrow'
  exact h.entered.one id id' c c' hc hc' (hp.symm.trans hp') (hk.trans hk'.symm)

/-- After the step, the bodies of `key` that run are within their leases. -/
def InTime (key : String) (s : GuardState) (op : GuardOp) : Prop :=
  ∀ id u, (s.step op).Running id key u → (s.step op).clock ≤ u

/-- **Mutual exclusion**: in every run in which the bodies of a key finish before their
leases run out, no two of them run at the same time, and a release leaves the leases of
other processes where they are. -/
theorem one_body_at_a_time {clock : Time} {leases : LeaseTable}
    (h : Runs.Reached GuardState.step (InTime key) (init clock leases) s) :
    (∀ id id' u u', s.Running id key u → s.Running id' key u' → id = id') ∧
    (∀ id c written name row, s.calls id = some c → s.leases name = some row →
      row.leaderId ≠ c.process → (s.step (.release id written)).leases name = some row) := by
  have hg : s.Guarded ∧ ∀ id u, s.Running id key u → s.clock ≤ u := by
    refine h.invariant (P := fun s => s.Guarded ∧ ∀ id u, s.Running id key u → s.clock ≤ u)
      ⟨guarded_init clock leases, ?_⟩
      (fun s op hs ht => ⟨hs.1.step op, fun id u hrun => ht id u hrun⟩)
    rintro id u ⟨c, hc, _⟩
    cases hc
  constructor
  · intro id id' u u' hrun hrun'
    exact hg.1.running_unique hrun hrun' (hg.2 id u hrun) (hg.2 id' u' hrun')
  · intro id c written name row hc hrow hne
    simp only [GuardState.step, hc]
    split
    · cases written with
      | true => exact release_of_ne_leader hrow hne
      | false => exact hrow
    · exact hrow

/-- A process acquires the lease, and its body starts. -/
def firstBody : List GuardOp := [.call 0 "a#1" "dreams" 300, .acquire 0, .bodyStarts 0]

theorem firstBody_is_only_one :
    (firstBody.foldl step (init 0 (fun _ => none))).Running 0 "dreams" 300000 ∧
    ∀ id u, (firstBody.foldl step (init 0 (fun _ => none))).Running id "dreams" u → id = 0 := by
  have hone : ∀ (s : GuardState) op c, (s.step op).calls 0 = some c →
      (∀ id, id ≠ 0 → (s.step op).calls id = none) →
      (∀ u, c.stage = .running u → (s.step op).clock ≤ u) → InTime "dreams" s op := by
    rintro s op c h0 hnone hc id u ⟨d, hd, _, hstage⟩
    by_cases hid : id = 0
    · rw [hid, h0] at hd
      obtain rfl := Option.some.inj hd
      exact hc u hstage
    · rw [hnone id hid] at hd
      cases hd
  have h : Runs.Reached step (InTime "dreams") (init 0 (fun _ => none))
      (firstBody.foldl step (init 0 (fun _ => none))) := by
    simp only [firstBody, List.foldl_cons, List.foldl_nil]
    refine .next _ (.next _ (.next _ .start ?_) ?_) ?_
    · refine hone _ _ ⟨"a#1", "dreams", 300, .acquiring⟩ rfl (fun id hid => ?_) (fun u hu => ?_)
      · exact (calls_setCall _ _ _ _).trans (if_neg hid)
      · cases hu
    · refine hone _ _ ⟨"a#1", "dreams", 300, .granted 300000⟩ rfl (fun id hid => ?_) (fun u hu => ?_)
      · refine (calls_setCall _ _ _ _).trans ((if_neg hid).trans ?_)
        exact (calls_setCall _ _ _ _).trans (if_neg hid)
      · cases hu
    · refine hone _ _ ⟨"a#1", "dreams", 300, .running 300000⟩ rfl (fun id hid => ?_) (fun u hu => ?_)
      · exact (calls_setCall _ _ _ _).trans ((if_neg hid).trans ((calls_setCall _ _ _ _).trans
          ((if_neg hid).trans ((calls_setCall _ _ _ _).trans (if_neg hid)))))
      · obtain rfl := Stage.running.inj hu
        decide
  have hrun : (firstBody.foldl step (init 0 (fun _ => none))).Running 0 "dreams" 300000 :=
    ⟨⟨"a#1", "dreams", 300, .running 300000⟩, rfl, rfl, rfl⟩
  exact ⟨hrun, fun id u hid => (one_body_at_a_time h).1 id 0 u 300000 hid hrun⟩

end GuardState

end Brain
