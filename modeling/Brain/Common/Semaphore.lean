/-
`src/src/common/semaphore.ts`: at most `limit` bodies at a time.

`run` is taken apart where it gives up control: after `acquire`, while its body runs, and
before `release`. A call that has got its permit goes on in a later turn of the event loop, and
so does one whose body has settled. The counter counts the calls that hold a permit, in all
three places; the bodies that execute are as many as it says only while no call is about to go
on (`semaphore_safe`, `executing_ne_inFlight`).
-/
import Mathlib.Tactic

set_option autoImplicit false

namespace Brain.Semaphore

/-! ## 1. Calls -/

/-- How the body of a call ends, if it does. -/
inductive Outcome
  | resolved
  | rejected
deriving DecidableEq

/-- A semaphore, and where the calls of `run` are. A call is its number in the order of arrival. -/
structure State where
  active : ℕ
  /-- The calls that `acquire` has put into the queue. -/
  waiters : List ℕ
  /-- The calls whose `acquire` is resolved, and that have not gone on yet. -/
  granted : List ℕ
  /-- The calls whose bodies execute. -/
  executing : List ℕ
  /-- The calls whose bodies have settled, and that have not released yet. -/
  settled : List (ℕ × Outcome)
  /-- The calls that are over. -/
  finished : List (ℕ × Outcome)
  /-- The calls that have got a permit, in the order in which they got it. -/
  grants : List ℕ
  /-- How many calls there have been. -/
  calls : ℕ

/-- `new Semaphore(limit)`. -/
def State.start : State where
  active := 0
  waiters := []
  granted := []
  executing := []
  settled := []
  finished := []
  grants := []
  calls := 0

/-- `inFlight`. -/
def State.inFlight (s : State) : ℕ := s.active

/-- `pending`. -/
def State.pending (s : State) : ℕ := s.waiters.length

/-- The promise that `c` waits for resolves. -/
def State.grant (s : State) (c : ℕ) : State :=
  { s with granted := s.granted ++ [c], grants := s.grants ++ [c] }

/-- `acquire` of call `c`. -/
def State.acquire (s : State) (limit c : ℕ) : State :=
  if s.active < limit then { s with active := s.active + 1 }.grant c
  else { s with waiters := s.waiters ++ [c] }

/-- `release`. -/
def State.release (s : State) : State :=
  match s.waiters with
  | next :: waiters => { s with waiters := waiters }.grant next
  | [] => { s with active := s.active - 1 }

/-- What can happen next. -/
inductive Event
  /-- `run` is called. -/
  | call
  /-- A call that has got its permit starts its body. -/
  | resume (c : ℕ)
  /-- The body of a call settles. -/
  | settle (c : ℕ) (outcome : Outcome)
  /-- A call whose body has settled comes to its `finally`. -/
  | leave (c : ℕ) (outcome : Outcome)

/-- One event; nothing happens if no call is where the event needs it. -/
def step (limit : ℕ) (s : State) : Event → State
  | .call => { s with calls := s.calls + 1 }.acquire limit s.calls
  | .resume c =>
      if c ∈ s.granted then
        { s with granted := s.granted.erase c, executing := s.executing ++ [c] }
      else s
  | .settle c outcome =>
      if c ∈ s.executing then
        { s with executing := s.executing.erase c, settled := s.settled ++ [(c, outcome)] }
      else s
  | .leave c outcome =>
      if (c, outcome) ∈ s.settled then
        { s with
          settled := s.settled.erase (c, outcome)
          finished := s.finished ++ [(c, outcome)] }.release
      else s

/-- A run from a new semaphore on. -/
def run (limit : ℕ) (events : List Event) : State := events.foldl (step limit) .start

/-! ## 2. The invariant -/

/-- The calls that hold a permit. -/
def State.holders (s : State) : List ℕ := s.granted ++ s.executing ++ s.settled.map Prod.fst

structure Inv (limit : ℕ) (s : State) : Prop where
  /-- The counter counts the permits. -/
  holders : s.holders.length = s.active
  active_le : s.active ≤ limit
  /-- Somebody waits only if there is no permit left. -/
  full_of_waiters : s.waiters ≠ [] → s.active = limit
  /-- Permits are granted in the order of arrival. -/
  arrival : s.grants ++ s.waiters = List.range s.calls
  /-- Each permit that was granted is held, or has been given back, once. -/
  conserved : (s.holders ++ s.finished.map Prod.fst).Perm s.grants

variable {limit : ℕ} {s : State} {c : ℕ}

theorem inv_start : Inv limit State.start where
  holders := rfl
  active_le := Nat.zero_le limit
  full_of_waiters h := absurd rfl h
  arrival := rfl
  conserved := List.Perm.refl _

/-- A permit that is granted is one more that is held. -/
theorem granted_perm (granted executing settled finished : List ℕ) (c : ℕ) :
    (granted ++ [c] ++ executing ++ settled ++ finished).Perm
      (granted ++ executing ++ settled ++ finished ++ [c]) := by
  simp only [List.append_assoc]
  refine List.Perm.append_left _ (List.perm_append_comm.trans ?_)
  simp only [List.append_assoc]
  exact List.Perm.refl _

/-- A new call, whether it gets a permit or waits. -/
theorem Inv.call (h : Inv limit s) : Inv limit (step limit s .call) := by
  have hrange : List.range (s.calls + 1) = List.range s.calls ++ [s.calls] := List.range_succ
  by_cases hroom : s.active < limit
  · -- with a permit left nobody waits
    have hnil : s.waiters = [] := by
      by_contra hne
      exact absurd (h.full_of_waiters hne) hroom.ne
    have hstep : step limit s .call =
        { s with active := s.active + 1, calls := s.calls + 1,
                 granted := s.granted ++ [s.calls], grants := s.grants ++ [s.calls] } := by
      simp only [step, State.acquire, if_pos hroom, State.grant]
    have harrival := h.arrival
    rw [hnil, List.append_nil] at harrival
    rw [hstep]
    refine ⟨?_, hroom, fun hne => absurd hnil hne, ?_, ?_⟩
    · have hholders := h.holders
      simp only [State.holders, List.length_append, List.length_singleton] at hholders ⊢
      omega
    · simp only [hnil, List.append_nil, harrival, hrange]
    · exact (granted_perm _ _ _ _ s.calls).trans (h.conserved.append_right [s.calls])
  · have hstep : step limit s .call =
        { s with calls := s.calls + 1, waiters := s.waiters ++ [s.calls] } := by
      simp only [step, State.acquire, if_neg hroom]
    rw [hstep]
    refine ⟨h.holders, h.active_le, fun _ => le_antisymm h.active_le (not_lt.mp hroom), ?_,
      h.conserved⟩
    simp only [← List.append_assoc, h.arrival, hrange]

/-- A step that only moves a permit from one place to another. -/
theorem Inv.of_perm (h : Inv limit s) {s' : State} (hholders : s'.holders.Perm s.holders)
    (hactive : s'.active = s.active) (hwaiters : s'.waiters = s.waiters)
    (hfinished : s'.finished = s.finished) (hgrants : s'.grants = s.grants)
    (hcalls : s'.calls = s.calls) : Inv limit s' where
  holders := by rw [hholders.length_eq, hactive]; exact h.holders
  active_le := hactive ▸ h.active_le
  full_of_waiters hne := hactive ▸ h.full_of_waiters (hwaiters ▸ hne)
  arrival := by rw [hgrants, hwaiters, hcalls]; exact h.arrival
  conserved := by
    rw [hfinished, hgrants]
    exact (hholders.append_right _).trans h.conserved

theorem moved {α : Type} [DecidableEq α] {a : α} {l : List α} (h : a ∈ l) (l' : List α) :
    (l.erase a ++ (l' ++ [a])).Perm (l ++ l') := by
  rw [← List.append_assoc]
  refine List.perm_append_comm.trans ?_
  exact ((List.perm_cons_erase h).append_right l').symm

theorem Inv.resume (h : Inv limit s) (c : ℕ) : Inv limit (step limit s (.resume c)) := by
  by_cases hc : c ∈ s.granted
  · simp only [step, if_pos hc]
    refine h.of_perm ?_ rfl rfl rfl rfl rfl
    exact (moved hc s.executing).append_right _
  · simp only [step, if_neg hc]
    exact h

theorem Inv.settle (h : Inv limit s) (c : ℕ) (outcome : Outcome) :
    Inv limit (step limit s (.settle c outcome)) := by
  by_cases hc : c ∈ s.executing
  · simp only [step, if_pos hc]
    refine h.of_perm ?_ rfl rfl rfl rfl rfl
    simp only [State.holders, List.map_append, List.map_cons, List.map_nil, List.append_assoc]
    exact (moved hc (s.settled.map Prod.fst)).append_left s.granted
  · simp only [step, if_neg hc]
    exact h

/-- A call that leaves hands its permit to the first one that waits, or gives it back. -/
theorem Inv.leave (h : Inv limit s) (c : ℕ) (outcome : Outcome) :
    Inv limit (step limit s (.leave c outcome)) := by
  by_cases hc : (c, outcome) ∈ s.settled
  swap
  · simp only [step, if_neg hc]
    exact h
  -- the call is no holder any more, and is over
  have hsettled : (s.settled.map Prod.fst).Perm
      (c :: (s.settled.erase (c, outcome)).map Prod.fst) :=
    (List.perm_cons_erase hc).map Prod.fst
  have hheld : s.holders.Perm
      (c :: (s.granted ++ s.executing ++ (s.settled.erase (c, outcome)).map Prod.fst)) :=
    (hsettled.append_left _).trans List.perm_middle
  have hlength := hheld.length_eq
  rw [h.holders, List.length_cons] at hlength
  have hover : (s.granted ++ s.executing ++ (s.settled.erase (c, outcome)).map Prod.fst
      ++ (s.finished ++ [(c, outcome)]).map Prod.fst).Perm s.grants := by
    refine List.Perm.trans ?_ ((hheld.append_right _).symm.trans h.conserved)
    rw [List.map_append, ← List.append_assoc]
    exact List.perm_append_singleton c _
  cases hwaiters : s.waiters with
  | nil =>
      -- nobody waits: the counter goes down
      simp only [step, if_pos hc, State.release, hwaiters]
      have hle := h.active_le
      have harrival := h.arrival
      refine ⟨?_, ?_, fun hne => absurd rfl hne, ?_, hover⟩
      · simp only [State.holders]
        omega
      · show s.active - 1 ≤ limit
        omega
      · rw [hwaiters] at harrival
        exact harrival
  | cons next waiters =>
      -- the permit is handed over, and the counter stays as it is
      simp only [step, if_pos hc, State.release, hwaiters, State.grant]
      have hfull := h.full_of_waiters (by rw [hwaiters]; exact List.cons_ne_nil next waiters)
      have harrival := h.arrival
      refine ⟨?_, h.active_le, fun _ => hfull, ?_, ?_⟩
      · simp only [State.holders, List.length_append, List.length_singleton] at hlength ⊢
        omega
      · rw [hwaiters] at harrival
        simpa using harrival
      · exact (granted_perm _ _ _ _ next).trans (hover.append_right [next])

theorem Inv.step (h : Inv limit s) (e : Event) : Inv limit (step limit s e) := by
  cases e with
  | call => exact h.call
  | resume c => exact h.resume c
  | settle c outcome => exact h.settle c outcome
  | leave c outcome => exact h.leave c outcome

theorem inv_run (limit : ℕ) (events : List Event) : Inv limit (run limit events) := by
  induction events using List.reverseRecOn with
  | nil => exact inv_start
  | append_singleton events e ih =>
      rw [run, List.foldl_append]
      exact ih.step e

/-! ## 3. Safety -/

/-- No call is about to go on. -/
def State.Quiet (s : State) : Prop := s.granted = [] ∧ s.settled = []

structure Safe (limit : ℕ) (s : State) : Prop where
  /-- `inFlight()` is the number of calls that hold a permit. -/
  holders : s.granted.length + s.executing.length + s.settled.length = s.inFlight
  inFlight_le : s.inFlight ≤ limit
  executing_le : s.executing.length ≤ limit
  /-- These are the bodies that execute, unless a call is about to go on. -/
  executing_eq : s.Quiet → s.executing.length = s.inFlight
  /-- There are waiters only while all permits are out. -/
  waiting : s.pending ≠ 0 → s.inFlight = limit
  /-- The calls that have got a permit are the first ones, in the order in which they came. -/
  arrival : s.grants ++ s.waiters = List.range s.calls
  /-- A call that has got a permit holds it in one place, or is over and has given it back. -/
  conserved : (s.granted ++ s.executing ++ s.settled.map Prod.fst ++ s.finished.map Prod.fst).Perm
    s.grants
  /-- Once all calls that have got a permit are over no permit is out. -/
  drained : (∀ c ∈ s.grants, c ∈ s.finished.map Prod.fst) → s.inFlight = 0

theorem Inv.nodup_grants (h : Inv limit s) : s.grants.Nodup := by
  have hall : (s.grants ++ s.waiters).Nodup := h.arrival ▸ List.nodup_range
  exact (List.nodup_append.mp hall).1

theorem Inv.safe (h : Inv limit s) : Safe limit s := by
  have hholders : s.granted.length + s.executing.length + s.settled.length = s.inFlight := by
    rw [State.inFlight, ← h.holders]
    simp only [State.holders, List.length_append, List.length_map]
  have hle : s.inFlight ≤ limit := h.active_le
  refine ⟨hholders, hle, by omega, ?_, ?_, h.arrival, h.conserved, ?_⟩
  · rintro ⟨hgranted, hsettled⟩
    simpa [hgranted, hsettled] using hholders
  · exact fun hpending => h.full_of_waiters (fun hnil => hpending (by rw [State.pending, hnil]; rfl))
  · intro hover
    -- a call that holds a permit is not over
    have hnil : s.holders = [] := by
      rw [List.eq_nil_iff_forall_not_mem]
      intro c hc
      have hgrant : c ∈ s.grants := h.conserved.subset (List.mem_append_left _ hc)
      have hnodup := h.conserved.symm.nodup h.nodup_grants
      exact List.disjoint_of_nodup_append hnodup hc (hover c hgrant)
    rw [State.inFlight, ← h.holders, hnil]
    rfl

/-- **The semaphore is safe**, whatever happens in which order: the counter counts the permits
that are out, they are never more than the limit, and they are granted in the order of arrival;
none is lost or given twice, by a hand-over or by a body that is rejected. -/
theorem semaphore_safe (limit : ℕ) (events : List Event) : Safe limit (run limit events) :=
  (inv_run limit events).safe

/-- The bodies that execute are not always as many as `inFlight()` says: a call has its permit
before its body starts. -/
theorem executing_ne_inFlight :
    ¬ ∀ (limit : ℕ) (events : List Event), 1 ≤ limit →
      (run limit events).executing.length = (run limit events).inFlight := by
  intro h
  exact absurd (h 1 [.call] le_rfl) (by decide)

/-! ## 4. For the services that have a limiter -/

/-- What a new call changes. -/
theorem step_call (limit : ℕ) (s : State) :
    (step limit s .call).calls = s.calls + 1 ∧ (step limit s .call).executing = s.executing ∧
      (step limit s .call).settled = s.settled ∧ (step limit s .call).finished = s.finished := by
  simp only [step, State.acquire]
  split <;> exact ⟨rfl, rfl, rfl, rfl⟩

/-- What a call changes that leaves. -/
theorem step_leave (limit : ℕ) (s : State) (c : ℕ) (outcome : Outcome) :
    (step limit s (.leave c outcome)).calls = s.calls ∧
      (step limit s (.leave c outcome)).executing = s.executing ∧
      ((step limit s (.leave c outcome)).settled ++ (step limit s (.leave c outcome)).finished).Perm
        (s.settled ++ s.finished) := by
  simp only [step]
  split
  · next hmem =>
      have hframe : ∀ s : State, s.release.calls = s.calls ∧ s.release.executing = s.executing ∧
          s.release.settled = s.settled ∧ s.release.finished = s.finished := by
        intro s
        unfold State.release
        split <;> exact ⟨rfl, rfl, rfl, rfl⟩
      obtain ⟨hcalls, hexec, hsettled, hfinished⟩ := hframe
        { s with
          settled := s.settled.erase (c, outcome)
          finished := s.finished ++ [(c, outcome)] }
      refine ⟨hcalls, hexec, ?_⟩
      rw [hsettled, hfinished]
      dsimp only
      rw [← List.append_assoc]
      exact List.perm_append_comm.trans ((List.perm_cons_erase hmem).append_right _).symm
  · exact ⟨rfl, rfl, List.Perm.refl _⟩

/-- Each call is in one place: it waits, or has got its permit, or executes, or is over. -/
theorem Inv.placed (h : Inv limit s) {executing ended : List ℕ}
    (hexec : s.executing.Perm executing)
    (hended : ended.Perm (s.settled.map Prod.fst ++ s.finished.map Prod.fst)) :
    (s.waiters ++ s.granted ++ executing ++ ended).Perm (List.range s.calls) := by
  have hgrants : (s.granted ++ executing ++ ended).Perm s.grants := by
    refine List.Perm.trans ?_ h.conserved
    rw [State.holders, List.append_assoc _ (s.settled.map Prod.fst)]
    exact (hexec.symm.append_left _).append hended
  rw [← h.arrival, List.append_assoc, List.append_assoc]
  refine List.perm_append_comm.trans ?_
  rw [← List.append_assoc]
  exact hgrants.append_right _

end Brain.Semaphore
