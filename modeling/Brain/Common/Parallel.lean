/-
`src/src/common/parallel.ts`: `mapWithLimit`, which calls a function for all items of a list, so
many at a time.

A worker takes the next index and waits for its call, and its `while (true)` runs without a pause
from the end of one call to the next. So the steps are the ends of the calls, in any order and
with any outcome. Whatever they are, every item is called once, in the order of the list, and its
result stands in its place (`mapWithLimit_exact`). Only an `onError` that throws stops a worker,
and the answer is an error then, whatever the others still do.
-/
import Brain.Lib.Runs

set_option autoImplicit false

namespace Brain.Parallel

variable {R : Type}

inductive Worker where
  /-- It waits for the call of this index. -/
  | busy (i : ℕ)
  | done
  /-- `onError` has thrown. -/
  | thrown
deriving DecidableEq

/-- How a call ends; one that fails with whether `onError` throws. -/
inductive Outcome (R : Type) where
  | resolved (r : R)
  | rejected (rethrows : Bool)

/-- What is put into `out`. -/
def Outcome.value : Outcome R → Option R
  | .resolved r => some r
  | .rejected _ => none

/-- `called` and `settled` are the calls that have begun and ended, in that order. -/
structure State (R : Type) where
  cursor : ℕ := 0
  out : List (Option R)
  workers : List Worker := []
  called : List ℕ := []
  settled : List (ℕ × Outcome R) := []

/-- `Math.max(1, Math.min(concurrency, items.length || 1))`. -/
def cap (concurrency : ℤ) (items : ℕ) : ℕ :=
  (max 1 (min concurrency (if items = 0 then 1 else items))).toNat

/-- A worker at the head of its loop: the worker it is then, and the state. -/
def takeNext (items : ℕ) (s : State R) : Worker × State R :=
  if items ≤ s.cursor then (.done, { s with cursor := s.cursor + 1 })
  else (.busy s.cursor, { s with cursor := s.cursor + 1, called := s.called ++ [s.cursor] })

/-- One more worker. -/
def addWorker (items : ℕ) (s : State R) : State R :=
  let next := takeNext items s
  { next.2 with workers := next.2.workers ++ [next.1] }

/-- `mapWithLimit`, as it returns its promise. -/
def start (concurrency : ℤ) (items : ℕ) : State R :=
  (addWorker items)^[cap concurrency items] { out := List.replicate items none }

/-- The end of the call that worker `k` waits for. -/
structure Settle (R : Type) where
  k : ℕ
  outcome : Outcome R

def step (items : ℕ) (s : State R) (e : Settle R) : State R :=
  match s.workers[e.k]? with
  | some (.busy i) =>
      let s := { s with settled := s.settled ++ [(i, e.outcome)] }
      match e.outcome with
      | .rejected true => { s with workers := s.workers.set e.k .thrown }
      | outcome =>
          let next := takeNext items { s with out := s.out.set i outcome.value }
          { next.2 with workers := next.2.workers.set e.k next.1 }
  | _ => s

/-- `Promise.all(workers)`. -/
inductive Result (R : Type) where
  | pending
  | rejected
  | resolved (out : List (Option R))

def result (s : State R) : Result R :=
  if Worker.thrown ∈ s.workers then .rejected
  else if s.workers.all (fun w => w == .done) then .resolved s.out else .pending

/-! ## The items -/

def Worker.index : Worker → Option ℕ
  | .busy i => some i
  | _ => none

/-- The indices that are waited for. -/
def waitedFor (s : State R) : List ℕ := s.workers.filterMap Worker.index

/-- Every index below the cursor is waited for by one worker or has ended once; `out` has the
values of those that have ended. A worker is through only when there is nothing left. -/
structure Inv (items : ℕ) (s : State R) : Prop where
  called : s.called = List.range (min s.cursor items)
  once : (waitedFor s ++ s.settled.map Prod.fst).Perm s.called
  size : s.out.length = items
  values : ∀ i o, (i, o) ∈ s.settled → s.out[i]? = some o.value
  blank : ∀ i < items, i ∉ s.settled.map Prod.fst → s.out[i]? = some none
  through : Worker.done ∈ s.workers → items ≤ s.cursor
  thrown : Worker.thrown ∈ s.workers ↔ ∃ i, (i, Outcome.rejected true) ∈ s.settled

variable {items : ℕ} {s : State R}

theorem range_succ_min (h : ¬ items ≤ s.cursor) :
    List.range (min (s.cursor + 1) items) = List.range (min s.cursor items) ++ [s.cursor] := by
  rw [Nat.min_eq_left (by omega), Nat.min_eq_left (by omega), List.range_succ]

theorem cursor_takeNext (items : ℕ) (s : State R) :
    (takeNext items s).2.cursor = s.cursor + 1 := by
  unfold takeNext
  split <;> rfl

theorem workers_takeNext (items : ℕ) (s : State R) :
    (takeNext items s).2.workers = s.workers := by
  unfold takeNext
  split <;> rfl

theorem settled_takeNext (items : ℕ) (s : State R) :
    (takeNext items s).2.settled = s.settled := by
  unfold takeNext
  split <;> rfl

theorem out_takeNext (items : ℕ) (s : State R) : (takeNext items s).2.out = s.out := by
  unfold takeNext
  split <;> rfl

/-- The index that is taken is the one that is called, if there is one. -/
theorem called_takeNext (items : ℕ) (s : State R) :
    (takeNext items s).2.called = s.called ++ (takeNext items s).1.index.toList := by
  unfold takeNext
  split
  · exact (List.append_nil _).symm
  · rfl

theorem takeNext_ne_thrown (items : ℕ) (s : State R) : (takeNext items s).1 ≠ .thrown := by
  unfold takeNext
  split <;> exact Worker.noConfusion

theorem le_cursor_of_done (h : (takeNext items s).1 = .done) : items ≤ s.cursor := by
  unfold takeNext at h
  split at h
  · assumption
  · cases h

/-- The calls go on being those of all indices below the cursor. -/
theorem range_takeNext (h : s.called = List.range (min s.cursor items)) :
    (takeNext items s).2.called = List.range (min (s.cursor + 1) items) := by
  rw [called_takeNext, h]
  unfold takeNext
  split
  · rw [Nat.min_eq_right (by omega), Nat.min_eq_right (by omega)]
    exact List.append_nil _
  · next hlt =>
      rw [range_succ_min hlt]
      rfl

theorem Inv.addWorker (h : Inv items s) :
    Inv items (addWorker items s) := by
  have hout : (Parallel.addWorker items s).out = s.out := out_takeNext items s
  have hsettled : (Parallel.addWorker items s).settled = s.settled := settled_takeNext items s
  have hworkers : (Parallel.addWorker items s).workers = s.workers ++ [(takeNext items s).1] := by
    rw [Parallel.addWorker, workers_takeNext]
  have hcursor : (Parallel.addWorker items s).cursor = s.cursor + 1 := cursor_takeNext items s
  have hcalled : (Parallel.addWorker items s).called
      = s.called ++ (takeNext items s).1.index.toList := called_takeNext items s
  refine ⟨?_, ?_, hout ▸ h.size, hout ▸ hsettled ▸ h.values, hout ▸ hsettled ▸ h.blank,
    fun hdone => ?_, ?_⟩
  · rw [hcursor]
    exact range_takeNext h.called
  · rw [waitedFor, hworkers, hsettled, hcalled, List.filterMap_append]
    refine List.Perm.trans ?_ (h.once.append_right _)
    have hlast : [(takeNext items s).1].filterMap Worker.index
        = (takeNext items s).1.index.toList := by
      cases (takeNext items s).1 <;> rfl
    rw [hlast, waitedFor, List.append_assoc, List.append_assoc]
    exact List.perm_append_comm.append_left _
  · rw [hcursor]
    rw [hworkers, List.mem_append, List.mem_singleton] at hdone
    rcases hdone with hdone | hdone
    · exact (h.through hdone).trans (Nat.le_succ _)
    · exact (le_cursor_of_done hdone.symm).trans (Nat.le_succ _)
  · rw [hworkers, hsettled, ← h.thrown, List.mem_append, List.mem_singleton]
    exact or_iff_left (takeNext_ne_thrown items s).symm

theorem workers_start (concurrency : ℤ) (items : ℕ) :
    (start concurrency items : State R).workers.length = cap concurrency items := by
  have hlength : ∀ (n : ℕ) (s : State R),
      ((addWorker items)^[n] s).workers.length = s.workers.length + n := by
    intro n
    induction n with
    | zero => exact fun s => rfl
    | succ n ih =>
        intro s
        rw [Function.iterate_succ_apply, ih, addWorker, workers_takeNext, List.length_append,
          List.length_singleton]
        omega
  rw [start, hlength]
  exact Nat.zero_add _

theorem inv_start (concurrency : ℤ) (items : ℕ) :
    Inv items (start concurrency items : State R) := by
  have hall : ∀ (n : ℕ) (s : State R), Inv items s →
      Inv items ((addWorker items)^[n] s) := by
    intro n
    induction n with
    | zero => exact fun s h => h
    | succ n ih =>
        intro s h
        rw [Function.iterate_succ_apply]
        exact ih _ h.addWorker
  refine hall _ _ ⟨?_, List.Perm.refl _, List.length_replicate, fun i o h => ?_, fun i hi _ => ?_,
    fun h => ?_, ?_⟩
  · rw [Nat.zero_min]
    rfl
  · cases h
  · rw [List.getElem?_replicate, if_pos hi]
  · cases h
  · constructor
    · intro h
      cases h
    · rintro ⟨i, h⟩
      cases h

/-- A worker that waits, with the others. -/
theorem exists_others {α : Type} {l : List α} {k : ℕ} {x : α} (h : l[k]? = some x) :
    ∃ before after, l = before ++ x :: after ∧ ∀ y, l.set k y = before ++ y :: after := by
  obtain ⟨hk, hx⟩ := List.getElem?_eq_some_iff.mp h
  refine ⟨l.take k, l.drop (k + 1), ?_, fun y => ?_⟩
  · rw [← hx, ← List.drop_eq_getElem_cons hk, List.take_append_drop]
  · rw [List.set_eq_take_append_cons_drop, if_pos hk]

theorem set_eq_self {α : Type} {l : List α} {k : ℕ} {x : α} (h : l[k]? = some x) :
    l.set k x = l := by
  obtain ⟨hk, rfl⟩ := List.getElem?_eq_some_iff.mp h
  exact List.set_getElem_self hk

/-- The index of a call that ends has not ended before. -/
theorem Inv.not_settled (h : Inv items s) {k i : ℕ} (hk : s.workers[k]? = some (.busy i)) :
    i < items ∧ i ∉ s.settled.map Prod.fst := by
  have hmem : i ∈ waitedFor s :=
    List.mem_filterMap.mpr ⟨_, List.mem_of_getElem? hk, rfl⟩
  have hnodup : (waitedFor s ++ s.settled.map Prod.fst).Nodup := by
    rw [h.once.nodup_iff, h.called]
    exact List.nodup_range
  have hcalled : i ∈ s.called := h.once.mem_iff.mp (List.mem_append_left _ hmem)
  rw [h.called, List.mem_range] at hcalled
  exact ⟨hcalled.trans_le (Nat.min_le_right _ _),
    fun hsettled => List.disjoint_of_nodup_append hnodup hmem hsettled⟩

/-- The value of a call is put in its place. -/
theorem Inv.values_set (h : Inv items s) {i : ℕ} (hi : i < items)
    (hnot : i ∉ s.settled.map Prod.fst) (o : Outcome R) :
    (∀ j p, (j, p) ∈ s.settled ++ [(i, o)] → (s.out.set i o.value)[j]? = some p.value) ∧
      ∀ j < items, j ∉ (s.settled ++ [(i, o)]).map Prod.fst →
        (s.out.set i o.value)[j]? = some none := by
  constructor
  · intro j p hp
    rcases List.mem_append.mp hp with hp | hp
    · have hne : i ≠ j := fun heq => hnot (List.mem_map.mpr ⟨(j, p), hp, heq.symm⟩)
      rw [List.getElem?_set_ne hne]
      exact h.values j p hp
    · obtain ⟨rfl, rfl⟩ := Prod.mk.inj (List.mem_singleton.mp hp)
      exact List.getElem?_set_self (h.size.symm ▸ hi)
  · intro j hj hsettled
    rw [List.map_append, List.mem_append, not_or] at hsettled
    have hne : i ≠ j := fun heq => hsettled.2 (heq ▸ List.mem_singleton.mpr rfl)
    rw [List.getElem?_set_ne hne]
    exact h.blank j hj hsettled.1

/-- The index goes from those that are waited for to those that have ended. -/
theorem Inv.moved (h : Inv items s) {k i : ℕ} (hk : s.workers[k]? = some (.busy i))
    (o : Outcome R) (w : Worker) :
    ((s.workers.set k w).filterMap Worker.index ++ (s.settled ++ [(i, o)]).map Prod.fst).Perm
      (s.called ++ w.index.toList) := by
  obtain ⟨before, after, hworkers, hset⟩ := exists_others hk
  have hwaited : waitedFor s = before.filterMap Worker.index ++
      i :: after.filterMap Worker.index := by
    rw [waitedFor, hworkers, List.filterMap_append]
    rfl
  have hnow : (s.workers.set k w).filterMap Worker.index = before.filterMap Worker.index ++
      (w.index.toList ++ after.filterMap Worker.index) := by
    rw [hset, List.filterMap_append]
    cases w <;> rfl
  have honce := h.once
  rw [hwaited] at honce
  rw [hnow, List.map_append, List.map_singleton]
  refine List.Perm.trans ?_ (honce.append_right _)
  simp only [List.perm_iff_count, List.count_append, List.count_cons, List.count_nil]
  intro j
  omega

/-- A call that ends otherwise than by a throw of `onError`: its worker takes the next index. -/
theorem Inv.settle (h : Inv items s) {k i : ℕ} (hk : s.workers[k]? = some (.busy i))
    {o : Outcome R} (hne : o ≠ .rejected true) {s₁ : State R}
    (hs₁ : s₁ = { s with settled := s.settled ++ [(i, o)], out := s.out.set i o.value }) :
    Inv items { (takeNext items s₁).2 with
      workers := (takeNext items s₁).2.workers.set k (takeNext items s₁).1 } := by
  obtain ⟨hi, hnot⟩ := h.not_settled hk
  obtain ⟨before, after, hworkers, hset⟩ := exists_others hk
  obtain ⟨hvalues, hblank⟩ := h.values_set hi hnot o
  have hcursor : s₁.cursor = s.cursor := by rw [hs₁]
  have hcalled₁ : s₁.called = s.called := by rw [hs₁]
  have hsettled : (takeNext items s₁).2.settled = s.settled ++ [(i, o)] := by
    rw [settled_takeNext, hs₁]
  have hout : (takeNext items s₁).2.out = s.out.set i o.value := by rw [out_takeNext, hs₁]
  have hworkers₁ : (takeNext items s₁).2.workers = s.workers := by rw [workers_takeNext, hs₁]
  have hcalled : (takeNext items s₁).2.called
      = s.called ++ (takeNext items s₁).1.index.toList := by rw [called_takeNext, hcalled₁]
  refine ⟨?_, ?_, ?_, fun j p hp => ?_, fun j hj hsettledj => ?_, fun hdone => ?_, ?_⟩
  · dsimp only
    rw [cursor_takeNext]
    refine range_takeNext ?_
    rw [hcursor, hcalled₁]
    exact h.called
  · unfold waitedFor
    dsimp only
    rw [hworkers₁, hsettled, hcalled]
    exact h.moved hk o _
  · dsimp only
    rw [hout, List.length_set]
    exact h.size
  · dsimp only at hp ⊢
    rw [hsettled] at hp
    rw [hout]
    exact hvalues j p hp
  · dsimp only at hsettledj ⊢
    rw [hsettled] at hsettledj
    rw [hout]
    exact hblank j hj hsettledj
  · dsimp only at hdone ⊢
    rw [cursor_takeNext, hcursor]
    rw [hworkers₁, hset] at hdone
    rcases List.mem_append.mp hdone with hdone | hdone
    · exact (h.through (hworkers ▸ List.mem_append_left _ hdone)).trans (Nat.le_succ _)
    · rcases List.mem_cons.mp hdone with hdone | hdone
      · exact (hcursor ▸ le_cursor_of_done hdone.symm).trans (Nat.le_succ _)
      · have hmem : Worker.done ∈ s.workers :=
          hworkers ▸ List.mem_append_right _ (List.mem_cons_of_mem _ hdone)
        exact (h.through hmem).trans (Nat.le_succ _)
  · dsimp only
    rw [hworkers₁, hsettled, hset]
    have hthrown := h.thrown
    have hbusy : Worker.thrown = .busy i ∨ Worker.thrown ∈ after ↔ Worker.thrown ∈ after :=
      or_iff_right (fun heq => by cases heq)
    have hnext : Worker.thrown = (takeNext items s₁).1 ∨ Worker.thrown ∈ after ↔
        Worker.thrown ∈ after := or_iff_right (takeNext_ne_thrown items s₁).symm
    rw [hworkers, List.mem_append, List.mem_cons, hbusy] at hthrown
    rw [List.mem_append, List.mem_cons, hnext, hthrown]
    refine exists_congr (fun j => ?_)
    rw [List.mem_append, List.mem_singleton]
    refine (or_iff_left (fun heq => ?_)).symm
    exact hne (Prod.mk.inj heq).2.symm

/-- **The end of a call.** -/
theorem Inv.step (h : Inv items s) (e : Settle R) : Inv items (step items s e) := by
  unfold Parallel.step
  split
  · next i hk =>
      dsimp only
      split
      · next houtcome =>
          obtain ⟨hi, hnot⟩ := h.not_settled hk
          obtain ⟨before, after, hworkers, hset⟩ := exists_others hk
          obtain ⟨hvalues, hblank⟩ := h.values_set hi hnot (.rejected true)
          have hmoved := h.moved hk (.rejected true) .thrown
          rw [show (Worker.thrown.index).toList = [] from rfl, List.append_nil] at hmoved
          -- nothing is put in its place, where there was nothing
          have hout : s.out.set i (Outcome.rejected true : Outcome R).value = s.out :=
            set_eq_self (h.blank i hi hnot)
          rw [hout] at hvalues hblank
          rw [houtcome]
          refine ⟨h.called, hmoved, h.size, hvalues, hblank, fun hdone => h.through ?_, ?_⟩
          · rw [hset, List.mem_append, List.mem_cons] at hdone
            rw [hworkers, List.mem_append, List.mem_cons]
            simpa using hdone
          · rw [hset]
            exact iff_of_true (by simp) ⟨i, by simp⟩
      · next houtcome => exact h.settle hk houtcome rfl
  · exact h

theorem inv_of_reached {concurrency : ℤ}
    (h : Runs.Reached (Parallel.step items) (fun _ _ => True) (start concurrency items) s) :
    Inv items s :=
  h.invariant (inv_start concurrency items) (fun _ e hs _ => hs.step e)

/-! ## The answer -/

theorem workers_step (items : ℕ) (s : State R) (e : Settle R) :
    (step items s e).workers.length = s.workers.length := by
  unfold step
  split
  · dsimp only
    split
    · rw [List.length_set]
    · rw [List.length_set, workers_takeNext]
  · rfl

theorem workers_of_reached {concurrency : ℤ}
    (h : Runs.Reached (step items) (fun _ _ => True) (start concurrency items) s) :
    s.workers.length = cap concurrency items :=
  h.invariant (P := fun s => s.workers.length = cap concurrency items)
    (workers_start concurrency items) (fun _ e hs _ => (workers_step items _ e).trans hs)

/-- Each worker waits for one call. -/
theorem length_waitedFor_le (s : State R) : (waitedFor s).length ≤ s.workers.length :=
  List.length_filterMap_le _ _

/-- A promise that has resolved: each call has ended once, and its result stands in its place. -/
theorem resolved_spec {concurrency : ℤ}
    (h : Runs.Reached (step items) (fun _ _ => True) (start concurrency items) s)
    {out : List (Option R)} (hout : result s = .resolved out) :
    (s.settled.map Prod.fst).Perm (List.range items) ∧ out.length = items ∧
      ∀ i o, (i, o) ∈ s.settled → out[i]? = some o.value := by
  have hinv := inv_of_reached h
  unfold result at hout
  split at hout
  · cases hout
  · split at hout
    · next hdone =>
        obtain rfl := Result.resolved.inj hout
        have hall : ∀ w ∈ s.workers, w = .done := fun w hw =>
          beq_iff_eq.mp (List.all_eq_true.mp hdone w hw)
        have hnone : waitedFor s = [] := by
          rw [waitedFor, List.filterMap_eq_nil_iff]
          intro w hw
          rw [hall w hw]
          rfl
        obtain ⟨w, hw⟩ : ∃ w, w ∈ s.workers := by
          refine List.exists_mem_of_length_pos ?_
          rw [workers_of_reached h, cap]
          omega
        have hthrough := hinv.through (hall w hw ▸ hw)
        have honce := hinv.once
        rw [hnone, List.nil_append, hinv.called, Nat.min_eq_right hthrough] at honce
        exact ⟨honce, hinv.size, hinv.values⟩
    · cases hout

/-- What it resolves with, where the outcome of a call is determined by the item. -/
theorem resolved_eq_map {concurrency : ℤ}
    (h : Runs.Reached (step items) (fun _ _ => True) (start concurrency items) s)
    {out : List (Option R)} (hout : result s = .resolved out) {f : ℕ → Option R}
    (hf : ∀ i o, (i, o) ∈ s.settled → o.value = f i) : out = (List.range items).map f := by
  obtain ⟨hperm, hlength, hvalues⟩ := resolved_spec h hout
  refine List.ext_getElem? (fun i => ?_)
  rw [List.getElem?_map]
  by_cases hi : i < items
  · obtain ⟨p, hp, rfl⟩ := List.mem_map.mp (hperm.mem_iff.mpr (List.mem_range.mpr hi))
    rw [hvalues p.1 p.2 hp, hf p.1 p.2 hp, List.getElem?_range hi]
    rfl
  · rw [List.getElem?_eq_none (by omega), List.getElem?_eq_none (by simpa using hi)]
    rfl

/-- **All items, so many at a time.** At any time no more calls are waited for than there may be;
the calls are those of the first items, in their order; if the promise resolves, each call has
ended once and its result stands in its place, with `null` for those that failed; and it rejects
exactly if `onError` has thrown, and is pending otherwise only as long as a call is. -/
theorem mapWithLimit_exact {concurrency : ℤ} {items : ℕ} {s : State R}
    (h : Runs.Reached (step items) (fun _ _ => True) (start concurrency items) s) :
    ((waitedFor s).length : ℤ) ≤ max 1 concurrency ∧
      s.called = List.range s.called.length ∧
      (∀ out, result s = .resolved out → (s.settled.map Prod.fst).Perm (List.range items) ∧
        out.length = items ∧ ∀ i o, (i, o) ∈ s.settled → out[i]? = some o.value) ∧
      (result s = .rejected ↔ ∃ i, (i, Outcome.rejected true) ∈ s.settled) ∧
      (result s = .pending → waitedFor s ≠ []) := by
  have hinv := inv_of_reached h
  refine ⟨?_, ?_, fun out hout => resolved_spec h hout, ?_, fun hpending hnil => ?_⟩
  · have hwaited := length_waitedFor_le s
    rw [workers_of_reached h, cap] at hwaited
    omega
  · rw [hinv.called, List.length_range]
  · rw [← hinv.thrown]
    unfold result
    split
    · next hthrown => exact iff_of_true rfl hthrown
    · next hthrown =>
        refine iff_of_false ?_ hthrown
        split <;> exact fun heq => by cases heq
  · -- a worker that neither waits nor has thrown is done
    unfold result at hpending
    split at hpending
    · cases hpending
    · next hthrown =>
        split at hpending
        · cases hpending
        · next hdone =>
            refine hdone (List.all_eq_true.mpr (fun w hw => ?_))
            cases w with
            | busy i =>
                have hmem : i ∈ waitedFor s := List.mem_filterMap.mpr ⟨_, hw, rfl⟩
                rw [hnil] at hmem
                cases hmem
            | done => rfl
            | thrown => exact absurd hw hthrown

/-- Three items, two at a time; the last call fails, and the first one ends last. -/
def threeCalls : State ℕ :=
  [⟨1, .resolved 11⟩, ⟨1, .rejected false⟩, ⟨0, .resolved 10⟩].foldl (step 3) (start 2 3)

theorem mapWithLimit_exact_three : result threeCalls = .resolved [some 10, some 11, none] ∧
    (threeCalls.settled.map Prod.fst).Perm (List.range 3) := by
  have hreached : Runs.Reached (step 3) (fun _ _ => True) (start 2 3) threeCalls :=
    Runs.reached_foldl .start _
  exact ⟨rfl, ((mapWithLimit_exact hreached).2.2.1 _ rfl).1⟩

end Brain.Parallel
