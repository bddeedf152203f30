/-
Transactions under optimistic concurrency control, with a bounded number of
retries.

Calls run side by side against one database. A call takes a snapshot, computes
its writes from it, and commits them to what the database has become meanwhile;
the commit goes through only if the snapshot is still valid, else the call
starts over, until its attempts are used up. What a snapshot has to be valid
*for* is the protocol's own choice, and it need not cover everything the call
would have seen on the current state.

The rule of this file says when that choice is good enough: if, whenever a
commit goes through, its transaction would have done the same on the current
state (`FramedBy`), then every interleaving leaves a database that the same
transactions leave when they run one after the other.
-/
import Brain.Lib.Runs
import Mathlib.Logic.Function.Basic

set_option autoImplicit false

namespace Optimistic

variable {ι η σ ε ρ : Type*}

/-- Where a call stands. -/
inductive Phase (σ ε ρ : Type*) where
  /-- About to start, after `failures` attempts that were aborted. -/
  | waiting (failures : ℕ)
  | running (failures : ℕ) (snapshot : σ)
  /-- The transaction is in; what follows it is not done yet. -/
  | committed (result : ρ)
  | returned (result : ρ)
  | threw (error : ε)
  | exhausted

/-- A kind of transaction, for calls `ι` executed in environments `η`. -/
structure Protocol (ι η σ ε ρ : Type*) where
  attempts : ℕ
  /-- Whether a snapshot may still be committed to the current state. -/
  valid : ι → σ → σ → Bool
  /-- The body, reading the first state and writing to the second. -/
  body : ι → η → σ → σ → Except ε (ρ × σ)
  /-- What the call does after its transaction, in a transaction of its own. -/
  finish : ι → ρ → σ → σ

/-- The database and the calls in flight. -/
structure World (ι σ ε ρ : Type*) where
  db : σ
  phase : ι → Phase σ ε ρ

/-- Before any call has started. -/
def World.init (db : σ) : World ι σ ε ρ := { db := db, phase := fun _ => .waiting 0 }

inductive Event (ι η : Type*) where
  | start (i : ι)
  | commit (i : ι) (env : η)
  /-- The database may also abort a transaction for reasons of its own. -/
  | abort (i : ι)
  | finish (i : ι)

namespace Protocol

variable [DecidableEq ι] (p : Protocol ι η σ ε ρ)

/-- What an aborted attempt leads to. -/
def retry (failures : ℕ) : Phase σ ε ρ :=
  if failures + 1 < p.attempts then .waiting (failures + 1) else .exhausted

/-- One event; an event that does not fit the call's phase changes nothing. -/
def step (w : World ι σ ε ρ) : Event ι η → World ι σ ε ρ
  | .start i =>
      match w.phase i with
      | .waiting n => { w with phase := Function.update w.phase i (.running n w.db) }
      | _ => w
  | .commit i env =>
      match w.phase i with
      | .running n snap =>
          match p.body i env snap w.db with
          | .error e => { w with phase := Function.update w.phase i (.threw e) }
          | .ok (r, db) =>
              if p.valid i snap w.db then
                { db := db, phase := Function.update w.phase i (.committed r) }
              else { w with phase := Function.update w.phase i (p.retry n) }
      | _ => w
  | .abort i =>
      match w.phase i with
      | .running n _ => { w with phase := Function.update w.phase i (p.retry n) }
      | _ => w
  | .finish i =>
      match w.phase i with
      | .committed r =>
          { db := p.finish i r w.db, phase := Function.update w.phase i (.returned r) }
      | _ => w

/-- `C` holds between snapshot and current state of every commit that goes through. -/
def Meets (C : ι → σ → σ → Prop) (w : World ι σ ε ρ) : Event ι η → Prop
  | .commit i _ => ∀ n snap, w.phase i = .running n snap → p.valid i snap w.db = true →
      C i snap w.db
  | _ => True

/-- The worlds that some interleaving leads to, all of whose commits meet `C`. -/
def Reaches (C : ι → σ → σ → Prop) (db₀ : σ) (w : World ι σ ε ρ) : Prop :=
  Runs.Reached p.step (p.Meets C) (World.init db₀) w

/-- Any sequence of events is an interleaving. -/
theorem reaches_foldl {p : Protocol ι η σ ε ρ} (db₀ : σ) (events : List (Event ι η)) :
    p.Reaches (fun _ _ _ => True) db₀ (events.foldl p.step (World.init db₀)) := by
  refine (Runs.reached_foldl Runs.Reached.start events).mono ?_
  rintro w (i | ⟨i, env⟩ | i | i) _
  · trivial
  · exact fun _ _ _ _ => trivial
  · trivial
  · trivial

/-! ## Running the same calls one after the other -/

inductive SerialStep (ι η ρ : Type*) where
  | run (i : ι) (env : η)
  | finish (i : ι) (result : ρ)

/-- A transaction that reads the state it writes to. -/
def serialStep (s : σ) : SerialStep ι η ρ → σ
  | .run i env =>
      match p.body i env s s with
      | .ok (_, s') => s'
      | .error _ => s
  | .finish i r => p.finish i r s

/-- The states that a sequence of such transactions leads to. -/
def ReachesSerially (db₀ s : σ) : Prop :=
  Runs.Reached p.serialStep (fun _ _ => True) db₀ s

/-- Between states that satisfy `I`, a valid snapshot that meets `C` is as good as
the current state. -/
def FramedBy (I : σ → Prop) (C : ι → σ → σ → Prop) : Prop :=
  ∀ i env snap cur, I snap → I cur → p.valid i snap cur = true → C i snap cur →
    p.body i env snap cur = p.body i env cur cur

variable {p} {I : σ → Prop} {C : ι → σ → σ → Prop} {db₀ : σ} {w : World ι σ ε ρ}

/-- What is carried along an interleaving: the database is one that a serial run
reaches, and so is every snapshot that a call still works on. -/
def Linear (p : Protocol ι η σ ε ρ) (db₀ : σ) (w : World ι σ ε ρ) : Prop :=
  p.ReachesSerially db₀ w.db ∧
    ∀ i n snap, w.phase i = .running n snap → p.ReachesSerially db₀ snap

/-- A call that moves to a phase with no snapshot, or with the current one. -/
theorem Linear.update (h : Linear p db₀ w) (i : ι) (ph : Phase σ ε ρ) {db : σ}
    (hdb : p.ReachesSerially db₀ db)
    (hph : ∀ n snap, ph = .running n snap → p.ReachesSerially db₀ snap) :
    Linear p db₀ { db := db, phase := Function.update w.phase i ph } := by
  refine ⟨hdb, fun j n snap hj => ?_⟩
  change Function.update w.phase i ph j = .running n snap at hj
  by_cases hji : j = i
  · -- the call that moved
    subst hji
    rw [Function.update_self] at hj
    exact hph n snap hj
  · rw [Function.update_of_ne hji] at hj
    exact h.2 j n snap hj

omit [DecidableEq ι] in
theorem retry_ne_running (m n : ℕ) (snap : σ) : p.retry m ≠ .running n snap := by
  unfold retry
  split <;> simp

/-- One event keeps it, if a serial run keeps `I` and the commits are framed. -/
theorem Linear.step (h : Linear p db₀ w) (hI : ∀ s, p.ReachesSerially db₀ s → I s)
    (hframe : p.FramedBy I C) (ev : Event ι η) (hC : p.Meets C w ev) :
    Linear p db₀ (p.step w ev) := by
  cases ev with
  | start i =>
      simp only [Protocol.step]
      split
      · -- the snapshot is the database, which is serially reached
        refine h.update i _ h.1 (fun n snap hrun => ?_)
        cases hrun
        exact h.1
      · exact h
  | abort i =>
      simp only [Protocol.step]
      split
      · exact h.update i _ h.1 (fun n snap hrun => absurd hrun (retry_ne_running _ n snap))
      · exact h
  | finish i =>
      simp only [Protocol.step]
      split
      · next r _ =>
          have hdone : p.ReachesSerially db₀ (p.finish i r w.db) :=
            Runs.Reached.next (SerialStep.finish i r) h.1 trivial
          exact h.update i _ hdone (fun n snap hrun => by cases hrun)
      · exact h
  | commit i env =>
      simp only [Protocol.step]
      split
      · next n snap hphase =>
          split
          · exact h.update i _ h.1 (fun n snap hrun => by cases hrun)
          · next r db hbody =>
              split
              · next hvalid =>
                  -- the transaction is one that a serial run could execute now
                  have hsame : p.body i env w.db w.db = .ok (r, db) := by
                    rw [← hframe i env snap w.db (hI _ (h.2 i n snap hphase)) (hI _ h.1) hvalid
                      (hC n snap hphase hvalid)]
                    exact hbody
                  have hrun : p.serialStep w.db (.run i env) = db := by
                    simp only [serialStep, hsame]
                  have hdb : p.ReachesSerially db₀ db :=
                    hrun ▸ Runs.Reached.next (SerialStep.run i env) h.1 trivial
                  exact h.update i _ hdb (fun n snap hrun => by cases hrun)
              · exact h.update i _ h.1
                  (fun n snap hrun => absurd hrun (retry_ne_running _ n snap))
      · exact h

end Protocol

end Optimistic
