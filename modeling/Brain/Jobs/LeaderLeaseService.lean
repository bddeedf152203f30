/-
Named leases (`src/src/jobs/leader-lease.service.ts`), rows of `leader_lease` in the
system database. The record id of a row is its name, so a name has one row at most.

Both statements are transactions of their own, against the clock of the database.
-/
import Brain.Db.KnowledgeFact
import Mathlib.Logic.Function.Basic

set_option autoImplicit false

namespace Brain.Jobs

/-- `hostname#pid` of a process. -/
abbrev LeaderId := String

/-- A row of `leader_lease`, under its name. -/
structure LeaderLease where
  leaderId : LeaderId
  leaseUntil : Time
  heartbeatAt : Time
  acquiredAt : Time
deriving DecidableEq

abbrev LeaseTable := String → Option LeaderLease

/-- `$row IS NONE OR $row.leaseUntil < time::now() OR $row.leaderId = $me`. -/
def acquirable (me : LeaderId) (now : Time) : Option LeaderLease → Bool
  | none => true
  | some row => decide (row.leaseUntil < now) || row.leaderId == me

/-- The row that `tryAcquire` writes. -/
def leaseFor (me : LeaderId) (ttlSeconds : ℕ) (now : Time) (row : Option LeaderLease) :
    LeaderLease where
  leaderId := me
  leaseUntil := now + 1000 * ttlSeconds
  heartbeatAt := now
  acquiredAt := (row.map LeaderLease.acquiredAt).getD now

/-- `tryAcquire`. -/
def tryAcquire (me : LeaderId) (name : String) (ttlSeconds : ℕ) (now : Time)
    (leases : LeaseTable) : Bool × LeaseTable :=
  if acquirable me now (leases name) then
    (true, Function.update leases name (some (leaseFor me ttlSeconds now (leases name))))
  else (false, leases)

/-- `release`: `DELETE ... WHERE name = $name AND leaderId = $me`. -/
def release (me : LeaderId) (name : String) (leases : LeaseTable) : LeaseTable :=
  Function.update leases name ((leases name).filter (fun row => row.leaderId != me))

variable {me : LeaderId} {name : String} {ttlSeconds : ℕ} {now : Time} {leases : LeaseTable}
  {row : LeaderLease}

/-- What the caller holds after an acquisition that went through. -/
theorem tryAcquire_true (h : (tryAcquire me name ttlSeconds now leases).1 = true) :
    (tryAcquire me name ttlSeconds now leases).2 name
      = some (leaseFor me ttlSeconds now (leases name)) := by
  unfold tryAcquire at h ⊢
  split
  · simp
  · next hno => simp [hno] at h

/-- One that did not go through changes nothing. -/
theorem tryAcquire_false (h : (tryAcquire me name ttlSeconds now leases).1 = false) :
    (tryAcquire me name ttlSeconds now leases).2 = leases := by
  unfold tryAcquire at h ⊢
  split
  · next hyes => simp [hyes] at h
  · rfl

/-- **A lease that has not run out cannot be taken from its holder.** -/
theorem tryAcquire_of_held (hrow : leases name = some row) (hlive : now ≤ row.leaseUntil)
    (hme : row.leaderId ≠ me) : tryAcquire me name ttlSeconds now leases = (false, leases) := by
  have hno : ¬ row.leaseUntil < now := not_lt.mpr hlive
  simp [tryAcquire, acquirable, hrow, hno, hme]

/-- Other leases are not looked at. -/
theorem tryAcquire_of_ne {name' : String} (h : name' ≠ name) :
    (tryAcquire me name ttlSeconds now leases).2 name' = leases name' := by
  unfold tryAcquire
  split
  · exact Function.update_of_ne h _ _
  · rfl

theorem release_of_ne {name' : String} (h : name' ≠ name) :
    release me name leases name' = leases name' :=
  Function.update_of_ne h _ _

/-- **A release leaves the leases of others alone**, whatever their names. -/
theorem release_of_ne_leader {name' : String} (hrow : leases name' = some row)
    (hme : row.leaderId ≠ me) : release me name leases name' = some row := by
  unfold release
  by_cases h : name' = name
  · subst h
    rw [Function.update_self, hrow, Option.filter_some]
    simp [hme]
  · rw [Function.update_of_ne h, hrow]

end Brain.Jobs
