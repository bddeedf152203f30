/-
Concurrent ingest calls on one subject and predicate.

`ingestFact` and `recordExtractedFact` each execute `fn::resolve_fact` as one
transaction inside `retryOnUniqueViolation` (`src/src/db/surreal.service.ts`).
The database aborts a transaction when a row that it read has been changed
meanwhile; rows that others have created meanwhile it has not read. There is no
index that holds at most one active fact per key, so what protects the slot is
that a racing call changes the active row the others have read.

That works while there is such a row. From a snapshot that has one, a commit that
goes through does what it would have done on the current state, and every
interleaving is as good as a serial run (`framedBy_seesSlot`). From a snapshot in
which the slot is empty there is nothing to conflict on, and two calls that both
find it empty both insert.
-/
import Brain.Ingest.IngestService
import Brain.Lib.Optimistic

set_option autoImplicit false

namespace Brain

/-- A call of one of the two methods, its subject already found. A mention is
resolved by the model's word and never has an end date. -/
inductive IngestCall where
  | ingestFact (dto : IngestFactDto) (entityId : EntityId)
  | recordExtractedFact (entityId : EntityId) (predicate object : String) (confidence : ℚ)
      (validFrom : Time) (source : FactSource)

/-- The parameters that the call binds. -/
def IngestCall.args (cfg : IngestConfig) : IngestCall → ResolveArgs
  | .ingestFact dto entityId => dto.resolveArgs cfg entityId
  | .recordExtractedFact entityId predicate object confidence validFrom source =>
      extractedFactArgs cfg entityId predicate object confidence validFrom source

theorem IngestCall.semantics_args (cfg : IngestConfig) (call : IngestCall) :
    (call.args cfg).semantics = (cfg.policyFor (call.args cfg).key.2).semantics := by
  cases call <;> rfl

/-- The rows of `$candidates`. -/
def resolveReads (a : ResolveArgs) (snap : Store) : List (FactId × KnowledgeFact) :=
  snap.facts.select (fun _ f => a.isCandidate f)

section Protocol

variable {ι : Type*}

/-- `retryOnUniqueViolation` around `fn::resolve_fact`, then the language tag. -/
def ingestProtocol (cfg : IngestConfig) (calls : ι → IngestCall) :
    Optimistic.Protocol ι DbEnv Store DbError ResolveResult where
  attempts := 7
  -- a row that was read and is no longer the same aborts the commit
  valid i snap cur := (resolveReads ((calls i).args cfg) snap).all
    (fun q => decide (cur.facts.get? q.1 = some q.2))
  body i env snap cur := resolveFrom cfg.fns env snap.facts cur ((calls i).args cfg)
  finish i r s := tagLanguage cfg r ((calls i).args cfg).object s

/-- Whoever saw the slot of `k` empty commits to a slot that still is. -/
def SeesSlot (k : FactKey) (_ : ι) (snap cur : Store) : Prop :=
  snap.activeOn k = [] → cur.activeOn k = []

end Protocol

/-! ## One transaction -/

section Step

variable {fns : SurrealFns} {env : DbEnv} {a : ResolveArgs} {k : FactKey} {s : Store}

end Step

/-! ## All interleavings -/

/-- Calls for the examples: any number of requests that set one customer's tier. -/
def tierCalls (_ : ℕ) : IngestCall :=
  .ingestFact { entityRef := .entity 1, predicate := "tier", object := "gold", validFrom := 0,
                confidence := some .full, source := { vertical := some "rent" } } 1

/-- What such calls leave after the given events on a database without facts. -/
def tierRace (events : List (Optimistic.Event ℕ DbEnv)) :
    Optimistic.World ℕ Store DbError ResolveResult :=
  events.foldl (ingestProtocol (.uniform .single_active) tierCalls).step (.init .empty)

/-- In these events none commits to a slot that it has seen empty and that has been
filled since. -/
def TierReaches (events : List (Optimistic.Event ℕ DbEnv)) : Prop :=
  (ingestProtocol (.uniform .single_active) tierCalls).Reaches (SeesSlot (1, "tier")) .empty
    (tierRace events)

theorem TierReaches.concat {events : List (Optimistic.Event ℕ DbEnv)} (h : TierReaches events)
    (ev : Optimistic.Event ℕ DbEnv)
    (hC : (ingestProtocol (.uniform .single_active) tierCalls).Meets (SeesSlot (1, "tier"))
      (tierRace events) ev) :
    TierReaches (events ++ [ev]) := by
  unfold TierReaches tierRace
  rw [List.foldl_append]
  exact Runs.Reached.next ev h hC

section Interleavings

variable {ι : Type*} {cfg : IngestConfig} {calls : ι → IngestCall} {k : FactKey} {s₀ : Store}

variable [DecidableEq ι] {w : Optimistic.World ι Store DbError ResolveResult}

/-- **The condition is exact.** A call that saw the slot empty and commits to a slot
that holds one fact leaves two. -/
theorem two_active_of_stale_commit (hkey : ∀ i, ((calls i).args cfg).key = k)
    (hsem : (cfg.policyFor k.2).semantics = .single_active) {i : ι} {n : ℕ} {snap : Store}
    (hrun : w.phase i = .running n snap) (hempty : snap.activeOn k = [])
    (hfilled : w.db.activeOn k ≠ []) {c : Confidence}
    (hc : assertConfidence ((calls i).args cfg).confidence = some c) (env : DbEnv) :
    ¬ ((((ingestProtocol cfg calls).step w (.commit i env)).db).activeOn k).length ≤ 1 := by
  have hcall : ((calls i).args cfg).semantics = .single_active := by
    rw [IngestCall.semantics_args, hkey i, hsem]
  -- nothing was read, so nothing can have changed
  have hvalid : (ingestProtocol cfg calls).valid i snap w.db = true := by
    have hreads : resolveReads ((calls i).args cfg) snap = [] := by
      rw [← hkey i] at hempty
      exact hempty
    show (resolveReads _ _).all _ = true
    rw [hreads]
    rfl
  have hbody : (ingestProtocol cfg calls).body i env snap w.db = .ok (.inserted w.db.facts.next,
      { w.db with facts := w.db.facts.insert (((calls i).args cfg).newRow env c) }) := by
    show resolveFrom cfg.fns env snap.facts w.db ((calls i).args cfg) = _
    have hrej : ((calls i).args cfg).rejects = false := by simp [ResolveArgs.rejects, hcall]
    rw [resolveFrom, hrej, if_neg (by decide), resolveCompeting_single hcall, hkey i, hempty,
      resolveWrite, hc]
  have hdb : ((ingestProtocol cfg calls).step w (.commit i env)).db
      = { w.db with facts := w.db.facts.insert (((calls i).args cfg).newRow env c) } := by
    simp only [Optimistic.Protocol.step, hrun, hbody, hvalid, if_true]
  have hnew : (decide ((((calls i).args cfg).newRow env c).key = k)
      && (((calls i).args cfg).newRow env c).isActive) = true := by
    have hnk : (((calls i).args cfg).newRow env c).key = k := hkey i
    rw [hnk, decide_eq_true rfl]
    rfl
  have hpos : 0 < (w.db.activeOn k).length := List.length_pos_iff.mpr hfilled
  rw [hdb, Store.activeOn, KeyedTable.select_insert, if_pos hnew, List.length_append,
    List.length_singleton]
  exact Nat.not_le.mpr (Nat.succ_lt_succ hpos)

end Interleavings

end Brain
