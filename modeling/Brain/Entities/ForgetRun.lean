/-
`src/src/entities/entities.service.ts`: the statements of `forget`, one after the other.

A call that nobody comes between does what the function does (`forget_alone`), and one that
stops after some of its deletes is a failed call (`forgetRun_alone`).
-/
import Brain.Entities.ForgetRetry
import Brain.Lib.Runs

set_option autoImplicit false

namespace Brain

/-! ## Statements -/

/-- The deletes of `forget`. -/
inductive Delete where
  | facts | edges | entity | auditEvents | dreamEmits | debugTraces | artifacts | deadLetters
  | externalRefs
deriving DecidableEq

def Delete.order : List Delete :=
  [.facts, .edges, .entity, .auditEvents, .dreamEmits, .debugTraces, .artifacts, .deadLetters,
    .externalRefs]

def Delete.exec (call : ForgetCall) (ids : List String) : Delete → TenantDb → TenantDb
  | .facts => deleteFacts call.entityId
  | .edges => deleteEdges call.entityId
  | .entity => deleteEntity call.entityId
  | .auditEvents => deleteAuditEvents ids
  | .dreamEmits => deleteDreamEmits ids
  | .debugTraces => deleteDebugTraces call.companyId (RecordId.entity call.entityId).text
  | .artifacts => deleteArtifacts call.entityId
  | .deadLetters => deleteDeadLetters call.entityId
  | .externalRefs => deleteExternalRefs call.entityId

/-- These are the deletes of `forgetDeletes`. -/
theorem order_exec (call : ForgetCall) (db : TenantDb) :
    Delete.order.map (Delete.exec call (db.recordIds call.entityId)) = forgetDeletes call db := rfl

/-- Where a call of `forget` stands. -/
inductive ForgetStage where
  | checking
  | listingFacts
  | listingEdges (factIds : List FactId)
  /-- `done` of the deletes have been executed; after the last one comes the tombstone. -/
  | deleting (factIds : List FactId) (edgeIds : List EdgeId) (auditEventsDeleted done : ℕ)

/-- A call of `forget`. -/
structure ForgetRun where
  call : ForgetCall
  stage : ForgetStage := .checking

/-- The CREATE of the tombstone, which fails if there is one with the hash. -/
def bury (hmac : String → String) (call : ForgetCall) (factsDeleted edgesDeleted
    auditEventsDeleted : ℕ) (db : TenantDb) : TenantDb :=
  let hash := entityIdHash hmac call.companyId call.entityId
  if db.forgotten.any (fun x => x.entityIdHash == hash) then db
  else
    { db with
      forgotten := db.forgotten ++ [
        { entityIdHash := hash, reason := call.dto.reason.text, requestId := call.dto.requestId,
          factsDeleted := factsDeleted, edgesDeleted := edgesDeleted,
          auditEventsDeleted := auditEventsDeleted,
          forgottenBy := call.actorKeyHash.getD "unknown", forgottenAt := call.now }] }

/-- The next statement of a call, with what is left of the call. -/
def ForgetRun.next (hmac : String → String) (run : ForgetRun) (db : TenantDb) :
    TenantDb × Option ForgetRun :=
  let e := run.call.entityId
  match run.stage with
  | .checking =>
      if db.HasEntity e then (db, some { run with stage := .listingFacts }) else (db, none)
  | .listingFacts => (db, some { run with stage := .listingEdges (db.factIdsOf e) })
  | .listingEdges factIds =>
      (db, some { run with stage := .deleting factIds (db.edgeIdsOf e) 0 0 })
  | .deleting factIds edgeIds auditEventsDeleted done =>
      let records := RecordId.entity e :: (factIds.map .fact ++ edgeIds.map .edge)
      let ids := records.map RecordId.text
      match Delete.order[done]? with
      | some delete =>
          let auditEventsDeleted :=
            if delete = .auditEvents then (db.auditEvents.filter (namedIn ids)).length
            else auditEventsDeleted
          (delete.exec run.call ids db,
            some { run with stage := .deleting factIds edgeIds auditEventsDeleted (done + 1) })
      | none => (bury hmac run.call factIds.length edgeIds.length auditEventsDeleted db, none)

/-- How many deletes a call has executed. -/
def ForgetRun.done (run : ForgetRun) : ℕ :=
  match run.stage with
  | .deleting _ _ _ done => done
  | _ => 0

/-- The call has deleted facts, and is yet to delete the entity. -/
def ForgetRun.Erasing (run : ForgetRun) : Prop := run.done = 1 ∨ run.done = 2

/-- The next statement of the call is the delete. -/
def ForgetRun.AtDelete (run : ForgetRun) (delete : Delete) : Prop :=
  ∃ factIds edgeIds auditEventsDeleted done,
    run.stage = .deleting factIds edgeIds auditEventsDeleted done ∧
      Delete.order[done]? = some delete

/-- Which of the deletes comes when. -/
theorem done_of_order {done : ℕ} {delete : Delete} (h : Delete.order[done]? = some delete) :
    (done = 0 ∧ delete = .facts) ∨ (done = 1 ∧ delete = .edges) ∨ (done = 2 ∧ delete = .entity) ∨
      (3 ≤ done ∧ delete ≠ .entity) := by
  match done with
  | 0 => exact Or.inl ⟨rfl, (Option.some.inj h).symm⟩
  | 1 => exact Or.inr (Or.inl ⟨rfl, (Option.some.inj h).symm⟩)
  | 2 => exact Or.inr (Or.inr (Or.inl ⟨rfl, (Option.some.inj h).symm⟩))
  | done + 3 =>
      have hmem : delete ∈ Delete.order.drop 3 := by
        refine List.mem_of_getElem? (i := done) ?_
        rw [List.getElem?_drop, Nat.add_comm]
        exact h
      refine Or.inr (Or.inr (Or.inr ⟨by omega, ?_⟩))
      rintro rfl
      revert hmem
      decide

/-! ## What a statement does -/

section Spec

variable {hmac : String → String} {run run' : ForgetRun} {db : TenantDb}

/-- A `forget` that is erasing has seen the entity. -/
theorem ForgetRun.Erasing.ne_checking (h : run.Erasing) : run.stage ≠ .checking := by
  intro hstage
  simp [ForgetRun.Erasing, ForgetRun.done, hstage] at h

/-- Until the deletes the call only reads. -/
theorem ForgetRun.next_reads (hmac : String → String) (db : TenantDb)
    (h : ∀ factIds edgeIds n done, run.stage ≠ .deleting factIds edgeIds n done) :
    (run.next hmac db).1 = db ∧ ∀ run', (run.next hmac db).2 = some run' →
      run'.call = run.call ∧ run'.done = 0 ∧
        (run.stage = .checking → db.HasEntity run.call.entityId) := by
  cases hstage : run.stage with
  | checking =>
      simp only [ForgetRun.next, hstage]
      split
      · next hex =>
          refine ⟨rfl, fun run' hrun => ?_⟩
          obtain rfl := Option.some.inj hrun
          exact ⟨rfl, rfl, fun _ => hex⟩
      · exact ⟨rfl, fun run' hrun => by cases hrun⟩
  | listingFacts =>
      simp only [ForgetRun.next, hstage]
      refine ⟨trivial, fun run' hrun => ?_⟩
      obtain rfl := Option.some.inj hrun
      exact ⟨rfl, rfl, fun h => by cases h⟩
  | listingEdges factIds =>
      simp only [ForgetRun.next, hstage]
      refine ⟨trivial, fun run' hrun => ?_⟩
      obtain rfl := Option.some.inj hrun
      exact ⟨rfl, rfl, fun h => by cases h⟩
  | deleting factIds edgeIds n done => exact absurd hstage (h factIds edgeIds n done)

/-- Then it deletes, one table after the other, for the records that it has listed. -/
theorem ForgetRun.next_delete {factIds : List FactId} {edgeIds : List EdgeId} {n done : ℕ}
    {delete : Delete} (hstage : run.stage = .deleting factIds edgeIds n done)
    (hdelete : Delete.order[done]? = some delete) :
    let ids := (RecordId.entity run.call.entityId ::
      (factIds.map .fact ++ edgeIds.map .edge)).map RecordId.text
    run.next hmac db = (delete.exec run.call ids db, some ⟨run.call, .deleting factIds edgeIds
      (if delete = .auditEvents then (db.auditEvents.filter (namedIn ids)).length else n)
      (done + 1)⟩) := by
  simp only [ForgetRun.next, hstage, hdelete]

end Spec

/-! ## A call that nobody comes between -/

section Alone

variable {call : ForgetCall} {db : TenantDb}

/-- What `auditEventsDeleted` is after `n` deletes. -/
def auditEventsCount (call : ForgetCall) (db : TenantDb) (n : ℕ) : ℕ :=
  if n ≤ 3 then 0
  else ((failedForget call db 3).auditEvents.filter (namedIn (db.recordIds call.entityId))).length

theorem failedForget_succ (he : db.HasEntity call.entityId) {n : ℕ} {delete : Delete}
    (hdelete : Delete.order[n]? = some delete) :
    failedForget call db (n + 1)
      = delete.exec call (db.recordIds call.entityId) (failedForget call db n) := by
  have hget : (forgetDeletes call db)[n]?
      = some (delete.exec call (db.recordIds call.entityId)) := by
    rw [← order_exec, List.getElem?_map, hdelete, Option.map_some]
  rw [failedForget, failedForget, if_pos he, if_pos he, List.take_add_one, hget, Option.toList_some,
    List.foldl_append]
  rfl

/-- **A call that nobody comes between** leaves, after `n` of its deletes, what a call leaves
that fails there. -/
theorem forgetRun_alone (hmac : String → String) (he : db.HasEntity call.entityId) {n : ℕ}
    (hn : n ≤ 9) :
    Runs.alone (ForgetRun.next hmac) (3 + n) { call := call } db
      = (failedForget call db n, some ⟨call, .deleting (db.factIdsOf call.entityId)
          (db.edgeIdsOf call.entityId) (auditEventsCount call db n) n⟩) := by
  induction n with
  | zero =>
      have hcheck : ForgetRun.next hmac { call := call } db
          = (db, some { call := call, stage := .listingFacts }) := by
        simp only [ForgetRun.next, if_pos he]
      rw [Runs.alone_of_some hcheck, failedForget_zero]
      rfl
  | succ n ih =>
      have hlt : n < Delete.order.length := by
        simp only [Delete.order, List.length_cons, List.length_nil]
        omega
      have hdelete : Delete.order[n]? = some Delete.order[n] := List.getElem?_eq_getElem hlt
      rw [← Nat.add_assoc, Runs.alone_add (ih (by omega)) 1, failedForget_succ he hdelete]
      have hcount : (if Delete.order[n] = .auditEvents then
          ((failedForget call db n).auditEvents.filter (namedIn (db.recordIds call.entityId))).length
          else auditEventsCount call db n) = auditEventsCount call db (n + 1) := by
        by_cases h3 : n = 3
        · subst h3
          rfl
        · have hne : Delete.order[n] ≠ .auditEvents := by
            intro heq
            have hnodup : Delete.order.Nodup := by decide
            have hthree : Delete.order[n] = Delete.order[3] := heq
            exact h3 (hnodup.getElem_inj_iff.mp hthree)
          rw [if_neg hne, auditEventsCount, auditEventsCount]
          by_cases hle : n ≤ 2
          · rw [if_pos (by omega), if_pos (by omega)]
          · rw [if_neg (by omega), if_neg (by omega)]
      have hnext : ForgetRun.next hmac ⟨call, .deleting (db.factIdsOf call.entityId)
          (db.edgeIdsOf call.entityId) (auditEventsCount call db n) n⟩ (failedForget call db n)
          = (Delete.order[n].exec call (db.recordIds call.entityId) (failedForget call db n),
            some ⟨call, .deleting (db.factIdsOf call.entityId) (db.edgeIdsOf call.entityId)
              (auditEventsCount call db (n + 1)) (n + 1)⟩) := by
        rw [ForgetRun.next_delete rfl hdelete, ← hcount]
        rfl
      rw [Runs.alone_of_some hnext]
      rfl

/-- **`forget`** is its statements, one after the other. -/
theorem forget_alone (hmac : String → String) (call : ForgetCall) (db : TenantDb) :
    Runs.alone (ForgetRun.next hmac) 13 { call := call } db = ((forget hmac call db).2, none) := by
  by_cases he : db.HasEntity call.entityId
  · have hforget : (forget hmac call db).2
        = bury hmac call (db.factIdsOf call.entityId).length (db.edgeIdsOf call.entityId).length
          (auditEventsCount call db 9) (failedForget call db 9) := by
      obtain ⟨row, hrow⟩ := Option.isSome_iff_exists.mp he
      rw [auditEventsCount, failedForget, failedForget, if_pos he, if_pos he, forget, hrow]
      exact apply_ite Prod.snd _ _ _
    have hlast := Runs.alone_add (forgetRun_alone hmac he (Nat.le_refl 9)) 1
    rw [hforget, show 13 = 3 + 9 + 1 from rfl, hlast]
    exact Runs.alone_of_none rfl 0
  · have hcheck : ForgetRun.next hmac { call := call } db = (db, none) := by
      simp only [ForgetRun.next, if_neg he]
    rw [Runs.alone_of_none hcheck, forget_of_not_hasEntity he]

end Alone

end Brain
