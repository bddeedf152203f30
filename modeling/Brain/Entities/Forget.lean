/-
`src/src/entities/entities.service.ts`: `forget`, the erasure of an entity.

The call collects the identifiers of the facts and edges of the entity, deletes from
nine tables, one statement after the other and outside a transaction, and writes a
tombstone. What it deletes it finds in three ways: by a link to the entity, by the
printed form of a collected identifier, and, for traces, by looking for the printed
identifier of the entity in the serialised text.
-/
import Brain.Db.TenantDb

set_option autoImplicit false

namespace Brain

attribute [ext] Store GraphStore TenantDb

/-! ## Requests, results -/

/-- `ForgetEntityDto.reason`. -/
inductive ForgetReason where
  | gdpr_request | tenant_offboarding | operator_request
deriving DecidableEq, Repr

def ForgetReason.text : ForgetReason → String
  | .gdpr_request => "gdpr_request"
  | .tenant_offboarding => "tenant_offboarding"
  | .operator_request => "operator_request"

/-- `ForgetEntityDto`. -/
structure ForgetEntityDto where
  reason : ForgetReason
  requestId : String

/-- A call of `forget`; `now` is the instant at which it writes the tombstone. -/
structure ForgetCall where
  companyId : String
  entityId : EntityId
  dto : ForgetEntityDto
  actorKeyHash : Option String := none
  now : Time

/-- `ForgetResult`. -/
structure ForgetResult where
  entityIdHash : String
  factsDeleted : ℕ
  edgesDeleted : ℕ
  auditEventsDeleted : ℕ
  forgottenAt : Time
deriving DecidableEq, Repr

/-- What `forget` throws. -/
inductive ForgetError where
  | notFound (message : String)
  /-- The index of `forgotten_entity` on `entityIdHash` is UNIQUE. -/
  | hashTaken
deriving DecidableEq, Repr

/-! ## What is collected -/

/-- `SELECT id FROM knowledge_fact WHERE entityId = $e`. -/
def TenantDb.factIdsOf (db : TenantDb) (e : EntityId) : List FactId :=
  (db.facts.select (fun _ f => f.entityId == e)).map Prod.fst

/-- `SELECT id FROM knowledge_edge WHERE in = $e OR out = $e`. -/
def TenantDb.edgeIdsOf (db : TenantDb) (e : EntityId) : List EdgeId :=
  (db.edges.select (fun _ x => x.in_ == e || x.out == e)).map Prod.fst

/-- The entity with its facts and edges. -/
def TenantDb.recordsOf (db : TenantDb) (e : EntityId) : List RecordId :=
  .entity e :: ((db.factIdsOf e).map .fact ++ (db.edgeIdsOf e).map .edge)

/-- `recordIds`. -/
def TenantDb.recordIds (db : TenantDb) (e : EntityId) : List String :=
  (db.recordsOf e).map RecordId.text

/-! ## The deletes -/

/-- `string::contains`. -/
def stringContains (s needle : String) : Bool := decide (needle.toList <:+: s.toList)

/-- Deletes the facts. For each of them the event of migration 0004 marks the artifacts
of its entity. -/
def deleteFacts (e : EntityId) (db : TenantDb) : TenantDb :=
  { db with
    facts := db.facts.deleteWhere (fun _ f => f.entityId == e)
    artifacts :=
      if (db.factIdsOf e).isEmpty then db.artifacts
      else db.artifacts.map (fun a => if a.entityId = e then { a with dirty := true } else a) }

def deleteEdges (e : EntityId) (db : TenantDb) : TenantDb :=
  { db with edges := db.edges.deleteWhere (fun _ x => x.in_ == e || x.out == e) }

def deleteEntity (e : EntityId) (db : TenantDb) : TenantDb :=
  { db with entities := db.entities.deleteWhere (fun i _ => i == e) }

/-- `WHERE recordId IN $ids`. -/
def namedIn (ids : List String) (a : AuditEvent) : Bool := ids.contains a.recordId

/-- `WHERE subject IN $ids OR object IN $ids`. -/
def emittedFor (ids : List String) (d : DreamEmit) : Bool :=
  d.subject.any ids.contains || d.object.any ids.contains

/-- `WHERE companyId = $cid AND string::contains(<string>artifacts, $needle)`. -/
def tracesEntity (companyId needle : String) (t : DebugTrace) : Bool :=
  t.companyId == some companyId && stringContains t.artifacts needle

def deleteAuditEvents (ids : List String) (db : TenantDb) : TenantDb :=
  { db with auditEvents := db.auditEvents.filter (fun a => !namedIn ids a) }

def deleteDreamEmits (ids : List String) (db : TenantDb) : TenantDb :=
  { db with dreamEmits := db.dreamEmits.filter (fun d => !emittedFor ids d) }

def deleteDebugTraces (companyId needle : String) (db : TenantDb) : TenantDb :=
  { db with debugTraces := db.debugTraces.filter (fun t => !tracesEntity companyId needle t) }

def deleteArtifacts (e : EntityId) (db : TenantDb) : TenantDb :=
  { db with artifacts := db.artifacts.filter (fun a => a.entityId != e) }

def deleteDeadLetters (e : EntityId) (db : TenantDb) : TenantDb :=
  { db with deadLetters := db.deadLetters.filter (fun l => l.entityId != e) }

def deleteExternalRefs (e : EntityId) (db : TenantDb) : TenantDb :=
  { db with externalRefs := db.externalRefs.filter (fun r => r.2 != e) }

/-! ## The call -/

/-- The tombstone's `entityIdHash`. -/
def entityIdHash (hmac : String → String) (companyId : String) (e : EntityId) : String :=
  "hmac:" ++ hmac (companyId ++ "/" ++ (RecordId.entity e).text)

/-- `forget`. -/
def forget (hmac : String → String) (call : ForgetCall) (db : TenantDb) :
    Except ForgetError ForgetResult × TenantDb :=
  match db.entities.get? call.entityId with
  | none => (.error (.notFound ("Entity " ++ toString call.entityId ++ " not found")), db)
  | some _ =>
      let factsDeleted := (db.factIdsOf call.entityId).length
      let edgesDeleted := (db.edgeIdsOf call.entityId).length
      -- collected before the first delete: later the facts and edges cannot be listed
      let ids := db.recordIds call.entityId
      let db := deleteFacts call.entityId db
      let db := deleteEdges call.entityId db
      let db := deleteEntity call.entityId db
      let auditEventsDeleted := (db.auditEvents.filter (namedIn ids)).length
      let db := deleteAuditEvents ids db
      let db := deleteDreamEmits ids db
      let db := deleteDebugTraces call.companyId (RecordId.entity call.entityId).text db
      let db := deleteArtifacts call.entityId db
      let db := deleteDeadLetters call.entityId db
      let db := deleteExternalRefs call.entityId db
      let hash := entityIdHash hmac call.companyId call.entityId
      -- the CREATE of the tombstone fails on the index, after everything is deleted
      if db.forgotten.any (fun x => x.entityIdHash == hash) then (.error .hashTaken, db)
      else
        (.ok { entityIdHash := hash, factsDeleted := factsDeleted, edgesDeleted := edgesDeleted,
               auditEventsDeleted := auditEventsDeleted, forgottenAt := call.now },
          { db with
            forgotten := db.forgotten ++ [
              { entityIdHash := hash, reason := call.dto.reason.text,
                requestId := call.dto.requestId, factsDeleted := factsDeleted,
                edgesDeleted := edgesDeleted, auditEventsDeleted := auditEventsDeleted,
                forgottenBy := call.actorKeyHash.getD "unknown", forgottenAt := call.now }] })

/-! ## What the deletes leave -/

/-- The store after the deletes, for collected identifiers `ids`. -/
def erased (companyId : String) (e : EntityId) (ids : List String) (db : TenantDb) : TenantDb :=
  { db with
    facts := db.facts.deleteWhere (fun _ f => f.entityId == e)
    edges := db.edges.deleteWhere (fun _ x => x.in_ == e || x.out == e)
    entities := db.entities.deleteWhere (fun i _ => i == e)
    auditEvents := db.auditEvents.filter (fun a => !namedIn ids a)
    dreamEmits := db.dreamEmits.filter (fun d => !emittedFor ids d)
    debugTraces :=
      db.debugTraces.filter (fun t => !tracesEntity companyId (RecordId.entity e).text t)
    artifacts := db.artifacts.filter (fun a => a.entityId != e)
    deadLetters := db.deadLetters.filter (fun l => l.entityId != e)
    externalRefs := db.externalRefs.filter (fun r => r.2 != e) }

/-- Marking the artifacts that are about to be deleted leaves no mark. -/
theorem filter_artifacts_deleteFacts (e : EntityId) (db : TenantDb) :
    (deleteFacts e db).artifacts.filter (fun a => a.entityId != e)
      = db.artifacts.filter (fun a => a.entityId != e) := by
  unfold deleteFacts
  dsimp only
  split
  · rfl
  · rw [List.filter_map]
    -- marking does not change whose artifact it is
    have hsame : ((fun a : KnowledgeArtifact => a.entityId != e) ∘
        fun a => if a.entityId = e then { a with dirty := true } else a)
          = fun a => a.entityId != e := by
      funext a
      rw [Function.comp_apply]
      split <;> rfl
    rw [hsame]
    -- and the artifacts that are left are none of those that were marked
    calc List.map _ (db.artifacts.filter (fun a => a.entityId != e))
        = List.map id (db.artifacts.filter (fun a => a.entityId != e)) := by
          apply List.map_congr_left
          intro a ha
          have hne : a.entityId ≠ e := by simpa using (List.mem_filter.mp ha).2
          rw [if_neg hne]
          rfl
      _ = db.artifacts.filter (fun a => a.entityId != e) := List.map_id _

/-- The deletes one after the other. -/
theorem erased_eq (companyId : String) (e : EntityId) (ids : List String) (db : TenantDb) :
    deleteExternalRefs e (deleteDeadLetters e (deleteArtifacts e (deleteDebugTraces companyId
      (RecordId.entity e).text (deleteDreamEmits ids (deleteAuditEvents ids (deleteEntity e
        (deleteEdges e (deleteFacts e db))))))))
      = erased companyId e ids db := by
  -- only the artifacts are written twice, by the mark and by their own delete
  have hart : (deleteExternalRefs e (deleteDeadLetters e (deleteArtifacts e (deleteDebugTraces
      companyId (RecordId.entity e).text (deleteDreamEmits ids (deleteAuditEvents ids
        (deleteEntity e (deleteEdges e (deleteFacts e db))))))))).artifacts
      = (deleteFacts e db).artifacts.filter (fun a => a.entityId != e) := rfl
  rw [filter_artifacts_deleteFacts] at hart
  exact TenantDb.ext rfl rfl rfl rfl rfl rfl hart rfl rfl rfl rfl

section Spec

variable {hmac : String → String} {call : ForgetCall} {db : TenantDb}

/-- No tombstone carries the hash of the entity. -/
def TenantDb.HashFree (db : TenantDb) (hmac : String → String) (companyId : String)
    (e : EntityId) : Prop :=
  ∀ x ∈ db.forgotten, x.entityIdHash ≠ entityIdHash hmac companyId e

/-- The tombstone that a call writes. -/
def tombstone (hmac : String → String) (call : ForgetCall) (db : TenantDb) : ForgottenEntity where
  entityIdHash := entityIdHash hmac call.companyId call.entityId
  reason := call.dto.reason.text
  requestId := call.dto.requestId
  factsDeleted := (db.factIdsOf call.entityId).length
  edgesDeleted := (db.edgeIdsOf call.entityId).length
  auditEventsDeleted := (db.auditEvents.filter (namedIn (db.recordIds call.entityId))).length
  forgottenBy := call.actorKeyHash.getD "unknown"
  forgottenAt := call.now

/-- **When a call succeeds**: the entity is there, and has no tombstone. -/
theorem forget_succeeds_iff :
    (∃ r, (forget hmac call db).1 = .ok r) ↔
      db.HasEntity call.entityId ∧ db.HashFree hmac call.companyId call.entityId := by
  have hfree : db.HashFree hmac call.companyId call.entityId ↔
      db.forgotten.any (fun x => x.entityIdHash ==
        entityIdHash hmac call.companyId call.entityId) = false := by
    simp [TenantDb.HashFree]
  rw [hfree, Store.HasEntity]
  unfold forget
  cases hrow : db.entities.get? call.entityId with
  | none => simp
  | some row =>
      simp only [erased_eq, Option.isSome_some, true_and]
      -- the deletes do not touch the tombstones, so the index is checked on the old ones
      have hforgotten : ∀ ids, (erased call.companyId call.entityId ids db).forgotten
          = db.forgotten := fun _ => rfl
      rw [hforgotten]
      split
      · next htaken => simp [htaken]
      · next hnot => simpa using hnot

/-- **What a call leaves that succeeds**: the store after its deletes, with a tombstone. -/
theorem forget_of_succeeds (he : db.HasEntity call.entityId)
    (hfree : db.HashFree hmac call.companyId call.entityId) :
    (forget hmac call db).2
      = { erased call.companyId call.entityId (db.recordIds call.entityId) db with
          forgotten := db.forgotten ++ [tombstone hmac call db] } := by
  obtain ⟨row, hrow⟩ := Option.isSome_iff_exists.mp he
  have hany : db.forgotten.any (fun x => x.entityIdHash ==
      entityIdHash hmac call.companyId call.entityId) = false := by
    simpa [TenantDb.HashFree] using hfree
  have hforgotten : ∀ ids, (erased call.companyId call.entityId ids db).forgotten
      = db.forgotten := fun _ => rfl
  unfold forget
  simp only [hrow, erased_eq, hforgotten, hany, Bool.false_eq_true, if_false]
  rfl

theorem forget_of_not_hasEntity (he : ¬ db.HasEntity call.entityId) :
    (forget hmac call db).2 = db := by
  have hnone : db.entities.get? call.entityId = none := by
    rwa [Store.HasEntity, Option.not_isSome_iff_eq_none] at he
  unfold forget
  rw [hnone]

/-- The facts go, whether or not the tombstone can be written. -/
theorem facts_forget (he : db.HasEntity call.entityId) :
    (forget hmac call db).2.facts
      = db.facts.deleteWhere (fun _ f => f.entityId == call.entityId) := by
  obtain ⟨row, hrow⟩ := Option.isSome_iff_exists.mp he
  unfold forget
  simp only [hrow, erased_eq]
  split <;> rfl

/-! ## What stays of each table -/

theorem get?_entities_forget (he : db.HasEntity call.entityId)
    (hfree : db.HashFree hmac call.companyId call.entityId) {i : EntityId} {x : KnowledgeEntity} :
    (forget hmac call db).2.entities.get? i = some x ↔
      db.entities.get? i = some x ∧ i ≠ call.entityId := by
  rw [forget_of_succeeds he hfree]
  refine KeyedTable.get?_deleteWhere_eq_some.trans ?_
  rw [beq_eq_false_iff_ne]

theorem get?_facts_forget (he : db.HasEntity call.entityId) {i : FactId} {f : KnowledgeFact} :
    (forget hmac call db).2.facts.get? i = some f ↔
      db.facts.get? i = some f ∧ f.entityId ≠ call.entityId := by
  rw [facts_forget he, KeyedTable.get?_deleteWhere_eq_some, beq_eq_false_iff_ne]

theorem get?_edges_forget (he : db.HasEntity call.entityId)
    (hfree : db.HashFree hmac call.companyId call.entityId) {j : EdgeId} {x : KnowledgeEdge} :
    (forget hmac call db).2.edges.get? j = some x ↔
      db.edges.get? j = some x ∧ x.in_ ≠ call.entityId ∧ x.out ≠ call.entityId := by
  rw [forget_of_succeeds he hfree]
  refine KeyedTable.get?_deleteWhere_eq_some.trans ?_
  rw [Bool.or_eq_false_iff, beq_eq_false_iff_ne, beq_eq_false_iff_ne]

theorem mem_artifacts_forget (he : db.HasEntity call.entityId)
    (hfree : db.HashFree hmac call.companyId call.entityId) {a : KnowledgeArtifact} :
    a ∈ (forget hmac call db).2.artifacts ↔ a ∈ db.artifacts ∧ a.entityId ≠ call.entityId := by
  rw [forget_of_succeeds he hfree]
  refine List.mem_filter.trans ?_
  rw [bne_iff_ne]

theorem mem_auditEvents_forget (he : db.HasEntity call.entityId)
    (hfree : db.HashFree hmac call.companyId call.entityId) {a : AuditEvent} :
    a ∈ (forget hmac call db).2.auditEvents ↔
      a ∈ db.auditEvents ∧ a.recordId ∉ db.recordIds call.entityId := by
  rw [forget_of_succeeds he hfree]
  refine List.mem_filter.trans ?_
  rw [namedIn, Bool.not_eq_true', ← Bool.not_eq_true, List.contains_iff_mem]

theorem mem_dreamEmits_forget (he : db.HasEntity call.entityId)
    (hfree : db.HashFree hmac call.companyId call.entityId) {d : DreamEmit} :
    d ∈ (forget hmac call db).2.dreamEmits ↔
      d ∈ db.dreamEmits ∧ emittedFor (db.recordIds call.entityId) d = false := by
  rw [forget_of_succeeds he hfree]
  refine List.mem_filter.trans ?_
  rw [Bool.not_eq_true']

theorem mem_debugTraces_forget (he : db.HasEntity call.entityId)
    (hfree : db.HashFree hmac call.companyId call.entityId) {t : DebugTrace} :
    t ∈ (forget hmac call db).2.debugTraces ↔
      t ∈ db.debugTraces ∧
        tracesEntity call.companyId (RecordId.entity call.entityId).text t = false := by
  rw [forget_of_succeeds he hfree]
  refine List.mem_filter.trans ?_
  rw [Bool.not_eq_true']

theorem mem_deadLetters_forget (he : db.HasEntity call.entityId)
    (hfree : db.HashFree hmac call.companyId call.entityId) {l : DeadLetter} :
    l ∈ (forget hmac call db).2.deadLetters ↔ l ∈ db.deadLetters ∧ l.entityId ≠ call.entityId := by
  rw [forget_of_succeeds he hfree]
  refine List.mem_filter.trans ?_
  rw [bne_iff_ne]

theorem mem_externalRefs_forget (he : db.HasEntity call.entityId)
    (hfree : db.HashFree hmac call.companyId call.entityId) {x : String × EntityId} :
    x ∈ (forget hmac call db).2.externalRefs ↔ x ∈ db.externalRefs ∧ x.2 ≠ call.entityId := by
  rw [forget_of_succeeds he hfree]
  refine List.mem_filter.trans ?_
  rw [bne_iff_ne]

end Spec

/-! ## Records of an entity -/

theorem mem_factIdsOf {db : TenantDb} {e : EntityId} {i : FactId} :
    i ∈ db.factIdsOf e ↔ ∃ f, db.facts.get? i = some f ∧ f.entityId = e := by
  rw [TenantDb.factIdsOf, KeyedTable.mem_keys_select]
  simp only [beq_iff_eq]

theorem mem_edgeIdsOf {db : TenantDb} {e : EntityId} {j : EdgeId} :
    j ∈ db.edgeIdsOf e ↔ ∃ x, db.edges.get? j = some x ∧ (x.in_ = e ∨ x.out = e) := by
  rw [TenantDb.edgeIdsOf, KeyedTable.mem_keys_select]
  simp only [Bool.or_eq_true, beq_iff_eq]

theorem mem_recordsOf {db : TenantDb} {e : EntityId} {r : RecordId} :
    r ∈ db.recordsOf e ↔
      r = .entity e ∨ (∃ i ∈ db.factIdsOf e, r = .fact i) ∨ ∃ j ∈ db.edgeIdsOf e, r = .edge j := by
  rw [TenantDb.recordsOf, List.mem_cons, List.mem_append, List.mem_map, List.mem_map]
  simp only [eq_comm]

end Brain
