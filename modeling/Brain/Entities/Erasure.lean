/-
What an erasure leaves behind.

`forget` deletes the rows of an entity and the rows of other tables that it can find.
It does not look at `mergedInto` of other entities, at `derivedFrom` and `supersededBy`
of facts of other entities, at the facts that artifacts of other entities cite, or at
the links in the images of audit events of other records; and the trace of a request
goes only if it is this company's and spells the entity itself out. The references that
a call leaves are exactly those, so it leaves none if and only if there are none of them
in the store that it finds (`leavesNoReference_iff`).
-/
import Brain.Entities.Forget

set_option autoImplicit false

namespace Brain

/-- The records that an `after` image links to. -/
def AuditImage.links (a : AuditImage) : List RecordId :=
  a.entityId.toList.map .entity ++ a.supersededBy.toList.map .fact ++
    a.in_.toList.map .entity ++ a.out.toList.map .entity ++ a.mergedInto.toList.map .entity

/-- Some row of the database refers to the record, or is the record. -/
inductive TenantDb.RefersTo (db : TenantDb) : RecordId → Prop
  | entity {e : EntityId} {x : KnowledgeEntity} (h : db.entities.get? e = some x) :
      RefersTo db (.entity e)
  | mergedInto {e s : EntityId} {x : KnowledgeEntity} (h : db.entities.get? e = some x)
      (hs : x.mergedInto = some s) : RefersTo db (.entity s)
  | fact {i : FactId} {f : KnowledgeFact} (h : db.facts.get? i = some f) : RefersTo db (.fact i)
  | factEntity {i : FactId} {f : KnowledgeFact} (h : db.facts.get? i = some f) :
      RefersTo db (.entity f.entityId)
  | derivedFrom {i d : FactId} {f : KnowledgeFact} (h : db.facts.get? i = some f)
      (hd : d ∈ f.derivedFrom) : RefersTo db (.fact d)
  | supersededBy {i j : FactId} {f : KnowledgeFact} (h : db.facts.get? i = some f)
      (hj : f.supersededBy = some j) : RefersTo db (.fact j)
  | edge {j : EdgeId} {x : KnowledgeEdge} (h : db.edges.get? j = some x) : RefersTo db (.edge j)
  | edgeIn {j : EdgeId} {x : KnowledgeEdge} (h : db.edges.get? j = some x) :
      RefersTo db (.entity x.in_)
  | edgeOut {j : EdgeId} {x : KnowledgeEdge} (h : db.edges.get? j = some x) :
      RefersTo db (.entity x.out)
  | artifact {a : KnowledgeArtifact} (h : a ∈ db.artifacts) : RefersTo db (.entity a.entityId)
  | artifactSource {a : KnowledgeArtifact} {d : FactId} (h : a ∈ db.artifacts)
      (hd : d ∈ a.sourceFactIds) : RefersTo db (.fact d)
  | audit {a : AuditEvent} {r : RecordId} (h : a ∈ db.auditEvents) (hr : a.recordId = r.text) :
      RefersTo db r
  | auditImage {a : AuditEvent} {image : AuditImage} {r : RecordId} (h : a ∈ db.auditEvents)
      (himage : a.after = some image) (hr : r ∈ image.links) : RefersTo db r
  | emitSubject {d : DreamEmit} {r : RecordId} (h : d ∈ db.dreamEmits)
      (hr : d.subject = some r.text) : RefersTo db r
  | emitObject {d : DreamEmit} {r : RecordId} (h : d ∈ db.dreamEmits)
      (hr : d.object = some r.text) : RefersTo db r
  | trace {t : DebugTrace} {r : RecordId} (h : t ∈ db.debugTraces)
      (hr : stringContains t.artifacts r.text = true) : RefersTo db r
  | deadLetter {l : DeadLetter} (h : l ∈ db.deadLetters) : RefersTo db (.entity l.entityId)
  | externalRef {x : String × EntityId} (h : x ∈ db.externalRefs) : RefersTo db (.entity x.2)

/-- A reference that the erasure of the entity `e` does not look for. -/
inductive TenantDb.Overlooks (db : TenantDb) (companyId : String) (e : EntityId) : RecordId → Prop
  | mergedInto {e' s : EntityId} {x : KnowledgeEntity} (h : db.entities.get? e' = some x)
      (hne : e' ≠ e) (hs : x.mergedInto = some s) : Overlooks db companyId e (.entity s)
  | derivedFrom {i d : FactId} {f : KnowledgeFact} (h : db.facts.get? i = some f)
      (hne : f.entityId ≠ e) (hd : d ∈ f.derivedFrom) : Overlooks db companyId e (.fact d)
  | supersededBy {i j : FactId} {f : KnowledgeFact} (h : db.facts.get? i = some f)
      (hne : f.entityId ≠ e) (hj : f.supersededBy = some j) : Overlooks db companyId e (.fact j)
  | artifactSource {a : KnowledgeArtifact} {d : FactId} (h : a ∈ db.artifacts)
      (hne : a.entityId ≠ e) (hd : d ∈ a.sourceFactIds) : Overlooks db companyId e (.fact d)
  | auditImage {a : AuditEvent} {image : AuditImage} {r : RecordId} (h : a ∈ db.auditEvents)
      (hne : a.recordId ∉ db.recordIds e) (himage : a.after = some image)
      (hr : r ∈ image.links) : Overlooks db companyId e r
  | trace {t : DebugTrace} {r : RecordId} (h : t ∈ db.debugTraces)
      (hne : tracesEntity companyId (RecordId.entity e).text t = false)
      (hr : stringContains t.artifacts r.text = true) : Overlooks db companyId e r

section Erasure

variable {hmac : String → String} {call : ForgetCall} {db : TenantDb}

theorem entity_mem_recordsOf {e e' : EntityId} : .entity e' ∈ db.recordsOf e ↔ e' = e := by
  rw [mem_recordsOf]
  simp

theorem fact_mem_recordsOf {e : EntityId} {i : FactId} :
    .fact i ∈ db.recordsOf e ↔ ∃ f, db.facts.get? i = some f ∧ f.entityId = e := by
  rw [mem_recordsOf, ← mem_factIdsOf]
  simp

theorem edge_mem_recordsOf {e : EntityId} {j : EdgeId} :
    .edge j ∈ db.recordsOf e ↔ ∃ x, db.edges.get? j = some x ∧ (x.in_ = e ∨ x.out = e) := by
  rw [mem_recordsOf, ← mem_edgeIdsOf]
  simp

/-- What refers to an erased record after the call is a row that stays, by a column that the
call does not look at. -/
theorem overlooks_of_refersTo_forget (he : db.HasEntity call.entityId)
    (hfree : db.HashFree hmac call.companyId call.entityId) {r : RecordId}
    (hr : r ∈ db.recordsOf call.entityId) (h : (forget hmac call db).2.RefersTo r) :
    db.Overlooks call.companyId call.entityId r := by
  have hids : r.text ∈ db.recordIds call.entityId := List.mem_map_of_mem hr
  -- a row that the call can find by what refers to `r` has not stayed; the six kinds of
  -- reference that it cannot find are the constructors of `Overlooks`
  cases h with
  | entity h => exact absurd (entity_mem_recordsOf.mp hr) ((get?_entities_forget he hfree).mp h).2
  | mergedInto h hs =>
      obtain ⟨h, hne⟩ := (get?_entities_forget he hfree).mp h
      exact .mergedInto h hne hs
  | fact h =>
      obtain ⟨h, hne⟩ := (get?_facts_forget he).mp h
      obtain ⟨f, hf, hfe⟩ := fact_mem_recordsOf.mp hr
      rw [h, Option.some.injEq] at hf
      exact absurd (hf ▸ hfe) hne
  | factEntity h => exact absurd (entity_mem_recordsOf.mp hr) ((get?_facts_forget he).mp h).2
  | derivedFrom h hd =>
      obtain ⟨h, hne⟩ := (get?_facts_forget he).mp h
      exact .derivedFrom h hne hd
  | supersededBy h hj =>
      obtain ⟨h, hne⟩ := (get?_facts_forget he).mp h
      exact .supersededBy h hne hj
  | edge h =>
      obtain ⟨h, hne⟩ := (get?_edges_forget he hfree).mp h
      obtain ⟨x, hx, hxe⟩ := edge_mem_recordsOf.mp hr
      rw [h, Option.some.injEq] at hx
      exact absurd (hx ▸ hxe) (not_or.mpr hne)
  | edgeIn h =>
      exact absurd (entity_mem_recordsOf.mp hr) ((get?_edges_forget he hfree).mp h).2.1
  | edgeOut h =>
      exact absurd (entity_mem_recordsOf.mp hr) ((get?_edges_forget he hfree).mp h).2.2
  | artifact h =>
      exact absurd (entity_mem_recordsOf.mp hr) ((mem_artifacts_forget he hfree).mp h).2
  | artifactSource h hd =>
      obtain ⟨h, hne⟩ := (mem_artifacts_forget he hfree).mp h
      exact .artifactSource h hne hd
  | audit h htext =>
      -- the identifier of the record was among those that were collected
      have hne := ((mem_auditEvents_forget he hfree).mp h).2
      rw [htext] at hne
      exact absurd hids hne
  | auditImage h himage hlink =>
      obtain ⟨h, hne⟩ := (mem_auditEvents_forget he hfree).mp h
      exact .auditImage h hne himage hlink
  | emitSubject h htext =>
      have hne := ((mem_dreamEmits_forget he hfree).mp h).2
      simp [emittedFor, htext, hids] at hne
  | emitObject h htext =>
      have hne := ((mem_dreamEmits_forget he hfree).mp h).2
      simp [emittedFor, htext, hids] at hne
  | trace h hcontains =>
      obtain ⟨h, hne⟩ := (mem_debugTraces_forget he hfree).mp h
      exact .trace h hne hcontains
  | deadLetter h =>
      exact absurd (entity_mem_recordsOf.mp hr) ((mem_deadLetters_forget he hfree).mp h).2
  | externalRef h =>
      exact absurd (entity_mem_recordsOf.mp hr) ((mem_externalRefs_forget he hfree).mp h).2

/-- And such a row stays. -/
theorem refersTo_forget_of_overlooks (he : db.HasEntity call.entityId)
    (hfree : db.HashFree hmac call.companyId call.entityId) {r : RecordId}
    (h : db.Overlooks call.companyId call.entityId r) : (forget hmac call db).2.RefersTo r := by
  cases h with
  | mergedInto h hne hs => exact .mergedInto ((get?_entities_forget he hfree).mpr ⟨h, hne⟩) hs
  | derivedFrom h hne hd => exact .derivedFrom ((get?_facts_forget he).mpr ⟨h, hne⟩) hd
  | supersededBy h hne hj => exact .supersededBy ((get?_facts_forget he).mpr ⟨h, hne⟩) hj
  | artifactSource h hne hd =>
      exact .artifactSource ((mem_artifacts_forget he hfree).mpr ⟨h, hne⟩) hd
  | auditImage h hne himage hlink =>
      exact .auditImage ((mem_auditEvents_forget he hfree).mpr ⟨h, hne⟩) himage hlink
  | trace h hne hcontains =>
      exact .trace ((mem_debugTraces_forget he hfree).mpr ⟨h, hne⟩) hcontains

/-- After the call no row refers to the entity or to a fact or an edge that it had. -/
def LeavesNoReference (hmac : String → String) (call : ForgetCall) (db : TenantDb) : Prop :=
  ∀ r ∈ db.recordsOf call.entityId, ¬ (forget hmac call db).2.RefersTo r

/-- **When an erasure is complete.** -/
theorem leavesNoReference_iff {result : ForgetResult}
    (hok : (forget hmac call db).1 = .ok result) :
    LeavesNoReference hmac call db ↔
      ∀ r ∈ db.recordsOf call.entityId, ¬ db.Overlooks call.companyId call.entityId r := by
  obtain ⟨he, hfree⟩ := forget_succeeds_iff.mp ⟨result, hok⟩
  constructor
  · intro h r hr hover
    exact h r hr (refersTo_forget_of_overlooks he hfree hover)
  · intro h r hr hrefers
    exact h r hr (overlooks_of_refersTo_forget he hfree hr hrefers)

end Erasure

/-! ## A merged entity -/

/-- An `identity_of` link from the customer `a` to the customer `b`. -/
def linkCustomers : IngestLinkDto where
  from_ := .external "crm" "a"
  to_ := .external "crm" "b"
  kind := "identity_of"

/-- A database on which this one link has been ingested: `b` is merged into `a`. -/
def linkedDb : TenantDb := { toGraphStore := (ingestLink 0 {} linkCustomers).2 }

/-- The erasure of the entity `e`. -/
def forgetCall (e : EntityId) : ForgetCall where
  companyId := "acme"
  entityId := e
  dto := { reason := .gdpr_request, requestId := "r1" }
  now := 1

/-- The erasure of the entity that was merged is complete. -/
theorem leavesNoReference_iff_loser :
    LeavesNoReference id (forgetCall 1) linkedDb ↔
      ∀ r ∈ linkedDb.recordsOf 1, ¬ linkedDb.Overlooks "acme" 1 r := by
  have hok : (forget id (forgetCall 1) linkedDb).1 = .ok
      { entityIdHash := "hmac:acme/knowledge_entity:1", factsDeleted := 0, edgesDeleted := 1,
        auditEventsDeleted := 0, forgottenAt := 1 } := by rfl
  exact leavesNoReference_iff hok

/-- **The entity that it was merged into** is erased, and `b` still points to it. -/
theorem merged_entity_points_to_erased :
    (∃ r, (forget id (forgetCall 0) linkedDb).1 = .ok r) ∧
      ¬ LeavesNoReference id (forgetCall 0) linkedDb := by
  refine ⟨⟨_, rfl⟩, fun h => ?_⟩
  -- the row of `b` is not deleted, and its `mergedInto` is not cleared
  have hb : (forget id (forgetCall 0) linkedDb).2.mergedInto 1 = some 0 := by rfl
  obtain ⟨x, hx, hs⟩ := Option.bind_eq_some_iff.mp hb
  exact h (.entity 0) (entity_mem_recordsOf.mpr rfl) (.mergedInto hx hs)

end Brain
