/-
What refers to an entity: the facts about it, the edges at it and its artifacts. The
schema does not check that the entity is there; `RefsOk` says that it is.

`Within holds db db'` is what a statement of a call does to references that holds the
entities `holds`: it makes references to these only, and deletes no entity.
-/
import Brain.Ingest.IngestRun

set_option autoImplicit false

namespace Brain

/-! ## References -/

/-- A fact is about the entity. -/
def TenantDb.FactOf (db : TenantDb) (e : EntityId) : Prop :=
  ∃ i f, db.facts.get? i = some f ∧ f.entityId = e

/-- An edge starts or ends at the entity. -/
def TenantDb.EdgeOf (db : TenantDb) (e : EntityId) : Prop :=
  ∃ j x, db.edges.get? j = some x ∧ (x.in_ = e ∨ x.out = e)

/-- An artifact is compiled for the entity. -/
def TenantDb.ArtifactOf (db : TenantDb) (e : EntityId) : Prop :=
  ∃ a ∈ db.artifacts, a.entityId = e

/-- **Referential integrity**: facts, edges and artifacts are of entities that exist. -/
structure TenantDb.RefsOk (db : TenantDb) : Prop where
  facts : ∀ e, db.FactOf e → db.HasEntity e
  edges : ∀ e, db.EdgeOf e → db.HasEntity e
  artifacts : ∀ e, db.ArtifactOf e → db.HasEntity e

/-! ## Statements that keep to what is held -/

/-- New references are to held entities, and no entity is deleted. -/
structure Within (holds : EntityId → Prop) (db db' : TenantDb) : Prop where
  facts : ∀ e, db'.FactOf e → db.FactOf e ∨ holds e
  edges : ∀ e, db'.EdgeOf e → db.EdgeOf e ∨ holds e
  artifacts : ∀ e, db'.ArtifactOf e → db.ArtifactOf e ∨ holds e
  entities : ∀ e, db.HasEntity e → db'.HasEntity e
  next : db.entities.next ≤ db'.entities.next

section Statements

variable {holds : EntityId → Prop} {db db' : TenantDb} {fns : SurrealFns} {env : DbEnv}
  {a : ResolveArgs} {s s' : Store} {r : ResolveResult} {e : EntityId}

/-- A statement that leaves these tables. -/
theorem Within.of_eq (hfacts : db'.facts = db.facts) (hedges : db'.edges = db.edges)
    (hartifacts : ∀ e, db'.ArtifactOf e → db.ArtifactOf e)
    (hentities : db'.entities = db.entities) :
    Within holds db db' := by
  refine ⟨fun e he => Or.inl ?_, fun e he => Or.inl ?_, fun e he => Or.inl (hartifacts e he),
    fun e he => ?_, ?_⟩
  · rw [TenantDb.FactOf, hfacts] at he
    exact he
  · rw [TenantDb.EdgeOf, hedges] at he
    exact he
  · rw [Store.HasEntity, hentities]
    exact he
  · rw [hentities]

theorem Within.refl : Within holds db db :=
  ⟨fun _ h => Or.inl h, fun _ h => Or.inl h, fun _ h => Or.inl h, fun _ h => h, Nat.le_refl _⟩

theorem Within.mono {holds' : EntityId → Prop} (h : Within holds db db')
    (hsub : ∀ e, holds e → holds' e) : Within holds' db db' :=
  ⟨fun e he => (h.facts e he).imp_right (hsub e), fun e he => (h.edges e he).imp_right (hsub e),
    fun e he => (h.artifacts e he).imp_right (hsub e), h.entities, h.next⟩

/-- Under references that are in order, those that are made are as well. -/
theorem TenantDb.RefsOk.within (h : db.RefsOk) (hw : Within holds db db')
    (hholds : ∀ e, holds e → db.HasEntity e) : db'.RefsOk := by
  refine ⟨fun e he => hw.entities e ?_, fun e he => hw.entities e ?_, fun e he => hw.entities e ?_⟩
  · exact (hw.facts e he).elim (h.facts e) (hholds e)
  · exact (hw.edges e he).elim (h.edges e) (hholds e)
  · exact (hw.artifacts e he).elim (h.artifacts e) (hholds e)

/-- A call of `fn::resolve_fact` leaves the entities. -/
theorem entities_resolveFact (h : resolveFact fns env s a = .ok (r, s')) :
    s'.entities = s.entities ∧ s'.externalRefs = s.externalRefs := by
  unfold resolveFact resolveFrom resolveWrite at h
  split at h
  · cases h
    exact ⟨rfl, rfl⟩
  · split at h
    · cases h
    · split at h
      · cases h
        exact ⟨rfl, rfl⟩
      · dsimp only at h
        split at h
        · cases h
          exact ⟨rfl, rfl⟩
        · cases h
          exact ⟨rfl, rfl⟩

/-- Its facts are about entities that had one, or about the entity of the call. -/
theorem entityId_of_resolveFact (h : resolveFact fns env s a = .ok (r, s')) {i : FactId}
    {f' : KnowledgeFact} (hf' : s'.facts.get? i = some f') :
    f'.entityId = a.entityId ∨ ∃ f, s.facts.get? i = some f ∧ f.entityId = f'.entityId := by
  rcases resolveFact_cases h with
    ⟨_, _, hs'⟩ | ⟨c, _, _, hs', _⟩ | ⟨c, _, _, _, _, _, hs', _, _, _⟩
  · rw [hs'] at hf'
    exact Or.inr ⟨f', hf', rfl⟩
  · rw [hs'] at hf'
    rcases settledFacts_cases hf' with ⟨_, rfl⟩ | ⟨f, hf, _, rfl⟩ | ⟨hf, _⟩
    · exact Or.inl rfl
    · exact Or.inr ⟨f, hf, rfl⟩
    · exact Or.inr ⟨f', hf, rfl⟩
  · rw [hs'] at hf'
    rcases contestedFacts_cases hf' with ⟨_, rfl⟩ | ⟨f, hf, _, rfl⟩ | ⟨hf, _⟩
    · exact Or.inl rfl
    · exact Or.inr ⟨f, hf, rfl⟩
    · exact Or.inr ⟨f', hf, rfl⟩

theorem artifactOf_invalidate {e' : EntityId} (h : (invalidateArtifacts e db).ArtifactOf e') :
    db.ArtifactOf e' := by
  obtain ⟨a, ha, rfl⟩ := h
  exact exists_of_mem_invalidate ha

theorem within_resolve {db : Tenant} (hholds : holds a.entityId) :
    Within holds db.toTenantDb (db.resolve fns env a).2.toTenantDb := by
  unfold Tenant.resolve
  split
  · exact Within.refl
  · next r s' hres =>
      obtain ⟨hentities, _⟩ := entities_resolveFact hres
      have hfacts : ∀ db' : TenantDb, db'.facts = s'.facts → ∀ e, db'.FactOf e →
          db.FactOf e ∨ holds e := by
        rintro db' hdb' e ⟨i, f', hf', rfl⟩
        rw [hdb'] at hf'
        rcases entityId_of_resolveFact hres hf' with heq | ⟨f, hf, heq⟩
        · exact Or.inr (heq ▸ hholds)
        · exact Or.inl ⟨i, f, hf, heq⟩
      have hent : ∀ e, db.HasEntity e → s'.HasEntity e := by
        intro e he
        rw [Store.HasEntity, hentities]
        exact he
      have hnext : db.entities.next ≤ s'.entities.next := by rw [hentities]
      dsimp only
      split
      · exact ⟨hfacts _ rfl, fun e he => Or.inl he, fun e he => Or.inl he, hent, hnext⟩
      · exact ⟨hfacts _ rfl, fun e he => Or.inl he, fun e he => Or.inl (artifactOf_invalidate he),
          hent, hnext⟩

theorem within_tagFact {db : Tenant} (factId : FactId) (lang : String) :
    Within holds db.toTenantDb (db.tagFact factId lang).toTenantDb := by
  unfold Tenant.tagFact
  split
  · exact Within.refl
  · next f hf =>
      refine ⟨fun e he => Or.inl ?_, fun e he => Or.inl he,
        fun e he => Or.inl (artifactOf_invalidate he), fun e he => he, Nat.le_refl _⟩
      obtain ⟨i, g', hg', rfl⟩ := he
      have hrow : (db.facts.update factId (fun f => { f with lang := some lang })).get? i
          = some g' := hg'
      rw [KeyedTable.get?_update] at hrow
      split at hrow
      · obtain ⟨g, hg, rfl⟩ := Option.map_eq_some_iff.mp hrow
        exact ⟨i, g, hg, rfl⟩
      · exact ⟨i, g', hrow, rfl⟩

theorem within_relateEdge {db : Tenant} {from_ to_ : EntityId} (hfrom : holds from_)
    (hto : holds to_) (kind : String) (weight : Confidence) :
    Within holds db.toTenantDb (db.relateEdge from_ to_ kind weight).toTenantDb := by
  refine ⟨fun e he => Or.inl he, ?_, fun e he => Or.inl he, fun e he => he, Nat.le_refl _⟩
  rintro e ⟨j, x, hx, hend⟩
  have hrow : (relate db.edges from_ to_ kind weight).2.get? j = some x := hx
  unfold relate at hrow
  split at hrow
  · exact Or.inl ⟨j, x, hrow, hend⟩
  · rw [KeyedTable.get?_insert] at hrow
    split at hrow
    · obtain rfl := Option.some.inj hrow
      rcases hend with rfl | rfl
      · exact Or.inr hfrom
      · exact Or.inr hto
    · exact Or.inl ⟨j, x, hrow, hend⟩

theorem within_merge {db : Tenant} (now : Time) (toId fromId : EntityId) :
    Within holds db.toTenantDb
      { db.toTenantDb with toStore := mergeEntity db.toStore now toId fromId } :=
  ⟨fun _ he => Or.inl he, fun _ he => Or.inl he, fun _ he => Or.inl he,
    fun _ he => hasEntity_mergeEntity.mpr he, Nat.le_refl _⟩

/-- A new entity is one more. -/
theorem hasEntity_createEntity {db : Tenant} {content : EntityContent} :
    (db.createEntity content).HasEntity e ↔ db.HasEntity e ∨ e = db.entities.next := by
  have hget : (db.createEntity content).entities.get? e
      = if e = db.entities.next then some content.row else db.entities.get? e :=
    KeyedTable.get?_insert ..
  rw [Store.HasEntity, hget, Store.HasEntity]
  by_cases he : e = db.entities.next
  · simp [he]
  · rw [if_neg he]
    simp [he]

theorem within_createEntity {db : Tenant} (content : EntityContent) :
    Within holds db.toTenantDb (db.createEntity content).toTenantDb :=
  ⟨fun _ he => Or.inl he, fun _ he => Or.inl he, fun _ he => Or.inl he,
    fun _ he => hasEntity_createEntity.mpr (Or.inl he), Nat.le_succ _⟩

end Statements

/-! ## Calls -/

section Calls

variable {services : IngestServices} {x : Outside} {run run' : IngestRun} {db : Tenant}

/-- The writes of a call are on what it has found. -/
theorem within_write (w : Write) (rest : List Write) :
    Within run.Holds db.toTenantDb (run.write services x w rest db).1.toTenantDb := by
  have hmem : ∀ {i : ℕ} {e : EntityId}, run.resolved[i]? = some e → run.Holds e :=
    fun h => List.mem_of_getElem? h
  cases w with
  | fact index fact =>
      simp only [IngestRun.write]
      split
      · exact Within.refl
      · next e he =>
          have hent : run.Holds (fact.args e).entityId := by
            rw [fact.entityId_args]
            exact hmem he
          have hwithin : Within run.Holds db.toTenantDb
              (db.resolve services.ingest.fns x.env (fact.args e)).2.toTenantDb :=
            within_resolve hent
          split
          · next db' hres =>
              rw [hres] at hwithin
              exact hwithin
          · next r db' hres =>
              rw [hres] at hwithin
              split <;> exact hwithin
  | edge i j kind =>
      simp only [IngestRun.write]
      split
      · next from_ to_ hfrom hto =>
          split
          · exact Within.refl
          · exact within_relateEdge (hmem hfrom) (hmem hto) kind .full
      · exact Within.refl
  | guard =>
      simp only [IngestRun.write]
      split
      · split <;> exact Within.refl
      · exact Within.refl
  | relate kind weight =>
      simp only [IngestRun.write]
      split
      · next from_ to_ hresolved =>
          have hboth : run.Holds from_ ∧ run.Holds to_ := by
            simp [IngestRun.Holds, hresolved]
          exact within_relateEdge hboth.1 hboth.2 kind weight
      · exact Within.refl
  | merge =>
      simp only [IngestRun.write]
      split
      · exact within_merge x.now _ _
      · exact Within.refl

/-- A call of `getArtifact` writes the artifact of the entity that it has found. -/
theorem within_artifact {templates : Templates} {fresh : Bool} {run : ArtifactRun} {db : TenantDb} :
    Within run.Holds db (run.next templates fresh db).1 := by
  have hdb : (run.next templates fresh db).1
      = { db with artifacts := (run.next templates fresh db).1.artifacts } := ArtifactRun.next_db
  refine ⟨fun e he => Or.inl ?_, fun e he => Or.inl ?_, ?_, fun e he => ?_, ?_⟩
  · rw [hdb] at he
    exact he
  · rw [hdb] at he
    exact he
  · rintro e ⟨a, ha, rfl⟩
    exact ArtifactRun.mem_artifacts_next ha
  · rw [hdb]
    exact he
  · rw [hdb]

theorem within_next : Within run.Holds db.toTenantDb (run.next services x db).1.toTenantDb := by
  unfold IngestRun.next
  split
  · split
    · split <;> exact Within.refl
    · split
      · exact Within.refl
      · exact within_write _ _
  · split
    · split
      · exact ⟨fun _ he => Or.inl he, fun _ he => Or.inl he, fun _ he => Or.inl he,
          fun _ he => hasEntity_createEntity.mpr (Or.inl he), Nat.le_succ _⟩
      · split <;> exact Within.refl
    · exact within_createEntity _
    · exact Within.refl
  · split
    · exact Within.refl
    · exact Within.refl
    · split <;> exact Within.refl
  · exact within_tagFact _ _

theorem resolved_write {w : Write} {rest : List Write}
    (hrun : (run.write services x w rest db).2 = some run') : run'.resolved = run.resolved := by
  cases w with
  | fact index fact =>
      simp only [IngestRun.write] at hrun
      split at hrun
      · cases hrun
        rfl
      · split at hrun
        · cases hrun
        · split at hrun <;> cases hrun <;> rfl
  | edge i j kind =>
      simp only [IngestRun.write] at hrun
      split at hrun
      · split at hrun <;> cases hrun <;> rfl
      · cases hrun
        rfl
  | guard =>
      simp only [IngestRun.write] at hrun
      split at hrun
      · split at hrun <;> cases hrun
        rfl
      · cases hrun
  | relate kind weight =>
      simp only [IngestRun.write] at hrun
      split at hrun <;> cases hrun
      rfl
  | merge =>
      simp only [IngestRun.write] at hrun
      split at hrun <;> cases hrun
      rfl

theorem resolved_fail (hrun : run.fail = some run') : run'.resolved = run.resolved := by
  unfold IngestRun.fail at hrun
  split at hrun
  · cases hrun
    rfl
  · cases hrun

/-- **What a call holds after a statement** it held before, or has found, or created. -/
theorem IngestRun.holds_next {e : EntityId} (hrun : (run.next services x db).2 = some run')
    (he : run'.Holds e) :
    run.Holds e ∨ run.Finds services x db e ∨
      e = db.entities.next ∧ (run.next services x db).1.HasEntity e := by
  have hresolve : ∀ (e' : EntityId) (rest : List Lookup), (run.resolve e' rest).Holds e →
      run.Holds e ∨ e = e' := by
    intro e' rest h
    rcases List.mem_append.mp h with h | h
    · exact Or.inl h
    · exact Or.inr (List.mem_singleton.mp h)
  cases hstage : run.stage with
  | ready attempt =>
      simp only [IngestRun.next, hstage] at hrun
      split at hrun
      · next lookup rest hlookups =>
          split at hrun
          · next e' hfind =>
              cases hrun
              rcases hresolve e' rest he with h | rfl
              · exact Or.inl h
              · exact Or.inr (Or.inl ⟨attempt, lookup, rest, hstage, hlookups, hfind⟩)
          · cases hrun
            exact Or.inl he
      · split at hrun
        · cases hrun
        · rw [IngestRun.Holds, resolved_write hrun] at he
          exact Or.inl he
  | creating attempt =>
      simp only [IngestRun.next, hstage] at hrun ⊢
      split at hrun
      · next refKey content rest hlookups =>
          split at hrun
          · next hfree =>
              cases hrun
              refine (hresolve _ rest he).imp_right (fun heq => Or.inr ⟨heq, ?_⟩)
              exact hasEntity_createEntity.mpr (Or.inr heq)
          · split at hrun <;> cases hrun
            exact Or.inl he
      · next content rest hlookups =>
          cases hrun
          refine (hresolve _ rest he).imp_right (fun heq => Or.inr ⟨heq, ?_⟩)
          exact hasEntity_createEntity.mpr (Or.inr heq)
      · cases hrun
  | guarding cursor hops =>
      simp only [IngestRun.next, hstage] at hrun
      split at hrun
      · cases hrun
        exact Or.inl he
      · cases hrun
        exact Or.inl he
      · split at hrun <;> cases hrun
        exact Or.inl he
  | tagging factId lang =>
      simp only [IngestRun.next, hstage] at hrun
      cases hrun
      exact Or.inl he

end Calls

end Brain
