/-
Anchored searches: what `entityIds` of a request confines, and what it does not.

`buildBaseWhere` turns the anchor into a clause on `$entityIds`, and the two legs keep
to it. The neighbour query of the walk over the edges takes over the clause, but binds
`$entityIds` to the neighbours themselves, so there the clause admits everything the
query asks for. A search stays in its anchor set if no edge leads from an entity with
retrieved facts to an entity outside that owns facts (`NoWayOut`); where some edge
does, and the walk gets to it, a search leaves the set.
-/
import Brain.Search.MergedEntities

set_option autoImplicit false

namespace Brain

/-- `e` is an entity of the anchor, or the one that an entity of it was merged into. -/
def Store.Anchored (s : Store) (anchor : List EntityId) (e : EntityId) : Prop :=
  e ∈ anchor ∨ ∃ a ∈ anchor, s.mergedInto a = some e

/-- All hits are in the anchor set of the request. -/
def StaysInAnchor (env : SearchEnv) (db : SearchDb) (dto : SearchRequest)
    (scopes : List BrainScope) : Prop :=
  ∀ hit ∈ search env db dto scopes, db.store.Anchored dto.entityIds hit.entityId

/-- The walk over the edges is on, with these bounds. -/
def SearchEnv.ExpandsWith (env : SearchEnv) (config : ExpansionConfig) : Prop :=
  env.edgeExpansionEnabled = true ∧ env.expansion = config

/-- No edge leads out of the anchor: from an entity that a fact of the anchor is
attributed to, to another one that is not in the anchor set and owns a fact. -/
def NoWayOut (db : SearchDb) (anchor : List EntityId) : Prop :=
  ∀ i f, db.store.facts.get? i = some f → f.entityId ∈ anchor →
    db.store.HasEntity (db.store.seatOf f.entityId) →
    ∀ j g, db.store.facts.get? j = some g → g.entityId ≠ db.store.seatOf f.entityId →
      (∃ p ∈ peerEdges db (db.store.seatOf f.entityId), p.peer = some g.entityId) →
      db.store.Anchored anchor g.entityId

/-- The same for the rows that the walk from a single fact reads within its bounds. -/
def NoWayOutInReach (config : ExpansionConfig) (db : SearchDb) (anchor : List EntityId) : Prop :=
  ∀ i f, db.store.facts.get? i = some f → f.entityId ∈ anchor →
    db.store.HasEntity (db.store.seatOf f.entityId) →
    ∀ row ∈ neighbourFactRows db (fun _ => []) (reachedFrom config db (db.store.seatOf f.entityId)),
      db.store.Anchored anchor row.entityId

section Anchored

variable {db : SearchDb} {env : SearchEnv} {dto : SearchRequest} {scopes : List BrainScope}
  {config : ExpansionConfig}
  {anchor : List EntityId}

/-- The clause of an anchored request. -/
theorem mem_entityIds_of_admits {langFilter : Option String} {f : KnowledgeFact}
    (hne : dto.entityIds ≠ []) (h : admits (requestWhere env dto langFilter) f = true) :
    f.entityId ∈ dto.entityIds := by
  have hsome : dto.entityIds.isEmpty = false := by simpa using hne
  unfold admits requestWhere buildBaseWhere at h
  simp only [List.all_append, Bool.and_eq_true] at h
  have hclause := h.1.1.2
  rw [hsome, if_neg Bool.false_ne_true, List.all_cons, Bool.and_eq_true] at hclause
  exact List.contains_iff_mem.mp hclause.1

/-- A fact of the anchor is attributed to an entity of the anchor set. -/
theorem anchored_seatOf {e : EntityId} (he : e ∈ anchor) :
    db.store.Anchored anchor (db.store.seatOf e) := by
  rcases seatOf_cases db.store e with h | h
  · exact Or.inl (h.symm ▸ he)
  · exact Or.inr ⟨e, he, h⟩

/-- **Without a way out a search stays in its anchor set.** -/
theorem NoWayOut.staysInAnchor (hne : dto.entityIds ≠ [])
    (h : env.edgeExpansionEnabled = true → NoWayOut db dto.entityIds) :
    StaysInAnchor env db dto scopes := by
  have hits : ∀ hit ∈ search env db dto scopes, HitAttributed
      (db.store.Anchored dto.entityIds) (fun _ _ _ => True) hit := by
    -- what is retrieved is attributed to the entity of a fact of the anchor
    have hseats : ∀ e, (∃ i f, db.store.facts.get? i = some f ∧ f.entityId ∈ dto.entityIds ∧
        e = db.store.seatOf f.entityId) → db.store.Anchored dto.entityIds e := by
      rintro e ⟨i, f, _, hmem, rfl⟩
      exact anchored_seatOf hmem
    refine search_attributed hseats ?_ ?_ ?_
    · intro row hrow
      obtain ⟨f, hf, _, hseat, hadmit⟩ := seatOf_visibleRows hrow
      have hmem : f.entityId ∈ dto.clamped.entityIds := mem_entityIds_of_admits hne hadmit
      exact ⟨⟨row.id, f, hf, hmem, hseat⟩, trivial⟩
    · rintro hon e n ⟨i, f, hf, hmem, rfl⟩ hthere hself hpeer j g hg rfl _ _
      exact ⟨h hon i f hf hmem hthere j g hg hself hpeer, trivial⟩
    · exact fun _ _ _ _ _ _ _ _ => trivial
  exact fun hit hhit => (hits hit hhit).1

/-- **Searches that stay in the anchor set leave no way out in reach.** -/
theorem noWayOutInReach_of_staysInAnchor (hne : anchor ≠ [])
    (h : ∀ env dto scopes, env.ExpandsWith config → dto.entityIds = anchor →
      StaysInAnchor env db dto scopes) : NoWayOutInReach config db anchor := by
  intro i f hf hmem hthere row hrow
  obtain ⟨k, hit, hhit, hid⟩ := exists_hit_probe hf hne hmem hthere hrow
  rw [← hid]
  exact h _ (probeRequest anchor) allScopes ⟨rfl, rfl⟩ rfl hit hhit

/-- Where nothing is cut off, what is out of reach is not there. -/
theorem NoWayOutInReach.noWayOut (h : NoWayOutInReach config db anchor)
    (hfits : ∀ e ∈ anchor, WalkFits config db (db.store.seatOf e)) : NoWayOut db anchor := by
  intro i f hf hmem hthere j g hg hself hpeer
  obtain ⟨row, hrow, hid⟩ := exists_row_of_fits (hfits f.entityId hmem) hg hpeer hself
  rw [← hid]
  exact h i f hf hmem hthere row hrow

end Anchored

/-- **When anchored searches stay in their anchor set.** If no edge leads out, or the
walk is off, every search with this anchor does. With a walk of given bounds, all of them
do only if it reads no row from outside, starting from any fact of the anchor. Where the
edges and facts at each of these entities fit its bounds, that is the same condition. -/
theorem staysInAnchor_iff (config : ExpansionConfig) (db : SearchDb) (anchor : List EntityId)
    (hne : anchor ≠ []) :
    (∀ env dto scopes, dto.entityIds = anchor →
      (env.edgeExpansionEnabled = true → NoWayOut db anchor) → StaysInAnchor env db dto scopes) ∧
    ((∀ env dto scopes, env.ExpandsWith config → dto.entityIds = anchor →
      StaysInAnchor env db dto scopes) → NoWayOutInReach config db anchor) ∧
    ((∀ e ∈ anchor, WalkFits config db (db.store.seatOf e)) →
      (NoWayOutInReach config db anchor ↔ NoWayOut db anchor)) := by
  have henough : ∀ env dto scopes, dto.entityIds = anchor →
      (env.edgeExpansionEnabled = true → NoWayOut db anchor) →
        StaysInAnchor env db dto scopes := by
    rintro env dto scopes rfl h
    exact NoWayOut.staysInAnchor hne h
  refine ⟨henough, noWayOutInReach_of_staysInAnchor hne, fun hfits => ⟨fun h => h.noWayOut hfits, ?_⟩⟩
  intro h
  exact noWayOutInReach_of_staysInAnchor hne
    (fun env dto scopes _ hdto => henough env dto scopes hdto (fun _ => h))

/-- Two entities with a status each, of which the first works for the second. -/
def linkedPair : SearchDb :=
  let store := ingestAll .atRecording (tenantOf 2).toStore [statusOf 0, statusOf 1]
  let g := afterLink { toStore := store }
    { now := 0, dto := { from_ := .entity 0, to_ := .entity 1, kind := "works_for" } }
  { store := g.toStore, edges := g.edges }

/-- The theorem above for the first of them. -/
theorem staysInAnchor_iff_linkedPair :
    (∀ env dto scopes, dto.entityIds = [0] →
      (env.edgeExpansionEnabled = true → NoWayOut linkedPair [0]) →
        StaysInAnchor env linkedPair dto scopes) ∧
    ((∀ env dto scopes, env.ExpandsWith {} → dto.entityIds = [0] →
      StaysInAnchor env linkedPair dto scopes) → NoWayOutInReach {} linkedPair [0]) ∧
    ((∀ e ∈ [0], WalkFits {} linkedPair (linkedPair.store.seatOf e)) →
      (NoWayOutInReach {} linkedPair [0] ↔ NoWayOut linkedPair [0])) :=
  staysInAnchor_iff {} linkedPair [0] (by decide)

/-- A search anchored to the first returns the second as well. -/
theorem linkedPair_leaves_anchor :
    ¬ ∀ (env : SearchEnv) (db : SearchDb) (dto : SearchRequest) (scopes : List BrainScope),
      env.ExpandsWith {} → dto.entityIds ≠ [] → StaysInAnchor env db dto scopes := by
  intro h
  let env : SearchEnv := { probeEnv 0 0 {} 0 with crossEncoder := none }
  have hall := h env linkedPair (probeRequest [0]) [] ⟨rfl, rfl⟩ (by decide)
  have hids : (search env linkedPair (probeRequest [0]) []).map (fun hit => hit.entityId)
      = [0, 1] := by decide +kernel
  obtain ⟨hit, hhit, hid⟩ : ∃ hit ∈ search env linkedPair (probeRequest [0]) [],
      hit.entityId = 1 := by
    rw [← List.mem_map, hids]
    exact List.mem_cons_of_mem 0 List.mem_cons_self
  rcases hall hit hhit with hmem | ⟨a, ha, hmerged⟩
  · rw [hid] at hmem
    revert hmem
    decide
  · rw [List.mem_singleton.mp ha] at hmerged
    have hnone : linkedPair.store.mergedInto 0 = none := by decide +kernel
    rw [hnone] at hmerged
    cases hmerged

end Brain
