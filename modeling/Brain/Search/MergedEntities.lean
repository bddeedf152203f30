/-
Searches over merged entities.

A search is right about merges if every row that it retrieves ends up with the entity
that its owner finally resolves to, and no hit is of a merged entity
(`SearchesSurvivors`). Two things of the store stand against it. Re-attribution goes
one hop, so a fact whose owner was merged into an entity that has been merged itself
stops half way. And the walk over the edges brings neighbours in as they are, so an
entity that was merged away comes back next to its survivor, along the very edge that
merged it. `MergesShallow` says that the store has neither, and then every search is
right. Conversely, searches that are right leave no chain, and no merged entity among
those that the walk from one fact reaches; the two differ only where the facts of some
entity's neighbours are more than the neighbour query returns
(`searchesSurvivors_iff`).
-/
import Brain.Search.Probe

set_option autoImplicit false

namespace Brain

open Forest

/-- The fact `i` is with the entity `e` that its owner finally resolves to. -/
def WithSurvivor (s : Store) (e : EntityId) (i : FactId) : Prop :=
  ∃ f, s.facts.get? i = some f ∧ Root s.mergedInto f.entityId e

/-- A search is right about merges. -/
structure SearchesSurvivors (env : SearchEnv) (db : SearchDb) (dto : SearchRequest)
    (scopes : List BrainScope) : Prop where
  /-- What was retrieved, after re-attribution and the scope filter. -/
  rows : ∀ row ∈ visibleRows env db dto.clamped scopes, WithSurvivor db.store row.entityId row.id
  unmerged : ∀ hit ∈ search env db dto scopes, db.store.mergedInto hit.entityId = none
  facts : ∀ hit ∈ search env db dto scopes, ∀ f ∈ hit.facts,
    WithSurvivor db.store hit.entityId f.factId

/-- No entity with facts was merged into one that was merged itself, and no edge leads
from an entity that facts are attributed to, to another one that was merged and still
owns facts. -/
structure MergesShallow (db : SearchDb) : Prop where
  chains : ∀ i f m, db.store.facts.get? i = some f → db.store.mergedInto f.entityId = some m →
    db.store.mergedInto m = none
  edges : ∀ a b i f j g, (∃ p ∈ peerEdges db a, p.peer = some b) → db.store.HasEntity a → b ≠ a →
    db.store.facts.get? i = some f → db.store.attributedTo f.entityId = a →
    db.store.facts.get? j = some g → g.entityId = b → db.store.mergedInto b = none

/-! ## A store with shallow merges is searched right -/

section Sufficient

variable {db : SearchDb} {i : FactId} {f : KnowledgeFact}

/-- Without chains, one hop is all the way. -/
theorem MergesShallow.root (h : MergesShallow db) (hf : db.store.facts.get? i = some f) :
    Root db.store.mergedInto f.entityId (db.store.attributedTo f.entityId) := by
  cases hm : db.store.mergedInto f.entityId with
  | none =>
      rw [Store.attributedTo, hm]
      exact root_self hm
  | some m =>
      rw [Store.attributedTo, hm]
      exact (root_self (h.chains i f m hf hm)).of_leads (leads_of_up hm)

theorem MergesShallow.searchesSurvivors (h : MergesShallow db) (hp : PointersExist db.store)
    (env : SearchEnv) (dto : SearchRequest) (scopes : List BrainScope) :
    SearchesSurvivors env db dto scopes := by
  have hrows : ∀ row ∈ visibleRows env db dto.clamped scopes,
      WithSurvivor db.store row.entityId row.id := by
    intro row hrow
    obtain ⟨f, hf, _, hid⟩ := mem_visibleRows hp hrow
    exact ⟨f, hf, hid ▸ h.root hf⟩
  -- an entity with a bucket was not merged, and some fact is attributed to it
  have hits : ∀ hit ∈ search env db dto scopes, HitAttributed
      (fun e => db.store.mergedInto e = none ∧
        ∃ i f, db.store.facts.get? i = some f ∧ db.store.attributedTo f.entityId = e)
      (fun e i _ => WithSurvivor db.store e i) hit := by
    refine search_attributed (fun _ h => h) ?_ ?_ ?_
    · intro row hrow
      obtain ⟨f, hf, _, hid⟩ := mem_visibleRows hp hrow
      exact ⟨⟨hid ▸ (h.root hf).2, row.id, f, hf, hid.symm⟩, hrows row hrow⟩
    · rintro _ e n ⟨_, i, g, hg, hge⟩ hthere hne hpeer j f hf howner _ _
      have hn := h.edges e n i g j f hpeer hthere hne hg hge hf howner
      refine ⟨⟨hn, j, f, hf, ?_⟩, f, hf, ?_⟩
      · rw [Store.attributedTo, howner, hn, Option.getD_none]
      · rw [howner]
        exact root_self hn
    · rintro e ⟨he, _⟩ i f hf howner _ _
      refine ⟨f, hf, ?_⟩
      rw [howner]
      exact root_self he
  exact ⟨hrows, fun hit hhit => (hits hit hhit).1.1, fun hit hhit => (hits hit hhit).2⟩

end Sufficient

/-- No entity with facts was merged into one that was merged itself, and, for every
bound on the walk, no merged entity owns one of the rows that the walk from a fact
reads. -/
structure MergesShallowInReach (db : SearchDb) : Prop where
  chains : ∀ i f m, db.store.facts.get? i = some f → db.store.mergedInto f.entityId = some m →
    db.store.mergedInto m = none
  edges : ∀ config i f, db.store.facts.get? i = some f →
    db.store.HasEntity (db.store.attributedTo f.entityId) →
    ∀ row ∈ neighbourFactRows db (fun _ => []) (reachedFrom config db
      (db.store.attributedTo f.entityId)), db.store.mergedInto row.entityId = none

/-- The facts of the neighbours of any entity fit one neighbour query. -/
def NeighboursFit (db : SearchDb) : Prop :=
  ∀ a, ∃ config, WalkFits config db a

/-! ## A store that every search is right about is shallow -/

section Necessary

variable {db : SearchDb} {i : FactId} {f : KnowledgeFact}

/-- The search for one fact of a chain stops half way. -/
theorem chains_of_searchesSurvivors (hp : PointersExist db.store)
    (h : ∀ env dto scopes, SearchesSurvivors env db dto scopes)
    (hf : db.store.facts.get? i = some f) {m : EntityId}
    (hm : db.store.mergedInto f.entityId = some m) : db.store.mergedInto m = none := by
  have hids : [f.entityId] ≠ [] := List.cons_ne_nil _ _
  obtain ⟨y, hy, hid, _, _, _, hent⟩ := visibleRows_probe f.recordedAt {} 0 hf hids
    List.mem_cons_self (scopeAllows_allScopes f.predicate)
  obtain ⟨f', hf', hroot⟩ := (h (probeEnv f.recordedAt i {} 0) (probeRequest [f.entityId])
    allScopes).rows y (hy ▸ List.mem_cons_self)
  rw [hent, seatOf_eq_attributedTo hp, Store.attributedTo, hm, Option.getD_some] at hroot
  exact hroot.2

/-- **Searches that are right reach no merged entity.** -/
theorem mergesShallowInReach_of_searchesSurvivors (hp : PointersExist db.store)
    (h : ∀ env dto scopes, SearchesSurvivors env db dto scopes) : MergesShallowInReach db := by
  refine ⟨fun i f m hf hm => chains_of_searchesSurvivors hp h hf hm, ?_⟩
  intro config i f hf hthere row hrow
  rw [← seatOf_eq_attributedTo hp] at hthere hrow
  obtain ⟨k, hit, hhit, hid⟩ := exists_hit_probe hf (List.cons_ne_nil f.entityId [])
    List.mem_cons_self hthere hrow
  rw [← hid]
  exact (h _ _ _).unmerged hit hhit

/-- Where nothing is cut off, what is out of reach is not there. -/
theorem MergesShallowInReach.mergesShallow (h : MergesShallowInReach db) (hfit : NeighboursFit db) :
    MergesShallow db := by
  refine ⟨h.chains, ?_⟩
  intro a b i f j g hpeer hthere hne hf hfa hg hgb
  obtain ⟨config, hconfig⟩ := hfit a
  subst hgb
  obtain ⟨row, hrow, hid⟩ := exists_row_of_fits hconfig hg hpeer hne
  rw [← hid]
  exact h.edges config i f hf (hfa ▸ hthere) row (hfa ▸ hrow)

end Necessary

/-! ## The condition -/

/-- **When search is right about merges.** Every search of a database whose pointers
lead to entities that exist returns survivors only, with the facts that their merged
entities own, if its merges are shallow, and only if they are shallow in reach of the
walk over the edges. Where the facts of neighbours fit a query, these are one
condition. -/
theorem searchesSurvivors_iff (db : SearchDb) (hp : PointersExist db.store) :
    (MergesShallow db → ∀ env dto scopes, SearchesSurvivors env db dto scopes) ∧
    ((∀ env dto scopes, SearchesSurvivors env db dto scopes) → MergesShallowInReach db) ∧
    (NeighboursFit db → (MergesShallowInReach db ↔ MergesShallow db)) := by
  refine ⟨fun h env dto scopes => h.searchesSurvivors hp env dto scopes,
    mergesShallowInReach_of_searchesSurvivors hp, fun hfit => ⟨fun h => h.mergesShallow hfit, ?_⟩⟩
  intro h
  exact mergesShallowInReach_of_searchesSurvivors hp
    (fun env dto scopes => h.searchesSurvivors hp env dto scopes)

/-- A status of the entity `e`, for the example. -/
def statusOf (e : EntityId) : ResolveCall where
  env := { now := 0, sourceTrust := [] }
  args := resolveParams .fallback .bitemporal e "status" "churned" [1] 1 0 none
    { vertical := some "rent" }

/-- Two entities with a status each, of which the second is merged into the first. -/
def mergedPair : SearchDb :=
  let store := ingestAll .atRecording (tenantOf 2).toStore [statusOf 0, statusOf 1]
  let g := afterLink { toStore := store } (mergeCall 0 1)
  { store := g.toStore, edges := g.edges }

theorem mergedInto_mergedPair {a b : EntityId} (h : mergedPair.store.mergedInto a = some b) :
    a = 1 ∧ b = 0 := by
  have hlt : a < 2 := by
    obtain ⟨r, hr⟩ := Option.isSome_iff_exists.mp (hasEntity_of_mergedInto h)
    have hnext : mergedPair.store.entities.next = 2 := by decide +kernel
    exact hnext ▸ KeyedTable.get?_lt_next hr
  have h0 : mergedPair.store.mergedInto 0 = none := by decide +kernel
  have h1 : mergedPair.store.mergedInto 1 = some 0 := by decide +kernel
  rcases Nat.le_one_iff_eq_zero_or_eq_one.mp (Nat.lt_succ_iff.mp hlt) with rfl | rfl
  · rw [h0] at h
    cases h
  · rw [h1] at h
    exact ⟨rfl, (Option.some.inj h).symm⟩

theorem pointersExist_mergedPair : PointersExist mergedPair.store := by
  intro a b h
  rw [(mergedInto_mergedPair h).2]
  decide +kernel

/-- The theorem above for the two. -/
theorem searchesSurvivors_iff_pair :
    (MergesShallow mergedPair → ∀ env dto scopes, SearchesSurvivors env mergedPair dto scopes) ∧
    ((∀ env dto scopes, SearchesSurvivors env mergedPair dto scopes) →
      MergesShallowInReach mergedPair) ∧
    (NeighboursFit mergedPair → (MergesShallowInReach mergedPair ↔ MergesShallow mergedPair)) :=
  searchesSurvivors_iff mergedPair pointersExist_mergedPair

/-- A search over the two returns the second as a hit of its own, next to its
survivor: the edge of the merge leads to it. -/
theorem merged_entity_is_hit :
    ¬ ∀ (env : SearchEnv) (db : SearchDb) (dto : SearchRequest) (scopes : List BrainScope),
      Grounded db.store.mergedInto → PointersExist db.store →
        SearchesSurvivors env db dto scopes := by
  intro h
  have hground : Grounded mergedPair.store.mergedInto := by
    intro e
    cases hm : mergedPair.store.mergedInto e with
    | none => exact ⟨e, root_self hm⟩
    | some b =>
        have hb : mergedPair.store.mergedInto b = none := by
          rw [(mergedInto_mergedPair hm).2]
          decide +kernel
        exact ⟨b, (root_self hb).of_leads (leads_of_up hm)⟩
  have hall := (h (probeEnv 0 0 {} 1) mergedPair (probeRequest [0, 1]) [] hground
    pointersExist_mergedPair).unmerged
  have hids : (search (probeEnv 0 0 {} 1) mergedPair (probeRequest [0, 1]) []).map
      (fun hit => hit.entityId) = [1, 0] := by decide +kernel
  obtain ⟨hit, hhit, hid⟩ : ∃ hit ∈ search (probeEnv 0 0 {} 1) mergedPair (probeRequest [0, 1]) [],
      hit.entityId = 1 := by
    rw [← List.mem_map, hids]
    exact List.mem_cons_self
  have hnone := hall hit hhit
  rw [hid] at hnone
  revert hnone
  decide +kernel

end Brain
