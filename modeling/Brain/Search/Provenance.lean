/-
Where the facts of a hit come from.

The stages of the pipeline move rows about and never make one up: a fact of a hit
was retrieved by a leg, or belongs to a neighbour that the walk over the edges
brought in, or was backfilled. So a property `K` of entities and a property `R` of
an entity and its facts hold of all hits if they hold of what these three read
(`search_attributed`).
-/
import Brain.Search.SearchService

set_option autoImplicit false

namespace Brain

/-! ## The rows that are retrieved -/

/-- The row is that of the stored fact `f`, with its entity inlined. -/
structure RowOf (s : Store) (f : KnowledgeFact) (row : FactRow) : Prop where
  stored : s.facts.get? row.id = some f
  entityId : row.entityId = f.entityId
  predicate : row.predicate = f.predicate
  object : row.object = f.object
  entity : row.entity = rowEntity s f.entityId

section Retrieved

variable {s : Store} {db : SearchDb} {env : SearchEnv} {dto : SearchRequest}
  {scopes : List BrainScope} {f : KnowledgeFact} {row : FusedRow} {P : KnowledgeFact → Prop}

/-- Every row is that of a stored fact with the property. -/
def AllStored (s : Store) (P : KnowledgeFact → Prop) (rows : List FactRow) : Prop :=
  ∀ row ∈ rows, ∃ f, RowOf s f row ∧ P f

theorem rowOf_factRowWithEntity {i : FactId} (h : s.facts.get? i = some f) :
    RowOf s f (factRowWithEntity s (i, f)) := ⟨h, rfl, rfl, rfl, rfl⟩

theorem allStored_legRows (score : FactId × KnowledgeFact → Option ℚ) (k : ℕ)
    (baseWhere : List WhereClause) :
    ∀ r ∈ legRows s score k baseWhere, ∃ f, RowOf s f r.1 ∧ admits baseWhere f = true := by
  intro r hr
  have hmem := List.mem_of_mem_take hr
  rw [List.mem_insertionSort, List.mem_filterMap] at hmem
  obtain ⟨⟨i, f⟩, hq, hhit⟩ := hmem
  unfold scoredHit at hhit
  split at hhit
  · next hadmit =>
      obtain ⟨x, _, rfl⟩ := Option.map_eq_some_iff.mp hhit
      exact ⟨f, rowOf_factRowWithEntity (KeyedTable.mem_rows_iff.mp hq), hadmit⟩
  · cases hhit

theorem allStored_runVectorLeg (engine : SearchEngine) (embed : String → List ℚ) (query : String)
    (k : ℕ) (baseWhere : List WhereClause) :
    AllStored db.store (fun f => admits baseWhere f = true)
      (runVectorLeg engine embed db query k baseWhere) := by
  intro row hrow
  obtain ⟨r, hr, rfl⟩ := List.mem_map.mp hrow
  obtain ⟨f, hf, hadmit⟩ := allStored_legRows _ _ _ r hr
  exact ⟨f, ⟨hf.stored, hf.entityId, hf.predicate, hf.object, hf.entity⟩, hadmit⟩

theorem allStored_runLexicalLeg (engine : SearchEngine) (query : String) (k : ℕ)
    (baseWhere : List WhereClause) :
    AllStored db.store (fun f => admits baseWhere f = true)
      (runLexicalLeg engine scopes db query k baseWhere) := by
  intro row hrow
  obtain ⟨r, hr, rfl⟩ := List.mem_map.mp hrow
  obtain ⟨f, hf, hadmit⟩ := allStored_legRows _ _ _ r hr
  exact ⟨f, ⟨hf.stored, hf.entityId, hf.predicate, hf.object, hf.entity⟩, hadmit⟩

/-- Labels and scores are all that the fusion changes in a row. -/
theorem RowOf.addStage (h : RowOf s f row.toFactRow) (stage : RetrievalStage) :
    RowOf s f (addStage row stage).toFactRow := by
  unfold Brain.addStage
  split
  · exact h
  · exact ⟨h.stored, h.entityId, h.predicate, h.object, h.entity⟩

theorem RowOf.vecRow {r : FactRow} (h : RowOf s f r) (weight : ℚ) :
    RowOf s f (vecRow weight r).toFactRow := by
  have hrow : RowOf s f
      ({ r with fusedScore := weight * normalizeVec (r.simScore.getD 0) } : FusedRow).toFactRow :=
    ⟨h.stored, h.entityId, h.predicate, h.object, h.entity⟩
  exact hrow.addStage .hype

theorem RowOf.lexRow {r : FactRow} (h : RowOf s f r) (weight : ℚ) :
    RowOf s f (lexRow weight r).toFactRow := by
  have hrow : RowOf s f
      ({ r with fusedScore := weight * normalizeLex (r.bm25Score.getD 0) } : FusedRow).toFactRow :=
    ⟨h.stored, h.entityId, h.predicate, h.object, h.entity⟩
  exact hrow.addStage .lexical

theorem RowOf.bothRow (h : RowOf s f row.toFactRow) (weight : ℚ) (r : FactRow) :
    RowOf s f (bothRow weight row r).toFactRow := by
  have hrow : RowOf s f ({ row with
      fusedScore := row.fusedScore + weight * normalizeLex (r.bm25Score.getD 0)
      bm25Score := r.bm25Score } : FusedRow).toFactRow :=
    ⟨h.stored, h.entityId, h.predicate, h.object, h.entity⟩
  exact hrow.addStage .lexical

/-- The rows of a map under their identifiers. -/
def AllStoredIn (s : Store) (P : KnowledgeFact → Prop) (m : InsertionMap FactId FusedRow) : Prop :=
  ∀ p ∈ m.entries, ∃ f, RowOf s f p.2.toFactRow ∧ P f

theorem AllStoredIn.set {m : InsertionMap FactId FusedRow} (h : AllStoredIn s P m)
    (hrow : RowOf s f row.toFactRow) (hP : P f) (k : FactId) : AllStoredIn s P (m.set k row) := by
  intro p hp
  rcases InsertionMap.mem_entries_set hp with rfl | hp
  · exact ⟨f, hrow, hP⟩
  · exact h p hp

/-- Setting the rows of one leg. -/
theorem allStoredIn_setAll {toFused : FactRow → FusedRow}
    (hto : ∀ f r, RowOf s f r → RowOf s f (toFused r).toFactRow) {rows : List FactRow}
    (h : AllStored s P rows) :
    AllStoredIn s P (rows.foldl (fun merged r => merged.set r.id (toFused r)) .empty) := by
  have hfold : ∀ m : InsertionMap FactId FusedRow, AllStoredIn s P m →
      AllStoredIn s P (rows.foldl (fun merged r => merged.set r.id (toFused r)) m) := by
    induction rows with
    | nil => exact fun m hm => hm
    | cons r rows ih =>
        intro m hm
        obtain ⟨f, hf, hP⟩ := h r List.mem_cons_self
        exact ih (fun r hr => h r (List.mem_cons_of_mem _ hr)) _ (hm.set (hto f r hf) hP r.id)
  exact hfold .empty (fun p hp => absurd hp List.not_mem_nil)

theorem allStoredIn_mergeLexical (weight : ℚ) {rows : List FactRow} (h : AllStored s P rows) :
    ∀ m : InsertionMap FactId FusedRow, AllStoredIn s P m →
      AllStoredIn s P (rows.foldl (mergeLexical weight) m) := by
  induction rows with
  | nil => exact fun m hm => hm
  | cons r rows ih =>
      intro m hm
      refine ih (fun r hr => h r (List.mem_cons_of_mem _ hr)) _ ?_
      unfold mergeLexical
      split
      · next prior hprior =>
          obtain ⟨f, hf, hP⟩ := hm _ (InsertionMap.mem_of_get? hprior)
          exact hm.set (hf.bothRow weight r) hP r.id
      · obtain ⟨f, hf, hP⟩ := h r List.mem_cons_self
        exact hm.set (hf.lexRow weight) hP r.id

theorem allStored_values {m : InsertionMap FactId FusedRow} (h : AllStoredIn s P m) :
    ∀ row ∈ m.values, ∃ f, RowOf s f row.toFactRow ∧ P f := by
  intro row hrow
  obtain ⟨p, hp, rfl⟩ := List.mem_map.mp hrow
  exact h p hp

theorem allStored_fuse {vectorRows lexicalRows : List FactRow} (hvec : AllStored s P vectorRows)
    (hlex : AllStored s P lexicalRows) (mode : SearchMode) :
    ∀ row ∈ fuse vectorRows lexicalRows mode, ∃ f, RowOf s f row.toFactRow ∧ P f := by
  cases mode with
  | vector => exact allStored_values (allStoredIn_setAll (fun _ _ h => h.vecRow 1) hvec)
  | lexical => exact allStored_values (allStoredIn_setAll (fun _ _ h => h.lexRow 1) hlex)
  | hybrid =>
      exact allStored_values (allStoredIn_mergeLexical _ hlex _
        (allStoredIn_setAll (fun _ _ h => h.vecRow _) hvec))

theorem allStored_runRetrievalStage (env : SearchEnv) (db : SearchDb) (dto : SearchRequest)
    (scopes : List BrainScope) (baseWhere : List WhereClause) :
    ∀ row ∈ runRetrievalStage env db dto scopes baseWhere,
      ∃ f, RowOf db.store f row.toFactRow ∧ admits baseWhere f = true := by
  unfold runRetrievalStage
  apply allStored_fuse
  · split
    · exact fun row hrow => absurd hrow List.not_mem_nil
    · exact allStored_runVectorLeg _ _ _ _ _
  · split
    · exact fun row hrow => absurd hrow List.not_mem_nil
    · exact allStored_runLexicalLeg _ _ _ _

/-- **Retrieval returns rows of stored facts that pass the WHERE**, the cross-lingual
backoff included. -/
theorem admitted_retrieve (env : SearchEnv) (db : SearchDb) (dto : SearchRequest)
    (scopes : List BrainScope) :
    ∀ row ∈ retrieve env db dto scopes, ∃ f, RowOf db.store f row.toFactRow ∧
      admits (requestWhere env dto none) f = true := by
  -- the backoff only adds rows of a second retrieval; by induction on them
  have hpush : ∀ (rows fused : List FusedRow), ∀ row ∈ rows.foldl pushUnseen fused,
      row ∈ fused ∨ row ∈ rows := by
    intro rows
    induction rows with
    | nil => exact fun fused row hrow => Or.inl hrow
    | cons r rows ih =>
        intro fused row hrow
        rcases ih (pushUnseen fused r) row hrow with hrow | hrow
        · unfold pushUnseen at hrow
          split at hrow
          · exact Or.inl hrow
          · rcases List.mem_append.mp hrow with hrow | hrow
            · exact Or.inl hrow
            · exact Or.inr (List.mem_singleton.mp hrow ▸ List.mem_cons_self)
        · exact Or.inr (List.mem_cons_of_mem r hrow)
  have hstage : ∀ langFilter, ∀ row ∈ runRetrievalStage env db dto scopes
      (requestWhere env dto langFilter), ∃ f, RowOf db.store f row.toFactRow ∧
        admits (requestWhere env dto none) f = true := by
    intro langFilter row hrow
    obtain ⟨f, hf, hadmit⟩ := allStored_runRetrievalStage env db dto scopes _ row hrow
    exact ⟨f, hf, admits_requestWhere_none hadmit⟩
  intro row hrow
  unfold retrieve at hrow
  dsimp only at hrow
  split at hrow
  · rcases hpush _ _ row hrow with hrow | hrow
    · exact hstage _ row hrow
    · exact hstage _ row hrow
  · exact hstage _ row hrow

theorem allStored_retrieve (env : SearchEnv) (db : SearchDb) (dto : SearchRequest)
    (scopes : List BrainScope) :
    ∀ row ∈ retrieve env db dto scopes, ∃ f, RowOf db.store f row.toFactRow := by
  intro row hrow
  obtain ⟨f, hf, _⟩ := admitted_retrieve env db dto scopes row hrow
  exact ⟨f, hf⟩

end Retrieved

/-! ## Buckets -/

/-- `K` holds of the entity of a bucket, and `R` of the entity with each of its facts,
given by their identifiers and predicates. -/
structure Attributed (K : EntityId → Prop) (R : EntityId → FactId → String → Prop)
    (b : EntityBucket) : Prop where
  entity : K b.entityId
  facts : ∀ sf ∈ b.facts, R b.entityId sf.row.id sf.row.predicate

/-- All buckets of a map are, and each stands under its own entity. -/
def AllAttributed (K : EntityId → Prop) (R : EntityId → FactId → String → Prop) (m : Buckets) :
    Prop :=
  ∀ p ∈ m.entries, p.2.entityId = p.1 ∧ Attributed K R p.2

section Pipeline

variable {K₀ K : EntityId → Prop} {R : EntityId → FactId → String → Prop} {db : SearchDb}
  {env : SearchEnv} {dto : SearchRequest} {scopes : List BrainScope}
  {baseWhere : List EntityId → List WhereClause} {m : Buckets}

theorem AllAttributed.set (h : AllAttributed K R m) {b : EntityBucket} (hb : Attributed K R b)
    {k : EntityId} (hk : b.entityId = k) : AllAttributed K R (m.set k b) := by
  intro p hp
  rcases InsertionMap.mem_entries_set hp with rfl | hp
  · exact ⟨hk, hb⟩
  · exact h p hp

theorem AllAttributed.imp (h : AllAttributed K₀ R m) (hK : ∀ e, K₀ e → K e) :
    AllAttributed K R m := by
  intro p hp
  obtain ⟨hkey, hatt⟩ := h p hp
  exact ⟨hkey, hK _ hatt.entity, hatt.facts⟩

/-- A stage that changes scores only. -/
theorem AllAttributed.mapValues (h : AllAttributed K R m) {g : EntityId → EntityBucket → EntityBucket}
    (hg : ∀ k b, (g k b).entityId = b.entityId ∧ (g k b).facts = b.facts) :
    AllAttributed K R (m.mapValues g) := by
  intro p hp
  obtain ⟨q, hq, rfl⟩ := List.mem_map.mp hp
  obtain ⟨hkey, hatt⟩ := h q hq
  obtain ⟨hid, hfacts⟩ := hg q.1 q.2
  refine ⟨by rw [hid, hkey], by rw [hid]; exact hatt.entity, ?_⟩
  rw [hid, hfacts]
  exact hatt.facts

theorem AllAttributed.values (h : AllAttributed K R m) {b : EntityBucket} (hb : b ∈ m.values) :
    Attributed K R b := by
  obtain ⟨p, hp, rfl⟩ := List.mem_map.mp hb
  exact (h p hp).2

/-- Bucketing. -/
theorem allAttributed_bucketByEntity {scored : List ScoredRow}
    (h : ∀ sf ∈ scored, K sf.row.entityId ∧ R sf.row.entityId sf.row.id sf.row.predicate) :
    AllAttributed K R (bucketByEntity scored) := by
  have hfold : ∀ m : Buckets, AllAttributed K R m →
      AllAttributed K R (scored.foldl addToBucket m) := by
    induction scored with
    | nil => exact fun m hm => hm
    | cons sf scored ih =>
        intro m hm
        refine ih (fun sf hsf => h sf (List.mem_cons_of_mem _ hsf)) _ ?_
        obtain ⟨hK, hR⟩ := h sf List.mem_cons_self
        -- the bucket of the entity so far, or a new one
        have hbucket : ∀ b, m.get? sf.row.entityId = some b →
            b.entityId = sf.row.entityId ∧ Attributed K R b :=
          fun b hb => hm _ (InsertionMap.mem_of_get? hb)
        unfold addToBucket
        dsimp only
        cases hget : m.get? sf.row.entityId with
        | none =>
            refine hm.set ?_ rfl
            refine ⟨hK, fun x hx => ?_⟩
            rw [List.mem_singleton.mp hx]
            exact hR
        | some b =>
            obtain ⟨hid, hatt⟩ := hbucket b hget
            refine hm.set ?_ hid
            refine ⟨hatt.entity, fun x hx => ?_⟩
            rcases List.mem_append.mp hx with hx | hx
            · exact hatt.facts x hx
            · rw [List.mem_singleton.mp hx]
              show R b.entityId sf.row.id sf.row.predicate
              rw [hid]
              exact hR
  refine (hfold .empty (fun p hp => absurd hp List.not_mem_nil)).mapValues ?_
  exact fun _ _ => ⟨rfl, rfl⟩

/-! ## The walk over the edges -/

/-- A row of the neighbour query is that of a stored fact of one of the entities. -/
theorem mem_neighbourFactRows {ids : List EntityId} {row : FactRow}
    (h : row ∈ neighbourFactRows db baseWhere ids) :
    ∃ f, RowOf db.store f row ∧ f.entityId ∈ ids ∧ admits (baseWhere ids) f = true := by
  obtain ⟨⟨i, f⟩, hq, rfl⟩ := List.mem_map.mp h
  obtain ⟨hrow, hcond⟩ := List.mem_filter.mp (List.mem_of_mem_take hq)
  rw [List.mem_insertionSort] at hrow
  rw [Bool.and_eq_true, List.contains_iff_mem] at hcond
  exact ⟨f, rowOf_factRowWithEntity (KeyedTable.mem_rows_iff.mp hrow), hcond.1, hcond.2⟩

/-- The rows under a neighbour are its own. -/
theorem mem_factsByNeighbour {rows : List FactRow} {n : EntityId} {l : List FactRow}
    (h : (factsByNeighbour rows).get? n = some l) : ∀ row ∈ l, row ∈ rows ∧ row.entityId = n := by
  let add (m : InsertionMap EntityId (List FactRow)) (row : FactRow) :
      InsertionMap EntityId (List FactRow) :=
    let list := (m.get? row.entityId).getD []
    m.set row.entityId (if list.length < 5 then list ++ [row] else list)
  have hfold : ∀ (rest : List FactRow) (m : InsertionMap EntityId (List FactRow)),
      (∀ r ∈ rest, r ∈ rows) →
      (∀ p ∈ m.entries, ∀ row ∈ p.2, row ∈ rows ∧ row.entityId = p.1) →
      ∀ p ∈ (rest.foldl add m).entries, ∀ row ∈ p.2, row ∈ rows ∧ row.entityId = p.1 := by
    intro rest
    induction rest with
    | nil => exact fun m _ hm => hm
    | cons r rest ih =>
        intro m hrest hm
        refine ih _ (fun r hr => hrest r (List.mem_cons_of_mem _ hr)) ?_
        -- the list of the neighbour so far, which may be empty
        have hold : ∀ row ∈ (m.get? r.entityId).getD [], row ∈ rows ∧ row.entityId = r.entityId := by
          cases hget : m.get? r.entityId with
          | none => exact fun row hrow => absurd hrow List.not_mem_nil
          | some l => exact hm _ (InsertionMap.mem_of_get? hget)
        intro p hp row hrow
        rcases InsertionMap.mem_entries_set hp with rfl | hp
        · dsimp only at hrow
          split at hrow
          · rcases List.mem_append.mp hrow with hrow | hrow
            · exact hold row hrow
            · rw [List.mem_singleton.mp hrow]
              exact ⟨hrest r List.mem_cons_self, rfl⟩
          · exact hold row hrow
        · exact hm p hp row hrow
  exact hfold rows .empty (fun _ hr => hr) (fun p hp => absurd hp List.not_mem_nil) (n, l)
    (InsertionMap.mem_of_get? h)

/-- An edge adds a tuple to a new peer, or nothing. -/
theorem considerEdge_cases (config : ExpansionConfig) (m : Buckets) (seedId : EntityId)
    (tuples : List EdgeTuple) (e : PeerEdge) :
    considerEdge config m seedId tuples e = tuples ∨
      ∃ n, e.peer = some n ∧ n ≠ seedId ∧ m.has n = false ∧
        considerEdge config m seedId tuples e
          = tuples ++ [⟨seedId, n, if 0 < e.weight then e.weight else 1⟩] := by
  unfold considerEdge
  cases e.peer with
  | none => exact Or.inl rfl
  | some n =>
      dsimp only
      split
      · exact Or.inl rfl
      · next hself =>
          split
          · exact Or.inl rfl
          · next hhas =>
              split
              · exact Or.inl rfl
              · split
                · exact Or.inl rfl
                · exact Or.inr ⟨n, rfl, hself, by simpa using hhas, rfl⟩

/-- A tuple was there before, or is of one of the edges. -/
theorem peer_of_mem_foldl {config : ExpansionConfig} {seed : EntityId} {t : EdgeTuple}
    (es : List PeerEdge) : ∀ tuples : List EdgeTuple,
    t ∈ es.foldl (considerEdge config m seed) tuples → t ∈ tuples ∨
      (∃ e ∈ es, e.peer = some t.neighbourId) ∧ t.neighbourId ≠ seed ∧
        m.has t.neighbourId = false := by
  induction es with
  | nil => exact fun tuples ht => Or.inl ht
  | cons e es ih =>
      intro tuples ht
      rcases ih _ ht with ht | ⟨⟨e', he', hpeer⟩, hrest⟩
      · rcases considerEdge_cases config m seed tuples e with heq | ⟨n, hpeer, hself, hhas, heq⟩
        · exact Or.inl (heq ▸ ht)
        · rw [heq] at ht
          rcases List.mem_append.mp ht with ht | ht
          · exact Or.inl ht
          · rw [List.mem_singleton.mp ht]
            exact Or.inr ⟨⟨e, List.mem_cons_self, hpeer⟩, hself, hhas⟩
      · exact Or.inr ⟨⟨e', List.mem_cons_of_mem e he', hpeer⟩, hrest⟩

/-- A tuple leads from a seed along one of its edges. -/
theorem mem_edgeTuples {config : ExpansionConfig} {seeds : List EntityBucket} {t : EdgeTuple}
    (h : t ∈ edgeTuples config db m seeds) :
    ∃ seed ∈ seeds, (db.store.entities.get? seed.entityId).isSome = true ∧
      (∃ e ∈ peerEdges db seed.entityId, e.peer = some t.neighbourId) ∧
      t.neighbourId ≠ seed.entityId ∧ m.has t.neighbourId = false := by
  obtain ⟨seed, hseed, ht⟩ := List.mem_flatMap.mp h
  rcases peer_of_mem_foldl _ [] ht with ht | ht
  · exact absurd ht List.not_mem_nil
  · exact ⟨seed, (List.mem_filter.mp hseed).1, (List.mem_filter.mp hseed).2, ht⟩

/-- The seeds are buckets. -/
theorem mem_values_of_mem_seeds {topN : ℕ} {b : EntityBucket}
    (h : b ∈ selectEdgeExpansionSeeds m topN) : b ∈ m.values := by
  have hmem := List.mem_of_mem_take h
  rw [List.mem_insertionSort] at hmem
  exact (List.mem_filter.mp hmem).1

/-- Injecting neighbours adds their buckets. -/
theorem AllAttributed.mergeExpandedNeighbours (h : AllAttributed K R m) {expansions : List Expansion}
    (hexp : ∀ e ∈ expansions, e.bucket.entityId = e.neighbourEntityId ∧ Attributed K R e.bucket)
    (alpha : ℚ) : AllAttributed K R (mergeExpandedNeighbours m expansions alpha) := by
  unfold Brain.mergeExpandedNeighbours
  split
  · exact h
  · dsimp only
    -- which scores are inherited does not matter, only which buckets are injected
    generalize expansions.foldl (inheritBest m alpha) .empty = best
    have hfold : ∀ (l : List Expansion) (acc : Buckets × InsertionMap EntityId ℚ),
        (∀ e ∈ l, e ∈ expansions) → AllAttributed K R acc.1 →
        AllAttributed K R (l.foldl injectNeighbour acc).1 := by
      intro l
      induction l with
      | nil => exact fun acc _ hacc => hacc
      | cons e l ih =>
          intro acc hl hacc
          refine ih _ (fun e he => hl e (List.mem_cons_of_mem _ he)) ?_
          obtain ⟨hid, hatt⟩ := hexp e (hl e List.mem_cons_self)
          unfold injectNeighbour
          split
          · exact hacc
          · split
            · exact hacc
            · refine hacc.set ?_ hid
              exact ⟨hatt.entity, hatt.facts⟩
    exact hfold expansions (m, best) (fun _ he => he) h

/-- **The walk over the edges** brings in facts of neighbours that pass the WHERE and
the scope filter. It starts from the buckets there are, so `K₀` of these is enough. -/
theorem AllAttributed.expandViaEdges (h : AllAttributed K₀ R m) (hK : ∀ e, K₀ e → K e)
    (config : ExpansionConfig) (hneigh : ∀ e n, K₀ e → (db.store.entities.get? e).isSome = true → n ≠ e →
      (∃ p ∈ peerEdges db e, p.peer = some n) → ∀ i f, db.store.facts.get? i = some f → f.entityId = n →
        (∃ ids, admits (baseWhere ids) f = true) → scopeAllows scopes f.predicate = true →
        K n ∧ R n i f.predicate) :
    AllAttributed K R (expandViaEdges config scopes db m baseWhere) := by
  unfold Brain.expandViaEdges
  dsimp only
  refine (h.imp hK).mergeExpandedNeighbours ?_ _
  intro x hx
  obtain ⟨t, ht, hexp⟩ := List.mem_filterMap.mp hx
  unfold expansionOf at hexp
  split at hexp
  · cases hexp
  · next rows hrows =>
      split at hexp
      · cases hexp
      · next hne =>
          cases hexp
          -- the facts of the bucket are rows of the query, of this neighbour
          have hrow : ∀ row ∈ rows, K t.neighbourId ∧ R t.neighbourId row.id row.predicate := by
            intro row hrow
            obtain ⟨hmem, hid⟩ := mem_factsByNeighbour hrows row hrow
            obtain ⟨hmem, hpass⟩ := List.mem_filter.mp hmem
            obtain ⟨f, hf, _, hadmit⟩ := mem_neighbourFactRows hmem
            obtain ⟨seed, hseed, hthere, hpeer, hself, _⟩ := mem_edgeTuples ht
            have hseedK := (h.values (mem_values_of_mem_seeds hseed)).entity
            rw [passesPolicy, hf.predicate] at hpass
            have howner : f.entityId = t.neighbourId := by rw [← hf.entityId, hid]
            rw [hf.predicate]
            exact hneigh _ _ hseedK hthere hself hpeer row.id f hf.stored howner ⟨_, hadmit⟩ hpass
          refine ⟨rfl, ?_, ?_⟩
          -- a bucket without facts is not made, so `K` can be had from its first one
          · cases rows with
            | nil => exact absurd rfl hne
            | cons row rows => exact (hrow row List.mem_cons_self).1
          · intro sf hsf
            obtain ⟨row, hmem, rfl⟩ := List.mem_map.mp hsf
            exact (hrow row hmem).2

/-! ## From the buckets to the hits -/

/-- The prior changes the order only. -/
theorem AllAttributed.runPprStage (h : AllAttributed K R m) : AllAttributed K R (runPprStage env db m) := by
  unfold Brain.runPprStage applyPprPrior applyPprBoost
  dsimp only
  split
  · exact h
  · split
    · exact h
    · split
      · exact h
      · split
        · exact h
        · split
          · exact h
          · exact h.mapValues (fun _ _ => ⟨rfl, rfl⟩)

theorem mem_of_mem_permute {candidates : List EntityBucket} {permutation : List ℕ}
    {b : EntityBucket} (h : b ∈ permute candidates permutation) : b ∈ candidates := by
  obtain ⟨i, _, hi⟩ := List.mem_filterMap.mp h
  exact List.mem_of_getElem? hi

/-- What the cross encoder lets through, or the cut to its window. -/
theorem mem_of_mem_crossEncoded {wide : List EntityBucket} {window : ℕ} {b : EntityBucket}
    (h : b ∈ (match env.crossEncoder with
      | none => wide.take window
      | some rerank =>
          if 1 < wide.length then runCrossEncoder env rerank wide dto.query window
          else wide.take window)) : b ∈ wide := by
  split at h
  · exact List.mem_of_mem_take h
  · split at h
    · exact mem_of_mem_permute (List.mem_of_mem_take h)
    · exact List.mem_of_mem_take h

/-- What the LLM reranker, where it is asked, makes of its candidates. -/
theorem mem_of_mem_llmReranked {candidates : List EntityBucket} {skip : Bool}
    {typeDist : Option Weights} {b : EntityBucket}
    (h : b ∈ (match env.reranker with
      | none => candidates
      | some rerank =>
          if candidates.length ≤ 1 then candidates
          else if skip then candidates
          else runLlmRerank env rerank db candidates dto.query typeDist)) : b ∈ candidates := by
  split at h
  · exact h
  · split at h
    · exact h
    · split at h
      · exact h
      · exact mem_of_mem_permute h

/-- What is reranked are buckets of the map. -/
theorem mem_values_of_mem_rerank {typeDist : Option Weights} {b : EntityBucket}
    (h : b ∈ runRerankStage env db m dto typeDist) : b ∈ m.values := by
  -- both rerankers permute and cut
  have hwide := mem_of_mem_crossEncoded (mem_of_mem_llmReranked h)
  have hsorted := List.mem_of_mem_take hwide
  rwa [List.mem_insertionSort] at hsorted

/-- What is backfilled are stored facts of the entity that pass the same filters. -/
theorem mem_backfill {ids : List EntityId} {e : EntityId} {l : List FactRow} {row : FactRow}
    (h : (backfillEntityFacts db ids baseWhere scopes).get? e = some l) (hrow : row ∈ l) :
    ∃ f, db.store.facts.get? row.id = some f ∧ row.predicate = f.predicate ∧ f.entityId = e ∧
      admits (baseWhere ids) f = true ∧ scopeAllows scopes f.predicate = true := by
  have hmem := InsertionMap.mem_entries_ofList (InsertionMap.mem_of_get? h)
  obtain ⟨q, _, hq⟩ := List.mem_map.mp hmem
  cases hq
  obtain ⟨hrow, hpass⟩ := List.mem_filter.mp hrow
  obtain ⟨⟨i, f⟩, hf, rfl⟩ := List.mem_map.mp hrow
  obtain ⟨hf, hcond⟩ := List.mem_filter.mp (List.mem_of_mem_take hf)
  rw [List.mem_insertionSort] at hf
  rw [Bool.and_eq_true, beq_iff_eq] at hcond
  exact ⟨f, KeyedTable.mem_rows_iff.mp hf, rfl, hcond.1, hcond.2, hpass⟩

theorem mem_of_mem_newPredicates {rows : List FactRow} {seen : List String} {row : FactRow}
    (h : row ∈ newPredicates rows seen) : row ∈ rows := by
  induction rows generalizing seen with
  | nil => exact h
  | cons r rows ih =>
      unfold newPredicates at h
      split at h
      · exact List.mem_cons_of_mem r (ih h)
      · rcases List.mem_cons.mp h with rfl | h
        · exact List.mem_cons_self
        · exact List.mem_cons_of_mem r (ih h)

/-- A hit shows matched facts of its bucket and backfilled ones. -/
theorem assembleHit_attributed {b : EntityBucket} (hb : Attributed K R b)
    {backfill : InsertionMap EntityId (List FactRow)}
    (hback : ∀ l, backfill.get? b.entityId = some l → ∀ row ∈ l, R b.entityId row.id row.predicate)
    (requireProvenance : Bool) :
    (assembleHit backfill requireProvenance b).entityId = b.entityId ∧
      ∀ f ∈ (assembleHit backfill requireProvenance b).facts, R b.entityId f.factId f.predicate := by
  refine ⟨rfl, fun f hf => ?_⟩
  -- the matched facts come first, then the backfilled ones
  rcases List.mem_append.mp (List.mem_of_mem_take hf) with hf | hf
  · obtain ⟨sf, hsf, rfl⟩ := List.mem_map.mp hf
    rw [List.mem_insertionSort] at hsf
    exact hb.facts sf (List.mem_filter.mp hsf).1
  · obtain ⟨row, hrow, rfl⟩ := List.mem_map.mp hf
    have hmem := mem_of_mem_newPredicates hrow
    rw [List.mem_insertionSort] at hmem
    have hmem := (List.mem_filter.mp hmem).1
    cases hget : backfill.get? b.entityId with
    | none =>
        rw [hget] at hmem
        cases hmem
    | some l =>
        rw [hget] at hmem
        exact hback l hget row hmem

/-- A hit is about its entity. -/
def HitAttributed (K : EntityId → Prop) (R : EntityId → FactId → String → Prop) (hit : SearchHit) :
    Prop :=
  K hit.entityId ∧ ∀ f ∈ hit.facts, R hit.entityId f.factId f.predicate

theorem mem_of_mem_popUntilFits {fits : List SearchHit → Bool} {hits : List SearchHit}
    {hit : SearchHit} (h : hit ∈ popUntilFits fits hits) : hit ∈ hits := by
  induction hits with
  | nil => exact h
  | cons r hits ih =>
      unfold popUntilFits at h
      split at h
      · exact List.mem_reverse.mp h
      · exact List.mem_cons_of_mem r (ih h)

/-- Shaping leaves out facts and hits. -/
theorem applyOutputShaping_attributed {hits : List SearchHit} (h : ∀ hit ∈ hits, HitAttributed K R hit)
    (countTokens : List SearchHit → ℕ) :
    ∀ hit ∈ applyOutputShaping countTokens hits dto, HitAttributed K R hit := by
  have hfloor : ∀ floor, ∀ hit ∈ applyConfidenceFloor floor hits, HitAttributed K R hit := by
    intro floor hit hhit
    obtain ⟨r, hr, rfl⟩ := List.mem_map.mp (List.mem_filter.mp hhit).1
    exact ⟨(h r hr).1, fun f hf => (h r hr).2 f (List.mem_filter.mp hf).1⟩
  have hshape : ∀ hit, HitAttributed K R hit → HitAttributed K R (applyShape dto.outputShape hit) := by
    intro hit hhit
    unfold applyShape
    split
    · exact hhit
    · refine ⟨hhit.1, fun f hf => ?_⟩
      obtain ⟨g, hg, rfl⟩ := List.mem_map.mp hf
      exact hhit.2 g (List.mem_of_mem_take hg)
    · exact ⟨hhit.1, fun f hf => absurd hf List.not_mem_nil⟩
  have hall : ∀ l : List SearchHit, (∀ hit ∈ l, HitAttributed K R hit) →
      ∀ hit ∈ l.map (applyShape dto.outputShape), HitAttributed K R hit := by
    intro l hl hit hhit
    obtain ⟨r, hr, rfl⟩ := List.mem_map.mp hhit
    exact hshape r (hl r hr)
  unfold applyOutputShaping
  dsimp only
  split
  · split
    · exact hall _ h
    · exact hall _ (hfloor _)
  · intro hit hhit
    have hmem := List.mem_reverse.mp (mem_of_mem_popUntilFits hhit)
    revert hmem
    split
    · exact hall _ h hit
    · exact hall _ (hfloor _) hit

/-- The request's WHERE in the pipeline. -/
def SearchRequest.where_ (env : SearchEnv) (dto : SearchRequest) : List WhereClause :=
  requestWhere env dto.clamped (resolveLangFilter env dto.clamped)

/-- The same in the queries that bind `$entityIds` themselves. -/
def SearchRequest.reboundWhere_ (env : SearchEnv) (dto : SearchRequest) :
    List EntityId → List WhereClause :=
  reboundWhere env dto.clamped (resolveLangFilter env dto.clamped)

/-- **What holds of all that a search reads holds of its hits.** `K₀` is about the
entities that it retrieves, `K` about those that the walk over the edges adds, too. -/
theorem search_attributed (hK : ∀ e, K₀ e → K e)
    (hvis : ∀ row ∈ visibleRows env db dto.clamped scopes,
      K₀ row.entityId ∧ R row.entityId row.id row.predicate)
    (hneigh : env.edgeExpansionEnabled = true → ∀ e n, K₀ e →
      (db.store.entities.get? e).isSome = true → n ≠ e →
      (∃ p ∈ peerEdges db e, p.peer = some n) →
      ∀ i f, db.store.facts.get? i = some f → f.entityId = n →
        (∃ ids, admits (dto.reboundWhere_ env ids) f = true) →
        scopeAllows scopes f.predicate = true → K n ∧ R n i f.predicate)
    (hback : ∀ e, K e → ∀ i f, db.store.facts.get? i = some f → f.entityId = e →
      (∃ ids, admits (dto.reboundWhere_ env ids) f = true) →
      scopeAllows scopes f.predicate = true → R e i f.predicate) :
    ∀ hit ∈ search env db dto scopes, HitAttributed K R hit := by
  -- stage by stage: the buckets of what is visible, the walk over the edges, the ranking
  have hbuckets : AllAttributed K₀ R (bucketByEntity (scoreRows env.scoring
      (visibleRows env db dto.clamped scopes)
      ((withStageBudget env .router (env.route dto.clamped.query) none).map (fun r => r.predicates))
      env.now)) := by
    apply allAttributed_bucketByEntity
    intro sf hsf
    obtain ⟨row, hrow, rfl⟩ := List.mem_map.mp hsf
    exact hvis row hrow
  have hexpanded : ∀ {m : Buckets}, AllAttributed K₀ R m →
      AllAttributed K R (runEdgeExpansionStage env db m (dto.reboundWhere_ env) scopes) := by
    intro m hm
    unfold runEdgeExpansionStage
    split
    · exact hm.imp hK
    · next hon =>
        split
        · exact hm.imp hK
        · exact hm.expandViaEdges hK _ (hneigh (by simpa using hon))
  have htop : ∀ b ∈ rankEntities env db dto.clamped scopes (visibleRows env db dto.clamped scopes),
      Attributed K R b := by
    intro b hb
    exact (hexpanded hbuckets).runPprStage.values (mem_values_of_mem_rerank (List.mem_of_mem_take hb))
  unfold search runPipeline
  dsimp only
  apply applyOutputShaping_attributed
  intro hit hhit
  obtain ⟨b, hb, rfl⟩ := List.mem_map.mp (List.mem_filter.mp hhit).1
  have hatt := htop b (List.mem_filter.mp hb).1
  refine ⟨hatt.entity, (assembleHit_attributed hatt ?_ _).2⟩
  -- a backfill that overruns its budget is empty
  intro l hl row hrow
  unfold withStageBudget at hl
  split at hl
  · cases hl
  · obtain ⟨f, hf, hpred, howner, hadmit, hallow⟩ := mem_backfill hl hrow
    rw [hpred]
    exact hback _ hatt.entity row.id f hf howner ⟨_, hadmit⟩ hallow

end Pipeline

end Brain
