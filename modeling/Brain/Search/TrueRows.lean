/-
Rows and buckets on their way through a search.

The stages score a row, label it and move it to another bucket. Its own columns stay as
the table has them (`SameRow`), and the entity that it carries is always the record of
the entity that it is filed under (`TrueRow`): re-attribution replaces both at once, and
a neighbour comes with rows of its own. So the entities that a search goes on with are
distinct, and each has distinct rows of stored facts (`trueBuckets_rankEntities`).
-/
import Brain.Search.DegreeBoost
import Brain.Search.Reattribution
import Brain.Search.RerankWindow

set_option autoImplicit false

namespace Brain

/-! ## Rows -/

/-- The columns of a row that no stage writes. -/
def FactRow.columns (row : FactRow) : FactRow :=
  { row with entityId := 0, entity := none, simScore := none, bm25Score := none, stages := [] }

/-- Two rows differ in their scores and labels only. -/
structure SameRow (row row' : FactRow) : Prop where
  columns : row'.columns = row.columns
  entityId : row'.entityId = row.entityId
  entity : row'.entity = row.entity

/-- What a row says of the entity that it is filed under is what the record says, if
there is one. -/
def Named (s : Store) (row : FactRow) : Prop :=
  row.entity.map (fun ent => (ent.type, ent.canonicalName))
    = (s.entities.get? row.entityId).map (fun r => (r.type, r.canonicalName))

/-- The row is that of a stored fact, and carries the entity that it is filed under. -/
structure TrueRow (s : Store) (row : FactRow) : Prop where
  stored : ∃ f, s.facts.get? row.id = some f ∧ row.columns = (factRow (row.id, f)).columns
  named : Named s row

section Rows

variable {s : Store} {row row' : FactRow}

theorem SameRow.id (h : SameRow row row') : row'.id = row.id := by
  have hid : row'.columns.id = row.columns.id := by rw [h.columns]
  exact hid

theorem TrueRow.same (h : TrueRow s row) (hsame : SameRow row row') : TrueRow s row' where
  stored := by
    obtain ⟨f, hf, hcolumns⟩ := h.stored
    refine ⟨f, by rw [hsame.id, hf], ?_⟩
    rw [hsame.columns, hcolumns, hsame.id]
  named := by
    unfold Named
    rw [hsame.entity, hsame.entityId]
    exact h.named

theorem sameRow_addStage (row : FusedRow) (stage : RetrievalStage) :
    SameRow row.toFactRow (addStage row stage).toFactRow := by
  unfold addStage
  split
  · exact ⟨rfl, rfl, rfl⟩
  · exact ⟨rfl, rfl, rfl⟩

theorem SameRow.trans {row'' : FactRow} (h : SameRow row row') (h' : SameRow row' row'') :
    SameRow row row'' :=
  ⟨h'.columns.trans h.columns, h'.entityId.trans h.entityId, h'.entity.trans h.entity⟩

theorem sameRow_vecRow (weight : ℚ) (r : FactRow) : SameRow r (vecRow weight r).toFactRow := by
  have hscored : SameRow r
      ({ r with fusedScore := weight * normalizeVec (r.simScore.getD 0) } : FusedRow).toFactRow :=
    ⟨rfl, rfl, rfl⟩
  exact hscored.trans (sameRow_addStage _ _)

theorem sameRow_lexRow (weight : ℚ) (r : FactRow) : SameRow r (lexRow weight r).toFactRow := by
  have hscored : SameRow r
      ({ r with fusedScore := weight * normalizeLex (r.bm25Score.getD 0) } : FusedRow).toFactRow :=
    ⟨rfl, rfl, rfl⟩
  exact hscored.trans (sameRow_addStage _ _)

theorem sameRow_bothRow (weight : ℚ) (prior : FusedRow) (r : FactRow) :
    SameRow prior.toFactRow (bothRow weight prior r).toFactRow := by
  have hscored : SameRow prior.toFactRow
      ({ prior with
        fusedScore := prior.fusedScore + weight * normalizeLex (r.bm25Score.getD 0)
        bm25Score := r.bm25Score } : FusedRow).toFactRow :=
    ⟨rfl, rfl, rfl⟩
  exact hscored.trans (sameRow_addStage _ _)

/-- The rows that a query returns. -/
theorem trueRow_factRowWithEntity {i : FactId} {f : KnowledgeFact}
    (h : s.facts.get? i = some f) : TrueRow s (factRowWithEntity s (i, f)) where
  stored := ⟨f, h, rfl⟩
  named := by
    show ((s.entities.get? f.entityId).map _).map _ = _
    rw [Option.map_map]
    rfl

end Rows

/-! ## Retrieval -/

section Retrieval

variable {s : Store} {db : SearchDb} {env : SearchEnv} {dto : SearchRequest}
  {scopes : List BrainScope}

/-- Rows of distinct facts. -/
structure TrueRows (s : Store) (rows : List FusedRow) : Prop where
  each : ∀ row ∈ rows, TrueRow s row.toFactRow
  nodup : (rows.map (fun row => row.id)).Nodup

/-- Rows that stand under their own ids. -/
def Filed (s : Store) (m : InsertionMap FactId FusedRow) : Prop :=
  ∀ p ∈ m.entries, p.2.id = p.1 ∧ TrueRow s p.2.toFactRow

theorem Filed.set {m : InsertionMap FactId FusedRow} (h : Filed s m) {row : FusedRow}
    {k : FactId} (hk : row.id = k) (hrow : TrueRow s row.toFactRow) : Filed s (m.set k row) := by
  intro p hp
  rcases InsertionMap.mem_entries_set hp with rfl | hp
  · exact ⟨hk, hrow⟩
  · exact h p hp

/-- The values of a map have its keys for ids. -/
theorem Filed.ids {m : InsertionMap FactId FusedRow} (h : Filed s m) :
    m.values.map (fun row => row.id) = m.keys := by
  rw [InsertionMap.values, List.map_map]
  exact List.map_congr_left (fun p hp => (h p hp).1)

theorem Filed.values {m : InsertionMap FactId FusedRow} (h : Filed s m) : TrueRows s m.values where
  each row hrow := by
    obtain ⟨p, hp, rfl⟩ := List.mem_map.mp hrow
    exact (h p hp).2
  nodup := h.ids ▸ m.nodup

/-- Setting the rows of one leg. -/
theorem filed_setAll {toFused : FactRow → FusedRow}
    (hto : ∀ r, SameRow r (toFused r).toFactRow) {rows : List FactRow}
    (h : ∀ r ∈ rows, TrueRow s r) :
    Filed s (rows.foldl (fun merged r => merged.set r.id (toFused r)) .empty) := by
  induction rows using List.reverseRecOn with
  | nil => exact fun p hp => absurd hp List.not_mem_nil
  | append_singleton rows r ih =>
      rw [List.foldl_append, List.foldl_cons, List.foldl_nil]
      have hr := h r (List.mem_append_right _ List.mem_cons_self)
      exact (ih (fun r hr => h r (List.mem_append_left _ hr))).set (hto r).id (hr.same (hto r))

theorem filed_mergeLexical (weight : ℚ) {m : InsertionMap FactId FusedRow} (hm : Filed s m)
    {rows : List FactRow} (h : ∀ r ∈ rows, TrueRow s r) :
    Filed s (rows.foldl (mergeLexical weight) m) := by
  induction rows using List.reverseRecOn with
  | nil => exact hm
  | append_singleton rows r ih =>
      rw [List.foldl_append, List.foldl_cons, List.foldl_nil]
      have hrest := ih (fun r hr => h r (List.mem_append_left _ hr))
      have hr := h r (List.mem_append_right _ List.mem_cons_self)
      unfold mergeLexical
      split
      · next prior hprior =>
          -- the row of the vector leg stays, with its score
          obtain ⟨hid, htrue⟩ := hrest _ (InsertionMap.mem_of_get? hprior)
          have hsame := sameRow_bothRow weight prior r
          exact hrest.set (hsame.id.trans hid) (htrue.same hsame)
      · exact hrest.set (sameRow_lexRow weight r).id (hr.same (sameRow_lexRow weight r))

theorem trueRows_fuse {vectorRows lexicalRows : List FactRow}
    (hvec : ∀ r ∈ vectorRows, TrueRow s r) (hlex : ∀ r ∈ lexicalRows, TrueRow s r)
    (mode : SearchMode) : TrueRows s (fuse vectorRows lexicalRows mode) := by
  cases mode with
  | vector => exact (filed_setAll (sameRow_vecRow 1) hvec).values
  | lexical => exact (filed_setAll (sameRow_lexRow 1) hlex).values
  | hybrid => exact (filed_mergeLexical _ (filed_setAll (sameRow_vecRow _) hvec) hlex).values

theorem trueRow_of_mem_legRows {score : FactId × KnowledgeFact → Option ℚ} {k : ℕ}
    {baseWhere : List WhereClause} {r : FactRow × ℚ} (h : r ∈ legRows s score k baseWhere) :
    TrueRow s r.1 := by
  have hmem := List.mem_of_mem_take h
  rw [List.mem_insertionSort, List.mem_filterMap] at hmem
  obtain ⟨⟨i, f⟩, hq, hhit⟩ := hmem
  unfold scoredHit at hhit
  split at hhit
  · obtain ⟨x, _, rfl⟩ := Option.map_eq_some_iff.mp hhit
    exact trueRow_factRowWithEntity (KeyedTable.mem_rows_iff.mp hq)
  · cases hhit

theorem trueRow_of_mem_runVectorLeg {engine : SearchEngine} {embed : String → List ℚ}
    {query : String} {k : ℕ} {baseWhere : List WhereClause} {row : FactRow}
    (h : row ∈ runVectorLeg engine embed db query k baseWhere) : TrueRow db.store row := by
  obtain ⟨r, hr, rfl⟩ := List.mem_map.mp h
  exact (trueRow_of_mem_legRows hr).same ⟨rfl, rfl, rfl⟩

theorem trueRow_of_mem_runLexicalLeg {engine : SearchEngine} {query : String} {k : ℕ}
    {baseWhere : List WhereClause} {row : FactRow}
    (h : row ∈ runLexicalLeg engine scopes db query k baseWhere) : TrueRow db.store row := by
  obtain ⟨r, hr, rfl⟩ := List.mem_map.mp h
  exact (trueRow_of_mem_legRows hr).same ⟨rfl, rfl, rfl⟩

theorem trueRows_runRetrievalStage (env : SearchEnv) (db : SearchDb) (dto : SearchRequest)
    (scopes : List BrainScope) (baseWhere : List WhereClause) :
    TrueRows db.store (runRetrievalStage env db dto scopes baseWhere) := by
  unfold runRetrievalStage
  apply trueRows_fuse
  · split
    · exact fun r hr => absurd hr List.not_mem_nil
    · exact fun r hr => trueRow_of_mem_runVectorLeg hr
  · split
    · exact fun r hr => absurd hr List.not_mem_nil
    · exact fun r hr => trueRow_of_mem_runLexicalLeg hr

/-- The rows of the second pass that are new. -/
theorem TrueRows.pushAll {fused : List FusedRow} (h : TrueRows s fused) {rows : List FusedRow}
    (hrows : ∀ row ∈ rows, TrueRow s row.toFactRow) :
    TrueRows s (rows.foldl pushUnseen fused) := by
  induction rows using List.reverseRecOn with
  | nil => exact h
  | append_singleton rows r ih =>
      rw [List.foldl_append, List.foldl_cons, List.foldl_nil]
      have hrest := ih (fun row hrow => hrows row (List.mem_append_left _ hrow))
      unfold pushUnseen
      split
      · exact hrest
      · next hunseen =>
          have hnew : ∀ f ∈ rows.foldl pushUnseen fused, f.id ≠ r.id := by
            rw [List.any_eq_true] at hunseen
            exact fun f hf heq => hunseen ⟨f, hf, beq_iff_eq.mpr heq⟩
          constructor
          · intro row hrow
            rcases List.mem_append.mp hrow with hrow | hrow
            · exact hrest.each row hrow
            · rw [List.mem_singleton.mp hrow]
              exact hrows r (List.mem_append_right _ List.mem_cons_self)
          · rw [List.map_append, List.map_singleton]
            refine hrest.nodup.append (List.nodup_singleton _) ?_
            rw [List.disjoint_singleton]
            intro hmem
            obtain ⟨f, hf, hid⟩ := List.mem_map.mp hmem
            exact hnew f hf hid

theorem trueRows_retrieve (env : SearchEnv) (db : SearchDb) (dto : SearchRequest)
    (scopes : List BrainScope) : TrueRows db.store (retrieve env db dto scopes) := by
  unfold retrieve
  dsimp only
  split
  · exact (trueRows_runRetrievalStage _ _ _ _ _).pushAll (trueRows_runRetrievalStage _ _ _ _ _).each
  · exact trueRows_runRetrievalStage _ _ _ _ _

/-- A row that is re-keyed carries the record of the survivor. -/
theorem TrueRow.onto {row : FusedRow} (h : TrueRow s row.toFactRow) {rows : List FusedRow}
    {m : EntityId} {sv : Survivor} (hsv : (hydrateSurvivors s rows).get? m = some sv) :
    TrueRow s (row.onto sv).toFactRow where
  stored := h.stored
  named := by
    have hmem := InsertionMap.mem_entries_ofList (InsertionMap.mem_of_get? hsv)
    obtain ⟨⟨i, r⟩, hq, heq⟩ := List.mem_map.mp hmem
    obtain ⟨rfl, rfl⟩ := Prod.mk.inj heq
    show some (r.type, r.canonicalName) = (s.entities.get? i).map _
    rw [(KeyedTable.mem_select.mp hq).1]
    rfl

/-- Rows that are changed or left out, but keep their ids. -/
theorem nodup_ids_filterMap {F : FusedRow → Option FusedRow}
    (hF : ∀ row out, F row = some out → out.id = row.id) {rows : List FusedRow}
    (h : (rows.map (fun row => row.id)).Nodup) :
    ((rows.filterMap F).map (fun row => row.id)).Nodup := by
  rw [List.nodup_iff_pairwise_ne, List.pairwise_map] at h ⊢
  refine h.filterMap _ (fun a a' hne b hb b' hb' => ?_)
  rw [hF a b hb, hF a' b' hb']
  exact hne

/-- **Re-attribution keeps rows true.** -/
theorem TrueRows.reattribute {rows : List FusedRow} (h : TrueRows s rows) :
    TrueRows s (reattributeMerged rows (hydrateSurvivors s rows)) := by
  unfold reattributeMerged
  split
  · exact h
  · refine ⟨fun out hout => ?_, nodup_ids_filterMap (fun row out hout => ?_) h.nodup⟩
    · obtain ⟨row, hrow, hout⟩ := List.mem_filterMap.mp hout
      split at hout
      · cases hout
        exact h.each _ hrow
      · obtain ⟨sv, hsv, rfl⟩ := Option.map_eq_some_iff.mp hout
        exact (h.each row hrow).onto hsv
    · split at hout
      · cases hout
        rfl
      · obtain ⟨sv, _, rfl⟩ := Option.map_eq_some_iff.mp hout
        rfl

/-- **The rows that the caller may see.** -/
theorem trueRows_visibleRows (env : SearchEnv) (db : SearchDb) (dto : SearchRequest)
    (scopes : List BrainScope) : TrueRows db.store (visibleRows env db dto scopes) := by
  have h := (trueRows_retrieve env db dto scopes).reattribute
  exact ⟨fun row hrow => h.each row (List.mem_filter.mp hrow).1,
    h.nodup.sublist (List.filter_sublist.map _)⟩

end Retrieval

/-! ## Buckets -/

/-- The facts of a bucket are distinct, and filed under its entity; there is one. -/
structure TrueBucket (s : Store) (b : EntityBucket) : Prop where
  nonempty : b.facts ≠ []
  nodup : (b.facts.map (fun sf => sf.row.id)).Nodup
  rows : ∀ sf ∈ b.facts, sf.row.entityId = b.entityId ∧ TrueRow s sf.row.toFactRow

/-- All buckets of a map are true, and each stands under its own entity. -/
def AllTrue (s : Store) (m : Buckets) : Prop :=
  ∀ p ∈ m.entries, p.2.entityId = p.1 ∧ TrueBucket s p.2

section Pipeline

variable {s : Store} {db : SearchDb} {env : SearchEnv} {dto : SearchRequest}
  {scopes : List BrainScope} {baseWhere : List EntityId → List WhereClause} {m : Buckets}

/-- A stage that changes scores only. -/
theorem TrueBucket.rescored {b b' : EntityBucket} (h : TrueBucket s b)
    (hid : b'.entityId = b.entityId) (hfacts : b'.facts = b.facts) : TrueBucket s b' := by
  refine ⟨?_, ?_, ?_⟩
  · rw [hfacts]
    exact h.nonempty
  · rw [hfacts]
    exact h.nodup
  · rw [hfacts, hid]
    exact h.rows

theorem AllTrue.set (h : AllTrue s m) {b : EntityBucket} {k : EntityId} (hk : b.entityId = k)
    (hb : TrueBucket s b) : AllTrue s (m.set k b) := by
  intro p hp
  rcases InsertionMap.mem_entries_set hp with rfl | hp
  · exact ⟨hk, hb⟩
  · exact h p hp

theorem AllTrue.values (h : AllTrue s m) {b : EntityBucket} (hb : b ∈ m.values) :
    TrueBucket s b := by
  obtain ⟨p, hp, rfl⟩ := List.mem_map.mp hb
  exact (h p hp).2

/-- The entities of the buckets are the keys, so they are distinct. -/
theorem AllTrue.nodup_values (h : AllTrue s m) :
    (m.values.map (fun b => b.entityId)).Nodup := by
  have hids : m.values.map (fun b => b.entityId) = m.entries.map Prod.fst := by
    rw [InsertionMap.values, List.map_map]
    exact List.map_congr_left (fun p hp => (h p hp).1)
  rw [hids]
  exact m.nodup

/-- Bucketing. -/
theorem allTrue_bucketByEntity {rows : List FusedRow} (h : TrueRows s rows) (scoring : Scoring)
    (predicateDist : Option Weights) (now : Time) :
    AllTrue s (bucketByEntity (scoreRows scoring rows predicateDist now)) := by
  rintro ⟨k, b⟩ hp
  obtain ⟨hne, rfl⟩ := DegreeBoost.get?_bucketByEntity_eq_some_iff.mp (InsertionMap.get?_of_mem hp)
  have hfacts : ∀ sf ∈ DegreeBoost.rowsOf (scoreRows scoring rows predicateDist now) k,
      sf.row.entityId = k ∧ TrueRow s sf.row.toFactRow := by
    intro sf hsf
    obtain ⟨hmem, hid⟩ := DegreeBoost.mem_rowsOf.mp hsf
    obtain ⟨row, hrow, rfl⟩ := List.mem_map.mp hmem
    exact ⟨hid, h.each row hrow⟩
  have hids : ((scoreRows scoring rows predicateDist now).map (fun sf => sf.row.id)).Nodup := by
    rw [scoreRows, List.map_map]
    exact h.nodup
  exact ⟨rfl, hne, hids.sublist (List.filter_sublist.map _), hfacts⟩

/-! ## The walk over the edges -/

/-- One more row goes to the list of its entity, unless that is full. -/
theorem factsByNeighbour_concat (rows : List FactRow) (row : FactRow) :
    factsByNeighbour (rows ++ [row]) =
      let list := ((factsByNeighbour rows).get? row.entityId).getD []
      (factsByNeighbour rows).set row.entityId (if list.length < 5 then list ++ [row] else list) :=
  List.foldl_append

/-- The rows of a neighbour are some of the rows, in their order. -/
theorem factsByNeighbour_sublist (rows : List FactRow) :
    ∀ p ∈ (factsByNeighbour rows).entries, p.2.Sublist rows := by
  induction rows using List.reverseRecOn with
  | nil => exact fun p hp => absurd hp List.not_mem_nil
  | append_singleton rows row ih =>
      intro p hp
      rw [factsByNeighbour_concat] at hp
      rcases InsertionMap.mem_entries_set hp with rfl | hp
      · -- the list of the entity so far, which may be empty or full
        have hlist : (((factsByNeighbour rows).get? row.entityId).getD []).Sublist rows := by
          cases hget : (factsByNeighbour rows).get? row.entityId with
          | none => exact List.nil_sublist _
          | some l => exact ih _ (InsertionMap.mem_of_get? hget)
        dsimp only
        split
        · exact hlist.append (List.Sublist.refl _)
        · exact hlist.trans (List.sublist_append_left _ _)
      · exact (ih p hp).trans (List.sublist_append_left _ _)

/-- The rows of the neighbour query are of distinct facts. -/
theorem nodup_neighbourFactRows (db : SearchDb) (baseWhere : List EntityId → List WhereClause)
    (ids : List EntityId) :
    ((neighbourFactRows db baseWhere ids).map (fun row => row.id)).Nodup := by
  have hids : (neighbourFactRows db baseWhere ids).map (fun row => row.id)
      = (((db.store.facts.rows.insertionSort newestFirst).filter
          (fun q => ids.contains q.2.entityId && admits (baseWhere ids) q.2)).take 200).map
            Prod.fst := List.map_map
  rw [hids]
  refine List.Nodup.sublist (((List.take_sublist _ _).trans List.filter_sublist).map _) ?_
  exact ((List.perm_insertionSort _ _).map _).nodup_iff.mpr db.store.facts.nodup_keys

theorem trueRow_of_mem_neighbourFactRows {ids : List EntityId} {row : FactRow}
    (h : row ∈ neighbourFactRows db baseWhere ids) : TrueRow db.store row := by
  obtain ⟨⟨i, f⟩, hq, rfl⟩ := List.mem_map.mp h
  have hmem := (List.mem_filter.mp (List.mem_of_mem_take hq)).1
  rw [List.mem_insertionSort] at hmem
  exact trueRow_factRowWithEntity (KeyedTable.mem_rows_iff.mp hmem)

/-- The bucket of a neighbour is made of rows of its own. -/
theorem trueBucket_of_expansionOf {seeds : List EntityBucket}
    {ids : List EntityId} {t : EdgeTuple} {e : Expansion}
    (h : expansionOf seeds (factsByNeighbour ((neighbourFactRows db baseWhere ids).filter
      (passesPolicy scopes))) t = some e) :
    e.bucket.entityId = e.neighbourEntityId ∧ TrueBucket db.store e.bucket := by
  unfold expansionOf at h
  split at h
  · cases h
  · next rows hrows =>
      split at h
      · cases h
      · next hne =>
          cases h
          have hsub := factsByNeighbour_sublist _ _ (InsertionMap.mem_of_get? hrows)
          have hsub : rows.Sublist (neighbourFactRows db baseWhere ids) :=
            hsub.trans List.filter_sublist
          refine ⟨rfl, ?_, ?_, ?_⟩
          · simpa using hne
          · have hids : (rows.map expandedRow).map (fun sf => sf.row.id)
                = rows.map (fun row => row.id) := List.map_map
            rw [hids]
            exact (nodup_neighbourFactRows db baseWhere ids).sublist (hsub.map _)
          · intro sf hsf
            obtain ⟨row, hrow, rfl⟩ := List.mem_map.mp hsf
            obtain ⟨_, hid⟩ := mem_factsByNeighbour hrows row hrow
            have htrue := trueRow_of_mem_neighbourFactRows (hsub.subset hrow)
            exact ⟨hid, htrue.same ⟨rfl, rfl, rfl⟩⟩

/-- Injecting neighbours adds their buckets. -/
theorem AllTrue.injectAll {best : InsertionMap EntityId ℚ} (h : AllTrue s m)
    {expansions : List Expansion} (hexp : ∀ e ∈ expansions,
      e.bucket.entityId = e.neighbourEntityId ∧ TrueBucket s e.bucket) :
    AllTrue s (expansions.foldl injectNeighbour (m, best)).1 := by
  induction expansions using List.reverseRecOn with
  | nil => exact h
  | append_singleton expansions e ih =>
      rw [List.foldl_append, List.foldl_cons, List.foldl_nil]
      have hrest := ih (fun e he => hexp e (List.mem_append_left _ he))
      obtain ⟨hid, hb⟩ := hexp e (List.mem_append_right _ List.mem_cons_self)
      unfold injectNeighbour
      split
      · exact hrest
      · split
        · exact hrest
        · exact hrest.set hid (hb.rescored rfl rfl)

/-- **The walk over the edges keeps buckets true.** -/
theorem AllTrue.runEdgeExpansionStage (h : AllTrue db.store m) :
    AllTrue db.store (runEdgeExpansionStage env db m baseWhere scopes) := by
  unfold Brain.runEdgeExpansionStage
  split
  · exact h
  · split
    · exact h
    · unfold expandViaEdges mergeExpandedNeighbours
      dsimp only
      split
      · exact h
      · refine h.injectAll (fun e he => ?_)
        obtain ⟨t, _, hexp⟩ := List.mem_filterMap.mp he
        exact trueBucket_of_expansionOf hexp

/-- The prior changes the order only. -/
theorem AllTrue.runPprStage (h : AllTrue s m) : AllTrue s (runPprStage env db m) := by
  unfold Brain.runPprStage applyPprPrior applyPprBoost
  dsimp only
  split
  · exact h
  · split
    · exact h
    · split
      · exact h
      · split
        · exact h
        · split
          · exact h
          · intro p hp
            obtain ⟨q, hq, rfl⟩ := List.mem_map.mp hp
            exact ⟨(h q hq).1, (h q hq).2.rescored rfl rfl⟩

/-! ## The entities of the response -/

/-- True buckets of distinct entities. -/
structure TrueBuckets (s : Store) (l : List EntityBucket) : Prop where
  each : ∀ b ∈ l, TrueBucket s b
  nodup : (l.map (fun b => b.entityId)).Nodup

/-- **The entities that a search goes on with.** -/
theorem trueBuckets_rankEntities (hp : RerankersPermute env) (db : SearchDb) (dto : SearchRequest)
    (scopes : List BrainScope) :
    TrueBuckets db.store (rankEntities env db dto scopes (visibleRows env db dto scopes)) ∧
      (rankEntities env db dto scopes (visibleRows env db dto scopes)).length
        ≤ min dto.limit 20 := by
  let routerOut := withStageBudget env .router (env.route dto.query) none
  let boosted := runPprStage env db (runEdgeExpansionStage env db
    (bucketByEntity (scoreRows env.scoring (visibleRows env db dto scopes)
      (routerOut.map (fun r => r.predicates)) env.now))
    (reboundWhere env dto (resolveLangFilter env dto)) scopes)
  have hall : AllTrue db.store boosted :=
    (allTrue_bucketByEntity (trueRows_visibleRows env db dto scopes) _ _
      _).runEdgeExpansionStage.runPprStage
  have hwindow : Windowed env dto boosted
      (runRerankStage env db boosted dto (routerOut.map (fun r => r.types))) :=
    windowed_runRerankStage hp
  have hsub : (rankEntities env db dto scopes (visibleRows env db dto scopes)).Subperm
      boosted.values := (List.take_sublist _ _).subperm.trans hwindow.1
  refine ⟨⟨fun b hb => hall.values (hsub.subset hb), ?_⟩, ?_⟩
  · obtain ⟨l, hperm, hl⟩ := hsub
    rw [← (hperm.map _).nodup_iff]
    exact hall.nodup_values.sublist (hl.map _)
  · have hlen := hwindow.2
    have htake : (rankEntities env db dto scopes (visibleRows env db dto scopes)).length
        = min dto.limit (runRerankStage env db boosted dto
            (routerOut.map (fun r => r.types))).length := List.length_take
    rw [htake, hlen, rerankWindow]
    omega

end Pipeline

end Brain
