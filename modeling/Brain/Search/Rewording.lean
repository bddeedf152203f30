/-
What a caller without `brain:read_pii` learns about the objects of gated facts.

Two stores are compared that differ in these objects only (`RewordedStore`). The
profile, the timeline and the search read their rows by columns that the
replacement leaves alone, and every row that differs is dropped by the policy
filter before anything looks at its object. There is one exception: the full-text
index. It ranks the rows ahead of the filter, so the search answers alike as long
as the index scores the facts alike for the query (`SameFullText`).
-/
import Brain.Lib.Listing
import Brain.Search.SearchService

set_option autoImplicit false

namespace Brain

/-! ## Reworded rows -/

/-- `policyFor(predicate).requiresScope` is set. -/
def isGated (predicate : String) : Bool := (requiresScope predicate).isSome

theorem scopeAllows_of_not_gated {scopes : List BrainScope} {predicate : String}
    (h : isGated predicate = false) : scopeAllows scopes predicate = true := by
  rw [isGated, Option.isSome_eq_false_iff, Option.isNone_iff_eq_none] at h
  rw [scopeAllows, h]

/-- Without the scope, exactly the facts of gated predicates are withheld. -/
theorem not_gated_of_scopeAllows {scopes : List BrainScope} (hscopes : .read_pii ∉ scopes)
    {predicate : String} (h : scopeAllows scopes predicate = true) : isGated predicate = false := by
  -- the only scope that a policy asks for is the one that the caller lacks
  by_contra hgated
  rw [Bool.not_eq_false, isGated, Option.isSome_iff_exists] at hgated
  obtain ⟨scope, hscope⟩ := hgated
  rw [scopeAllows, hscope, List.contains_iff_mem] at h
  rw [requiresScope] at hscope
  split at hscope
  · exact hscopes (Option.some.inj hscope ▸ h)
  · cases hscope

/-- `f'` is `f` with another object, which only a gated fact may have. -/
def Reworded (f f' : KnowledgeFact) : Prop :=
  ∃ object, f' = { f with object := object } ∧ (isGated f.predicate = false → object = f.object)

/-- The same of two rows of a table. -/
def RewordedEntry (p q : FactId × KnowledgeFact) : Prop := p.1 = q.1 ∧ Reworded p.2 q.2

/-- The same of two rows of a query. -/
def RewordedRow (r r' : FactRow) : Prop :=
  ∃ object, r' = { r with object := object } ∧ (isGated r.predicate = false → object = r.object)

/-- The same of two rows after the fusion. -/
def RewordedFused (r r' : FusedRow) : Prop :=
  ∃ object, r' = { r with object := object } ∧ (isGated r.predicate = false → object = r.object)

/-- Two stores that differ in the objects of gated facts only, as far as the read
side looks at them. -/
structure RewordedStore (s s' : Store) : Prop where
  facts : List.Forall₂ RewordedEntry s.facts.rows s'.facts.rows
  entities : s.entities = s'.entities

/-- The same of what a search reads. -/
structure RewordedDb (db db' : SearchDb) : Prop where
  store : RewordedStore db.store db'.store
  edges : db.edges = db'.edges
  altEmbedding : db.altEmbedding = db'.altEmbedding

section Rows

variable {scopes : List BrainScope} {p q : FactId × KnowledgeFact} {r r' : FactRow}
  {x x' : FusedRow}

theorem RewordedEntry.predicate_eq (h : RewordedEntry p q) : p.2.predicate = q.2.predicate := by
  obtain ⟨_, object, heq, _⟩ := h
  rw [heq]

/-- A caller without the scope is shown the same fact, or none. -/
theorem RewordedEntry.eq_of_allowed (hscopes : .read_pii ∉ scopes) (h : RewordedEntry p q)
    (hallow : scopeAllows scopes p.2.predicate = true) : p = q := by
  obtain ⟨i, f⟩ := p
  obtain ⟨j, g⟩ := q
  obtain ⟨hij, object, heq, hobject⟩ := h
  simp only at hij heq hobject hallow
  rw [hij, heq, hobject (not_gated_of_scopeAllows hscopes hallow)]

theorem RewordedRow.eq_of_passes (hscopes : .read_pii ∉ scopes) (h : RewordedRow r r')
    (hpass : passesPolicy scopes r = true) : r = r' := by
  obtain ⟨object, rfl, hobject⟩ := h
  rw [hobject (not_gated_of_scopeAllows hscopes hpass)]

theorem RewordedRow.passesPolicy_eq (h : RewordedRow r r') :
    passesPolicy scopes r = passesPolicy scopes r' := by
  obtain ⟨object, rfl, _⟩ := h
  rfl

theorem RewordedFused.eq_of_passes (hscopes : .read_pii ∉ scopes) (h : RewordedFused x x')
    (hpass : passesPolicy scopes x.toFactRow = true) : x = x' := by
  obtain ⟨object, rfl, hobject⟩ := h
  rw [hobject (not_gated_of_scopeAllows hscopes hpass)]

theorem RewordedFused.passesPolicy_eq (h : RewordedFused x x') :
    passesPolicy scopes x.toFactRow = passesPolicy scopes x'.toFactRow := by
  obtain ⟨object, rfl, _⟩ := h
  rfl

/-- Rows that are sorted by a column other than `object` are sorted alike. -/
theorem rewordedEntry_order {order : (FactId × KnowledgeFact) → (FactId × KnowledgeFact) → Prop}
    [DecidableRel order]
    (horder : ∀ i f o j g o', order (i, { f with object := o }) (j, { g with object := o' })
      ↔ order (i, f) (j, g))
    {l l' : List (FactId × KnowledgeFact)} (h : List.Forall₂ RewordedEntry l l') :
    List.Forall₂ RewordedEntry (l.insertionSort order) (l'.insertionSort order) := by
  refine Listing.rel_insertionSort ?_ h
  rintro ⟨i, f⟩ ⟨j, g⟩ ⟨i', f'⟩ ⟨j', g'⟩ ⟨hi, o, hf, _⟩ ⟨hj, o', hg, _⟩
  simp only at hi hf hj hg
  rw [← hi, ← hj, hf, hg]
  exact (horder i f o j g o').symm

/-- A condition that does not read `object` admits the same rows. -/
theorem rewordedEntry_filter {cond : FactId × KnowledgeFact → Bool}
    (hcond : ∀ i f o, cond (i, { f with object := o }) = cond (i, f))
    {l l' : List (FactId × KnowledgeFact)} (h : List.Forall₂ RewordedEntry l l') :
    List.Forall₂ RewordedEntry (l.filter cond) (l'.filter cond) := by
  refine Listing.rel_filter ?_ h
  rintro ⟨i, f⟩ ⟨j, g⟩ ⟨hi, o, hf, _⟩
  simp only at hi hf
  rw [← hi, hf]
  exact (hcond i f o).symm

/-- What the policy filter leaves of reworded rows is the same. -/
theorem rewordedEntry_allowed (hscopes : .read_pii ∉ scopes)
    {l l' : List (FactId × KnowledgeFact)} (h : List.Forall₂ RewordedEntry l l') :
    l.filter (fun q => scopeAllows scopes q.2.predicate)
      = l'.filter (fun q => scopeAllows scopes q.2.predicate) :=
  Listing.filter_eq_of_rel (fun _ _ hpq => by rw [hpq.predicate_eq])
    (fun _ _ hpq hallow => hpq.eq_of_allowed hscopes hallow) h

theorem rewordedRow_passing (hscopes : .read_pii ∉ scopes) {l l' : List FactRow}
    (h : List.Forall₂ RewordedRow l l') :
    l.filter (passesPolicy scopes) = l'.filter (passesPolicy scopes) :=
  Listing.filter_eq_of_rel (fun _ _ hrr => hrr.passesPolicy_eq)
    (fun _ _ hrr hpass => hrr.eq_of_passes hscopes hpass) h

theorem rewordedFused_passing (hscopes : .read_pii ∉ scopes) {l l' : List FusedRow}
    (h : List.Forall₂ RewordedFused l l') :
    l.filter (fun row => passesPolicy scopes row.toFactRow)
      = l'.filter (fun row => passesPolicy scopes row.toFactRow) :=
  Listing.filter_eq_of_rel (fun _ _ hxx => hxx.passesPolicy_eq)
    (fun _ _ hxx hpass => hxx.eq_of_passes hscopes hpass) h

end Rows

/-! ## Profile and timeline -/

section Entities

variable {s s' : Store} {scopes : List BrainScope}

theorem profileRows_rel (h : RewordedStore s s') (entityId : EntityId) (asOf : Option Time) :
    List.Forall₂ RewordedEntry (profileRows s.facts entityId asOf)
      (profileRows s'.facts entityId asOf) := by
  -- the query sorts, filters and cuts, each by other columns
  refine List.forall₂_take _ (rewordedEntry_filter (fun _ _ _ => rfl) ?_)
  exact rewordedEntry_order (fun _ _ _ _ _ _ => Iff.rfl) h.facts

/-- **The profile does not tell reworded stores apart.** -/
theorem getProfile_reworded (h : RewordedStore s s') (hscopes : .read_pii ∉ scopes)
    (entityId : EntityId) (asOf : Option Time) :
    getProfile s' entityId asOf scopes = getProfile s entityId asOf scopes := by
  unfold getProfile
  rw [← h.entities, rewordedEntry_allowed hscopes (profileRows_rel h entityId asOf)]

/-- **Nor does the timeline.** -/
theorem getTimeline_reworded (h : RewordedStore s s') (hscopes : .read_pii ∉ scopes)
    (entityId : EntityId) (since until_ : Option Time) :
    getTimeline s' entityId since until_ scopes = getTimeline s entityId since until_ scopes := by
  have hrows : List.Forall₂ RewordedEntry
      ((s.facts.rows.insertionSort oldestFirst).filter
        (fun q => timelineWhere entityId since until_ q.2))
      ((s'.facts.rows.insertionSort oldestFirst).filter
        (fun q => timelineWhere entityId since until_ q.2)) :=
    rewordedEntry_filter (fun _ _ _ => rfl)
      (rewordedEntry_order (fun _ _ _ _ _ _ => Iff.rfl) h.facts)
  unfold getTimeline
  rw [rewordedEntry_allowed hscopes hrows]

end Entities

/-! ## The search -/

/-- The clause does not read `object`. -/
def WhereClause.SkipsObject (c : WhereClause) : Prop :=
  ∀ (f : KnowledgeFact) (object : String), c { f with object := object } = c f

theorem skipsObject_of_mem_singleton {c : WhereClause} (h : c.SkipsObject) :
    ∀ d ∈ [c], d.SkipsObject := by
  intro d hd
  rw [List.mem_singleton.mp hd]
  exact h

/-- A clause that is pushed unless `b`. -/
theorem skipsObject_of_mem_ite {b : Prop} [Decidable b] {c : WhereClause} (h : c.SkipsObject) :
    ∀ d ∈ (if b then [] else [c]), d.SkipsObject := by
  split
  · exact fun d hd => absurd hd List.not_mem_nil
  · exact skipsObject_of_mem_singleton h

/-- No clause of `buildBaseWhere` reads `object`. -/
theorem skipsObject_buildBaseWhere (now : Time) (dto : SearchDto) (asOf : Option Time)
    (includeRetracted includeContested : Bool) (langFilter : Option String) :
    ∀ c ∈ buildBaseWhere now dto asOf includeRetracted includeContested langFilter,
      c.SkipsObject := by
  simp only [buildBaseWhere, List.forall_mem_append]
  refine ⟨⟨⟨⟨⟨⟨?_, ?_⟩, ?_⟩, ?_⟩, ?_⟩, ?_⟩, ?_⟩
  -- the clauses in the order in which they are pushed
  · exact skipsObject_of_mem_ite (fun _ _ => rfl)
  · exact skipsObject_of_mem_ite (fun _ _ => rfl)
  · cases dto.minConfidence with
    | none => exact fun d hd => absurd hd List.not_mem_nil
    | some c => exact skipsObject_of_mem_singleton (fun _ _ => rfl)
  · exact skipsObject_of_mem_ite (fun _ _ => rfl)
  · exact skipsObject_of_mem_ite (fun _ _ => rfl)
  · cases langFilter with
    | none => exact fun d hd => absurd hd List.not_mem_nil
    | some lang => exact skipsObject_of_mem_ite (fun _ _ => rfl)
  · cases asOf with
    | none => exact skipsObject_of_mem_ite (fun _ _ => rfl)
    | some t => exact skipsObject_of_mem_singleton (fun _ _ => rfl)

theorem admits_object {clauses : List WhereClause} (h : ∀ c ∈ clauses, c.SkipsObject)
    (f : KnowledgeFact) (object : String) :
    admits clauses { f with object := object } = admits clauses f := by
  unfold admits
  rw [Bool.eq_iff_iff, List.all_eq_true, List.all_eq_true]
  exact forall₂_congr (fun c hc => by rw [h c hc])

theorem admits_requestWhere_object (env : SearchEnv) (dto : SearchRequest)
    (langFilter : Option String) (f : KnowledgeFact) (object : String) :
    admits (requestWhere env dto langFilter) { f with object := object }
      = admits (requestWhere env dto langFilter) f :=
  admits_object (skipsObject_buildBaseWhere env.now dto.toSearchDto dto.asOf dto.includeRetracted
    dto.includeContested langFilter) f object

theorem admits_reboundWhere_object (env : SearchEnv) (dto : SearchRequest)
    (langFilter : Option String) (ids : List EntityId) (f : KnowledgeFact) (object : String) :
    admits (reboundWhere env dto langFilter ids) { f with object := object }
      = admits (reboundWhere env dto langFilter ids) f :=
  admits_object (skipsObject_buildBaseWhere env.now (dto.toSearchDto.rebind ids) dto.asOf
    dto.includeRetracted dto.includeContested langFilter) f object

/-- Unless the search is a `vector` search, the full-text index gives its query the
same score with every fact that its WHERE admits. -/
def SameFullText (env : SearchEnv) (scopes : List BrainScope) (dto : SearchRequest)
    (s s' : Store) : Prop :=
  dto.searchMode ≠ .vector → ∀ i f, s.facts.get? i = some f →
    admits (requestWhere env dto none) f = true →
      env.engine.fullText scopes s'.facts dto.query i
        = env.engine.fullText scopes s.facts dto.query i

section Legs

variable {engine : SearchEngine} {scopes : List BrainScope} {db db' : SearchDb} {s s' : Store}
  {baseWhere : List WhereClause}

theorem rowEntity_reworded (h : RewordedStore s s') : rowEntity s' = rowEntity s := by
  funext e
  rw [rowEntity, rowEntity, h.entities]

theorem factRow_rel {p q : FactId × KnowledgeFact} (h : RewordedEntry p q) :
    RewordedRow (factRow p) (factRow q) := by
  obtain ⟨i, f⟩ := p
  obtain ⟨j, g⟩ := q
  obtain ⟨rfl, object, rfl, hobject⟩ := h
  exact ⟨object, rfl, hobject⟩

theorem factRowWithEntity_rel (h : RewordedStore s s') {p q : FactId × KnowledgeFact}
    (hpq : RewordedEntry p q) :
    RewordedRow (factRowWithEntity s p) (factRowWithEntity s' q) := by
  obtain ⟨i, f⟩ := p
  obtain ⟨j, g⟩ := q
  obtain ⟨rfl, object, rfl, hobject⟩ := hpq
  refine ⟨object, ?_, hobject⟩
  rw [factRowWithEntity, rowEntity_reworded h]
  rfl

/-- A leg returns the same rows with the same scores, up to the objects of gated
facts. -/
theorem legRows_rel (h : RewordedStore s s') {score score' : FactId × KnowledgeFact → Option ℚ}
    (hscore : ∀ i f o, s.facts.get? i = some f → admits baseWhere f = true →
      score' (i, { f with object := o }) = score (i, f)) (k : ℕ)
    (hwhere : ∀ f o, admits baseWhere { f with object := o } = admits baseWhere f) :
    List.Forall₂ (fun r r' => RewordedRow r.1 r'.1 ∧ r.2 = r'.2) (legRows s score k baseWhere)
      (legRows s' score' k baseWhere) := by
  refine List.forall₂_take _ (Listing.rel_insertionSort ?_
    (List.rel_filterMap ?_ (Listing.rel_and_mem h.facts)))
  · rintro r r' x x' ⟨_, hr⟩ ⟨_, hx⟩
    rw [hr, hx]
  · rintro p q ⟨hmem, hpq⟩
    have hrow := factRowWithEntity_rel h hpq
    obtain ⟨i, f⟩ := p
    obtain ⟨j, g⟩ := q
    obtain ⟨rfl, object, rfl, _⟩ := hpq
    have hscore := hscore i f object (KeyedTable.mem_rows_iff.mp hmem)
    have hwhere := hwhere f object
    unfold scoredHit
    dsimp only at hrow ⊢
    -- the row is admitted in both stores or in neither, and is scored alike if it is
    rw [hwhere]
    split
    · next hadmit =>
      rw [hscore hadmit]
      cases score (i, f) with
      | none => exact Option.Rel.none
      | some x => exact Option.Rel.some ⟨hrow, rfl⟩
    · exact Option.Rel.none

theorem runVectorLeg_rel (h : RewordedDb db db') (embed : String → List ℚ) (query : String)
    (k : ℕ) (hwhere : ∀ f o, admits baseWhere { f with object := o } = admits baseWhere f) :
    List.Forall₂ RewordedRow (runVectorLeg engine embed db query k baseWhere)
      (runVectorLeg engine embed db' query k baseWhere) := by
  -- the vector leg scores the stored embeddings, which have not changed
  have hscore : simScore engine db' (embed query) = simScore engine db (embed query) := by
    funext q
    rw [simScore, simScore, h.altEmbedding]
  unfold runVectorLeg
  rw [hscore]
  refine List.rel_map ?_ (legRows_rel h.store (fun _ _ _ _ _ => rfl) k hwhere)
  rintro ⟨r, x⟩ ⟨r', x'⟩ ⟨⟨object, rfl, hobject⟩, rfl⟩
  exact ⟨object, rfl, hobject⟩

theorem runLexicalLeg_rel (h : RewordedDb db db') {query : String}
    (hscore : ∀ i f, db.store.facts.get? i = some f → admits baseWhere f = true →
      engine.fullText scopes db'.store.facts query i
        = engine.fullText scopes db.store.facts query i) (k : ℕ)
    (hwhere : ∀ f o, admits baseWhere { f with object := o } = admits baseWhere f) :
    List.Forall₂ RewordedRow (runLexicalLeg engine scopes db query k baseWhere)
      (runLexicalLeg engine scopes db' query k baseWhere) := by
  unfold runLexicalLeg
  refine List.rel_map ?_ (legRows_rel h.store (fun i f _ => hscore i f) k hwhere)
  rintro ⟨r, x⟩ ⟨r', x'⟩ ⟨⟨object, rfl, hobject⟩, rfl⟩
  exact ⟨object, rfl, hobject⟩

end Legs

/-! ### Fusion and merged entities -/

section Fusion

variable {r r' : FactRow} {x x' : FusedRow} {s s' : Store}

theorem addStage_object (x : FusedRow) (object : String) (stage : RetrievalStage) :
    addStage { x with object := object } stage = { addStage x stage with object := object } := by
  unfold addStage
  split <;> rfl

theorem predicate_addStage (x : FusedRow) (stage : RetrievalStage) :
    (addStage x stage).predicate = x.predicate ∧ (addStage x stage).object = x.object := by
  unfold addStage
  split <;> exact ⟨rfl, rfl⟩

/-- Labelling a row does not look at its object. -/
theorem RewordedFused.addStage (h : RewordedFused x x') (stage : RetrievalStage) :
    RewordedFused (addStage x stage) (Brain.addStage x' stage) := by
  obtain ⟨object, rfl, hobject⟩ := h
  refine ⟨object, addStage_object x object stage, fun hgated => ?_⟩
  rw [(predicate_addStage x stage).1] at hgated
  rw [(predicate_addStage x stage).2]
  exact hobject hgated

theorem RewordedRow.vecRow (h : RewordedRow r r') (weight : ℚ) :
    RewordedFused (vecRow weight r) (Brain.vecRow weight r') := by
  obtain ⟨object, rfl, hobject⟩ := h
  exact RewordedFused.addStage ⟨object, rfl, hobject⟩ .hype

theorem RewordedRow.lexRow (h : RewordedRow r r') (weight : ℚ) :
    RewordedFused (lexRow weight r) (Brain.lexRow weight r') := by
  obtain ⟨object, rfl, hobject⟩ := h
  exact RewordedFused.addStage ⟨object, rfl, hobject⟩ .lexical

theorem RewordedFused.bothRow (h : RewordedFused x x') (weight : ℚ) (hr : RewordedRow r r') :
    RewordedFused (bothRow weight x r) (Brain.bothRow weight x' r') := by
  obtain ⟨object, rfl, hobject⟩ := h
  obtain ⟨_, rfl, _⟩ := hr
  refine RewordedFused.addStage (x := { x with
    fusedScore := x.fusedScore + weight * normalizeLex (r.bm25Score.getD 0)
    bm25Score := r.bm25Score }) ⟨object, rfl, hobject⟩ .lexical

theorem RewordedRow.id_eq (h : RewordedRow r r') : r.id = r'.id := by
  obtain ⟨_, rfl, _⟩ := h
  rfl

/-- Setting the rows of one leg. -/
theorem setAll_rel {row : FactRow → FusedRow}
    (hrow : ∀ r r', RewordedRow r r' → RewordedFused (row r) (row r')) {l l' : List FactRow}
    (h : List.Forall₂ RewordedRow l l') :
    InsertionMap.Related RewordedFused
      (l.foldl (fun merged r => merged.set r.id (row r)) .empty)
      (l'.foldl (fun merged r => merged.set r.id (row r)) .empty) := by
  refine List.rel_foldl ?_ InsertionMap.Related.empty h
  intro m m' hm r r' hr
  dsimp only
  rw [← hr.id_eq]
  exact hm.set r.id (hrow r r' hr)

theorem mergeLexical_rel (weight : ℚ) {m m' : InsertionMap FactId FusedRow}
    (hm : InsertionMap.Related RewordedFused m m') (hr : RewordedRow r r') :
    InsertionMap.Related RewordedFused (mergeLexical weight m r) (mergeLexical weight m' r') := by
  unfold mergeLexical
  rw [← hr.id_eq]
  -- both maps have an entry of the vector leg, or neither has
  have hprior := hm.get? r.id
  generalize m.get? r.id = prior at hprior ⊢
  generalize m'.get? r.id = prior' at hprior ⊢
  cases hprior with
  | none => exact hm.set r.id (hr.lexRow weight)
  | some hx => exact hm.set r.id (hx.bothRow weight hr)

theorem fuse_rel {l l' m m' : List FactRow} (hvec : List.Forall₂ RewordedRow l l')
    (hlex : List.Forall₂ RewordedRow m m') (mode : SearchMode) :
    List.Forall₂ RewordedFused (fuse l m mode) (fuse l' m' mode) := by
  cases mode with
  | vector => exact (setAll_rel (fun _ _ h => h.vecRow 1) hvec).values
  | lexical => exact (setAll_rel (fun _ _ h => h.lexRow 1) hlex).values
  | hybrid =>
      refine InsertionMap.Related.values (List.rel_foldl ?_ ?_ hlex)
      · intro m m' hm r r' hr
        exact mergeLexical_rel _ hm hr
      · exact setAll_rel (fun _ _ h => h.vecRow _) hvec

theorem RewordedFused.entity_eq (h : RewordedFused x x') : x.entity = x'.entity := by
  obtain ⟨_, rfl, _⟩ := h
  rfl

/-- The survivors that are looked up depend on the entities of the rows only. -/
theorem hydrateSurvivors_reworded (h : RewordedStore s s') {l l' : List FusedRow}
    (hl : List.Forall₂ RewordedFused l l') : hydrateSurvivors s' l' = hydrateSurvivors s l := by
  have hids : l.filterMap (fun r => r.entity.bind (fun ent => ent.mergedInto))
      = l'.filterMap (fun r => r.entity.bind (fun ent => ent.mergedInto)) := by
    induction hl with
    | nil => rfl
    | cons hx _ ih => rw [List.filterMap_cons, List.filterMap_cons, ih, hx.entity_eq]
  unfold hydrateSurvivors
  rw [hids, h.entities]

theorem reattributeMerged_rel (survivors : InsertionMap EntityId Survivor) {l l' : List FusedRow}
    (hl : List.Forall₂ RewordedFused l l') :
    List.Forall₂ RewordedFused (reattributeMerged l survivors)
      (reattributeMerged l' survivors) := by
  unfold reattributeMerged
  split
  · exact hl
  · refine List.rel_filterMap ?_ hl
    rintro x x' ⟨object, rfl, hobject⟩
    dsimp only
    cases x.entity.bind (fun ent => ent.mergedInto) with
    | none => exact Option.Rel.some ⟨object, rfl, hobject⟩
    | some merged =>
        dsimp only
        cases survivors.get? merged with
        | none => exact Option.Rel.none
        | some survivor => exact Option.Rel.some ⟨object, rfl, hobject⟩

end Fusion

/-! ### The pipeline -/

section Pipeline

variable {env : SearchEnv} {scopes : List BrainScope} {db db' : SearchDb} {dto : SearchRequest}

theorem runRetrievalStage_rel (h : RewordedDb db db')
    (hlex : SameFullText env scopes dto db.store db'.store)
    (langFilter : Option String) :
    List.Forall₂ RewordedFused
      (runRetrievalStage env db dto scopes (requestWhere env dto langFilter))
      (runRetrievalStage env db' dto scopes (requestWhere env dto langFilter)) := by
  have hwhere := admits_requestWhere_object env dto langFilter
  refine fuse_rel ?_ ?_ _
  · split
    · exact List.Forall₂.nil
    · exact runVectorLeg_rel h env.embed dto.query _ hwhere
  · split
    · exact List.Forall₂.nil
    · next hmode =>
      exact runLexicalLeg_rel h
        (fun i f hf hadmit => hlex hmode i f hf (admits_requestWhere_none hadmit)) _ hwhere

theorem RewordedFused.id_eq {x x' : FusedRow} (h : RewordedFused x x') : x.id = x'.id := by
  obtain ⟨_, rfl, _⟩ := h
  rfl

theorem pushUnseen_rel {l l' : List FusedRow} (hl : List.Forall₂ RewordedFused l l')
    {x x' : FusedRow} (hx : RewordedFused x x') :
    List.Forall₂ RewordedFused (pushUnseen l x) (pushUnseen l' x') := by
  have hany : l.any (fun f => f.id == x.id) = l'.any (fun f => f.id == x'.id) := by
    rw [hx.id_eq]
    induction hl with
    | nil => rfl
    | cons hf _ ih => rw [List.any_cons, List.any_cons, ih, hf.id_eq]
  unfold pushUnseen
  rw [← hany]
  split
  · exact hl
  · exact List.rel_append hl (List.Forall₂.cons hx List.Forall₂.nil)

theorem retrieve_rel (h : RewordedDb db db')
    (hlex : SameFullText env scopes dto db.store db'.store) :
    List.Forall₂ RewordedFused (retrieve env db dto scopes) (retrieve env db' dto scopes) := by
  have hpass := runRetrievalStage_rel h hlex
  unfold retrieve
  dsimp only
  -- whether there is a second pass depends on the number of rows only
  rw [← (hpass (resolveLangFilter env dto)).length_eq]
  split
  · refine List.rel_foldl ?_ (hpass (resolveLangFilter env dto)) (hpass none)
    intro l l' hl x x' hx
    exact pushUnseen_rel hl hx
  · exact hpass _

/-- **What reaches the ranking is the same.** -/
theorem visibleRows_reworded (h : RewordedDb db db') (hscopes : .read_pii ∉ scopes)
    (hlex : SameFullText env scopes dto db.store db'.store) :
    visibleRows env db' dto scopes = visibleRows env db dto scopes := by
  have hfused := retrieve_rel h hlex
  unfold visibleRows
  dsimp only
  -- this is where the rows that differ are dropped
  rw [hydrateSurvivors_reworded h.store hfused]
  exact (rewordedFused_passing hscopes (reattributeMerged_rel _ hfused)).symm

theorem peerEdges_reworded (h : RewordedDb db db') : peerEdges db' = peerEdges db := by
  funext id
  rw [peerEdges, peerEdges, ← h.store.entities, ← h.edges]

theorem fetchNeighbours_reworded (h : RewordedDb db db') :
    fetchNeighbours db' = fetchNeighbours db := by
  funext id
  unfold fetchNeighbours pushSide
  rw [peerEdges_reworded h, ← h.store.entities]

theorem neighbourFactRows_rel (h : RewordedDb db db') {baseWhere : List EntityId → List WhereClause}
    (hwhere : ∀ ids f o, admits (baseWhere ids) { f with object := o } = admits (baseWhere ids) f)
    (ids : List EntityId) :
    List.Forall₂ RewordedRow (neighbourFactRows db baseWhere ids)
      (neighbourFactRows db' baseWhere ids) := by
  refine List.rel_map (fun _ _ hpq => factRowWithEntity_rel h.store hpq)
    (List.forall₂_take _ (rewordedEntry_filter (fun i f o => ?_)
      (rewordedEntry_order (fun _ _ _ _ _ _ => Iff.rfl) h.store.facts)))
  rw [hwhere]

/-- The walk over the edges brings in the same facts. -/
theorem expandViaEdges_reworded (h : RewordedDb db db') (hscopes : .read_pii ∉ scopes)
    {baseWhere : List EntityId → List WhereClause}
    (hwhere : ∀ ids f o, admits (baseWhere ids) { f with object := o } = admits (baseWhere ids) f)
    (config : ExpansionConfig) (byEntity : Buckets) :
    expandViaEdges config scopes db' byEntity baseWhere
      = expandViaEdges config scopes db byEntity baseWhere := by
  have htuples : ∀ seeds, edgeTuples config db' byEntity seeds = edgeTuples config db byEntity seeds := by
    intro seeds
    rw [edgeTuples, edgeTuples, peerEdges_reworded h, ← h.store.entities]
  unfold expandViaEdges
  dsimp only
  rw [htuples, rewordedRow_passing hscopes (neighbourFactRows_rel h hwhere _)]

/-- So does the backfill. -/
theorem backfillEntityFacts_reworded (h : RewordedDb db db') (hscopes : .read_pii ∉ scopes)
    {baseWhere : List EntityId → List WhereClause}
    (hwhere : ∀ ids f o, admits (baseWhere ids) { f with object := o } = admits (baseWhere ids) f)
    (entityIds : List EntityId) :
    backfillEntityFacts db' entityIds baseWhere scopes
      = backfillEntityFacts db entityIds baseWhere scopes := by
  have hrows : ∀ e, (backfillRows db' (baseWhere entityIds) e).filter (passesPolicy scopes)
      = (backfillRows db (baseWhere entityIds) e).filter (passesPolicy scopes) := by
    intro e
    refine (rewordedRow_passing hscopes (List.rel_map (fun _ _ hpq => factRow_rel hpq)
      (List.forall₂_take _ (rewordedEntry_filter (fun i f o => ?_)
        (rewordedEntry_order (fun _ _ _ _ _ _ => Iff.rfl) h.store.facts))))).symm
    rw [hwhere]
  unfold backfillEntityFacts
  dsimp only
  rw [← h.store.entities]
  simp only [hrows]

theorem runRerankStage_reworded (h : RewordedDb db db') (byEntity : Buckets)
    (typeDist : Option Weights) :
    runRerankStage env db' byEntity dto typeDist = runRerankStage env db byEntity dto typeDist := by
  have hcandidate : rerankCandidateOf db' = rerankCandidateOf db := by
    funext e
    rw [rerankCandidateOf, rerankCandidateOf, fetchNeighbours_reworded h]
  have hllm : ∀ rerank candidates query,
      runLlmRerank env rerank db' candidates query typeDist
        = runLlmRerank env rerank db candidates query typeDist := by
    intro rerank candidates query
    rw [runLlmRerank, runLlmRerank, hcandidate]
  unfold runRerankStage
  simp only [hllm]

theorem runPprStage_reworded (h : RewordedDb db db') (byEntity : Buckets) :
    runPprStage env db' byEntity = runPprStage env db byEntity := by
  unfold runPprStage applyPprPrior fetchPprEdges
  rw [← h.edges]

theorem rankEntities_reworded (h : RewordedDb db db') (hscopes : .read_pii ∉ scopes)
    (filtered : List FusedRow) :
    rankEntities env db' dto scopes filtered = rankEntities env db dto scopes filtered := by
  have hwhere := admits_reboundWhere_object env dto (resolveLangFilter env dto)
  unfold rankEntities runEdgeExpansionStage
  simp only [expandViaEdges_reworded h hscopes hwhere, runPprStage_reworded h,
    runRerankStage_reworded h]

theorem runPipeline_reworded (h : RewordedDb db db') (hscopes : .read_pii ∉ scopes)
    (hlex : SameFullText env scopes dto db.store db'.store) :
    runPipeline env db' dto scopes = runPipeline env db dto scopes := by
  unfold runPipeline
  dsimp only
  rw [visibleRows_reworded h hscopes hlex, rankEntities_reworded h hscopes,
    backfillEntityFacts_reworded h hscopes
      (admits_reboundWhere_object env dto (resolveLangFilter env dto))]

/-- **The search does not tell reworded stores apart** that the full-text index ranks
alike. -/
theorem search_reworded (h : RewordedDb db db') (hscopes : .read_pii ∉ scopes)
    (hlex : SameFullText env scopes dto.clamped db.store db'.store) :
    search env db' dto scopes = search env db dto scopes :=
  runPipeline_reworded h hscopes hlex

end Pipeline

/-! ## The three reads -/

/-- A call of `getProfile`, `getTimeline` or `search`. -/
inductive ReadCall where
  | profile (entityId : EntityId) (asOf : Option Time)
  | timeline (entityId : EntityId) (since until_ : Option Time)
  | search (env : SearchEnv) (dto : SearchRequest)

/-- What a call returns. -/
inductive ReadResponse where
  | profile (result : Except HttpError EntityProfile)
  | timeline (events : List TimelineEvent)
  | search (results : List SearchHit)

/-- The response to a caller with these scopes. -/
def ReadCall.respond (db : SearchDb) (scopes : List BrainScope) : ReadCall → ReadResponse
  | .profile entityId asOf => .profile (getProfile db.store entityId asOf scopes)
  | .timeline entityId since until_ => .timeline (getTimeline db.store entityId since until_ scopes)
  | .search env dto => .search (Brain.search env db dto scopes)

/-- For a search, the full-text index ranks the two stores alike. -/
def ReadCall.RankedAlike (s s' : Store) (scopes : List BrainScope) : ReadCall → Prop
  | .profile _ _ => True
  | .timeline _ _ _ => True
  | .search env dto => SameFullText env scopes dto.clamped s s'

/-- **No read tells reworded stores apart.** -/
theorem respond_reworded {db db' : SearchDb} (h : RewordedDb db db') {scopes : List BrainScope}
    (hscopes : .read_pii ∉ scopes) (call : ReadCall)
    (hcall : call.RankedAlike db.store db'.store scopes) :
    call.respond db' scopes = call.respond db scopes := by
  cases call with
  | profile entityId asOf =>
      exact congrArg ReadResponse.profile (getProfile_reworded h.store hscopes entityId asOf)
  | timeline entityId since until_ =>
      exact congrArg ReadResponse.timeline
        (getTimeline_reworded h.store hscopes entityId since until_)
  | search env dto => exact congrArg ReadResponse.search (search_reworded h hscopes hcall)

end Brain
