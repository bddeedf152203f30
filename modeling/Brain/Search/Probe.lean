/-
A search that finds one fact.

To show that a search can return something, it is enough to have one that does. The
probe is a lexical search on a service whose index matches a single fact, at the
instant at which that fact was recorded: it retrieves that fact and nothing else
(`visibleRows_probe`). The walk over the edges starts from the bucket of that fact
alone (`mem_keys_probeBuckets`), and of the buckets that it leaves there are, the
cross-encoder of the service puts a given one first (`mem_search_probe`).
-/
import Brain.Search.EdgeWalk
import Brain.Search.Reattribution

set_option autoImplicit false

namespace Brain

/-- The request: lexical, of the facts of some entities, whatever their state. -/
def probeRequest (entityIds : List EntityId) : SearchRequest where
  query := "probe"
  entityIds := entityIds
  disableLangFilter := true
  includeStale := true
  includeRetracted := true
  includeContested := true
  searchMode := .lexical

/-- A service on which that query matches the fact `i` only, at the instant `now`, with
a cross-encoder that puts candidate `k` first and a backfill that overruns its budget. -/
def probeEnv (now : Time) (i : FactId) (expansion : ExpansionConfig) (k : ℕ) : SearchEnv where
  now := now
  engine := { cosine := fun _ _ => 0, fullText := fun _ _ _ j => if j = i then some 1 else none }
  embed _ := []
  detectLanguage _ := none
  route _ := none
  scoring := { js := .atRecording, LN2 := 693 / 1000, calibrate := fun _ => 1 }
  expansion := expansion
  crossEncoder := some (fun _ candidates => k :: (List.range candidates.length).erase k)
  crossEncoderWindow := k + 1
  countTokens _ := 0
  overruns stage := stage == .backfill

/-- Every scope there is. -/
def allScopes : List BrainScope := [.read, .write, .admin, .read_pii]

theorem scopeAllows_allScopes (predicate : String) : scopeAllows allScopes predicate = true := by
  unfold scopeAllows
  split
  · rfl
  · next scope _ => cases scope <;> rfl

section Probe

variable {db : SearchDb} {i : FactId} {f : KnowledgeFact} {ids : List EntityId}
  {scopes : List BrainScope} {now : Time} {config : ExpansionConfig} {k : ℕ}

/-- The facts that the probe looks at are those of its entities. -/
theorem admits_probe (hids : ids ≠ []) (g : KnowledgeFact) :
    admits ((probeRequest ids).where_ (probeEnv now i config k)) g = ids.contains g.entityId := by
  have hne : ids.isEmpty = false := by simpa using hids
  simp [SearchRequest.where_, SearchRequest.clamped, probeRequest, requestWhere, buildBaseWhere,
    resolveLangFilter, hne, admits, entityIdsClause]

/-- The walk of the probe looks at all facts of the neighbours: its anchor is gone. -/
theorem neighbourFactRows_probe (hids : ids ≠ []) (l : List EntityId) :
    neighbourFactRows db ((probeRequest ids).reboundWhere_ (probeEnv now i config k)) l
      = neighbourFactRows db (fun _ => []) l := by
  have hne : ids.isEmpty = false := by simpa using hids
  have hpass : ∀ g : KnowledgeFact, (l.contains g.entityId &&
      admits ((probeRequest ids).reboundWhere_ (probeEnv now i config k) l) g)
        = (l.contains g.entityId && admits [] g) := by
    intro g
    by_cases hl : l = []
    · rw [hl]
      rfl
    · have hl' : l.isEmpty = false := by simpa using hl
      simp [SearchRequest.reboundWhere_, SearchRequest.clamped, probeRequest, reboundWhere,
        buildBaseWhere, SearchDto.rebind, resolveLangFilter, hne, hl', admits, entityIdsClause]
  unfold neighbourFactRows
  simp only [hpass]

/-! ## Retrieval -/

/-- The row that the probe retrieves. -/
def probeRow (s : Store) (i : FactId) (f : KnowledgeFact) : FusedRow :=
  lexRow 1 { factRowWithEntity s (i, f) with bm25Score := some 1 }

theorem retrieve_probe (hf : db.store.facts.get? i = some f) (hids : ids ≠ [])
    (howner : f.entityId ∈ ids) :
    retrieve (probeEnv now i config k) db (probeRequest ids).clamped scopes = [probeRow db.store i f] := by
  have hlang : resolveLangFilter (probeEnv now i config k) (probeRequest ids).clamped = none := rfl
  have hleg : legRows db.store
      (fun q => (probeEnv now i config k).engine.fullText scopes db.store.facts
        (probeRequest ids).clamped.query q.1) (candidateK (probeRequest ids).clamped)
      ((probeRequest ids).where_ (probeEnv now i config k))
      = [(factRowWithEntity db.store (i, f), 1)] := by
    unfold legRows
    rw [KeyedTable.filterMap_rows_eq_singleton (y := (factRowWithEntity db.store (i, f), 1)) hf]
    · rfl
    · unfold scoredHit
      rw [admits_probe hids, List.contains_iff_mem.mpr howner]
      simp [probeEnv]
    · intro q _ hq
      unfold scoredHit
      split
      · simp [probeEnv, hq]
      · rfl
  unfold retrieve
  rw [hlang]
  show fuse [] ((legRows db.store _ _ ((probeRequest ids).where_ (probeEnv now i config k))).map
    (fun r => { r.1 with bm25Score := some r.2 })) .lexical = _
  rw [hleg]
  rfl

/-- Re-attribution of one row. -/
theorem reattribute_singleton {s : Store} {x : FusedRow} (hx : RowOf s f x.toFactRow) :
    ∃ y, reattributeMerged [x] (hydrateSurvivors s [x]) = [y] ∧ y.id = x.id ∧
      y.predicate = x.predicate ∧ y.recordedAt = x.recordedAt ∧ y.fusedScore = x.fusedScore ∧
      y.entityId = s.seatOf f.entityId := by
  -- the list has one row, which is the old one or the old one re-keyed
  have hshape : ∃ y, reattributeMerged [x] (hydrateSurvivors s [x]) = [y] ∧
      (y = x ∨ ∃ sv, y = x.onto sv) := by
    unfold reattributeMerged
    split
    · exact ⟨x, rfl, Or.inl rfl⟩
    · next hsize =>
        cases hptr : x.entity.bind (fun ent => ent.mergedInto) with
        | none => exact ⟨x, by rw [List.filterMap_cons, hptr]; rfl, Or.inl rfl⟩
        | some m =>
            -- something was hydrated, and the row asks for one entity only
            obtain ⟨sv, hsv⟩ : ∃ sv, (hydrateSurvivors s [x]).get? m = some sv := by
              by_contra hnone
              refine hsize ?_
              have hm : ¬ s.HasEntity m := fun hm =>
                hnone ((get?_hydrateSurvivors hm List.mem_cons_self hptr).imp (fun _ h => h.1))
              have hselect : s.entities.select (fun i _ => [m].contains i) = [] := by
                rw [List.eq_nil_iff_forall_not_mem]
                rintro ⟨j, r⟩ hj
                obtain ⟨hget, hjm⟩ := KeyedTable.mem_select.mp hj
                rw [List.contains_iff_mem, List.mem_singleton] at hjm
                exact hm (Option.isSome_iff_exists.mpr ⟨r, hjm ▸ hget⟩)
              unfold hydrateSurvivors
              rw [List.filterMap_cons, hptr]
              dsimp only [List.filterMap_nil]
              rw [hselect]
              rfl
            refine ⟨x.onto sv, ?_, Or.inr ⟨sv, rfl⟩⟩
            rw [List.filterMap_cons, hptr]
            dsimp only
            rw [hsv]
            rfl
  obtain ⟨y, hy, hcases⟩ := hshape
  have hdata : y.id = x.id ∧ y.predicate = x.predicate ∧ y.recordedAt = x.recordedAt ∧
      y.fusedScore = x.fusedScore := by
    rcases hcases with rfl | ⟨sv, rfl⟩
    · exact ⟨rfl, rfl, rfl, rfl⟩
    · exact ⟨rfl, rfl, rfl, rfl⟩
  obtain ⟨hid, hpred, hrec, hscore⟩ := hdata
  have hrows : ∀ row ∈ [x], ∃ f, RowOf s f row.toFactRow ∧ True := by
    intro row hrow
    rw [List.mem_singleton.mp hrow]
    exact ⟨f, hx, trivial⟩
  obtain ⟨f', hf', _, howner, _⟩ := seatOf_reattributed hrows (hy ▸ List.mem_cons_self : y ∈ _)
  rw [hid, hx.stored, Option.some.injEq] at hf'
  exact ⟨y, hy, hid, hpred, hrec, hscore, hf' ▸ howner⟩

/-- **The probe retrieves its fact**, if the caller may see it. -/
theorem visibleRows_probe (now : Time) (config : ExpansionConfig) (k : ℕ)
    (hf : db.store.facts.get? i = some f) (hids : ids ≠ []) (howner : f.entityId ∈ ids)
    (hallow : scopeAllows scopes f.predicate = true) :
    ∃ y, visibleRows (probeEnv now i config k) db (probeRequest ids).clamped scopes = [y] ∧
      y.id = i ∧ y.predicate = f.predicate ∧ y.recordedAt = f.recordedAt ∧ y.fusedScore = 1 / 2 ∧
      y.entityId = db.store.seatOf f.entityId := by
  have hx : RowOf db.store f (probeRow db.store i f).toFactRow :=
    RowOf.lexRow (r := { factRowWithEntity db.store (i, f) with bm25Score := some 1 })
      ⟨hf, rfl, rfl, rfl, rfl⟩ 1
  obtain ⟨y, hy, hid, hpred, hrec, hscore, hent⟩ := reattribute_singleton hx
  have hhalf : (probeRow db.store i f).fusedScore = 1 / 2 := by
    show (1 : ℚ) * normalizeLex 1 = 1 / 2
    norm_num [normalizeLex]
  refine ⟨y, ?_, hid, hpred, hrec, hscore.trans hhalf, hent⟩
  have hpass : passesPolicy scopes y.toFactRow = true := by
    rw [passesPolicy, hpred]
    exact hallow
  unfold visibleRows
  rw [retrieve_probe hf hids howner]
  dsimp only
  rw [hy, List.filter_cons, hpass]
  rfl

/-! ## Buckets -/

/-- At the instant of its recording a fact has not decayed. -/
theorem rowDecay_atRecording (i : FactId) (config : ExpansionConfig) (k : ℕ) (row : FactRow) :
    rowDecay (probeEnv row.recordedAt i config k).scoring row.recordedAt row = 1 := by
  unfold rowDecay
  split
  · rfl
  · simp [probeEnv, JsMath.atRecording]

/-- The one scored row of the probe. -/
theorem score_probe (i : FactId) (config : ExpansionConfig) (k : ℕ) {y : FusedRow} (hscore : y.fusedScore = 1 / 2) :
    (scoreRow (probeEnv y.recordedAt i config k).scoring none y.recordedAt y).score = 1 / 2 := by
  have hdecay := rowDecay_atRecording i config k y.toFactRow
  show y.fusedScore * rowDecay (probeEnv y.recordedAt i config k).scoring y.recordedAt y.toFactRow * 1 * 1
    = 1 / 2
  rw [hscore, hdecay]
  norm_num

/-- One row makes one bucket, ranked with its score. -/
theorem bucketByEntity_singleton {sf : ScoredRow} (hpos : 0 < sf.score) :
    ∃ b : EntityBucket, (bucketByEntity [sf]).entries = [(sf.row.entityId, b)] ∧
      b.entityId = sf.row.entityId ∧ b.rankScore = sf.score ∧ b.facts = [sf] := by
  let b : EntityBucket :=
    { entityId := sf.row.entityId, rankScore := 0, bestScore := sf.score, facts := [sf] }
  have hbest : (if (0 : ℚ) < sf.score then sf.score else 0) = sf.score := if_pos hpos
  refine ⟨degreeBoosted b, ?_, rfl, ?_, rfl⟩
  · have hadded : addToBucket .empty sf = InsertionMap.set .empty sf.row.entityId
        { b with bestScore := if (0 : ℚ) < sf.score then sf.score else 0 } := rfl
    rw [hbest] at hadded
    unfold bucketByEntity
    rw [List.foldl_cons, List.foldl_nil, hadded]
    rfl
  · -- the best fact is the only one, so there is nothing to boost with
    have hsup : supplementary sf.score [sf] [] false [] = [] := by
      simp [supplementary]
    show sf.score + DEGREE_BOOST_WEIGHT * (supplementary sf.score [sf] [] false []).sum = sf.score
    rw [hsup]
    simp

/-- **The probe's buckets**: one, of the entity that the fact is attributed to. -/
theorem buckets_probe (i : FactId) (config : ExpansionConfig) (k : ℕ) {y : FusedRow} (hscore : y.fusedScore = 1 / 2) :
    ∃ b : EntityBucket, (bucketByEntity (scoreRows (probeEnv y.recordedAt i config k).scoring [y] none
        y.recordedAt)).entries = [(y.entityId, b)] ∧
      b.entityId = y.entityId ∧ b.rankScore = 1 / 2 ∧
      b.facts.map (fun sf => sf.row) = [y] := by
  have hs := score_probe i config k hscore
  have hpos : 0 < (scoreRow (probeEnv y.recordedAt i config k).scoring none y.recordedAt y).score := by
    rw [hs]
    norm_num
  obtain ⟨b, hb, hid, hrank, hfacts⟩ := bucketByEntity_singleton hpos
  exact ⟨b, hb, hid, hrank.trans hs, by rw [hfacts]; rfl⟩

/-! ## The walk -/

/-- The buckets of the probe after the walk over the edges. -/
def probeBuckets (db : SearchDb) (i : FactId) (f : KnowledgeFact) (config : ExpansionConfig) (k : ℕ)
    (ids : List EntityId) (scopes : List BrainScope) : Buckets :=
  let env := probeEnv f.recordedAt i config k
  runEdgeExpansionStage env db (bucketByEntity (scoreRows env.scoring
    (visibleRows env db (probeRequest ids).clamped scopes) none env.now))
    ((probeRequest ids).reboundWhere_ env) scopes

/-- The walk of the probe starts at one bucket, that of the entity which the fact is
attributed to. -/
theorem probeBuckets_eq_walk (config : ExpansionConfig) (k : ℕ)
    (hf : db.store.facts.get? i = some f) (hids : ids ≠ []) (howner : f.entityId ∈ ids)
    (hallow : scopeAllows scopes f.predicate = true) :
    ∃ (m : Buckets) (bk : EntityBucket), m.entries = [(db.store.seatOf f.entityId, bk)] ∧
      bk.entityId = db.store.seatOf f.entityId ∧ 0 < bk.rankScore ∧
      (∃ sf, bk.facts = [sf] ∧ sf.row.id = i) ∧
      probeBuckets db i f config k ids scopes
        = expandViaEdges config scopes db m
            ((probeRequest ids).reboundWhere_ (probeEnv f.recordedAt i config k)) := by
  obtain ⟨y, hy, hid, _, hrec, hscore, hent⟩ :=
    visibleRows_probe f.recordedAt config k hf hids howner hallow
  obtain ⟨bk, hentries, hbk, hrank, hfacts⟩ := buckets_probe i config k hscore
  rw [hrec] at hentries
  rw [hent] at hentries hbk
  have hfact : ∃ sf, bk.facts = [sf] ∧ sf.row.id = i := by
    obtain ⟨sf, rest, hcons, hsf, hrest⟩ := List.map_eq_cons_iff.mp hfacts
    rw [List.map_eq_nil_iff] at hrest
    exact ⟨sf, by rw [hcons, hrest], by rw [hsf, hid]⟩
  refine ⟨_, bk, hentries, hbk, by rw [hrank]; norm_num, hfact, ?_⟩
  unfold probeBuckets
  dsimp only
  rw [hy]
  unfold runEdgeExpansionStage
  rw [if_neg (by simp [probeEnv])]
  have hsize : (bucketByEntity (scoreRows (probeEnv f.recordedAt i config k).scoring [y] none
      f.recordedAt)).size = 1 := congrArg List.length hentries
  have hsome : ¬ (bucketByEntity (scoreRows (probeEnv f.recordedAt i config k).scoring [y] none
      f.recordedAt)).size < 1 := by
    rw [hsize]
    exact lt_irrefl 1
  exact if_neg hsome

/-- **What the walk of the probe brings in**: every entity with one of the newest rows
of the neighbours. -/
theorem mem_keys_probeBuckets (config : ExpansionConfig) (k : ℕ) (hf : db.store.facts.get? i = some f) (hids : ids ≠ [])
    (howner : f.entityId ∈ ids) (hthere : db.store.HasEntity (db.store.seatOf f.entityId))
    {row : FactRow} (hrow : row ∈ neighbourFactRows db (fun _ => [])
      (reachedFrom config db (db.store.seatOf f.entityId))) :
    row.entityId ∈ (probeBuckets db i f config k ids allScopes).keys := by
  obtain ⟨m, bk, hentries, hbk, hrank, _, hwalk⟩ :=
    probeBuckets_eq_walk config k hf hids howner (scopeAllows_allScopes f.predicate)
  rw [hwalk]
  refine mem_keys_walk_single config hentries hbk hrank hthere ?_ (scopeAllows_allScopes _)
  rw [neighbourFactRows_probe hids]
  exact hrow

/-! ## Hits -/

/-- The cross-encoder of the probe puts the bucket of rank `k` first. -/
theorem runRerankStage_probe {m : Buckets} {b : EntityBucket}
    (hk : (m.values.insertionSort (fun a b => b.rankScore ≤ a.rankScore))[k]? = some b) :
    b ∈ (runRerankStage (probeEnv now i config k) db m (probeRequest ids).clamped none).take 10 := by
  have hlt : k < (m.values.insertionSort (fun a b => b.rankScore ≤ a.rankScore)).length :=
    (List.getElem?_eq_some_iff.mp hk).1
  have hsize : k + 1 ≤ m.size := by
    rw [List.length_insertionSort, InsertionMap.values, List.length_map] at hlt
    exact hlt
  have hwide : ((m.values.insertionSort (fun a b => b.rankScore ≤ a.rankScore)).take (k + 1))[k]?
      = some b := by
    rw [List.getElem?_take_of_lt (Nat.lt_succ_self k)]
    exact hk
  have hlen : ((m.values.insertionSort (fun a b => b.rankScore ≤ a.rankScore)).take (k + 1)).length
      = k + 1 := by
    rw [List.length_take]
    exact min_eq_left hlt
  have hstage : runRerankStage (probeEnv now i config k) db m (probeRequest ids).clamped none
      = if 1 < ((m.values.insertionSort (fun a b => b.rankScore ≤ a.rankScore)).take
            (min (k + 1) m.size)).length then
          (permute ((m.values.insertionSort (fun a b => b.rankScore ≤ a.rankScore)).take
            (min (k + 1) m.size)) (k :: (List.range (((m.values.insertionSort
              (fun a b => b.rankScore ≤ a.rankScore)).take (min (k + 1) m.size)).map
                candidateOf).length).erase k)).take 20
        else ((m.values.insertionSort (fun a b => b.rankScore ≤ a.rankScore)).take
            (min (k + 1) m.size)).take 20 := rfl
  rw [hstage, min_eq_left hsize]
  split
  · unfold permute
    rw [List.filterMap_cons, hwide]
    exact List.mem_cons_self
  · next hone =>
      -- the window is of one candidate then, which is this one
      have hzero : k = 0 := by
        rw [hlen] at hone
        omega
      subst hzero
      rw [List.take_take, List.take_take]
      exact List.mem_of_getElem? (i := 0) (by rw [List.getElem?_take_of_lt (by decide)]; exact hk)

/-- **Every bucket is a hit** of the probe that puts it first. -/
theorem mem_search_probe {b : EntityBucket}
    (hk : ((probeBuckets db i f config k ids scopes).values.insertionSort
      (fun a b => b.rankScore ≤ a.rankScore))[k]? = some b) :
    assembleHit .empty false b
      ∈ search (probeEnv f.recordedAt i config k) db (probeRequest ids) scopes := by
  have htop : b ∈ rankEntities (probeEnv f.recordedAt i config k) db (probeRequest ids).clamped scopes
      (visibleRows (probeEnv f.recordedAt i config k) db (probeRequest ids).clamped scopes) := by
    have hrank : rankEntities (probeEnv f.recordedAt i config k) db (probeRequest ids).clamped scopes
        (visibleRows (probeEnv f.recordedAt i config k) db (probeRequest ids).clamped scopes)
          = (runRerankStage (probeEnv f.recordedAt i config k) db
              (runPprStage (probeEnv f.recordedAt i config k) db
                (probeBuckets db i f config k ids scopes))
              (probeRequest ids).clamped none).take 10 := rfl
    have hppr : runPprStage (probeEnv f.recordedAt i config k) db
        (probeBuckets db i f config k ids scopes) = probeBuckets db i f config k ids scopes := rfl
    rw [hrank, hppr]
    exact runRerankStage_probe hk
  have hback : withStageBudget (probeEnv f.recordedAt i config k) .backfill
      (backfillEntityFacts db ((rankEntities (probeEnv f.recordedAt i config k) db
        (probeRequest ids).clamped scopes (visibleRows (probeEnv f.recordedAt i config k) db
          (probeRequest ids).clamped scopes)).map (fun e => e.entityId))
        (reboundWhere (probeEnv f.recordedAt i config k) (probeRequest ids).clamped
          (resolveLangFilter (probeEnv f.recordedAt i config k) (probeRequest ids).clamped)) scopes)
      .empty = .empty := rfl
  unfold search runPipeline
  dsimp only
  rw [hback]
  unfold applyOutputShaping assembleHits
  refine List.mem_map.mpr ⟨assembleHit .empty false b, List.mem_filter.mpr ⟨?_, rfl⟩, rfl⟩
  exact List.mem_map_of_mem (List.mem_filter.mpr ⟨htop, rfl⟩)

/-- **Every entity that the walk brings in can be a hit.** -/
theorem exists_hit_probe (hf : db.store.facts.get? i = some f) (hids : ids ≠ [])
    (howner : f.entityId ∈ ids) (hthere : db.store.HasEntity (db.store.seatOf f.entityId))
    {row : FactRow} (hrow : row ∈ neighbourFactRows db (fun _ => [])
      (reachedFrom config db (db.store.seatOf f.entityId))) :
    ∃ k, ∃ hit ∈ search (probeEnv f.recordedAt i config k) db (probeRequest ids) allScopes,
      hit.entityId = row.entityId := by
  -- a bucket is stored under its own entity
  have hall : AllAttributed (fun _ => True) (fun _ _ _ => True)
      (probeBuckets db i f config 0 ids allScopes) := by
    obtain ⟨m, bk, hentries, hbk, _, _, hwalk⟩ :=
      probeBuckets_eq_walk config 0 hf hids howner (scopeAllows_allScopes f.predicate)
    have hm : AllAttributed (fun _ => True) (fun _ _ _ => True) m := by
      intro p hp
      rw [hentries, List.mem_singleton] at hp
      rw [hp]
      exact ⟨hbk, trivial, fun _ _ => trivial⟩
    rw [hwalk]
    exact hm.expandViaEdges (fun _ h => h) config (fun _ _ _ _ _ _ _ _ _ _ _ _ => ⟨trivial, trivial⟩)
  have hkey := mem_keys_probeBuckets config 0 hf hids howner hthere hrow
  obtain ⟨⟨e, b⟩, hpb, he⟩ := List.mem_map.mp hkey
  have hb : b ∈ (probeBuckets db i f config 0 ids allScopes).values.insertionSort
      (fun a b => b.rankScore ≤ a.rankScore) := by
    rw [List.mem_insertionSort]
    exact List.mem_map_of_mem hpb
  -- the buckets are the same whichever of them is put first
  obtain ⟨k, hk⟩ := List.getElem?_of_mem hb
  have hsame : probeBuckets db i f config k ids allScopes
      = probeBuckets db i f config 0 ids allScopes := rfl
  refine ⟨k, _, mem_search_probe (hsame ▸ hk), ?_⟩
  show b.entityId = row.entityId
  rw [(hall _ hpb).1]
  exact he

end Probe

end Brain
