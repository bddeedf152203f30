/-
The walk over the edges finds what is there.

`AllAttributed.expandViaEdges` bounds what the walk brings in; here is the other
direction. A seed whose edges fit its allowance considers each of them, a neighbour
with a visible row gets an expansion, and an expansion that inherits a positive score
ends up in the map (`mem_keys_expandViaEdges`). From a single bucket the entities that
the walk tries are known beforehand (`reachedFrom`); the neighbour query stops at two
hundred of their rows, so those that come in are the ones with a row among these
(`mem_keys_walk_single`).
-/
import Brain.Search.Provenance

set_option autoImplicit false

namespace Brain

section Walk

variable {m : Buckets} {config : ExpansionConfig} {db : SearchDb} {seeds : List EntityBucket}
  {baseWhere : List EntityId → List WhereClause} {scopes : List BrainScope} {seed : EntityId}

/-! ## Tuples -/

/-- As long as there is room, a new peer of an edge becomes a neighbour, and
neighbours stay. -/
theorem exists_tuple_of_peer {n : EntityId} (hne : n ≠ seed) (hnew : m.has n = false)
    (es : List PeerEdge) : ∀ tuples : List EdgeTuple,
    tuples.length + es.length ≤ config.maxNeighboursPerSeed →
    (∃ t ∈ tuples, t.neighbourId = n) ∨ (∃ e ∈ es, e.peer = some n) →
    ∃ t ∈ es.foldl (considerEdge config m seed) tuples, t.neighbourId = n := by
  induction es with
  | nil =>
      rintro tuples _ (h | ⟨e, he, _⟩)
      · exact h
      · exact absurd he List.not_mem_nil
  | cons e es ih =>
      intro tuples hroom h
      rw [List.length_cons] at hroom
      -- one edge adds at most one tuple, and takes none away
      have hstep : (considerEdge config m seed tuples e).length ≤ tuples.length + 1 ∧
          ∀ t ∈ tuples, t ∈ considerEdge config m seed tuples e := by
        rcases considerEdge_cases config m seed tuples e with heq | ⟨n', _, _, _, heq⟩
        · rw [heq]
          exact ⟨Nat.le_succ _, fun t ht => ht⟩
        · rw [heq, List.length_append, List.length_singleton]
          exact ⟨le_refl _, fun t ht => List.mem_append_left _ ht⟩
      obtain ⟨hlen, hkept⟩ := hstep
      refine ih _ (by omega) ?_
      rcases h with ⟨t, ht, htn⟩ | ⟨e', he', hpeer⟩
      · exact Or.inl ⟨t, hkept t ht, htn⟩
      · rcases List.mem_cons.mp he' with rfl | he'
        · left
          by_cases hany : ∃ t ∈ tuples, t.neighbourId = n
          · obtain ⟨t, ht, htn⟩ := hany
            exact ⟨t, hkept t ht, htn⟩
          · have hseen : tuples.any (fun t => t.neighbourId == n) = false := by
              rw [List.any_eq_false]
              intro t ht
              rw [beq_iff_eq]
              exact fun htn => hany ⟨t, ht, htn⟩
            refine ⟨⟨seed, n, if 0 < e'.weight then e'.weight else 1⟩, ?_, rfl⟩
            unfold considerEdge
            rw [hpeer]
            dsimp only
            rw [if_neg hne, hnew, hseen, if_neg Bool.false_ne_true, if_neg Bool.false_ne_true,
              if_neg (by omega)]
            exact List.mem_append_right _ (List.mem_singleton.mpr rfl)
        · exact Or.inr ⟨e', he', hpeer⟩

/-- A tuple is of the seed that is considered, with a positive weight. -/
theorem tuple_of_considerEdge (es : List PeerEdge) : ∀ tuples : List EdgeTuple,
    (∀ t ∈ tuples, t.seedId = seed ∧ 0 < t.weight) →
    ∀ t ∈ es.foldl (considerEdge config m seed) tuples, t.seedId = seed ∧ 0 < t.weight := by
  induction es with
  | nil => exact fun tuples h => h
  | cons e es ih =>
      intro tuples h
      refine ih _ (fun t ht => ?_)
      rcases considerEdge_cases config m seed tuples e with heq | ⟨n, _, _, _, heq⟩
      · exact h t (heq ▸ ht)
      · rw [heq] at ht
        rcases List.mem_append.mp ht with ht | ht
        · exact h t ht
        · rw [List.mem_singleton.mp ht]
          refine ⟨rfl, ?_⟩
          dsimp only
          split
          · assumption
          · exact one_pos

theorem seed_of_mem_edgeTuples {t : EdgeTuple} (h : t ∈ edgeTuples config db m seeds) :
    (∃ s ∈ seeds, s.entityId = t.seedId) ∧ 0 < t.weight := by
  obtain ⟨s, hs, ht⟩ := List.mem_flatMap.mp h
  obtain ⟨hseed, hw⟩ := tuple_of_considerEdge _ [] (fun t ht => absurd ht List.not_mem_nil) t ht
  exact ⟨⟨s, (List.mem_filter.mp hs).1, hseed.symm⟩, hw⟩

/-! ## Facts of neighbours -/

/-- A row puts its entity into the map of the neighbours' facts. -/
theorem exists_factsByNeighbour {rows : List FactRow} {row : FactRow} (h : row ∈ rows) :
    ∃ l, (factsByNeighbour rows).get? row.entityId = some l ∧ l.isEmpty = false := by
  let add (m : InsertionMap EntityId (List FactRow)) (row : FactRow) :
      InsertionMap EntityId (List FactRow) :=
    let list := (m.get? row.entityId).getD []
    m.set row.entityId (if list.length < 5 then list ++ [row] else list)
  have hadd : ∀ m r, ∃ l, (add m r).get? r.entityId = some l ∧ l.isEmpty = false := by
    intro m r
    refine ⟨_, InsertionMap.get?_set_self _ _ _, ?_⟩
    split
    · simp
    · next hlen =>
        -- a list that is full is not empty
        cases hl : (m.get? r.entityId).getD [] with
        | nil => exact absurd (by simp [hl]) hlen
        | cons x l => rfl
  have hfold : ∀ (rest : List FactRow) (m : InsertionMap EntityId (List FactRow)),
      (∃ l, m.get? row.entityId = some l ∧ l.isEmpty = false) ∨ row ∈ rest →
      ∃ l, (rest.foldl add m).get? row.entityId = some l ∧ l.isEmpty = false := by
    intro rest
    induction rest with
    | nil =>
        rintro m (hm | hm)
        · exact hm
        · exact absurd hm List.not_mem_nil
    | cons r rest ih =>
        intro m hm
        apply ih
        by_cases hr : row.entityId = r.entityId
        · left
          rw [hr]
          exact hadd m r
        · rcases hm with ⟨l, hl, hne⟩ | hm
          · left
            refine ⟨l, ?_, hne⟩
            show (m.set _ _).get? row.entityId = some l
            rw [InsertionMap.get?_set_of_ne _ _ hr, hl]
          · rcases List.mem_cons.mp hm with rfl | hm
            · exact absurd rfl hr
            · exact Or.inr hm
  exact hfold rows .empty (Or.inr h)

/-! ## Injection -/

/-- An expansion with a positive share leaves its neighbour with a score. -/
theorem isSome_inheritBest {alpha : ℚ} {e : Expansion}
    (hpos : 0 < alpha * e.seedRankScore * e.edgeWeight)
    (hnew : m.has e.neighbourEntityId = false) (expansions : List Expansion) :
    ∀ best : InsertionMap EntityId ℚ,
      (best.get? e.neighbourEntityId).isSome = true ∨ e ∈ expansions →
      ((expansions.foldl (inheritBest m alpha) best).get? e.neighbourEntityId).isSome = true := by
  induction expansions with
  | nil =>
      rintro best (h | h)
      · exact h
      · exact absurd h List.not_mem_nil
  | cons x expansions ih =>
      intro best h
      apply ih
      -- a score that is there may only be replaced
      have hset : ∀ v, (best.get? e.neighbourEntityId).isSome = true →
          ((best.set x.neighbourEntityId v).get? e.neighbourEntityId).isSome = true := by
        intro v hs
        by_cases hx : e.neighbourEntityId = x.neighbourEntityId
        · rw [hx, InsertionMap.get?_set_self]
          rfl
        · rw [InsertionMap.get?_set_of_ne _ _ hx]
          exact hs
      have hkept : (best.get? e.neighbourEntityId).isSome = true →
          ((inheritBest m alpha best x).get? e.neighbourEntityId).isSome = true := by
        intro hs
        unfold inheritBest
        dsimp only
        repeat' split
        all_goals first | exact hs | exact hset _ hs
      rcases h with h | h
      · exact Or.inl (hkept h)
      · rcases List.mem_cons.mp h with rfl | h
        · left
          cases hget : best.get? e.neighbourEntityId with
          | some v => exact hkept (by rw [hget]; rfl)
          | none =>
              unfold inheritBest
              dsimp only
              rw [if_neg (not_le.mpr hpos), hnew, if_neg Bool.false_ne_true, hget, Option.getD_none,
                if_pos hpos, InsertionMap.get?_set_self]
              rfl
        · exact Or.inr h

/-- A neighbour with a score is injected by its first expansion. -/
theorem mem_keys_injectNeighbour {n : EntityId} (expansions : List Expansion) :
    ∀ acc : Buckets × InsertionMap EntityId ℚ,
      n ∈ acc.1.keys ∨ ((acc.2.get? n).isSome = true ∧
        ∃ e ∈ expansions, e.neighbourEntityId = n) →
      n ∈ (expansions.foldl injectNeighbour acc).1.keys := by
  induction expansions with
  | nil =>
      rintro acc (h | ⟨_, e, he, _⟩)
      · exact h
      · exact absurd he List.not_mem_nil
  | cons x expansions ih =>
      intro acc h
      apply ih
      unfold injectNeighbour
      by_cases hin : n ∈ acc.1.keys
      · left
        repeat' split
        · exact hin
        · exact hin
        · exact InsertionMap.mem_keys_set.mpr (Or.inr hin)
      · obtain ⟨hscore, e, he, hen⟩ := h.resolve_left hin
        by_cases hx : x.neighbourEntityId = n
        · left
          have hhas : acc.1.has n = false := InsertionMap.has_eq_false_iff.mpr hin
          obtain ⟨v, hv⟩ := Option.isSome_iff_exists.mp hscore
          rw [hx, hhas, if_neg Bool.false_ne_true, hv]
          exact InsertionMap.mem_keys_set.mpr (Or.inl rfl)
        · right
          refine ⟨?_, e, ?_, hen⟩
          · repeat' split
            · exact hscore
            · exact hscore
            · rw [InsertionMap.get?_delete_of_ne _ (Ne.symm hx)]
              exact hscore
          · rcases List.mem_cons.mp he with rfl | he
            · exact absurd hen hx
            · exact he

theorem mem_keys_mergeExpandedNeighbours {expansions : List Expansion} {alpha : ℚ}
    (halpha : 0 < alpha) {e : Expansion} (he : e ∈ expansions)
    (hpos : 0 < alpha * e.seedRankScore * e.edgeWeight) :
    e.neighbourEntityId ∈ (mergeExpandedNeighbours m expansions alpha).keys := by
  unfold mergeExpandedNeighbours
  rw [if_neg (not_le.mpr halpha)]
  dsimp only
  apply mem_keys_injectNeighbour
  by_cases hin : e.neighbourEntityId ∈ m.keys
  · exact Or.inl hin
  · have hnew : m.has e.neighbourEntityId = false := InsertionMap.has_eq_false_iff.mpr hin
    exact Or.inr ⟨isSome_inheritBest hpos hnew expansions .empty (Or.inr he), e, he, rfl⟩

/-! ## The walk -/

/-- **A visible row of the neighbour query brings its entity in.** -/
theorem mem_keys_expandViaEdges {row : FactRow}
    (hrow : row ∈ neighbourFactRows db baseWhere
      ((edgeTuples config db m (selectEdgeExpansionSeeds m config.topSeeds)).map
        (fun t => t.neighbourId)))
    (hpass : passesPolicy scopes row = true) :
    row.entityId ∈ (expandViaEdges config scopes db m baseWhere).keys := by
  obtain ⟨f, hf, howner, _⟩ := mem_neighbourFactRows hrow
  obtain ⟨t, ht, htn⟩ := List.mem_map.mp howner
  rw [← hf.entityId] at htn
  obtain ⟨l, hl, hne⟩ := exists_factsByNeighbour (List.mem_filter.mpr ⟨hrow, hpass⟩)
  obtain ⟨⟨s, hs, hst⟩, hw⟩ := seed_of_mem_edgeTuples ht
  -- the seed of the tuple is found, with a positive score
  obtain ⟨s', hs'⟩ : ∃ s', (selectEdgeExpansionSeeds m config.topSeeds).find?
      (fun s => s.entityId == t.seedId) = some s' := by
    apply Option.isSome_iff_exists.mp
    rw [List.find?_isSome]
    exact ⟨s, hs, by rw [hst]; exact beq_self_eq_true _⟩
  have hrank : 0 < s'.rankScore := by
    have hmem := List.mem_of_mem_take (List.mem_of_find?_eq_some hs')
    rw [List.mem_insertionSort, List.mem_filter] at hmem
    exact of_decide_eq_true hmem.2
  rw [← htn] at hl ⊢
  unfold expandViaEdges
  dsimp only
  have hexp : expansionOf (selectEdgeExpansionSeeds m config.topSeeds) (factsByNeighbour
      ((neighbourFactRows db baseWhere ((edgeTuples config db m
        (selectEdgeExpansionSeeds m config.topSeeds)).map (fun t => t.neighbourId))).filter
          (passesPolicy scopes))) t = some
      { seedEntityId := t.seedId, seedRankScore := s'.rankScore, neighbourEntityId := t.neighbourId,
        edgeWeight := t.weight,
        bucket := { entityId := t.neighbourId, rankScore := 0, bestScore := 0,
                    facts := l.map expandedRow } } := by
    unfold expansionOf
    rw [hl, hs']
    dsimp only
    rw [hne, if_neg Bool.false_ne_true]
    rfl
  exact mem_keys_mergeExpandedNeighbours config.alpha_pos (List.mem_filterMap.mpr ⟨t, ht, hexp⟩)
    (mul_pos (mul_pos config.alpha_pos hrank) hw)

/-! ## From one seed -/

/-- The entities that the walk tries from the seed `a`, if no other entity has a
bucket. -/
def reachedFrom (config : ExpansionConfig) (db : SearchDb) (a : EntityId) : List EntityId :=
  ((peerEdges db a).foldl (considerEdge config .empty a) []).map (fun t => t.neighbourId)

/-- The neighbours of a seed, and the facts they own, fit what the walk takes. -/
def WalkFits (config : ExpansionConfig) (db : SearchDb) (a : EntityId) : Prop :=
  (peerEdges db a).length ≤ config.maxNeighboursPerSeed ∧
    (db.store.facts.select
      (fun _ f => ((peerEdges db a).filterMap (fun p => p.peer)).contains f.entityId)).length ≤ 200

/-- Next to the only seed there is no bucket to pass over. -/
theorem considerEdge_single (config : ExpansionConfig) {a : EntityId} (hkeys : m.keys = [a]) :
    considerEdge config m a = considerEdge config .empty a := by
  funext tuples e
  unfold considerEdge
  cases e.peer with
  | none => rfl
  | some n =>
      by_cases hn : n = a
      · simp only [if_pos hn]
      · have hm : m.has n = false := by
          rw [InsertionMap.has_eq_false_iff, hkeys, List.mem_singleton]
          exact hn
        have hempty : (InsertionMap.empty : Buckets).has n = false := rfl
        simp only [if_neg hn, hm, hempty]

theorem selectEdgeExpansionSeeds_single {a : EntityId} {bk : EntityBucket}
    (hentries : m.entries = [(a, bk)]) (hrank : 0 < bk.rankScore) {topN : ℕ} (htop : 1 ≤ topN) :
    selectEdgeExpansionSeeds m topN = [bk] := by
  have hvalues : m.values = [bk] := congrArg (List.map Prod.snd) hentries
  unfold selectEdgeExpansionSeeds
  rw [hvalues, List.filter_cons, if_pos (decide_eq_true hrank)]
  exact List.take_of_length_le htop

/-- What the walk from a single bucket tries. -/
theorem edgeTuples_single (config : ExpansionConfig) {a : EntityId} {bk : EntityBucket}
    (hentries : m.entries = [(a, bk)]) (hbk : bk.entityId = a) (hrank : 0 < bk.rankScore)
    (hthere : (db.store.entities.get? a).isSome = true) :
    (edgeTuples config db m (selectEdgeExpansionSeeds m config.topSeeds)).map
      (fun t => t.neighbourId) = reachedFrom config db a := by
  have hkeys : m.keys = [a] := congrArg (List.map Prod.fst) hentries
  rw [selectEdgeExpansionSeeds_single hentries hrank config.one_le_topSeeds]
  unfold edgeTuples
  rw [List.filter_cons, hbk, if_pos hthere, List.filter_nil, List.flatMap_singleton, hbk,
    considerEdge_single config hkeys]
  rfl

/-- **Each of the newest rows of the neighbours brings its entity in.** -/
theorem mem_keys_walk_single (config : ExpansionConfig) {a : EntityId} {bk : EntityBucket}
    (hentries : m.entries = [(a, bk)]) (hbk : bk.entityId = a) (hrank : 0 < bk.rankScore)
    (hthere : (db.store.entities.get? a).isSome = true) {row : FactRow}
    (hrow : row ∈ neighbourFactRows db baseWhere (reachedFrom config db a))
    (hpass : passesPolicy scopes row = true) :
    row.entityId ∈ (expandViaEdges config scopes db m baseWhere).keys := by
  refine mem_keys_expandViaEdges ?_ hpass
  rw [edgeTuples_single config hentries hbk hrank hthere]
  exact hrow

/-- Where nothing is cut off, every neighbour with a fact has a row. -/
theorem exists_row_of_fits {config : ExpansionConfig} {a : EntityId} (hfits : WalkFits config db a)
    {j : FactId} {g : KnowledgeFact} (hg : db.store.facts.get? j = some g)
    (hpeer : ∃ p ∈ peerEdges db a, p.peer = some g.entityId) (hne : g.entityId ≠ a) :
    ∃ row ∈ neighbourFactRows db (fun _ => []) (reachedFrom config db a),
      row.entityId = g.entityId := by
  have hroom : ([] : List EdgeTuple).length + (peerEdges db a).length
      ≤ config.maxNeighboursPerSeed := by simpa using hfits.1
  obtain ⟨t, ht, htn⟩ := exists_tuple_of_peer (m := .empty) hne rfl _ [] hroom (Or.inr hpeer)
  have hids : (reachedFrom config db a).contains g.entityId = true :=
    List.contains_iff_mem.mpr (List.mem_map.mpr ⟨t, ht, htn⟩)
  -- the rows of the query are facts of peers, so there are not more of them than fit
  have hlen : ((db.store.facts.rows.insertionSort newestFirst).filter
      (fun q => (reachedFrom config db a).contains q.2.entityId && admits [] q.2)).length ≤ 200 := by
    refine le_trans ?_ hfits.2
    refine ((List.perm_insertionSort newestFirst db.store.facts.rows).filter _).length_eq.trans_le ?_
    refine (List.Sublist.length_le (List.monotone_filter_right _ (fun q hq => ?_)))
    rw [Bool.and_eq_true, List.contains_iff_mem] at hq
    obtain ⟨t, ht, htn⟩ := List.mem_map.mp hq.1
    rcases peer_of_mem_foldl _ [] ht with ht | ⟨⟨p, hp, hpt⟩, _⟩
    · exact absurd ht List.not_mem_nil
    · exact List.contains_iff_mem.mpr (List.mem_filterMap.mpr ⟨p, hp, htn ▸ hpt⟩)
  refine ⟨factRowWithEntity db.store (j, g), List.mem_map.mpr ⟨(j, g), ?_, rfl⟩, rfl⟩
  rw [List.take_of_length_le hlen, List.mem_filter, List.mem_insertionSort, hids]
  exact ⟨KeyedTable.mem_rows_iff.mpr hg, rfl⟩

/-- Without edges the walk leaves the buckets as they are. -/
theorem expandViaEdges_eq_self (h : ∀ e, peerEdges db e = []) (config : ExpansionConfig)
    (m : Buckets) (baseWhere : List EntityId → List WhereClause) :
    expandViaEdges config scopes db m baseWhere = m := by
  have htuples : ∀ seeds, edgeTuples config db m seeds = [] := by
    intro seeds
    unfold edgeTuples
    rw [List.flatMap_eq_nil_iff]
    intro s _
    rw [h]
    rfl
  unfold expandViaEdges mergeExpandedNeighbours
  dsimp only
  rw [htuples]
  split
  · rfl
  · rfl

end Walk

end Brain
