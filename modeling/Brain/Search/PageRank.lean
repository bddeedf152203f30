/-
The PageRank prior of `src/src/search/internals/ppr.ts` conserves mass.

An iteration gives every candidate its share of the seed and hands on the rest of the mass:
along the edges of a node, in the proportion of their weights, or, from a node without any,
to the seed. What a node hands out is the fixed part of what it has in both cases
(`sum_flowsOf`), so every iterate is a distribution over the candidates. The boost divides
by the greatest share, so its factors are bounded.
-/
import Brain.Lib.KeyMaxima
import Brain.Lib.Mass
import Brain.Search.Ranking
import Mathlib.Data.List.Fold

set_option autoImplicit false

namespace Brain.PageRank

open InsertionMap

/-! ## 1. The adjacency -/

/-- The neighbours of a node are candidates, and no weight is negative. -/
structure Linked (ids : List EntityId) (adj : Adjacency) : Prop where
  keys : adj.keys = ids
  nbrs : ∀ e ∈ adj.entries, ∀ nbr ∈ e.2, nbr.1 ∈ ids ∧ 0 ≤ nbr.2

section Adjacent

variable {ids : List EntityId} {adj : Adjacency} {a : EntityId}

theorem Linked.getD (h : Linked ids adj) (a : EntityId) :
    ∀ nbr ∈ (adj.get? a).getD [], nbr.1 ∈ ids ∧ 0 ≤ nbr.2 := by
  cases hget : adj.get? a with
  | none => exact fun nbr hnbr => absurd hnbr List.not_mem_nil
  | some nbrs => exact h.nbrs _ (mem_of_get? hget)

theorem Linked.pushNeighbour (h : Linked ids adj) (ha : a ∈ ids) {nbr : EntityId × ℚ}
    (hnbr : nbr.1 ∈ ids ∧ 0 ≤ nbr.2) : Linked ids (Brain.pushNeighbour adj a nbr) where
  keys := by
    rw [Brain.pushNeighbour, keys_set_of_mem (h.keys ▸ ha), h.keys]
  nbrs e he n hn := by
    rcases mem_entries_set he with rfl | he
    · rcases List.mem_append.mp hn with hn | hn
      · exact h.getD a n hn
      · rw [List.mem_singleton.mp hn]
        exact hnbr
    · exact h.nbrs e he n hn

/-- Whatever the edges: loops and parallel edges are pushed like all others. -/
theorem linked_buildPprAdjacency (hids : ids.Nodup) (edges : List KnowledgeEdge) :
    Linked ids (buildPprAdjacency ids edges) := by
  have hstart : Linked ids (.ofList (ids.map (fun id => (id, [])))) := by
    have hnd : ((ids.map (fun id => (id, ([] : List (EntityId × ℚ))))).map Prod.fst).Nodup := by
      rw [List.map_map]
      exact (List.map_id ids).symm ▸ hids
    constructor
    · rw [keys_ofList hnd, List.map_map]
      exact List.map_id ids
    · intro e he nbr hnbr
      obtain ⟨id, -, rfl⟩ := List.mem_map.mp (mem_entries_ofList he)
      exact absurd hnbr List.not_mem_nil
  unfold buildPprAdjacency
  generalize InsertionMap.ofList (ids.map (fun id => (id, ([] : List (EntityId × ℚ))))) = adj
    at hstart ⊢
  induction edges generalizing adj with
  | nil => exact hstart
  | cons e edges ih =>
      rw [List.foldl_cons]
      refine ih _ ?_
      split
      · next hhas =>
          rw [Bool.and_eq_true, has, has, decide_eq_true_iff, decide_eq_true_iff,
            hstart.keys] at hhas
          exact (hstart.pushNeighbour hhas.1 ⟨hhas.2, e.weight.2.1⟩).pushNeighbour hhas.2
            ⟨hhas.1, e.weight.2.1⟩
      · exact hstart

end Adjacent

/-! ## 2. The seed -/

/-- The values under the keys, one after the other. -/
theorem map_getD_keys (m : InsertionMap EntityId ℚ) :
    m.keys.map (fun id => (m.get? id).getD 0) = m.values := by
  rw [keys, values, List.map_map]
  refine List.map_congr_left (fun e he => ?_)
  have hget := get?_of_mem (k := e.1) (v := e.2) he
  rw [Function.comp_apply, hget, Option.getD_some]

/-- No share exceeds the total. -/
theorem le_total_of_mem {m : InsertionMap EntityId ℚ} (h : m.Nonneg) {e : EntityId × ℚ}
    (he : e ∈ m.entries) : e.2 ≤ m.total := by
  refine List.single_le_sum (fun v hv => ?_) _ (List.mem_map_of_mem he)
  obtain ⟨e, he, rfl⟩ := List.mem_map.mp hv
  exact h e he

theorem sum_map_div {α : Type} (l : List α) (f : α → ℚ) (c : ℚ) :
    (l.map (fun x => f x / c)).sum = (l.map f).sum / c := by
  simp only [div_eq_mul_inv]
  exact List.sum_map_mul_right ..

/-- **The seed** is a distribution over the candidates, unless all scores are zero. -/
theorem isDistribution_seed {byEntity : Buckets}
    (hpos : ∀ b ∈ byEntity.values, 0 ≤ b.bestScore)
    (hne : ∃ b ∈ byEntity.values, b.bestScore ≠ 0) :
    ∃ seed, buildPprSeed byEntity = some seed ∧ IsDistribution byEntity.keys seed := by
  have hentries : (InsertionMap.ofList (byEntity.entries.map (fun e =>
      (e.1, max e.2.bestScore 0)))).entries
        = byEntity.entries.map (fun e => (e.1, max e.2.bestScore 0)) := by
    refine entries_ofList ?_
    rw [List.map_map]
    exact byEntity.nodup
  unfold buildPprSeed
  dsimp only
  generalize InsertionMap.ofList (byEntity.entries.map (fun e =>
    (e.1, max e.2.bestScore 0))) = seedRaw at hentries ⊢
  have hraw : seedRaw.Nonneg := by
    intro e he
    rw [hentries] at he
    obtain ⟨e', -, rfl⟩ := List.mem_map.mp he
    exact le_max_right _ _
  have hsum : 0 < seedRaw.values.sum := by
    obtain ⟨b, hb, hb0⟩ := hne
    obtain ⟨e, he, rfl⟩ := List.mem_map.mp hb
    have hmem : (e.1, max e.2.bestScore 0) ∈ seedRaw.entries := by
      rw [hentries]
      exact List.mem_map_of_mem he
    have hlt : 0 < max e.2.bestScore 0 :=
      lt_max_of_lt_left (lt_of_le_of_ne (hpos e.2 hb) (Ne.symm hb0))
    exact hlt.trans_le (le_total_of_mem hraw hmem)
  rw [if_neg hsum.ne']
  refine ⟨_, rfl, ?_, fun e he => ?_, ?_⟩
  · rw [keys, mapValues, List.map_map, hentries, List.map_map]
    rfl
  · obtain ⟨e', he', rfl⟩ := List.mem_map.mp he
    exact div_nonneg (hraw e' he') hsum.le
  · have hvalues : (seedRaw.mapValues (fun _ s => s / seedRaw.values.sum)).values
        = seedRaw.values.map (fun s => s / seedRaw.values.sum) := by
      rw [values, mapValues, List.map_map, values, List.map_map]
      rfl
    rw [total, hvalues, sum_map_div, List.map_id', div_self hsum.ne']

/-! ## 3. An iteration -/

section Iteration

variable {ids : List EntityId} {adj : Adjacency} {seed r : InsertionMap EntityId ℚ}

theorem alpha_bounds : 0 < PPR_ALPHA ∧ PPR_ALPHA < 1 := by
  unfold PPR_ALPHA
  norm_num

theorem outWeight_nonneg (hadj : Linked ids adj) (src : EntityId) : 0 ≤ outWeight adj src := by
  refine List.sum_nonneg (fun w hw => ?_)
  obtain ⟨nbr, hnbr, rfl⟩ := List.mem_map.mp hw
  exact (hadj.getD src nbr hnbr).2

/-- Flows go to candidates, and none is negative. -/
theorem flowsOf_bounds (hadj : Linked ids adj) (hseed : IsDistribution ids seed)
    {src : EntityId × ℚ} (hsrc : 0 ≤ src.2) :
    ∀ flow ∈ flowsOf adj seed src, flow.1 ∈ ids ∧ 0 ≤ flow.2 := by
  have hmass : 0 ≤ PPR_ALPHA * src.2 := mul_nonneg alpha_bounds.1.le hsrc
  intro flow hflow
  unfold flowsOf at hflow
  dsimp only at hflow
  split at hflow
  · obtain ⟨s, hs, rfl⟩ := List.mem_map.mp hflow
    have hmem : s.1 ∈ ids := hseed.keys ▸ List.mem_map_of_mem (f := Prod.fst) hs
    exact ⟨hmem, mul_nonneg hmass (hseed.nonneg s hs)⟩
  · obtain ⟨nbr, hnbr, rfl⟩ := List.mem_map.mp hflow
    obtain ⟨hmem, hw⟩ := hadj.getD src.1 nbr hnbr
    exact ⟨hmem, mul_nonneg hmass (div_nonneg hw (outWeight_nonneg hadj src.1))⟩

/-- **What a node hands out** is the same part of its mass with edges and without. -/
theorem sum_flowsOf (hseed : IsDistribution ids seed) (src : EntityId × ℚ) :
    ((flowsOf adj seed src).map Prod.snd).sum = PPR_ALPHA * src.2 := by
  unfold flowsOf
  dsimp only
  split
  · have htotal : (seed.entries.map Prod.snd).sum = 1 := hseed.total
    rw [List.map_map]
    show (seed.entries.map (fun s => PPR_ALPHA * src.2 * s.2)).sum = _
    rw [List.sum_map_mul_left, htotal, mul_one]
  · next how =>
      rw [List.map_map]
      show (((adj.get? src.1).getD []).map (fun nbr =>
        PPR_ALPHA * src.2 * (nbr.2 / outWeight adj src.1))).sum = _
      have hshares : (((adj.get? src.1).getD []).map (fun nbr =>
          nbr.2 / outWeight adj src.1)).sum = 1 := by
        rw [sum_map_div]
        exact div_self how
      rw [List.sum_map_mul_left, hshares, mul_one]

/-- The iteration as one list of credits. -/
theorem pprStep_eq (ids : List EntityId) (adj : Adjacency) (seed r : InsertionMap EntityId ℚ) :
    pprStep ids adj seed r
      = (r.entries.flatMap (flowsOf adj seed)).foldl (fun m e => m.credit e.1 e.2)
        (.ofList (ids.map (fun id => (id, (1 - PPR_ALPHA) * (seed.get? id).getD 0)))) := by
  rw [List.foldl_flatMap]
  rfl

/-- What every candidate starts an iteration with: its share of the fixed part of the seed. -/
theorem teleport_spec (hids : ids.Nodup) (hseed : IsDistribution ids seed)
    {next : InsertionMap EntityId ℚ}
    (hentries : next.entries = ids.map (fun id => (id, (1 - PPR_ALPHA) * (seed.get? id).getD 0))) :
    next.keys = ids ∧ next.Nonneg ∧ next.total = 1 - PPR_ALPHA := by
  refine ⟨?_, fun e he => ?_, ?_⟩
  · rw [keys, hentries, List.map_map]
    exact List.map_id ids
  · rw [hentries] at he
    obtain ⟨id, -, rfl⟩ := List.mem_map.mp he
    exact mul_nonneg (sub_nonneg.mpr alpha_bounds.2.le) (hseed.nonneg.getD id)
  · have hvalues : next.values = ids.map (fun id => (1 - PPR_ALPHA) * (seed.get? id).getD 0) := by
      rw [values, hentries, List.map_map]
      rfl
    have hsum : (ids.map (fun id => (seed.get? id).getD 0)).sum = 1 := by
      rw [← hseed.keys, map_getD_keys]
      exact hseed.total
    rw [total, hvalues, List.sum_map_mul_left, hsum, mul_one]

/-- All nodes together hand out the other part of the mass. -/
theorem sum_flows (hseed : IsDistribution ids seed) (hr : IsDistribution ids r) :
    ((r.entries.flatMap (flowsOf adj seed)).map Prod.snd).sum = PPR_ALPHA := by
  have hall : (r.entries.map Prod.snd).sum = 1 := hr.total
  rw [List.map_flatMap, List.flatMap_def, List.sum_flatten, List.map_map]
  show (r.entries.map (fun src => ((flowsOf adj seed src).map Prod.snd).sum)).sum = _
  simp only [sum_flowsOf hseed]
  rw [List.sum_map_mul_left, hall, mul_one]

/-- **An iteration keeps a distribution a distribution.** -/
theorem isDistribution_pprStep (hids : ids.Nodup) (hadj : Linked ids adj)
    (hseed : IsDistribution ids seed) (hr : IsDistribution ids r) :
    IsDistribution ids (pprStep ids adj seed r) := by
  have hnd : ((ids.map (fun id =>
      (id, (1 - PPR_ALPHA) * (seed.get? id).getD 0))).map Prod.fst).Nodup := by
    rw [List.map_map]
    exact (List.map_id ids).symm ▸ hids
  obtain ⟨hkeys, hnonneg, htotal⟩ := teleport_spec hids hseed (entries_ofList hnd)
  rw [pprStep_eq]
  have hflows : ∀ flow ∈ r.entries.flatMap (flowsOf adj seed), flow.1 ∈ ids ∧ 0 ≤ flow.2 := by
    intro flow hflow
    obtain ⟨src, hsrc, hflow⟩ := List.mem_flatMap.mp hflow
    exact flowsOf_bounds hadj hseed (hr.nonneg src hsrc) flow hflow
  -- the flows stay among the candidates, so crediting them makes no new key
  obtain ⟨hk, ht⟩ := total_credits (r.entries.flatMap (flowsOf adj seed)) _
    (fun flow hflow => hkeys.symm ▸ (hflows flow hflow).1)
  refine ⟨hk.trans hkeys, hnonneg.credits (fun flow hflow => (hflows flow hflow).2), ?_⟩
  rw [ht, htotal, sum_flows hseed hr]
  ring

/-- So every iterate is one. -/
theorem isDistribution_iterate (hids : ids.Nodup) (hadj : Linked ids adj)
    (hseed : IsDistribution ids seed) (n : ℕ) :
    IsDistribution ids ((pprStep ids adj seed)^[n] seed) := by
  induction n with
  | zero => exact hseed
  | succ n ih =>
      rw [Function.iterate_succ_apply']
      exact isDistribution_pprStep hids hadj hseed ih

end Iteration

/-! ## 4. The boost -/

section Boost

variable {ids : List EntityId} {r : InsertionMap EntityId ℚ} {id : EntityId}

/-- What the score of an entity is multiplied by. -/
def boostFactor (r : InsertionMap EntityId ℚ) (id : EntityId) : ℚ :=
  1 + PPR_BOOST_BETA * ((r.get? id).getD 0 / r.values.foldl max 0)

/-- The greatest share of a distribution is positive, and it is one of the shares. -/
theorem maxShare_spec (hr : IsDistribution ids r) :
    0 < r.values.foldl max 0 ∧ (∀ v ∈ r.values, v ≤ r.values.foldl max 0) ∧
      r.values.foldl max 0 ∈ r.values := by
  have hfold : r.values.foldl max 0 = r.values.foldr max 0 := List.foldl_eq_foldr
  obtain ⟨h0, hall, hmem⟩ := KeyMaxima.foldr_max_spec 0 r.values
  have hpos : 0 < r.values.foldr max 0 := by
    refine lt_of_le_of_ne h0 (fun heq => ?_)
    -- otherwise all shares are zero
    have hzero : r.values.sum ≤ r.values.length • (0 : ℚ) := by
      refine List.sum_le_card_nsmul _ _ (fun v hv => ?_)
      rw [heq]
      exact hall v hv
    rw [smul_zero] at hzero
    have htotal : r.values.sum = 1 := hr.total
    linarith
  rw [hfold]
  exact ⟨hpos, hall, hmem.resolve_left hpos.ne'⟩

theorem getD_le_maxShare (hr : IsDistribution ids r) (id : EntityId) :
    (r.get? id).getD 0 ≤ r.values.foldl max 0 := by
  obtain ⟨hpos, hall, -⟩ := maxShare_spec hr
  cases hget : r.get? id with
  | none => exact hpos.le
  | some v => exact hall v (List.mem_map_of_mem (mem_of_get? hget))

theorem boostFactor_bounds (hr : IsDistribution ids r) (id : EntityId) :
    1 ≤ boostFactor r id ∧ boostFactor r id ≤ 3 / 2 := by
  have hpos := (maxShare_spec hr).1
  have h0 := div_nonneg (hr.nonneg.getD id) hpos.le
  have h1 := (div_le_one hpos).mpr (getD_le_maxShare hr id)
  unfold boostFactor PPR_BOOST_BETA
  constructor <;> linarith

/-- An entity with the greatest share gets the whole boost. -/
theorem boostFactor_of_greatest (hr : IsDistribution ids r)
    (h : ∀ v ∈ r.values, v ≤ (r.get? id).getD 0) : boostFactor r id = 3 / 2 := by
  obtain ⟨hpos, -, hmem⟩ := maxShare_spec hr
  have heq : (r.get? id).getD 0 = r.values.foldl max 0 :=
    le_antisymm (getD_le_maxShare hr id) (h _ hmem)
  unfold boostFactor PPR_BOOST_BETA
  rw [heq, div_self hpos.ne']
  norm_num

theorem get?_applyPprBoost (hr : IsDistribution ids r) (byEntity : Buckets) (id : EntityId) :
    (applyPprBoost byEntity r).get? id
      = (byEntity.get? id).map (fun b => { b with rankScore := b.rankScore * boostFactor r id }) := by
  unfold applyPprBoost
  dsimp only
  rw [if_neg (maxShare_spec hr).1.ne', get?_mapValues]
  rfl

end Boost

/-- **The PageRank prior conserves mass, and its boost is bounded.** Every iterate is a
distribution over the candidates, whatever the edges. -/
theorem pprPrior_conserves (byEntity : Buckets) (hpos : ∀ b ∈ byEntity.values, 0 ≤ b.bestScore)
    (hne : ∃ b ∈ byEntity.values, b.bestScore ≠ 0) (edges : List KnowledgeEdge) :
    ∃ seed, buildPprSeed byEntity = some seed ∧ ∀ n : ℕ,
      let adj := buildPprAdjacency byEntity.keys edges
      let r := (pprStep byEntity.keys adj seed)^[n] seed
      r.keys = byEntity.keys ∧ (∀ v ∈ r.values, 0 ≤ v) ∧ r.values.sum = 1 ∧
      ∀ id b, byEntity.get? id = some b → ∃ factor : ℚ, 1 ≤ factor ∧ factor ≤ 3 / 2 ∧
        (applyPprBoost byEntity r).get? id = some { b with rankScore := b.rankScore * factor } ∧
        ((∀ v ∈ r.values, v ≤ (r.get? id).getD 0) → factor = 3 / 2) := by
  obtain ⟨seed, hseed, hdist⟩ := isDistribution_seed hpos hne
  refine ⟨seed, hseed, fun n => ?_⟩
  intro adj r
  have hr : IsDistribution byEntity.keys r :=
    isDistribution_iterate byEntity.nodup (linked_buildPprAdjacency byEntity.nodup edges) hdist n
  refine ⟨hr.keys, fun v hv => ?_, hr.total, fun id b hb => ?_⟩
  · obtain ⟨e, he, rfl⟩ := List.mem_map.mp hv
    exact hr.nonneg e he
  · obtain ⟨hlower, hupper⟩ := boostFactor_bounds hr id
    refine ⟨boostFactor r id, hlower, hupper, ?_, boostFactor_of_greatest hr⟩
    rw [get?_applyPprBoost hr, hb, Option.map_some]

/-- Two candidates. -/
def twoCandidates : Buckets :=
  .ofList [(1, { entityId := 1, rankScore := 1, bestScore := 1, facts := [] }),
    (2, { entityId := 2, rankScore := 1, bestScore := 3, facts := [] })]

/-- The theorem above for two candidates that no edge connects. -/
theorem pprPrior_conserves_two :
    ∃ seed, buildPprSeed twoCandidates = some seed ∧
      ((pprStep twoCandidates.keys (buildPprAdjacency twoCandidates.keys []) seed)^[2] seed).values.sum
        = 1 := by
  obtain ⟨seed, hseed, h⟩ := pprPrior_conserves twoCandidates (by decide +kernel)
    (by decide +kernel) []
  exact ⟨seed, hseed, (h 2).2.2.1⟩

end Brain.PageRank
