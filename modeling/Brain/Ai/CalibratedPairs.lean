/-
Whether a fitted map is calibrated on the pairs it was fitted to.

`fitIsotonic` counts a confidence that is the edge between two bins in the upper one, and
`applyMap` looks it up in the lower one, as a threshold covers what is equal to it. This makes no
difference if the two bins have been pooled, or if the lower one is empty: the map is calibrated
exactly if that is so at each edge between two bins where a pair is
(`isCalibrated_fitIsotonic_iff`).
-/
import Brain.Ai.Isotonic

set_option autoImplicit false

namespace Brain.Isotonic

open PoolAdjacent

/-! ## 1. Calibration -/

/-- The pairs that `applyMap` assigns to a block. -/
def assignedPairs (pairs : List CalibrationPair) (map : CalibrationMap) (j : ℕ) :
    List CalibrationPair :=
  pairs.filter (fun p => decide (assignedBlock map p.rawConfidence = j))

/-- **The map is calibrated on the pairs.** -/
structure IsCalibrated (pairs : List CalibrationPair) (binCount : ℕ) (map : CalibrationMap) :
    Prop where
  means : ∀ j v, map.values[j]? = some v → assignedPairs pairs map j ≠ [] ∧
    meanCorrectness (assignedPairs pairs map j) = v
  same : ∀ p ∈ pairs, assignedBlock map p.rawConfidence = countedBlock map binCount p.rawConfidence

/-- The pairs in the bins from `a` on and before `b`. -/
def pairsFrom (pairs : List CalibrationPair) (binCount a b : ℕ) : List CalibrationPair :=
  pairsIn pairs binCount (fun k => decide (a ≤ k ∧ k < b))

/-- Where a pair is on the edge between two bins that are not empty, some bins before the edge
have a greater mean than some behind it, up to the edge on both sides. -/
def EdgesPooled (pairs : List CalibrationPair) (binCount : ℕ) : Prop :=
  ∀ p ∈ pairs, ∀ k, 0 < k → k < binCount → clamp01 p.rawConfidence * binCount = k →
    inBin pairs binCount (k - 1) ≠ [] → ∃ a b, a < k ∧ k < b ∧ b ≤ binCount ∧
      meanCorrectness (pairsFrom pairs binCount k b) < meanCorrectness (pairsFrom pairs binCount a k)

/-! ## 2. The bins of a confidence -/

section Bins

variable {pairs : List CalibrationPair} {binCount : ℕ}

theorem binIndex_le (c : ℚ) : (binIndex binCount c : ℚ) ≤ clamp01 c * binCount := by
  have hnonneg : 0 ≤ clamp01 c * binCount := mul_nonneg (clamp01_nonneg c) (Nat.cast_nonneg _)
  have hfloor := Nat.floor_le hnonneg
  unfold binIndex
  dsimp only
  split_ifs with h
  · exact (Nat.cast_le.mpr ((Nat.sub_le _ _).trans h)).trans hfloor
  · exact hfloor

theorem le_binIndex_add_one (c : ℚ) : clamp01 c * binCount ≤ (binIndex binCount c + 1 : ℕ) := by
  unfold binIndex
  dsimp only
  split_ifs with h
  · have hle : clamp01 c * binCount ≤ binCount :=
      mul_le_of_le_one_left (Nat.cast_nonneg _) (clamp01_le_one c)
    exact hle.trans (Nat.cast_le.mpr (by omega))
  · rw [Nat.cast_add_one]
    exact (Nat.lt_floor_add_one _).le

theorem binIndex_of_edge {c : ℚ} {k : ℕ} (hc : clamp01 c * binCount = k) (hk : k < binCount) :
    binIndex binCount c = k := by
  rw [binIndex, hc, Nat.floor_natCast]
  exact if_neg (by omega)

theorem binsFrom_append (pairs : List CalibrationPair) (binCount : ℕ) {a b c : ℕ}
    (hab : a ≤ b) (hbc : b ≤ c) :
    binsFrom pairs binCount a b ++ binsFrom pairs binCount b c = binsFrom pairs binCount a c := by
  obtain ⟨m, rfl⟩ := Nat.exists_eq_add_of_le hab
  obtain ⟨n, rfl⟩ := Nat.exists_eq_add_of_le hbc
  rw [binsFrom, binsFrom, binsFrom, ← List.filter_append, Nat.add_sub_cancel_left,
    Nat.add_sub_cancel_left, List.range'_append_1, Nat.add_assoc, Nat.add_sub_cancel_left]

/-- The parts of a range of bins that is cut are ranges of bins. -/
theorem binsFrom_eq_append {a c : ℕ} {l r : List ℕ} (hac : a ≤ c)
    (h : binsFrom pairs binCount a c = l ++ r) :
    ∃ b, a ≤ b ∧ b ≤ c ∧ l = binsFrom pairs binCount a b ∧ r = binsFrom pairs binCount b c := by
  obtain ⟨xs, ys, hrange, rfl, rfl⟩ := List.filter_eq_append_iff.mp h
  obtain ⟨m, hm, rfl, rfl⟩ := List.range'_eq_append_iff.mp hrange
  refine ⟨a + m, by omega, by omega, ?_, ?_⟩
  · rw [binsFrom, Nat.add_sub_cancel_left]
  · rw [binsFrom, ← Nat.sub_sub, Nat.mul_one]

/-- The mean over a range of bins is that of the pairs in them. -/
theorem mean_binsFrom (a b : ℕ) :
    mean (binTotal pairs binCount) (binWeight pairs binCount) (binsFrom pairs binCount a b)
      = meanCorrectness (pairsFrom pairs binCount a b) := by
  have hnodup : (binsFrom pairs binCount a b).Nodup := (List.nodup_range' ..).filter _
  rw [mean_block hnodup, pairsFrom, pairsIn, pairsIn]
  refine congrArg meanCorrectness (List.filter_congr (fun p hp => decide_eq_decide.mpr ?_))
  rw [mem_binsFrom_iff]
  exact and_iff_left (List.ne_nil_of_mem (mem_inBin_binIndex hp))

end Bins

/-! ## 3. The edges of the blocks -/

section Edges

variable {pairs : List CalibrationPair} {binCount : ℕ} {map : CalibrationMap}
  {blocks : List (List ℕ)}

/-- A block ends at this edge. -/
def EndsAt (blocks : List (List ℕ)) (k : ℕ) : Prop := ∃ b ∈ blocks, b.getLastD 0 + 1 = k

/-- **Which pairs are looked up where they are counted**: those that are not on an edge where a
block ends. -/
theorem Fitted.assignedBlock_eq_iff (h : Fitted pairs binCount map blocks) (hbins : 1 ≤ binCount)
    {p : CalibrationPair} (hp : p ∈ pairs) :
    assignedBlock map p.rawConfidence = countedBlock map binCount p.rawConfidence ↔
      ∀ k, 0 < k → k < binCount → clamp01 p.rawConfidence * binCount = k → ¬ EndsAt blocks k := by
  obtain ⟨j, b, hb, hmem⟩ := h.exists_block (binIndex_mem_binsFrom hbins hp)
  -- `j` is the number of the block that has the bin of the pair
  have hcounted : countedBlock map binCount p.rawConfidence = j :=
    (h.countedBlock_eq_iff hbins hp hb).mpr hmem
  rw [hcounted, assignedBlock, h.findIdx_eq_iff hbins (clamp01_le_one _) hb]
  constructor
  · rintro ⟨-, hbefore⟩ k hk hkn hedge ⟨b', hb', hlast⟩
    obtain ⟨j', hj'⟩ := List.mem_iff_getElem?.mp hb'
    rw [binIndex_of_edge hedge hkn] at hmem
    -- the block that ends there is before that of the bin
    have hlt : j' < j := by
      rcases Nat.lt_trichotomy j' j with hlt | rfl | hgt
      · exact hlt
      · rw [hb, Option.some_inj] at hj'
        have := h.le_getLastD (List.mem_of_getElem? hb) hmem
        rw [← hj'] at hlast
        omega
      · have := h.lt_of_lt hb hj' hgt hmem (h.getLastD_mem hb')
        omega
    have hlow := hbefore j' hlt b' hj'
    rw [hlast, hedge] at hlow
    exact lt_irrefl _ hlow
  · intro hends
    have hlast := h.le_getLastD (List.mem_of_getElem? hb) hmem
    refine ⟨.inr ((le_binIndex_add_one _).trans (Nat.cast_le.mpr (Nat.succ_le_succ hlast))),
      fun j' hj' b' hb' => ?_⟩
    have hb'mem := List.mem_of_getElem? hb'
    have hbefore := h.lt_of_lt hb' hb hj' (h.getLastD_mem hb'mem) hmem
    have hle : ((b'.getLastD 0 + 1 : ℕ) : ℚ) ≤ binIndex binCount p.rawConfidence :=
      Nat.cast_le.mpr hbefore
    by_contra hnot
    -- else the confidence is the edge at which that block ends
    have hedge : clamp01 p.rawConfidence * binCount = (b'.getLastD 0 + 1 : ℕ) :=
      le_antisymm (not_lt.mp hnot) (hle.trans (binIndex_le _))
    exact hends (b'.getLastD 0 + 1) (Nat.succ_pos _)
      (lt_of_le_of_lt hbefore (binIndex_lt hbins _)) hedge ⟨b', hb'mem, rfl⟩

/-- Two cuts of a list at the same number are the same. -/
theorem parts_eq_of_append_eq {l r l' r' : List ℕ} {k : ℕ} (h : l ++ r = l' ++ r')
    (hl : ∀ i ∈ l, i < k) (hr : ∀ i ∈ r, k ≤ i) (hl' : ∀ i ∈ l', i < k) (hr' : ∀ i ∈ r', k ≤ i) :
    l = l' ∧ r = r' := by
  rcases List.append_eq_append_iff.mp h with ⟨m, rfl, rfl⟩ | ⟨m, rfl, rfl⟩
  · have hm : m = [] := List.eq_nil_iff_forall_not_mem.mpr (fun i hi => by
      have := hl' i (List.mem_append_right l hi)
      have := hr i (List.mem_append_left r' hi)
      omega)
    simp [hm]
  · have hm : m = [] := List.eq_nil_iff_forall_not_mem.mpr (fun i hi => by
      have := hl i (List.mem_append_right l' hi)
      have := hr' i (List.mem_append_left r hi)
      omega)
    simp [hm]

/-- Where a block ends there is a cut: the bins before the edge are those of the blocks up to it. -/
theorem Fitted.cut_of_endsAt (h : Fitted pairs binCount map blocks) {k : ℕ} (hkn : k < binCount)
    (hends : EndsAt blocks k) : ∃ ls rs, blocks = ls ++ rs ∧
      ls.flatten = binsFrom pairs binCount 0 k ∧ rs.flatten = binsFrom pairs binCount k binCount := by
  obtain ⟨b, hb, hlast⟩ := hends
  obtain ⟨ls, rs, rfl⟩ := List.append_of_mem hb
  have hlt := List.pairwise_append.mp h.bins_lt.2
  have hbefore : ∀ i ∈ (ls ++ [b]).flatten, i < k := by
    intro i hi
    obtain ⟨b', hb', hi⟩ := List.mem_flatten.mp hi
    rcases List.mem_append.mp hb' with hb' | hb'
    · have := hlt.2.2 b' hb' b List.mem_cons_self i hi _ (h.getLastD_mem hb)
      omega
    · rw [List.mem_singleton.mp hb'] at hi
      have := h.le_getLastD hb hi
      omega
  have hbehind : ∀ i ∈ rs.flatten, k ≤ i := by
    intro i hi
    obtain ⟨b', hb', hi⟩ := List.mem_flatten.mp hi
    have := (List.pairwise_cons.mp hlt.2.1).1 b' hb' _ (h.getLastD_mem hb) i hi
    omega
  have hcut : (ls ++ [b]).flatten ++ rs.flatten
      = binsFrom pairs binCount 0 k ++ binsFrom pairs binCount k binCount := by
    rw [binsFrom_append pairs binCount (Nat.zero_le k) hkn.le, ← h.pooling.flatten,
      ← List.flatten_append, List.append_assoc]
    rfl
  obtain ⟨hfirst, hsecond⟩ := parts_eq_of_append_eq hcut hbefore hbehind
    (fun i hi => (mem_binsFrom_iff.mp hi).1.2) (fun i hi => (mem_binsFrom_iff.mp hi).1.1)
  exact ⟨ls ++ [b], rs, by simp, hfirst, hsecond⟩

/-- The bins before an edge end with the one at it, if that is not empty. -/
theorem binsFrom_concat {k : ℕ} (hk : 0 < k) (hbin : inBin pairs binCount (k - 1) ≠ []) :
    binsFrom pairs binCount 0 k = binsFrom pairs binCount 0 (k - 1) ++ [k - 1] := by
  have hone : k - (k - 1) = 1 := by omega
  rw [← binsFrom_append pairs binCount (Nat.zero_le (k - 1)) (Nat.sub_le k 1), binsFrom, binsFrom,
    hone, List.range'_one, List.filter_singleton]
  simp [hbin]

/-- A block ends at an edge if the bin before the edge is not empty and a cut is there. -/
theorem Fitted.endsAt_iff_cut (h : Fitted pairs binCount map blocks) {k : ℕ} (hk : 0 < k)
    (hkn : k < binCount) :
    EndsAt blocks k ↔ inBin pairs binCount (k - 1) ≠ [] ∧ ∃ ls rs, blocks = ls ++ rs ∧
      ls.flatten = binsFrom pairs binCount 0 k ∧ rs.flatten = binsFrom pairs binCount k binCount := by
  constructor
  · intro hends
    refine ⟨?_, h.cut_of_endsAt hkn hends⟩
    obtain ⟨b, hb, hlast⟩ := hends
    have hpred : b.getLastD 0 = k - 1 := by omega
    exact hpred ▸ (mem_binsFrom_iff.mp (h.mem_bins hb (h.getLastD_mem hb))).2
  · rintro ⟨hbin, ls, rs, rfl, hl, _⟩
    rw [binsFrom_concat hk hbin] at hl
    obtain rfl | ⟨ls', b, rfl⟩ := ls.eq_nil_or_concat'
    · simp at hl
    · -- the last of the blocks before the cut ends with the bin before the edge
      have hb : b ∈ ls' ++ [b] ++ rs := by simp
      refine ⟨b, hb, ?_⟩
      obtain ⟨l, i, rfl⟩ := b.eq_nil_or_concat'.resolve_left
        (h.pooling.pooled b hb).weighed.ne_nil
      rw [List.flatten_append, List.flatten_singleton, ← List.append_assoc] at hl
      have hlast := (List.append_inj' hl rfl).2
      rw [List.getLastD_concat, (List.cons.inj hlast).1]
      omega

/-- **Where the blocks end**, by the pairs. -/
theorem Fitted.endsAt_iff (h : Fitted pairs binCount map blocks) {k : ℕ} (hk : 0 < k)
    (hkn : k < binCount) (hne : inBin pairs binCount k ≠ []) :
    EndsAt blocks k ↔ inBin pairs binCount (k - 1) ≠ [] ∧
      ∀ a b, a < k → k < b → b ≤ binCount → meanCorrectness (pairsFrom pairs binCount a k)
        ≤ meanCorrectness (pairsFrom pairs binCount k b) := by
  have hr : binsFrom pairs binCount k binCount ≠ [] :=
    List.ne_nil_of_mem (mem_binsFrom_iff.mpr ⟨⟨le_refl k, hkn⟩, hne⟩)
  rw [h.endsAt_iff_cut hk hkn]
  refine and_congr_right (fun hbin => ?_)
  rw [h.pooling.boundary_iff h.rises
    (binsFrom_append pairs binCount (Nat.zero_le k) hkn.le).symm hr]
  constructor
  · intro hmeans a b hak hkb hbn
    have hp : binsFrom pairs binCount a k ≠ [] :=
      List.ne_nil_of_mem (mem_binsFrom_iff.mpr ⟨by omega, hbin⟩)
    have hq : binsFrom pairs binCount k b ≠ [] :=
      List.ne_nil_of_mem (mem_binsFrom_iff.mpr ⟨by omega, hne⟩)
    rw [← mean_binsFrom, ← mean_binsFrom]
    exact hmeans _ _ hp hq ⟨_, binsFrom_append pairs binCount (Nat.zero_le a) hak.le⟩
      ⟨_, binsFrom_append pairs binCount hkb.le hbn⟩
  · rintro hmeans p q hp hq ⟨l, hl⟩ ⟨r, hr⟩
    obtain ⟨a, _, hak, _, rfl⟩ := binsFrom_eq_append (Nat.zero_le k) hl.symm
    obtain ⟨b, hkb, hbn, rfl, _⟩ := binsFrom_eq_append hkn.le hr.symm
    -- a part that is not empty has some bin
    have hlt : ∀ {x y}, binsFrom pairs binCount x y ≠ [] → x < y := by
      intro x y hxy
      obtain ⟨i, hi⟩ := List.exists_mem_of_ne_nil _ hxy
      have := (mem_binsFrom_iff.mp hi).1
      omega
    rw [mean_binsFrom, mean_binsFrom]
    exact hmeans a b (hlt hp) (hlt hq) hbn

end Edges

/-! ## 4. The fit -/

/-- **When the fit is calibrated on its own pairs**: exactly if, where a pair is on the edge
between two bins with pairs, these bins are pooled. -/
theorem isCalibrated_fitIsotonic_iff (pairs : List CalibrationPair) (binCount : ℕ)
    (hpairs : pairs ≠ []) (hbins : 1 ≤ binCount) :
    IsCalibrated pairs binCount (fitIsotonic pairs binCount) ↔ EdgesPooled pairs binCount := by
  obtain ⟨blocks, h⟩ := fitIsotonic_fitted hpairs hbins
  have hsame : (∀ p ∈ pairs, assignedBlock (fitIsotonic pairs binCount) p.rawConfidence
      = countedBlock (fitIsotonic pairs binCount) binCount p.rawConfidence) ↔
        EdgesPooled pairs binCount := by
    refine forall₂_congr (fun p hp => ?_)
    rw [h.assignedBlock_eq_iff hbins hp]
    refine forall₄_congr (fun k hk hkn hedge => ?_)
    have hne : inBin pairs binCount k ≠ [] :=
      binIndex_of_edge hedge hkn ▸ List.ne_nil_of_mem (mem_inBin_binIndex hp)
    rw [h.endsAt_iff hk hkn hne, not_and]
    refine forall_congr' (fun _ => ?_)
    simp only [not_forall, not_le, exists_prop]
  rw [← hsame]
  -- the means follow: the pairs assigned to a block are those counted in it
  refine ⟨IsCalibrated.same, fun hall => ⟨fun j v hv => ?_, hall⟩⟩
  have hassigned : assignedPairs pairs (fitIsotonic pairs binCount) j = pairs.filter
      (fun p => decide (countedBlock (fitIsotonic pairs binCount) binCount p.rawConfidence = j)) :=
    List.filter_congr (fun p hp => by rw [hall p hp])
  rw [h.getElem?_values] at hv
  obtain ⟨b, hb, rfl⟩ := Option.map_eq_some_iff.mp hv
  rw [hassigned]
  exact ⟨(h.value_eq hbins hb).1, (h.value_eq hbins hb).2.symm⟩

/-- The theorem above for two pairs in the middle of two bins. -/
theorem isCalibrated_fitIsotonic_iff_middle :
    IsCalibrated [⟨1 / 20, 0⟩, ⟨3 / 20, 1⟩] 10 (fitIsotonic [⟨1 / 20, 0⟩, ⟨3 / 20, 1⟩] 10) ↔
      EdgesPooled [⟨1 / 20, 0⟩, ⟨3 / 20, 1⟩] 10 :=
  isCalibrated_fitIsotonic_iff _ _ (List.cons_ne_nil _ _) (by omega)

/-- The fit of two pairs of which one is on the edge between their bins. -/
theorem fitIsotonic_edge : fitIsotonic [⟨1 / 20, 0⟩, ⟨1 / 10, 1⟩] 10
    = { thresholds := [1 / 10, 1], values := [0, 1], sampleCount := 2 } := by
  have hbins : populatedBins 10 (binTotals 10 [⟨1 / 20, 0⟩, ⟨1 / 10, 1⟩])
      = [⟨1 / 10, 0, 1⟩, ⟨1 / 5, 1, 1⟩] := by decide +kernel
  have hfirst : poolStep { populated := [⟨1 / 10, 0, 1⟩, ⟨1 / 5, 1, 1⟩], i := 0 }
      = some { populated := [⟨1 / 10, 0, 1⟩, ⟨1 / 5, 1, 1⟩], i := 1 } := by simp [poolStep]
  have hover : poolStep { populated := [⟨1 / 10, 0, 1⟩, ⟨1 / 5, 1, 1⟩], i := 1 } = none := rfl
  have hloop : poolAdjacentViolators { populated := [⟨1 / 10, 0, 1⟩, ⟨1 / 5, 1, 1⟩], i := 0 }
      = [⟨1 / 10, 0, 1⟩, ⟨1 / 5, 1, 1⟩] := by
    rw [poolAdjacentViolators, hfirst]
    dsimp only
    rw [poolAdjacentViolators, hover]
  rw [fitIsotonic, hbins, hloop]
  rfl

/-- The second pair is counted in the second block and looked up in the first one. -/
theorem edge_pair_not_calibrated :
    ¬ ∀ (pairs : List CalibrationPair) (binCount : ℕ), pairs ≠ [] → 1 ≤ binCount →
      IsCalibrated pairs binCount (fitIsotonic pairs binCount) := by
  intro h
  have hsame := (h [⟨1 / 20, 0⟩, ⟨1 / 10, 1⟩] 10 (List.cons_ne_nil _ _) (by omega)).same
    ⟨1 / 10, 1⟩ (List.mem_cons_of_mem _ (List.mem_singleton_self _))
  rw [fitIsotonic_edge] at hsame
  exact absurd hsame (by decide +kernel)

end Brain.Isotonic
