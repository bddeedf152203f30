/-
`src/src/ai/calibration/isotonic.ts`: the monotone map from raw to calibrated confidence that is
fitted to the training pairs by pooling adjacent violators. The numbers are exact.

The loop keeps a cursor, before which the means rise; it moves on or pools two neighbours and
goes back one, and twice the number of blocks less the cursor falls with each step. When it ends
the blocks are those of `Brain.PoolAdjacent`: the fit is the isotonic regression
(`fitIsotonic_isIsotonicFit`).
-/
import Brain.Lib.PoolAdjacent
import Mathlib.Algebra.Order.Floor.Ring
import Mathlib.Data.Rat.Floor
import Mathlib.Data.List.Sort
import Mathlib.Tactic

set_option autoImplicit false

namespace Brain.Isotonic

open PoolAdjacent

/-! ## 1. The source -/

/-- `CalibrationPair`. -/
structure CalibrationPair where
  rawConfidence : ℚ
  correctness : Fin 2

/-- `CalibrationMap`. -/
structure CalibrationMap where
  thresholds : List ℚ
  values : List ℚ
  sampleCount : ℕ

/-- `clamp01`; all numbers are finite. -/
def clamp01 (x : ℚ) : ℚ := if x < 0 then 0 else if 1 < x then 1 else x

/-- `idx`: the bin of a confidence. -/
def binIndex (binCount : ℕ) (rawConfidence : ℚ) : ℕ :=
  let idx := ⌊clamp01 rawConfidence * binCount⌋₊
  if binCount ≤ idx then binCount - 1 else idx

/-- `binSums` and `binCounts`. -/
structure BinTotals where
  binSums : List ℕ
  binCounts : List ℕ

/-- A pair is added to its bin. -/
def BinTotals.add (binCount : ℕ) (bins : BinTotals) (p : CalibrationPair) : BinTotals :=
  let idx := binIndex binCount p.rawConfidence
  { binSums := bins.binSums.modify idx (· + p.correctness)
    binCounts := bins.binCounts.modify idx (· + 1) }

/-- `sorted`: by raw confidence. -/
def sorted (pairs : List CalibrationPair) : List CalibrationPair :=
  pairs.insertionSort (fun a b => a.rawConfidence ≤ b.rawConfidence)

/-- The pairs in their bins. -/
def binTotals (binCount : ℕ) (pairs : List CalibrationPair) : BinTotals :=
  (sorted pairs).foldl (BinTotals.add binCount)
    ⟨List.replicate binCount 0, List.replicate binCount 0⟩

/-- An element of `populated`. -/
structure PopulatedBin where
  upper : ℚ
  mean : ℚ
  weight : ℚ
deriving DecidableEq

/-- `populated`, before the pooling. -/
def populatedBins (binCount : ℕ) (bins : BinTotals) : List PopulatedBin :=
  (List.range binCount).filterMap (fun i =>
    if bins.binCounts.getD i 0 = 0 then none
    else some
      { upper := ((i + 1 : ℕ) : ℚ) / binCount
        mean := (bins.binSums.getD i 0 : ℚ) / bins.binCounts.getD i 0
        weight := bins.binCounts.getD i 0 })

/-- The two bins merged. -/
def mergeBins (b b' : PopulatedBin) : PopulatedBin where
  upper := b'.upper
  mean := (b.mean * b.weight + b'.mean * b'.weight) / (b.weight + b'.weight)
  weight := b.weight + b'.weight

/-- The variables of the pooling loop. -/
structure PoolState where
  populated : List PopulatedBin
  i : ℕ

/-- The body of the pooling loop; `none` when the loop is over. -/
def poolStep (s : PoolState) : Option PoolState :=
  match s.populated[s.i]?, s.populated[s.i + 1]? with
  | some b, some b' =>
      if b.mean ≤ b'.mean then some { s with i := s.i + 1 }
      else some
        { populated := (s.populated.set s.i (mergeBins b b')).eraseIdx (s.i + 1)
          i := s.i - 1 }
  | _, _ => none

/-- What a step of the loop does. -/
theorem poolStep_cases {s s' : PoolState} (h : poolStep s = some s') :
    ∃ b b', s.populated[s.i]? = some b ∧ s.populated[s.i + 1]? = some b' ∧
      ((b.mean ≤ b'.mean ∧ s' = { s with i := s.i + 1 }) ∨
        (b'.mean < b.mean ∧
          s' = { populated := (s.populated.set s.i (mergeBins b b')).eraseIdx (s.i + 1)
                 i := s.i - 1 })) := by
  unfold poolStep at h
  split at h
  · next b b' hb hb' =>
      split at h
      · next hle => exact ⟨b, b', hb, hb', .inl ⟨hle, (Option.some_inj.mp h).symm⟩⟩
      · next hle => exact ⟨b, b', hb, hb', .inr ⟨not_le.mp hle, (Option.some_inj.mp h).symm⟩⟩
  · cases h

/-- The measure of the loop: the cursor goes back only when a block is gone. -/
def PoolState.measure (s : PoolState) : ℕ := 2 * s.populated.length - s.i

theorem poolStep_measure {s s' : PoolState} (h : poolStep s = some s') :
    s'.measure < s.measure := by
  obtain ⟨b, b', _, hb', ⟨_, rfl⟩ | ⟨_, rfl⟩⟩ := poolStep_cases h
  · have hlt := (List.getElem?_eq_some_iff.mp hb').1
    simp only [PoolState.measure]
    omega
  · have hlt := (List.getElem?_eq_some_iff.mp hb').1
    have hlen : ((s.populated.set s.i (mergeBins b b')).eraseIdx (s.i + 1)).length + 1
        = s.populated.length := by
      rw [List.length_eraseIdx_add_one (by rw [List.length_set]; exact hlt), List.length_set]
    simp only [PoolState.measure]
    omega

/-- **The pooling loop terminates** from every state. -/
theorem wellFounded_poolStep : WellFounded (fun s' s => poolStep s = some s') :=
  Subrelation.wf poolStep_measure (InvImage.wf PoolState.measure Nat.lt_wfRel.wf)

/-- The pooling loop. -/
def poolAdjacentViolators (s : PoolState) : List PopulatedBin :=
  match _hstep : poolStep s with
  | none => s.populated
  | some s' => poolAdjacentViolators s'
termination_by s.measure
decreasing_by exact poolStep_measure _hstep

/-- `populated[populated.length - 1].upper = 1`. -/
def forceLast (populated : List PopulatedBin) : List PopulatedBin :=
  populated.modify (populated.length - 1) (fun b => { b with upper := 1 })

/-- `fitIsotonic`. -/
def fitIsotonic (pairs : List CalibrationPair) (binCount : ℕ) : CalibrationMap :=
  if pairs.length = 0 then { thresholds := [1], values := [1], sampleCount := 0 }
  else
    let populated := poolAdjacentViolators
      { populated := populatedBins binCount (binTotals binCount pairs), i := 0 }
    if populated.length = 0 then
      { thresholds := [1], values := [1], sampleCount := pairs.length }
    else
      { thresholds := (forceLast populated).map PopulatedBin.upper
        values := (forceLast populated).map PopulatedBin.mean
        sampleCount := pairs.length }

/-- `applyMap`. -/
def applyMap (map : CalibrationMap) (rawConfidence : ℚ) : ℚ :=
  let c := clamp01 rawConfidence
  match map.thresholds.findIdx? (fun t => decide (c ≤ t)) with
  | some i => clamp01 (map.values.getD i 0)
  | none => clamp01 (map.values.getLastD 0)

/-! ## 2. The bins -/

/-- The pairs whose bin satisfies a condition. -/
def pairsIn (pairs : List CalibrationPair) (binCount : ℕ) (P : ℕ → Bool) : List CalibrationPair :=
  pairs.filter (fun p => P (binIndex binCount p.rawConfidence))

/-- How many of the pairs are correct. -/
def correct (pairs : List CalibrationPair) : ℕ := (pairs.map (fun p => (p.correctness : ℕ))).sum

/-- The mean of the correctness. -/
def meanCorrectness (pairs : List CalibrationPair) : ℚ := (correct pairs : ℚ) / pairs.length

/-- The pairs in a bin. -/
def inBin (pairs : List CalibrationPair) (binCount i : ℕ) : List CalibrationPair :=
  pairsIn pairs binCount (fun k => decide (k = i))

section Bins

variable {pairs : List CalibrationPair} {binCount : ℕ}

theorem clamp01_nonneg (x : ℚ) : 0 ≤ clamp01 x := by
  unfold clamp01
  split_ifs with h0 h1
  · exact le_refl 0
  · exact zero_le_one
  · exact not_lt.mp h0

theorem clamp01_le_one (x : ℚ) : clamp01 x ≤ 1 := by
  unfold clamp01
  split_ifs with h0 h1
  · exact zero_le_one
  · exact le_refl 1
  · exact not_lt.mp h1

theorem clamp01_of_mem {x : ℚ} (h0 : 0 ≤ x) (h1 : x ≤ 1) : clamp01 x = x := by
  rw [clamp01, if_neg (not_lt.mpr h0), if_neg (not_lt.mpr h1)]

theorem monotone_clamp01 : Monotone clamp01 := by
  intro x y hxy
  unfold clamp01
  split_ifs <;> linarith

theorem binIndex_lt (hbins : 1 ≤ binCount) (c : ℚ) : binIndex binCount c < binCount := by
  unfold binIndex
  dsimp only
  split_ifs with h
  · omega
  · omega

theorem inBin_cons_self {p : CalibrationPair} {l : List CalibrationPair} {i : ℕ}
    (h : binIndex binCount p.rawConfidence = i) :
    inBin (p :: l) binCount i = p :: inBin l binCount i := by
  rw [inBin, pairsIn, List.filter_cons_of_pos (by simpa using h)]
  rfl

theorem inBin_cons_of_ne {p : CalibrationPair} {l : List CalibrationPair} {i : ℕ}
    (h : binIndex binCount p.rawConfidence ≠ i) :
    inBin (p :: l) binCount i = inBin l binCount i := by
  rw [inBin, pairsIn, List.filter_cons_of_neg (by simpa using h)]
  rfl

/-- Adding pairs one by one counts them by bin. -/
theorem foldl_add (binCount : ℕ) (l : List CalibrationPair) : ∀ bins : BinTotals,
    ∀ i, i < bins.binSums.length → i < bins.binCounts.length →
      (l.foldl (BinTotals.add binCount) bins).binSums.getD i 0
          = bins.binSums.getD i 0 + correct (inBin l binCount i) ∧
        (l.foldl (BinTotals.add binCount) bins).binCounts.getD i 0
          = bins.binCounts.getD i 0 + (inBin l binCount i).length := by
  induction l with
  | nil => exact fun bins i _ _ => ⟨rfl, rfl⟩
  | cons p l ih =>
      intro bins i hs hc
      have hadd := ih (bins.add binCount p) i (by simpa [BinTotals.add] using hs)
        (by simpa [BinTotals.add] using hc)
      rw [List.foldl_cons, hadd.1, hadd.2]
      -- the first pair is in this bin, or leaves it as it is
      by_cases hi : binIndex binCount p.rawConfidence = i
      · rw [inBin_cons_self hi]
        constructor
        · simp [BinTotals.add, hi, correct, List.getD_eq_getElem?_getD, hs]
          omega
        · simp [BinTotals.add, hi, List.getD_eq_getElem?_getD, hc]
          omega
      · rw [inBin_cons_of_ne hi]
        constructor
        · simp [BinTotals.add, hi, List.getD_eq_getElem?_getD]
        · simp [BinTotals.add, hi, List.getD_eq_getElem?_getD]

/-- **The totals of a bin** are those of the pairs in it. -/
theorem binTotals_getD (pairs : List CalibrationPair) {i : ℕ} (hi : i < binCount) :
    (binTotals binCount pairs).binSums.getD i 0 = correct (inBin pairs binCount i) ∧
      (binTotals binCount pairs).binCounts.getD i 0 = (inBin pairs binCount i).length := by
  -- sorting the pairs changes neither a sum nor a count
  have hperm : (inBin (sorted pairs) binCount i).Perm (inBin pairs binCount i) :=
    (List.perm_insertionSort _ pairs).filter _
  have hadd := foldl_add binCount (sorted pairs)
    ⟨List.replicate binCount 0, List.replicate binCount 0⟩ i (by simpa using hi)
    (by simpa using hi)
  rw [binTotals, hadd.1, hadd.2, hperm.length_eq]
  constructor
  · rw [correct, (hperm.map _).sum_eq, ← correct]
    simp [hi]
  · simp [hi]

end Bins

/-! ## 3. The pooling -/

section Pooling

variable (pairs : List CalibrationPair) (binCount : ℕ)

/-- The number of correct pairs in a bin. -/
def binTotal (i : ℕ) : ℚ := correct (inBin pairs binCount i)

/-- The number of pairs in a bin. -/
def binWeight (i : ℕ) : ℚ := (inBin pairs binCount i).length

/-- The bins from `a` on and before `b` that are not empty. -/
def binsFrom (a b : ℕ) : List ℕ :=
  (List.range' a (b - a)).filter (fun i => decide (inBin pairs binCount i ≠ []))

/-- The upper bound of the last bin of a block. -/
def blockUpper (block : List ℕ) : ℚ := ((block.getLastD 0 + 1 : ℕ) : ℚ) / binCount

/-- The element of `populated` that a block of bins has become. -/
def blockBin (block : List ℕ) : PopulatedBin where
  upper := blockUpper binCount block
  mean := mean (binTotal pairs binCount) (binWeight pairs binCount) block
  weight := (block.map (binWeight pairs binCount)).sum

/-- **The invariant of the loop**: the array holds the pooled blocks, and the means rise up to the
cursor. -/
structure PoolInvariant (s : PoolState) (blocks : List (List ℕ)) : Prop where
  pooling : Pooling (binTotal pairs binCount) (binWeight pairs binCount)
    (binsFrom pairs binCount 0 binCount) blocks
  populated : s.populated = blocks.map (blockBin pairs binCount)
  rises : (blocks.take (s.i + 1)).IsChain (fun b b' =>
    mean (binTotal pairs binCount) (binWeight pairs binCount) b
      ≤ mean (binTotal pairs binCount) (binWeight pairs binCount) b')

variable {pairs binCount}

theorem mem_binsFrom_iff {a b i : ℕ} :
    i ∈ binsFrom pairs binCount a b ↔ (a ≤ i ∧ i < b) ∧ inBin pairs binCount i ≠ [] := by
  rw [binsFrom, List.mem_filter, List.mem_range'_1, decide_eq_true_eq]
  constructor
  · rintro ⟨hi, hne⟩
    exact ⟨by omega, hne⟩
  · rintro ⟨hi, hne⟩
    exact ⟨by omega, hne⟩

theorem binWeight_pos {i : ℕ} (h : inBin pairs binCount i ≠ []) :
    0 < binWeight pairs binCount i :=
  Nat.cast_pos.mpr (List.length_pos_iff.mpr h)

/-- The array before the loop. -/
theorem populatedBins_eq : populatedBins binCount (binTotals binCount pairs)
    = ((binsFrom pairs binCount 0 binCount).map (fun i => [i])).map (blockBin pairs binCount) := by
  rw [populatedBins, binsFrom, Nat.sub_zero, ← List.range_eq_range', List.map_map,
    ← List.filterMap_eq_map, List.filterMap_filter]
  refine List.filterMap_congr (fun i hi => ?_)
  obtain ⟨hsum, hcount⟩ := binTotals_getD pairs (List.mem_range.mp hi)
  rw [hsum, hcount]
  -- an empty bin is skipped on both sides
  by_cases hne : inBin pairs binCount i = []
  · simp [hne]
  · have hlen : (inBin pairs binCount i).length ≠ 0 := fun h => hne (List.length_eq_zero_iff.mp h)
    rw [if_neg hlen, if_pos (by simpa using hne)]
    simp [blockBin, blockUpper, mean, binTotal, binWeight]

theorem poolInvariant_start (pairs : List CalibrationPair) (binCount : ℕ) : PoolInvariant pairs binCount
    { populated := populatedBins binCount (binTotals binCount pairs), i := 0 }
    ((binsFrom pairs binCount 0 binCount).map (fun i => [i])) := by
  refine ⟨Pooling.start (fun i hi => binWeight_pos (mem_binsFrom_iff.mp hi).2), populatedBins_eq, ?_⟩
  cases (binsFrom pairs binCount 0 binCount).map (fun i => [i]) with
  | nil => exact List.isChain_nil
  | cons b blocks => exact List.isChain_singleton b

/-- Two neighbours in a list. -/
theorem exists_split {α : Type*} {l : List α} {i : ℕ} {x y : α} (hx : l[i]? = some x)
    (hy : l[i + 1]? = some y) : ∃ before after, l = before ++ x :: y :: after ∧ before.length = i := by
  obtain ⟨hi, hx⟩ := List.getElem?_eq_some_iff.mp hx
  obtain ⟨hi', hy⟩ := List.getElem?_eq_some_iff.mp hy
  refine ⟨l.take i, l.drop (i + 2), ?_, List.length_take_of_le hi.le⟩
  rw [← hx, ← hy, List.cons_getElem_drop_succ, List.cons_getElem_drop_succ, List.take_append_drop]

theorem eraseIdx_set_append {α : Type*} (before after : List α) (x y z : α) :
    ((before ++ x :: y :: after).set before.length z).eraseIdx (before.length + 1)
      = before ++ z :: after := by
  rw [List.set_append_right _ _ (le_refl _), Nat.sub_self, List.set_cons_zero,
    List.eraseIdx_append_of_length_le (by omega)]
  simp

/-- Merging the bins of two blocks. -/
theorem mergeBins_blockBin {p q : List ℕ}
    (hp : Weighed (binWeight pairs binCount) p) (hq : Weighed (binWeight pairs binCount) q) :
    mergeBins (blockBin pairs binCount p) (blockBin pairs binCount q)
      = blockBin pairs binCount (p ++ q) := by
  have hupper : blockUpper binCount (p ++ q) = blockUpper binCount q := by
    obtain ⟨l, i, rfl⟩ := q.eq_nil_or_concat'.resolve_left hq.ne_nil
    rw [blockUpper, blockUpper, ← List.append_assoc, List.getLastD_concat, List.getLastD_concat]
  rw [mergeBins, blockBin, blockBin, blockBin, hupper, hp.mean_append hq, List.map_append,
    List.sum_append]

/-- **A step of the loop** keeps its invariant. -/
theorem PoolInvariant.step {s s' : PoolState} {blocks : List (List ℕ)}
    (h : PoolInvariant pairs binCount s blocks) (hs : poolStep s = some s') :
    ∃ blocks', PoolInvariant pairs binCount s' blocks' := by
  obtain ⟨b, b', hb, hb', hcase⟩ := poolStep_cases hs
  rw [h.populated, List.getElem?_map] at hb hb'
  obtain ⟨p, hp, rfl⟩ := Option.map_eq_some_iff.mp hb
  obtain ⟨q, hq, rfl⟩ := Option.map_eq_some_iff.mp hb'
  obtain ⟨before, after, rfl, hlen⟩ := exists_split hp hq
  -- up to the cursor are the blocks before the two neighbours, and the first of them
  have hrises := h.rises
  have htake : (before ++ p :: q :: after).take (s.i + 1) = before ++ [p] := by
    rw [← hlen, List.take_length_add_append]
    rfl
  rw [htake] at hrises
  rcases hcase with ⟨hle, rfl⟩ | ⟨hlt, rfl⟩
  · -- the cursor moves on
    refine ⟨before ++ p :: q :: after, h.pooling, h.populated, ?_⟩
    have hnext : (before ++ p :: q :: after).take (s.i + 1 + 1) = before ++ [p, q] := by
      rw [← hlen, Nat.add_assoc, List.take_length_add_append]
      rfl
    rw [hnext]
    exact List.isChain_append_cons_cons.mpr ⟨hrises, hle, List.isChain_singleton q⟩
  · -- the two neighbours are pooled
    have hwp := (h.pooling.pooled p (by simp)).weighed
    have hwq := (h.pooling.pooled q (by simp)).weighed
    refine ⟨before ++ (p ++ q) :: after, h.pooling.merge hlt, ?_, ?_⟩
    · have hset := eraseIdx_set_append (before.map (blockBin pairs binCount))
        (after.map (blockBin pairs binCount)) (blockBin pairs binCount p)
        (blockBin pairs binCount q) (blockBin pairs binCount (p ++ q))
      rw [List.length_map, hlen] at hset
      simp only [h.populated, List.map_append, List.map_cons, mergeBins_blockBin hwp hwq]
      exact hset
    · -- the cursor goes back to where the means still rise
      have hbefore := hrises.left_of_append
      rcases Nat.eq_zero_or_pos s.i with hzero | hpos
      · have hnil : before = [] := List.length_eq_zero_iff.mp (hlen.trans hzero)
        simp [hnil, hzero]
      · have hprev : (before ++ (p ++ q) :: after).take (s.i - 1 + 1) = before := by
          rw [Nat.sub_add_cancel hpos, ← hlen, List.take_left]
        simp only [hprev]
        exact hbefore

/-- When the loop is over the means rise. -/
theorem PoolInvariant.over {s : PoolState} {blocks : List (List ℕ)}
    (h : PoolInvariant pairs binCount s blocks) (hs : poolStep s = none) :
    blocks.Pairwise (fun b b' => mean (binTotal pairs binCount) (binWeight pairs binCount) b
      ≤ mean (binTotal pairs binCount) (binWeight pairs binCount) b') := by
  -- the loop goes on as long as two blocks are at the cursor
  have hlen : blocks.length ≤ s.i + 1 := by
    by_contra hlt
    unfold poolStep at hs
    rw [h.populated, List.getElem?_eq_getElem (by rw [List.length_map]; omega),
      List.getElem?_eq_getElem (by rw [List.length_map]; omega)] at hs
    dsimp only at hs
    split at hs <;> cases hs
  have hrises := h.rises
  rw [List.take_of_length_le hlen] at hrises
  have : IsTrans (List ℕ) (fun b b' => mean (binTotal pairs binCount) (binWeight pairs binCount) b
      ≤ mean (binTotal pairs binCount) (binWeight pairs binCount) b') :=
    ⟨fun _ _ _ => le_trans⟩
  exact List.isChain_iff_pairwise.mp hrises

/-- **The loop** ends with pooled blocks whose means rise. -/
theorem poolAdjacentViolators_spec (s : PoolState) : ∀ blocks : List (List ℕ),
    PoolInvariant pairs binCount s blocks → ∃ blocks',
      poolAdjacentViolators s = blocks'.map (blockBin pairs binCount) ∧
      Pooling (binTotal pairs binCount) (binWeight pairs binCount)
        (binsFrom pairs binCount 0 binCount) blocks' ∧
      blocks'.Pairwise (fun b b' => mean (binTotal pairs binCount) (binWeight pairs binCount) b
        ≤ mean (binTotal pairs binCount) (binWeight pairs binCount) b') := by
  induction s using poolAdjacentViolators.induct with
  | case1 s hover =>
      intro blocks h
      refine ⟨blocks, ?_, h.pooling, h.over hover⟩
      rw [poolAdjacentViolators, hover]
      exact h.populated
  | case2 s s' hnext ih =>
      intro blocks h
      obtain ⟨blocks', h'⟩ := h.step hnext
      obtain ⟨blocks'', heq, hspec⟩ := ih blocks' h'
      refine ⟨blocks'', ?_, hspec⟩
      rw [poolAdjacentViolators, hnext]
      exact heq

theorem map_mean_forceLast (populated : List PopulatedBin) :
    (forceLast populated).map PopulatedBin.mean = populated.map PopulatedBin.mean := by
  refine List.ext_getElem? (fun j => ?_)
  rw [forceLast, List.getElem?_map, List.getElem?_map, List.getElem?_modify]
  cases populated[j]? with
  | none => rfl
  | some b =>
      simp only [Option.map_eq_map, Option.map_some, Option.some_inj]
      split <;> rfl

/-- The last threshold is 1, and the others are the upper bounds. -/
theorem getElem?_upper_forceLast (populated : List PopulatedBin) (j : ℕ) :
    ((forceLast populated).map PopulatedBin.upper)[j]?
      = (populated[j]?).map (fun b => if j + 1 = populated.length then 1 else b.upper) := by
  rw [forceLast, List.getElem?_map, List.getElem?_modify]
  cases hj : populated[j]? with
  | none => rfl
  | some b =>
      have hlt := (List.getElem?_eq_some_iff.mp hj).1
      simp only [Option.map_eq_map, Option.map_some, Option.some_inj]
      by_cases hlast : j + 1 = populated.length
      · rw [if_pos hlast, if_pos (by omega)]
      · rw [if_neg hlast, if_neg (by omega)]

/-- **What the fit is made of**: pooled blocks of the bins that are not empty, with rising means. -/
structure Fitted (pairs : List CalibrationPair) (binCount : ℕ) (map : CalibrationMap)
    (blocks : List (List ℕ)) : Prop where
  pooling : Pooling (binTotal pairs binCount) (binWeight pairs binCount)
    (binsFrom pairs binCount 0 binCount) blocks
  rises : blocks.Pairwise (fun b b' => mean (binTotal pairs binCount) (binWeight pairs binCount) b
    ≤ mean (binTotal pairs binCount) (binWeight pairs binCount) b')
  ne_nil : blocks ≠ []
  thresholds : map.thresholds
    = (forceLast (blocks.map (blockBin pairs binCount))).map PopulatedBin.upper
  values : map.values
    = blocks.map (mean (binTotal pairs binCount) (binWeight pairs binCount))

theorem mem_inBin_binIndex {p : CalibrationPair} (hp : p ∈ pairs) :
    p ∈ inBin pairs binCount (binIndex binCount p.rawConfidence) :=
  List.mem_filter.mpr ⟨hp, by simp⟩

/-- The bin of a pair is one that is not empty. -/
theorem binIndex_mem_binsFrom (hbins : 1 ≤ binCount) {p : CalibrationPair} (hp : p ∈ pairs) :
    binIndex binCount p.rawConfidence ∈ binsFrom pairs binCount 0 binCount :=
  mem_binsFrom_iff.mpr ⟨⟨Nat.zero_le _, binIndex_lt hbins _⟩,
    List.ne_nil_of_mem (mem_inBin_binIndex hp)⟩

theorem fitIsotonic_fitted (hpairs : pairs ≠ []) (hbins : 1 ≤ binCount) :
    ∃ blocks, Fitted pairs binCount (fitIsotonic pairs binCount) blocks := by
  obtain ⟨blocks, heq, hpooling, hrises⟩ := poolAdjacentViolators_spec _ _
    (poolInvariant_start pairs binCount)
  -- a pair is in some bin, and the bin in some block
  have hne : blocks ≠ [] := by
    rintro rfl
    obtain ⟨p, hp⟩ := List.exists_mem_of_ne_nil pairs hpairs
    have hmem := binIndex_mem_binsFrom hbins hp
    rw [← hpooling.flatten] at hmem
    cases hmem
  have hlen : blocks.length ≠ 0 := fun h => hne (List.length_eq_zero_iff.mp h)
  have hlen' : pairs.length ≠ 0 := fun h => hpairs (List.length_eq_zero_iff.mp h)
  refine ⟨blocks, hpooling, hrises, hne, ?_, ?_⟩
  · simp only [fitIsotonic, heq, if_neg hlen', List.length_map, if_neg hlen]
  · simp only [fitIsotonic, heq, if_neg hlen', List.length_map, if_neg hlen]
    rw [map_mean_forceLast, List.map_map]
    rfl

end Pooling

/-! ## 4. Bins and blocks -/

section Blocks

variable {pairs : List CalibrationPair} {binCount : ℕ}

/-- The block that a confidence is counted in. -/
def countedBlock (map : CalibrationMap) (binCount : ℕ) (rawConfidence : ℚ) : ℕ :=
  map.thresholds.findIdx (fun t =>
    decide (((binIndex binCount rawConfidence + 1 : ℕ) : ℚ) / binCount ≤ t))

/-- The block whose value `applyMap` gives a confidence. -/
def assignedBlock (map : CalibrationMap) (rawConfidence : ℚ) : ℕ :=
  map.thresholds.findIdx (fun t => decide (clamp01 rawConfidence ≤ t))

theorem pairsIn_cons_perm (pairs : List CalibrationPair) (binCount : ℕ) {i : ℕ} {block : List ℕ}
    (hi : i ∉ block) :
    (inBin pairs binCount i ++ pairsIn pairs binCount (fun k => decide (k ∈ block))).Perm
      (pairsIn pairs binCount (fun k => decide (k ∈ i :: block))) := by
  have hsplit := List.filter_append_perm (fun p => decide (binIndex binCount p.rawConfidence = i))
    (pairsIn pairs binCount (fun k => decide (k ∈ i :: block)))
  refine List.Perm.trans (List.Perm.of_eq ?_) hsplit
  -- what is split off is the bin, and as it is not in the block, the rest is the block
  rw [inBin, pairsIn, pairsIn, pairsIn, List.filter_filter, List.filter_filter]
  congr 1
  · refine List.filter_congr (fun p _ => ?_)
    by_cases h : binIndex binCount p.rawConfidence = i
    · simp [h]
    · simp [h]
  · refine List.filter_congr (fun p _ => ?_)
    by_cases h : binIndex binCount p.rawConfidence = i
    · simp [h, hi]
    · simp [h]

/-- The sums over a block of bins are those over the pairs in it. -/
theorem sums_block : ∀ block : List ℕ, block.Nodup →
    (block.map (binTotal pairs binCount)).sum
        = correct (pairsIn pairs binCount (fun k => decide (k ∈ block))) ∧
      (block.map (binWeight pairs binCount)).sum
        = (pairsIn pairs binCount (fun k => decide (k ∈ block))).length := by
  intro block
  induction block with
  | nil =>
      intro _
      simp [pairsIn, correct]
  | cons i block ih =>
      intro hnodup
      obtain ⟨hi, hnodup⟩ := List.nodup_cons.mp hnodup
      obtain ⟨htotal, hweight⟩ := ih hnodup
      have hperm := pairsIn_cons_perm pairs binCount hi
      constructor
      · rw [List.map_cons, List.sum_cons, htotal, binTotal, correct, correct, correct,
          ← (hperm.map _).sum_eq, List.map_append, List.sum_append, Nat.cast_add]
      · rw [List.map_cons, List.sum_cons, hweight, binWeight, ← hperm.length_eq,
          List.length_append, Nat.cast_add]

theorem mean_block {block : List ℕ} (h : block.Nodup) :
    mean (binTotal pairs binCount) (binWeight pairs binCount) block
      = meanCorrectness (pairsIn pairs binCount (fun k => decide (k ∈ block))) := by
  rw [mean, (sums_block block h).1, (sums_block block h).2, meanCorrectness]

namespace Fitted

variable {map : CalibrationMap} {blocks : List (List ℕ)} (h : Fitted pairs binCount map blocks)

include h

theorem getElem?_thresholds (j : ℕ) : map.thresholds[j]? = (blocks[j]?).map (fun b =>
    if j + 1 = blocks.length then 1 else blockUpper binCount b) := by
  rw [h.thresholds, getElem?_upper_forceLast, List.getElem?_map, Option.map_map, List.length_map]
  rfl

theorem length_thresholds : map.thresholds.length = blocks.length := by
  rw [h.thresholds, forceLast, List.length_map, List.length_modify, List.length_map]

/-- The bins of the blocks rise within a block and from block to block. -/
theorem bins_lt : (∀ b ∈ blocks, b.Pairwise (· < ·)) ∧
    blocks.Pairwise (fun b b' => ∀ i ∈ b, ∀ i' ∈ b', i < i') := by
  rw [← List.pairwise_flatten, h.pooling.flatten, binsFrom]
  exact (List.pairwise_lt_range' ..).filter _

theorem mem_bins {b : List ℕ} (hb : b ∈ blocks) {i : ℕ} (hi : i ∈ b) :
    i ∈ binsFrom pairs binCount 0 binCount := by
  rw [← h.pooling.flatten]
  exact List.mem_flatten.mpr ⟨b, hb, hi⟩

theorem lt_of_lt {j j' : ℕ} {b b' : List ℕ} (hb : blocks[j]? = some b)
    (hb' : blocks[j']? = some b') (hj : j < j') {i i' : ℕ} (hi : i ∈ b) (hi' : i' ∈ b') :
    i < i' := by
  obtain ⟨hlt, rfl⟩ := List.getElem?_eq_some_iff.mp hb
  obtain ⟨hlt', rfl⟩ := List.getElem?_eq_some_iff.mp hb'
  exact List.pairwise_iff_getElem.mp h.bins_lt.2 j j' hlt hlt' hj i hi i' hi'

/-- The last bin of a block. -/
theorem getLastD_mem {b : List ℕ} (hb : b ∈ blocks) : b.getLastD 0 ∈ b := by
  obtain ⟨l, i, rfl⟩ := b.eq_nil_or_concat'.resolve_left (h.pooling.pooled b hb).weighed.ne_nil
  rw [List.getLastD_concat]
  exact List.mem_append_right l (List.mem_singleton_self i)

theorem le_getLastD {b : List ℕ} (hb : b ∈ blocks) {i : ℕ} (hi : i ∈ b) : i ≤ b.getLastD 0 := by
  obtain ⟨l, k, rfl⟩ := b.eq_nil_or_concat'.resolve_left (h.pooling.pooled b hb).weighed.ne_nil
  rw [List.getLastD_concat]
  rcases List.mem_append.mp hi with hi | hi
  · have hlt := (List.pairwise_append.mp (h.bins_lt.1 _ hb)).2.2 i hi k (List.mem_singleton_self k)
    exact hlt.le
  · exact (List.mem_singleton.mp hi).le

/-- **Which block a number is looked up in**: the first of those whose last bin ends at or behind
it. -/
theorem findIdx_eq_iff (hbins : 1 ≤ binCount) {c : ℚ} (hc : c ≤ 1) {j : ℕ} {b : List ℕ}
    (hb : blocks[j]? = some b) :
    map.thresholds.findIdx (fun t => decide (c ≤ t)) = j ↔
      (j + 1 = blocks.length ∨ c * binCount ≤ (b.getLastD 0 + 1 : ℕ)) ∧
        ∀ j' < j, ∀ b', blocks[j']? = some b' → ((b'.getLastD 0 + 1 : ℕ) : ℚ) < c * binCount := by
  have hpos : (0 : ℚ) < binCount := Nat.cast_pos.mpr hbins
  have hlt := (List.getElem?_eq_some_iff.mp hb).1
  have hj : j < map.thresholds.length := h.length_thresholds.symm ▸ hlt
  have hget : ∀ j' b', blocks[j']? = some b' → ∀ hj' : j' < map.thresholds.length,
      (c ≤ map.thresholds[j'] ↔ j' + 1 = blocks.length ∨ c * binCount ≤ (b'.getLastD 0 + 1 : ℕ)) := by
    intro j' b' hb' hj'
    have hthreshold := h.getElem?_thresholds j'
    rw [hb', Option.map_some, List.getElem?_eq_getElem hj', Option.some_inj] at hthreshold
    rw [hthreshold]
    by_cases hlast : j' + 1 = blocks.length
    · simp [hlast, hc]
    · rw [if_neg hlast, blockUpper, le_div_iff₀ hpos]
      simp [hlast]
  -- the index found satisfies the condition, and none before it does
  rw [List.findIdx_eq hj]
  simp only [decide_eq_true_eq, decide_eq_false_iff_not]
  rw [hget j b hb hj]
  refine and_congr_right (fun _ => forall_congr' (fun j' => forall_congr' (fun hj' => ?_)))
  have hlt' : j' < blocks.length := by omega
  have hsome := List.getElem?_eq_getElem hlt'
  rw [hget j' _ hsome (by omega), hsome]
  constructor
  · rintro hnot b' ⟨⟩
    exact not_le.mp (fun hle => hnot (.inr hle))
  · intro hall hle
    rcases hle with hlast | hle
    · omega
    · exact absurd (hall _ rfl) (not_lt.mpr hle)

/-- A bin is looked up in the block that it is in. -/
theorem findIdx_bin (hbins : 1 ≤ binCount) {j k : ℕ} {b : List ℕ} (hb : blocks[j]? = some b)
    (hk : k ∈ b) :
    map.thresholds.findIdx (fun t => decide (((k + 1 : ℕ) : ℚ) / binCount ≤ t)) = j := by
  have hmem := List.mem_of_getElem? hb
  have hpos : (0 : ℚ) < binCount := Nat.cast_pos.mpr hbins
  have hlt := (mem_binsFrom_iff.mp (h.mem_bins hmem hk)).1.2
  have hle : ((k + 1 : ℕ) : ℚ) / binCount ≤ 1 := by
    rw [div_le_one hpos]
    exact Nat.cast_le.mpr hlt
  rw [h.findIdx_eq_iff hbins hle hb, div_mul_cancel₀ _ hpos.ne']
  refine ⟨.inr (Nat.cast_le.mpr (Nat.succ_le_succ (h.le_getLastD hmem hk))), fun j' hj' b' hb' => ?_⟩
  have hbefore := h.lt_of_lt hb' hb hj' (h.getLastD_mem (List.mem_of_getElem? hb')) hk
  exact Nat.cast_lt.mpr (Nat.succ_lt_succ hbefore)

/-- Each bin that is not empty is in one of the blocks. -/
theorem exists_block {k : ℕ} (hk : k ∈ binsFrom pairs binCount 0 binCount) :
    ∃ (j : ℕ) (b : List ℕ), blocks[j]? = some b ∧ k ∈ b := by
  rw [← h.pooling.flatten] at hk
  obtain ⟨b, hb, hk⟩ := List.mem_flatten.mp hk
  obtain ⟨j, hj⟩ := List.mem_iff_getElem?.mp hb
  exact ⟨j, b, hj, hk⟩

/-- The pairs counted in a block are those in its bins. -/
theorem countedBlock_eq_iff (hbins : 1 ≤ binCount) {p : CalibrationPair} (hp : p ∈ pairs) {j : ℕ}
    {b : List ℕ} (hb : blocks[j]? = some b) :
    countedBlock map binCount p.rawConfidence = j ↔ binIndex binCount p.rawConfidence ∈ b := by
  constructor
  · intro hj
    obtain ⟨j', b', hb', hk⟩ := h.exists_block (binIndex_mem_binsFrom hbins hp)
    have hj' : countedBlock map binCount p.rawConfidence = j' := h.findIdx_bin hbins hb' hk
    rw [← hj, hj', hb', Option.some_inj] at hb
    exact hb ▸ hk
  · exact fun hk => h.findIdx_bin hbins hb hk

/-- A value of the fit is the mean of a block. -/
theorem getElem?_values (j : ℕ) : map.values[j]?
    = (blocks[j]?).map (mean (binTotal pairs binCount) (binWeight pairs binCount)) := by
  rw [h.values, List.getElem?_map]

theorem nodup_block {b : List ℕ} (hb : b ∈ blocks) : b.Nodup :=
  (h.bins_lt.1 b hb).imp (fun hlt => ne_of_lt hlt)

/-- **The value of a block** is the mean of the pairs that are counted in it. -/
theorem value_eq (hbins : 1 ≤ binCount) {j : ℕ} {b : List ℕ} (hb : blocks[j]? = some b) :
    pairs.filter (fun p => decide (countedBlock map binCount p.rawConfidence = j)) ≠ [] ∧
      mean (binTotal pairs binCount) (binWeight pairs binCount) b = meanCorrectness
        (pairs.filter (fun p => decide (countedBlock map binCount p.rawConfidence = j))) := by
  have hmem := List.mem_of_getElem? hb
  have hcounted : pairs.filter (fun p => decide (countedBlock map binCount p.rawConfidence = j))
      = pairsIn pairs binCount (fun k => decide (k ∈ b)) :=
    List.filter_congr (fun p hp => decide_eq_decide.mpr (h.countedBlock_eq_iff hbins hp hb))
  rw [hcounted]
  refine ⟨?_, mean_block (h.nodup_block hmem)⟩
  have hbin := (mem_binsFrom_iff.mp (h.mem_bins hmem (h.getLastD_mem hmem))).2
  obtain ⟨p, hp⟩ := List.exists_mem_of_ne_nil _ hbin
  obtain ⟨hp, hidx⟩ := List.mem_filter.mp hp
  refine List.ne_nil_of_mem (a := p) (List.mem_filter.mpr ⟨hp, ?_⟩)
  rw [of_decide_eq_true hidx]
  exact decide_eq_true (h.getLastD_mem hmem)

end Fitted

/-- A mean of the correctness is between 0 and 1. -/
theorem meanCorrectness_mem (l : List CalibrationPair) :
    0 ≤ meanCorrectness l ∧ meanCorrectness l ≤ 1 := by
  have hle : correct l ≤ l.length := by
    induction l with
    | nil => exact le_refl 0
    | cons p l ih =>
        rw [correct] at ih ⊢
        rw [List.map_cons, List.sum_cons, List.length_cons]
        omega
  exact ⟨div_nonneg (Nat.cast_nonneg _) (Nat.cast_nonneg _),
    div_le_one_of_le₀ (Nat.cast_le.mpr hle) (Nat.cast_nonneg _)⟩

namespace Fitted

variable {map : CalibrationMap} {blocks : List (List ℕ)} (h : Fitted pairs binCount map blocks)

include h

theorem values_mem {v : ℚ} (hv : v ∈ map.values) : 0 ≤ v ∧ v ≤ 1 := by
  rw [h.values] at hv
  obtain ⟨b, hb, rfl⟩ := List.mem_map.mp hv
  rw [mean_block (h.nodup_block hb)]
  exact meanCorrectness_mem _

/-- Every confidence is assigned to a block. -/
theorem assignedBlock_lt (c : ℚ) : assignedBlock map c < blocks.length := by
  obtain ⟨b, hb⟩ := List.exists_mem_of_ne_nil blocks h.ne_nil
  have hlen := List.length_pos_of_mem hb
  -- the last threshold is 1, and no confidence is greater
  rw [assignedBlock, ← h.length_thresholds, List.findIdx_lt_length]
  have hlast := h.getElem?_thresholds (blocks.length - 1)
  rw [List.getElem?_eq_getElem (by omega : blocks.length - 1 < blocks.length), Option.map_some,
    if_pos (by omega)] at hlast
  exact ⟨1, List.mem_of_getElem? hlast, decide_eq_true (clamp01_le_one c)⟩

/-- `applyMap` gives a confidence the value of its block. -/
theorem applyMap_eq (c : ℚ) : ∃ b, blocks[assignedBlock map c]? = some b ∧
    applyMap map c = mean (binTotal pairs binCount) (binWeight pairs binCount) b := by
  have hlt := h.assignedBlock_lt c
  refine ⟨_, List.getElem?_eq_getElem hlt, ?_⟩
  have hfind : map.thresholds.findIdx? (fun t => decide (clamp01 c ≤ t))
      = some (assignedBlock map c) := by
    rw [List.findIdx?_eq_some_iff_findIdx_eq]
    exact ⟨h.length_thresholds.symm ▸ hlt, rfl⟩
  have hvalue := h.getElem?_values (assignedBlock map c)
  rw [List.getElem?_eq_getElem hlt, Option.map_some] at hvalue
  obtain ⟨h0, h1⟩ := h.values_mem (List.mem_of_getElem? hvalue)
  simp only [applyMap, hfind, List.getD_eq_getElem?_getD, hvalue, Option.getD_some]
  exact clamp01_of_mem h0 h1

theorem monotone_applyMap : Monotone (applyMap map) := by
  intro c c' hc
  obtain ⟨b, hb, hv⟩ := h.applyMap_eq c
  obtain ⟨b', hb', hv'⟩ := h.applyMap_eq c'
  have hle : assignedBlock map c ≤ assignedBlock map c' := by
    refine List.findIdx_le_findIdx (fun t _ ht => decide_eq_true ?_)
    exact (monotone_clamp01 hc).trans (of_decide_eq_true ht)
  rw [hv, hv']
  rcases Nat.lt_or_eq_of_le hle with hlt | heq
  · obtain ⟨hi, rfl⟩ := List.getElem?_eq_some_iff.mp hb
    obtain ⟨hi', rfl⟩ := List.getElem?_eq_some_iff.mp hb'
    exact List.pairwise_iff_getElem.mp h.rises _ _ hi hi' hlt
  · rw [heq, hb', Option.some_inj] at hb
    rw [hb]

/-- The value of the step function on a bin that is not empty. -/
theorem applyMap_bin (hbins : 1 ≤ binCount) {b : List ℕ} (hb : b ∈ blocks) {k : ℕ} (hk : k ∈ b) :
    applyMap map (((k + 1 : ℕ) : ℚ) / binCount)
      = mean (binTotal pairs binCount) (binWeight pairs binCount) b := by
  obtain ⟨j, hj⟩ := List.mem_iff_getElem?.mp hb
  have hpos : (0 : ℚ) < binCount := Nat.cast_pos.mpr hbins
  have hlt := (mem_binsFrom_iff.mp (h.mem_bins hb hk)).1.2
  have hclamp : clamp01 (((k + 1 : ℕ) : ℚ) / binCount) = ((k + 1 : ℕ) : ℚ) / binCount := by
    refine clamp01_of_mem (div_nonneg (Nat.cast_nonneg _) hpos.le) ?_
    rw [div_le_one hpos]
    exact Nat.cast_le.mpr hlt
  obtain ⟨b', hb', hv⟩ := h.applyMap_eq (((k + 1 : ℕ) : ℚ) / binCount)
  have hblock : assignedBlock map (((k + 1 : ℕ) : ℚ) / binCount) = j := by
    rw [assignedBlock, hclamp]
    exact h.findIdx_bin hbins hj hk
  rw [hblock, hj, Option.some_inj] at hb'
  rw [hv, hb']

theorem thresholds_lt (hbins : 1 ≤ binCount) : map.thresholds.Pairwise (· < ·) := by
  have hpos : (0 : ℚ) < binCount := Nat.cast_pos.mpr hbins
  rw [List.pairwise_iff_getElem]
  intro j j' hj hj' hlt
  have hi : j < blocks.length := h.length_thresholds ▸ hj
  have hi' : j' < blocks.length := h.length_thresholds ▸ hj'
  have ht := h.getElem?_thresholds j
  have ht' := h.getElem?_thresholds j'
  rw [List.getElem?_eq_getElem hj, List.getElem?_eq_getElem hi, Option.map_some, Option.some_inj,
    if_neg (by omega), blockUpper] at ht
  rw [List.getElem?_eq_getElem hj', List.getElem?_eq_getElem hi', Option.map_some,
    Option.some_inj] at ht'
  have hb' := List.getElem_mem hi'
  have hbefore : blocks[j].getLastD 0 < blocks[j'].getLastD 0 :=
    h.lt_of_lt (List.getElem?_eq_getElem hi) (List.getElem?_eq_getElem hi') hlt
      (h.getLastD_mem (List.getElem_mem hi)) (h.getLastD_mem hb')
  rw [ht, ht']
  -- the later threshold is 1 if its block is the last one
  split
  · have hbin := (mem_binsFrom_iff.mp (h.mem_bins hb' (h.getLastD_mem hb'))).1.2
    rw [div_lt_one hpos]
    exact Nat.cast_lt.mpr (by omega)
  · rw [blockUpper, div_lt_div_iff_of_pos_right hpos]
    exact Nat.cast_lt.mpr (by omega)

theorem length_le : map.thresholds.length ≤ binCount := by
  -- no block is empty, so there are no more blocks than bins
  have hcount : ∀ bs : List (List ℕ), (∀ b ∈ bs, b ≠ []) → bs.length ≤ bs.flatten.length := by
    intro bs
    induction bs with
    | nil => exact fun _ => le_refl 0
    | cons b bs ih =>
        intro hne
        have hb := List.length_pos_iff.mpr (hne b List.mem_cons_self)
        have hrest := ih (fun b' hb' => hne b' (List.mem_cons_of_mem b hb'))
        rw [List.flatten_cons, List.length_append, List.length_cons]
        omega
  rw [h.length_thresholds]
  refine (hcount blocks (fun b hb => (h.pooling.pooled b hb).weighed.ne_nil)).trans ?_
  rw [h.pooling.flatten, binsFrom]
  refine (List.length_filter_le _ _).trans ?_
  rw [List.length_range', Nat.sub_zero]

end Fitted

end Blocks

/-! ## 5. The isotonic regression -/

/-- The squared error of values for the bins that are not empty, by their numbers of pairs. -/
def sqError (pairs : List CalibrationPair) (binCount : ℕ) (value : ℕ → ℚ) : ℚ :=
  (((List.range binCount).filter (fun i => decide (inBin pairs binCount i ≠ []))).map (fun i =>
    ((inBin pairs binCount i).length : ℚ) *
      (meanCorrectness (inBin pairs binCount i) - value i) ^ 2)).sum

/-- **The map is the isotonic regression** of the pairs. The step function has its value for a bin
at the upper bound of the bin. -/
structure IsIsotonicFit (pairs : List CalibrationPair) (binCount : ℕ) (map : CalibrationMap) :
    Prop where
  length_le : map.thresholds.length ≤ binCount
  length_eq : map.values.length = map.thresholds.length
  thresholds_lt : map.thresholds.Pairwise (· < ·)
  ends : map.thresholds.getLast? = some 1
  values_le : map.values.Pairwise (· ≤ ·)
  values_mem : ∀ v ∈ map.values, 0 ≤ v ∧ v ≤ 1
  values_mean : ∀ j v, map.values[j]? = some v →
    pairs.filter (fun p => decide (countedBlock map binCount p.rawConfidence = j)) ≠ [] ∧
      v = meanCorrectness
        (pairs.filter (fun p => decide (countedBlock map binCount p.rawConfidence = j)))
  optimal : ∀ g : ℕ → ℚ, MonotoneOn g {i | i < binCount ∧ inBin pairs binCount i ≠ []} →
    sqError pairs binCount (fun i => applyMap map (((i + 1 : ℕ) : ℚ) / binCount))
      ≤ sqError pairs binCount g
  monotone : Monotone (applyMap map)

/-- **`fitIsotonic` is the isotonic regression**, and its loop terminates. -/
theorem fitIsotonic_isIsotonicFit (pairs : List CalibrationPair) (binCount : ℕ)
    (hpairs : pairs ≠ []) (hbins : 1 ≤ binCount) :
    WellFounded (fun s' s => poolStep s = some s') ∧
      IsIsotonicFit pairs binCount (fitIsotonic pairs binCount) := by
  obtain ⟨blocks, h⟩ := fitIsotonic_fitted hpairs hbins
  have hlen : 0 < blocks.length := List.length_pos_iff.mpr h.ne_nil
  refine ⟨wellFounded_poolStep, h.length_le, ?_, h.thresholds_lt hbins, ?_, ?_,
    fun v hv => h.values_mem hv, ?_, ?_, h.monotone_applyMap⟩
  · rw [h.length_thresholds, h.values, List.length_map]
  · rw [List.getLast?_eq_getElem?, h.length_thresholds, h.getElem?_thresholds,
      List.getElem?_eq_getElem (by omega), Option.map_some, if_pos (by omega)]
  · rw [h.values, List.pairwise_map]
    exact h.rises
  · intro j v hv
    rw [h.getElem?_values] at hv
    obtain ⟨b, hb, rfl⟩ := Option.map_eq_some_iff.mp hv
    exact h.value_eq hbins hb
  · -- the values of the map on the bins are the means of the pooled blocks
    intro g hg
    have hrise : (binsFrom pairs binCount 0 binCount).Pairwise (fun i i' => g i ≤ g i') := by
      have hlt : (binsFrom pairs binCount 0 binCount).Pairwise (· < ·) :=
        (List.pairwise_lt_range' ..).filter _
      refine hlt.imp_of_mem (fun hi hi' hlt => ?_)
      rw [mem_binsFrom_iff] at hi hi'
      exact hg ⟨hi.1.2, hi.2⟩ ⟨hi'.1.2, hi'.2⟩ hlt.le
    have hcost := h.pooling.cost_le (fun b hb i hi => h.applyMap_bin hbins hb hi) hrise
    rw [binsFrom, Nat.sub_zero, ← List.range_eq_range'] at hcost
    exact hcost

/-- The theorem above for two pairs in two bins. -/
theorem fitIsotonic_isIsotonicFit_two :
    WellFounded (fun s' s => poolStep s = some s') ∧
      IsIsotonicFit [⟨1 / 20, 0⟩, ⟨1 / 10, 1⟩] 10 (fitIsotonic [⟨1 / 20, 0⟩, ⟨1 / 10, 1⟩] 10) :=
  fitIsotonic_isIsotonicFit _ _ (List.cons_ne_nil _ _) (by omega)

end Brain.Isotonic
