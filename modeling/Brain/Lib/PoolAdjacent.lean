/-
Samples in a row, each with a total and a weight, cut into blocks by pooling neighbours of which
the first has the greater mean. A block that arises in this way is pooled: wherever it is cut, the
part before the cut has the greater mean (`Pooled.append`).

If no two neighbours are left to pool, the means of the blocks are the rising values that are
closest to the means of the samples (`Pooling.cost_le`), and the blocks end exactly where what is
before never has the greater mean (`Pooling.boundary_iff`).

Compared are the sums of the totals less a multiple of the weights: they add up over a list that
is cut, and means do not.
-/
import Mathlib.Algebra.BigOperators.Group.List.Basic
import Mathlib.Algebra.BigOperators.Ring.List
import Mathlib.Algebra.Order.BigOperators.Group.List
import Mathlib.Algebra.Order.Field.Basic
import Mathlib.Data.List.Flatten
import Mathlib.Data.List.Induction
import Mathlib.Tactic.Linarith
import Mathlib.Tactic.Ring
import Mathlib.Tactic.FieldSimp

set_option autoImplicit false

namespace Brain.PoolAdjacent

variable {ι K : Type*} [Field K]

/-! ## 1. Means -/

/-- The sum of the totals over the sum of the weights. -/
def mean (total weight : ι → K) (block : List ι) : K :=
  (block.map total).sum / (block.map weight).sum

/-- By how much the totals are more than `c` times the weights. -/
def excess (total weight : ι → K) (c : K) (block : List ι) : K :=
  (block.map (fun i => total i - c * weight i)).sum

variable {total weight : ι → K} {c d : K} {p q : List ι}

@[simp] theorem excess_nil : excess total weight c [] = 0 := rfl

@[simp] theorem excess_append :
    excess total weight c (p ++ q) = excess total weight c p + excess total weight c q := by
  rw [excess, List.map_append, List.sum_append]
  rfl

theorem excess_eq : excess total weight c p
    = (p.map total).sum - c * (p.map weight).sum := by
  induction p with
  | nil => simp
  | cons i p ih =>
      rw [excess] at ih ⊢
      simp only [List.map_cons, List.sum_cons, ih]
      ring

/-- The squared distance of the values from the means of the samples, by weight. -/
def cost (total weight : ι → K) (value : ι → K) (l : List ι) : K :=
  (l.map (fun i => weight i * (total i / weight i - value i) ^ 2)).sum

theorem cost_append (value : ι → K) : cost total weight value (p ++ q)
    = cost total weight value p + cost total weight value q := by
  rw [cost, List.map_append, List.sum_append]
  rfl

variable [LinearOrder K]

/-- The weights are positive, and there is one. -/
structure Weighed (weight : ι → K) (block : List ι) : Prop where
  ne_nil : block ≠ []
  weight_pos : ∀ i ∈ block, 0 < weight i

theorem Weighed.append (hp : Weighed weight p) (hq : Weighed weight q) :
    Weighed weight (p ++ q) := by
  refine ⟨fun hnil => hp.ne_nil (List.append_eq_nil_iff.mp hnil).1, fun i hi => ?_⟩
  rcases List.mem_append.mp hi with hi | hi
  · exact hp.weight_pos i hi
  · exact hq.weight_pos i hi

/-- The two parts of a cut block have positive weights, too. -/
theorem Weighed.parts (h : Weighed weight (p ++ q)) :
    (p ≠ [] → Weighed weight p) ∧ (q ≠ [] → Weighed weight q) :=
  ⟨fun hp => ⟨hp, fun i hi => h.weight_pos i (List.mem_append_left q hi)⟩,
    fun hq => ⟨hq, fun i hi => h.weight_pos i (List.mem_append_right p hi)⟩⟩

/-- Wherever the block is cut, the part before the cut has the greater mean. -/
structure Pooled (total weight : ι → K) (block : List ι) : Prop where
  weighed : Weighed weight block
  falls : ∀ p q, block = p ++ q → p ≠ [] → q ≠ [] → mean total weight q < mean total weight p

theorem Pooled.singleton {i : ι} (h : 0 < weight i) : Pooled total weight [i] := by
  refine ⟨⟨List.cons_ne_nil i [], fun j hj => ?_⟩, fun p q hpq hp hq => ?_⟩
  · rw [List.mem_singleton.mp hj]
    exact h
  · have hlen := congrArg List.length hpq
    rw [List.length_append, List.length_singleton] at hlen
    have := List.length_pos_iff.mpr hp
    have := List.length_pos_iff.mpr hq
    omega

variable [IsStrictOrderedRing K]

theorem Weighed.sum_pos (h : Weighed weight p) : 0 < (p.map weight).sum := by
  refine List.sum_pos _ (fun x hx => ?_) (fun hnil => h.ne_nil (List.map_eq_nil_iff.mp hnil))
  obtain ⟨i, hi, rfl⟩ := List.mem_map.mp hx
  exact h.weight_pos i hi

theorem Weighed.mean_le_iff (h : Weighed weight p) :
    mean total weight p ≤ c ↔ excess total weight c p ≤ 0 := by
  rw [mean, div_le_iff₀ h.sum_pos, excess_eq, sub_nonpos]

theorem Weighed.le_mean_iff (h : Weighed weight p) :
    c ≤ mean total weight p ↔ 0 ≤ excess total weight c p := by
  rw [mean, le_div_iff₀ h.sum_pos, excess_eq, sub_nonneg]

theorem Weighed.mean_lt_iff (h : Weighed weight p) :
    mean total weight p < c ↔ excess total weight c p < 0 := by
  rw [← not_le, h.le_mean_iff, not_le]

theorem Weighed.lt_mean_iff (h : Weighed weight p) :
    c < mean total weight p ↔ 0 < excess total weight c p := by
  rw [← not_le, h.mean_le_iff, not_le]

theorem Weighed.excess_mean (h : Weighed weight p) :
    excess total weight (mean total weight p) p = 0 :=
  le_antisymm (h.mean_le_iff.mp (le_refl _)) (h.le_mean_iff.mp (le_refl _))

/-- The mean of two blocks together is the weighted one of their means. -/
theorem Weighed.mean_append (hp : Weighed weight p) (hq : Weighed weight q) :
    mean total weight (p ++ q) =
      (mean total weight p * (p.map weight).sum + mean total weight q * (q.map weight).sum) /
        ((p.map weight).sum + (q.map weight).sum) := by
  rw [mean, mean, mean, div_mul_cancel₀ _ hp.sum_pos.ne', div_mul_cancel₀ _ hq.sum_pos.ne',
    List.map_append, List.map_append, List.sum_append, List.sum_append]

/-! ## 2. Pooled blocks -/

/-- **Pooling two neighbours** of which the first has the greater mean. -/
theorem Pooled.append (hp : Pooled total weight p) (hq : Pooled total weight q)
    (hlt : mean total weight q < mean total weight p) : Pooled total weight (p ++ q) := by
  refine ⟨hp.weighed.append hq.weighed, fun p' q' hcut hp' hq' => ?_⟩
  rcases List.append_eq_append_iff.mp hcut with ⟨m, rfl, rfl⟩ | ⟨m, rfl, rfl⟩
  · -- the cut is in the second block, behind `m`
    by_cases hm : m = []
    · rw [hm, List.append_nil]
      rw [hm, List.nil_append] at hlt
      exact hlt
    · have hwm := hq.weighed.parts.1 hm
      have hwq' := hq.weighed.parts.2 hq'
      have hmq' := hq.falls m q' rfl hm hq'
      have hbelow : mean total weight q' < mean total weight (m ++ q') := by
        rw [hq.weighed.lt_mean_iff, excess_append, hwq'.excess_mean, add_zero]
        exact hwm.lt_mean_iff.mp hmq'
      rw [(hp.weighed.append hwm).lt_mean_iff, excess_append]
      exact add_pos (hp.weighed.lt_mean_iff.mp (hbelow.trans hlt)) (hwm.lt_mean_iff.mp hmq')
  · -- the cut is in the first block, before `m`
    by_cases hm : m = []
    · rw [hm, List.nil_append]
      rw [hm, List.append_nil] at hlt
      exact hlt
    · have hwm := hp.weighed.parts.2 hm
      have hwp' := hp.weighed.parts.1 hp'
      have hpm := hp.falls p' m rfl hp' hm
      have habove : mean total weight (p' ++ m) < mean total weight p' := by
        rw [hp.weighed.mean_lt_iff, excess_append, hwp'.excess_mean, zero_add]
        exact hwm.mean_lt_iff.mp hpm
      rw [(hwm.append hq.weighed).mean_lt_iff, excess_append]
      exact add_neg (hwm.mean_lt_iff.mp hpm) (hq.weighed.mean_lt_iff.mp (hlt.trans habove))

/-- What stands first in a pooled block has no smaller mean than the block. -/
theorem Pooled.excess_front (h : Pooled total weight (p ++ q))
    (hc : c ≤ mean total weight (p ++ q)) : 0 ≤ excess total weight c p := by
  have hall := h.weighed.le_mean_iff.mp hc
  by_cases hp : p = []
  · rw [hp, excess_nil]
  · by_cases hq : q = []
    · rw [hq, List.append_nil] at hall
      exact hall
    · -- else both parts would be below `c`
      have hwp := h.weighed.parts.1 hp
      by_contra hneg
      have hlow := (h.falls p q rfl hp hq).trans (hwp.mean_lt_iff.mpr (not_le.mp hneg))
      have := (h.weighed.parts.2 hq).mean_lt_iff.mp hlow
      rw [excess_append] at hall
      linarith

/-- What stands last in a pooled block has no greater mean than the block. -/
theorem Pooled.excess_back (h : Pooled total weight (p ++ q))
    (hc : mean total weight (p ++ q) ≤ c) : excess total weight c q ≤ 0 := by
  have hall := h.weighed.mean_le_iff.mp hc
  by_cases hq : q = []
  · rw [hq, excess_nil]
  · by_cases hp : p = []
    · rw [hp, List.nil_append] at hall
      exact hall
    · have hwq := h.weighed.parts.2 hq
      by_contra hneg
      have hhigh := (hwq.lt_mean_iff.mpr (not_le.mp hneg)).trans (h.falls p q rfl hp hq)
      have := (h.weighed.parts.1 hp).lt_mean_iff.mp hhigh
      rw [excess_append] at hall
      linarith

/-! ## 3. The closest rising values -/

/-- Rising factors weigh a list least whose sums from the front are not negative: the induction
is from the right, and the last factor is a bound of those before. -/
theorem sum_mul_le (a g : ι → K) : ∀ (l : List ι) (c : K), l.Pairwise (fun i j => g i ≤ g j) →
    (∀ i ∈ l, g i ≤ c) → (∀ p, p <+: l → 0 ≤ (p.map a).sum) →
      (l.map (fun i => a i * g i)).sum ≤ (l.map a).sum * c := by
  intro l
  induction l using List.reverseRecOn with
  | nil =>
      intro c _ _ _
      simp
  | append_singleton l i ih =>
      intro c hrise hc hfront
      have hfirst : (l.map (fun j => a j * g j)).sum ≤ (l.map a).sum * g i := by
        refine ih (g i) (List.pairwise_append.mp hrise).1
          (fun j hj => (List.pairwise_append.mp hrise).2.2 j hj i (List.mem_singleton_self i))
          (fun p hp => hfront p (hp.trans (List.prefix_append l [i])))
      -- the bound `c` takes the place of the last factor, as the whole sum is not negative
      have hall := hfront (l ++ [i]) (List.prefix_refl _)
      have hlast := hc i (List.mem_append_right l (List.mem_singleton_self i))
      simp only [List.map_append, List.map_cons, List.map_nil, List.sum_append, List.sum_singleton]
        at hall ⊢
      calc (l.map (fun j => a j * g j)).sum + a i * g i
          ≤ (l.map a).sum * g i + a i * g i := by linarith
        _ = ((l.map a).sum + a i) * g i := by ring
        _ ≤ ((l.map a).sum + a i) * c := mul_le_mul_of_nonneg_left hlast hall

/-- Rising factors do not weigh the excess over the mean of a pooled block positively. -/
theorem Pooled.sum_mul_nonpos {block : List ι} (h : Pooled total weight block) {g : ι → K}
    (hg : block.Pairwise (fun i j => g i ≤ g j)) :
    (block.map (fun i => (total i - mean total weight block * weight i) * g i)).sum ≤ 0 := by
  obtain rfl | ⟨l, i, rfl⟩ := block.eq_nil_or_concat'
  · exact absurd rfl h.weighed.ne_nil
  have hlast : ∀ j ∈ l ++ [i], g j ≤ g i := by
    intro j hj
    rcases List.mem_append.mp hj with hj | hj
    · exact (List.pairwise_append.mp hg).2.2 j hj i (List.mem_singleton_self i)
    · rw [List.mem_singleton.mp hj]
  have hfront : ∀ p, p <+: l ++ [i] →
      0 ≤ (p.map (fun j => total j - mean total weight (l ++ [i]) * weight j)).sum := by
    rintro p ⟨q, hq⟩
    refine (show Pooled total weight (p ++ q) from hq ▸ h).excess_front ?_
    rw [hq]
  have hle := sum_mul_le (fun j => total j - mean total weight (l ++ [i]) * weight j) g (l ++ [i])
    (g i) hg hlast hfront
  have hzero : ((l ++ [i]).map (fun j => total j - mean total weight (l ++ [i]) * weight j)).sum
      = 0 := h.weighed.excess_mean
  rw [hzero, zero_mul] at hle
  exact hle

/-- The square of what the values `g` are off is more than that for `v`, less the mixed terms. -/
theorem cost_ge (total : ι → K) (v : K) {f g : ι → K} : ∀ l : List ι, (∀ i ∈ l, 0 < weight i) →
    (∀ i ∈ l, f i = v) → cost total weight f l + 2 * (excess total weight v l * v
      - (l.map (fun i => (total i - v * weight i) * g i)).sum) ≤ cost total weight g l := by
  intro l
  induction l with
  | nil =>
      intro _ _
      simp [cost]
  | cons i l ih =>
      intro hpos hval
      have hrest := ih (fun j hj => hpos j (List.mem_cons_of_mem i hj))
        (fun j hj => hval j (List.mem_cons_of_mem i hj))
      have hw := hpos i List.mem_cons_self
      have hone : weight i * (total i / weight i - g i) ^ 2
          = weight i * (total i / weight i - v) ^ 2 + 2 * ((total i - v * weight i) * v
              - (total i - v * weight i) * g i) + weight i * (v - g i) ^ 2 := by
        field_simp
        ring
      have hsquare : 0 ≤ weight i * (v - g i) ^ 2 := mul_nonneg hw.le (sq_nonneg _)
      simp only [cost, excess, List.map_cons, List.sum_cons, hval i List.mem_cons_self]
        at hrest ⊢
      linarith

/-- In a pooled block, its mean is closer to the samples than rising values. -/
theorem Pooled.cost_le {block : List ι} (h : Pooled total weight block) {f g : ι → K}
    (hf : ∀ i ∈ block, f i = mean total weight block)
    (hg : block.Pairwise (fun i j => g i ≤ g j)) :
    cost total weight f block ≤ cost total weight g block := by
  -- the excess over its own mean is zero, and the mixed terms are not positive
  have hsplit := cost_ge (g := g) total (mean total weight block) block h.weighed.weight_pos hf
  rw [h.weighed.excess_mean, zero_mul] at hsplit
  have hmixed := h.sum_mul_nonpos hg
  linarith

/-! ## 4. The samples cut into pooled blocks -/

/-- The blocks are what the samples are cut into, and pooled. -/
structure Pooling (total weight : ι → K) (samples : List ι) (blocks : List (List ι)) : Prop where
  flatten : blocks.flatten = samples
  pooled : ∀ block ∈ blocks, Pooled total weight block

variable {samples : List ι} {blocks : List (List ι)}

omit [IsStrictOrderedRing K] in
/-- Before the first step, each sample is a block. -/
theorem Pooling.start (h : ∀ i ∈ samples, 0 < weight i) :
    Pooling total weight samples (samples.map (fun i => [i])) := by
  refine ⟨by rw [← List.flatMap_def, List.flatMap_singleton'], fun block hblock => ?_⟩
  obtain ⟨i, hi, rfl⟩ := List.mem_map.mp hblock
  exact Pooled.singleton (h i hi)

/-- **The step**: two neighbours are pooled. -/
theorem Pooling.merge {before after : List (List ι)}
    (h : Pooling total weight samples (before ++ p :: q :: after))
    (hlt : mean total weight q < mean total weight p) :
    Pooling total weight samples (before ++ (p ++ q) :: after) := by
  constructor
  · rw [← h.flatten]
    simp
  · intro block hblock
    rcases List.mem_append.mp hblock with hb | hb
    · exact h.pooled block (List.mem_append_left _ hb)
    · rcases List.mem_cons.mp hb with rfl | hb
      · exact (h.pooled p (by simp)).append (h.pooled q (by simp)) hlt
      · exact h.pooled block (by simp [hb])

/-- **The means of the blocks** are closer to the samples than any rising values. -/
theorem Pooling.cost_le (h : Pooling total weight samples blocks) {f g : ι → K}
    (hf : ∀ block ∈ blocks, ∀ i ∈ block, f i = mean total weight block)
    (hg : samples.Pairwise (fun i j => g i ≤ g j)) :
    cost total weight f samples ≤ cost total weight g samples := by
  obtain ⟨rfl, hpooled⟩ := h
  -- block by block: the values need not rise from one block to the next
  induction blocks with
  | nil => exact le_refl _
  | cons block blocks ih =>
      rw [List.flatten_cons] at hg ⊢
      rw [cost_append, cost_append]
      have hg := List.pairwise_append.mp hg
      have hhead := (hpooled block List.mem_cons_self).cost_le (hf block List.mem_cons_self) hg.1
      have htail := ih (fun b hb => hf b (List.mem_cons_of_mem block hb))
        (fun b hb => hpooled b (List.mem_cons_of_mem block hb)) hg.2.1
      exact add_le_add hhead htail

/-- The last samples of pooled blocks whose means are at most `c`. -/
theorem excess_back_flatten (hpooled : ∀ b ∈ blocks, Pooled total weight b)
    (hc : ∀ b ∈ blocks, mean total weight b ≤ c) (hp : p <:+ blocks.flatten) :
    excess total weight c p ≤ 0 := by
  induction blocks generalizing p with
  | nil => rw [List.suffix_nil.mp hp, excess_nil]
  | cons b blocks ih =>
      have htail : ∀ {p'}, p' <:+ blocks.flatten → excess total weight c p' ≤ 0 := fun hp' =>
        ih (fun b' hb' => hpooled b' (List.mem_cons_of_mem b hb'))
          (fun b' hb' => hc b' (List.mem_cons_of_mem b hb')) hp'
      obtain ⟨l, hl⟩ := hp
      rw [List.flatten_cons] at hl
      rcases List.append_eq_append_iff.mp hl with ⟨m, rfl, rfl⟩ | ⟨m, rfl, hm⟩
      · -- the list begins in the block
        have hhead := (hpooled _ List.mem_cons_self).excess_back (hc _ List.mem_cons_self)
        rw [excess_append]
        exact add_nonpos hhead (htail (List.suffix_refl _))
      · exact htail ⟨m, hm.symm⟩

/-- The first samples of pooled blocks whose means are at least `c`. -/
theorem excess_front_flatten (hpooled : ∀ b ∈ blocks, Pooled total weight b)
    (hc : ∀ b ∈ blocks, c ≤ mean total weight b) (hp : p <+: blocks.flatten) :
    0 ≤ excess total weight c p := by
  induction blocks generalizing p with
  | nil => rw [List.prefix_nil.mp hp, excess_nil]
  | cons b blocks ih =>
      have htail : ∀ {p'}, p' <+: blocks.flatten → 0 ≤ excess total weight c p' := fun hp' =>
        ih (fun b' hb' => hpooled b' (List.mem_cons_of_mem b hb'))
          (fun b' hb' => hc b' (List.mem_cons_of_mem b hb')) hp'
      obtain ⟨l, hl⟩ := hp
      rw [List.flatten_cons] at hl
      rcases List.append_eq_append_iff.mp hl with ⟨m, rfl, rfl⟩ | ⟨m, rfl, hm⟩
      · exact (hpooled _ List.mem_cons_self).excess_front (hc _ List.mem_cons_self)
      · -- the list ends behind the block
        have hhead := (hpooled b List.mem_cons_self).weighed.le_mean_iff.mp
          (hc b List.mem_cons_self)
        rw [excess_append]
        exact add_nonneg hhead (htail ⟨l, hm.symm⟩)

/-- **Where the blocks end**, if their means rise: where what is before never has the greater
mean. -/
theorem Pooling.boundary_iff (h : Pooling total weight samples blocks)
    (hrise : blocks.Pairwise (fun b b' => mean total weight b ≤ mean total weight b'))
    {l r : List ι} (hcut : samples = l ++ r) (hr : r ≠ []) :
    (∃ ls rs, blocks = ls ++ rs ∧ ls.flatten = l ∧ rs.flatten = r) ↔
      ∀ p q, p ≠ [] → q ≠ [] → p <:+ l → q <+: r → mean total weight p ≤ mean total weight q := by
  constructor
  · rintro ⟨ls, rs, rfl, rfl, rfl⟩ p q hp hq hpl hqr
    obtain ⟨b, rs', rfl⟩ : ∃ b rs', rs = b :: rs' := by
      refine List.exists_cons_of_ne_nil (fun hnil => hr ?_)
      rw [hnil, List.flatten_nil]
    obtain ⟨-, hrs, hcross⟩ := List.pairwise_append.mp hrise
    -- the mean of the first block behind the cut lies between them
    have hweights : ∀ i ∈ (ls ++ b :: rs').flatten, 0 < weight i := by
      intro i hi
      obtain ⟨block, hblock, hi⟩ := List.mem_flatten.mp hi
      exact (h.pooled block hblock).weighed.weight_pos i hi
    have hbelow := excess_back_flatten (c := mean total weight b)
      (fun b' hb' => h.pooled b' (List.mem_append_left _ hb'))
      (fun b' hb' => hcross b' hb' b List.mem_cons_self) hpl
    have habove := excess_front_flatten (c := mean total weight b)
      (fun b' hb' => h.pooled b' (List.mem_append_right _ hb'))
      (fun b' hb' => by
        rcases List.mem_cons.mp hb' with rfl | hb'
        · exact le_refl _
        · exact (List.pairwise_cons.mp hrs).1 b' hb') hqr
    have hwp : Weighed weight p := ⟨hp, fun i hi => hweights i (by
      rw [List.flatten_append]
      exact List.mem_append_left _ (hpl.subset hi))⟩
    have hwq : Weighed weight q := ⟨hq, fun i hi => hweights i (by
      rw [List.flatten_append]
      exact List.mem_append_right _ (hqr.subset hi))⟩
    exact (hwp.mean_le_iff.mpr hbelow).trans (hwq.le_mean_iff.mpr habove)
  · intro hmeans
    rw [← h.flatten] at hcut
    rcases List.flatten_eq_append_iff.mp hcut with
      ⟨ls, rs, hblocks, hl, hr⟩ | ⟨ls, bs, c, cs, rs, hblocks, hl, hr⟩
    · exact ⟨ls, rs, hblocks, hl.symm, hr.symm⟩
    · -- the cut is in a block
      by_cases hbs : bs = []
      · refine ⟨ls, (bs ++ c :: cs) :: rs, hblocks, ?_, ?_⟩
        · rw [hl, hbs, List.append_nil]
        · rw [hr, hbs, List.nil_append, List.flatten_cons]
      · have hblock := h.pooled (bs ++ c :: cs) (by simp [hblocks])
        have hfalls := hblock.falls bs (c :: cs) rfl hbs (List.cons_ne_nil c cs)
        exact absurd (hmeans bs (c :: cs) hbs (List.cons_ne_nil c cs) ⟨_, hl.symm⟩ ⟨_, hr.symm⟩)
          (not_le.mpr hfalls)

end Brain.PoolAdjacent
