/-
What a failed pass does under self-consistency.

The doc of the service says that it goes back to the original order on a failure, and
`rerank` settles its passes so that those that fail can be left out. But a pass that fails
does not reject: `singleRerank` catches, and resolves to the identity. So it is as long as
the list of candidates, goes through the filter, and votes for the original order. The
answer is the aggregate of the passes that succeed only as long as these outvote the others
wherever they disagree with them (`rerank_eq_successful_iff`).
-/
import Brain.Ai.RerankerService
import Mathlib.Data.List.ReduceOption

set_option autoImplicit false

namespace Brain.Rerankers

open Rankings

/-! ## 1. The passes of a call -/

/-- What the passes of a call come to: the ranking of each that succeeds. -/
def RerankerService.passes (svc : RerankerService) (draws : ℕ → Draws) (chat : ℕ → Chat)
    (query : String) (candidates : List RerankCandidate) (hints : Option String) :
    List (Option (List ℕ)) :=
  let identity := List.range candidates.length
  if svc.skips query candidates then []
  else if svc.scN = 1 then [pass query candidates identity hints (chat 0)]
  else (List.range svc.scN).map (fun k =>
    pass query candidates (shuffle (draws k) identity) hints (chat k))

/-- The rankings of the passes that succeed. -/
def successful (passes : List (Option (List ℕ))) : List (List ℕ) := passes.reduceOption

/-- How many passes fail. -/
def failures (passes : List (Option (List ℕ))) : ℕ := passes.countP Option.isNone

/-- What the passes that succeed make of `n` candidates; the order in which they are given,
if none does. -/
def successfulAggregate (passes : List (Option (List ℕ))) (n : ℕ) : List ℕ :=
  if (successful passes).isEmpty then List.range n else bordaAggregate (successful passes) n

/-- The rankings that are counted: those of the passes that fail are the identity. -/
def votes (n : ℕ) (passes : List (Option (List ℕ))) : List (List ℕ) :=
  passes.map (fun p => p.getD (List.range n))

/-- Wherever the passes that succeed put a candidate before an earlier one, they do so by more
places than there are failures times the distance of the two. -/
def Outvoted (n : ℕ) (passes : List (Option (List ℕ))) : Prop :=
  ∀ a b, a < b → b < n → 0 < lead (successful passes) b a →
    (failures passes : ℤ) * ((b : ℤ) - a) < lead (successful passes) b a

theorem successfulAggregate_eq (passes : List (Option (List ℕ))) (n : ℕ) :
    successfulAggregate passes n = bordaAggregate (successful passes) n := by
  unfold successfulAggregate
  split
  · next h => rw [List.isEmpty_iff.mp h, bordaAggregate_nil]
  · rfl

section Call

variable (svc : RerankerService) (draws : ℕ → Draws) (chat : ℕ → Chat) (query : String)
  (candidates : List RerankCandidate) (hints : Option String)

theorem passes_perm {ranking : List ℕ}
    (h : some ranking ∈ svc.passes draws chat query candidates hints) :
    IsPermutation ranking candidates.length := by
  unfold RerankerService.passes at h
  dsimp only at h
  split at h
  · cases h
  · split at h
    · exact readRanking_perm (List.Perm.refl _) (List.mem_singleton.mp h).symm
    · obtain ⟨k, -, hk⟩ := List.mem_map.mp h
      exact readRanking_perm (shuffle_perm _ _) hk

/-- The answer is the aggregate of all votes, in every mode. -/
theorem rerank_eq_votes : svc.rerank draws chat query candidates hints
    = bordaAggregate (votes candidates.length (svc.passes draws chat query candidates hints))
        candidates.length := by
  by_cases hskips : svc.skips query candidates = true
  · unfold RerankerService.rerank RerankerService.passes
    dsimp only
    rw [if_pos hskips, if_pos hskips]
    exact (bordaAggregate_nil _).symm
  · by_cases hscN : svc.scN = 1
    · have hperm : IsPermutation
          (singleRerank query candidates (List.range candidates.length) hints (chat 0))
          candidates.length := singleRerank_perm (List.Perm.refl _)
      unfold RerankerService.rerank RerankerService.passes
      dsimp only
      rw [if_neg hskips, if_neg hskips, if_pos hscN, if_pos hscN]
      exact (bordaAggregate_unanimous hperm (List.cons_ne_nil _ _)
        (fun r hr => List.mem_singleton.mp hr)).symm
    · rw [svc.rerank_eq_borda draws chat query candidates hints
        (Bool.eq_false_iff.mpr hskips) hscN, RerankerService.rankings_eq]
      unfold RerankerService.passes votes
      dsimp only
      rw [if_neg hskips, if_neg hscN, List.map_map]
      rfl

end Call

/-! ## 2. Leads -/

section Leads

variable {n a b : ℕ}

theorem lead_swap (rankings : List (List ℕ)) (a b : ℕ) :
    lead rankings b a = - lead rankings a b := by
  induction rankings with
  | nil => rfl
  | cons ranking rankings ih =>
      rw [lead_cons, lead_cons, ih]
      ring

theorem idxOf_range {i : ℕ} (h : i < n) : (List.range n).idxOf i = i := by
  have hidx := List.nodup_range.idxOf_getElem i (by rwa [List.length_range])
  rwa [List.getElem_range] at hidx

/-- Every failure adds the distance of the two candidates to the lead of the first. -/
theorem lead_votes (ha : a < n) (hb : b < n) (passes : List (Option (List ℕ))) :
    lead (votes n passes) a b
      = lead (successful passes) a b + (failures passes : ℤ) * ((b : ℤ) - a) := by
  induction passes with
  | nil => simp [votes, successful, failures, List.reduceOption_nil]
  | cons p passes ih =>
      unfold votes successful failures at ih ⊢
      rw [List.map_cons, lead_cons, ih]
      cases p with
      | none =>
          -- the identity ranks every candidate at its own number
          rw [List.reduceOption_cons_of_none, List.countP_cons_of_pos rfl, Option.getD_none,
            idxOf_range ha, idxOf_range hb]
          push_cast
          ring
      | some ranking =>
          rw [List.reduceOption_cons_of_some, List.countP_cons_of_neg (by simp),
            Option.getD_some, lead_cons]
          ring

/-- Two aggregates are the same if they decide every two candidates in the same way. -/
theorem bordaAggregate_eq_iff {rankings rankings' : List (List ℕ)}
    (h : ∀ ranking ∈ rankings, IsPermutation ranking n)
    (h' : ∀ ranking ∈ rankings', IsPermutation ranking n) :
    bordaAggregate rankings n = bordaAggregate rankings' n
      ↔ ∀ a b, a < b → b < n → (0 ≤ lead rankings a b ↔ 0 ≤ lead rankings' a b) := by
  -- of two candidates the earlier one comes first if it does not trail
  have hfirst : ∀ {rankings : List (List ℕ)}, (∀ r ∈ rankings, IsPermutation r n) →
      ∀ a b, a < b → b < n → (Before (bordaAggregate rankings n) a b ↔ 0 ≤ lead rankings a b) := by
    intro rankings h a b hab hb
    rw [before_bordaAggregate_iff h (by omega) hb]
    omega
  constructor
  · intro heq a b hab hb
    rw [← hfirst h a b hab hb, ← hfirst h' a b hab hb, heq]
  · intro hall
    have hperm := bordaAggregate_perm rankings n
    have hperm' := bordaAggregate_perm rankings' n
    refine eq_of_before (hperm'.nodup_iff.mpr List.nodup_range) (hperm.trans hperm'.symm)
      (fun a b hab => ?_)
    have ha : a < n := List.mem_range.mp (hperm.mem_iff.mp hab.mem_left)
    have hb : b < n := List.mem_range.mp (hperm.mem_iff.mp hab.mem_right)
    have hne := hab.ne (hperm.nodup_iff.mpr List.nodup_range)
    rw [before_bordaAggregate_iff h ha hb] at hab
    rw [before_bordaAggregate_iff h' ha hb]
    rcases Nat.lt_or_gt_of_ne hne with hlt | hlt
    · have := hall a b hlt hb
      omega
    · have := hall b a hlt ha
      rw [lead_swap rankings a b, lead_swap rankings' a b] at this
      omega

end Leads

/-! ## 3. When the failed passes do not matter -/

/-- **The answer is the aggregate of exactly the passes that succeed if and only if these
outvote the others.** -/
theorem rerank_eq_successful_iff (svc : RerankerService) (draws : ℕ → Draws) (chat : ℕ → Chat)
    (query : String) (candidates : List RerankCandidate) (hints : Option String) :
    svc.rerank draws chat query candidates hints
        = successfulAggregate (svc.passes draws chat query candidates hints) candidates.length
      ↔ Outvoted candidates.length (svc.passes draws chat query candidates hints) := by
  have hperm : ∀ ranking, some ranking ∈ svc.passes draws chat query candidates hints →
      IsPermutation ranking candidates.length :=
    fun ranking h => passes_perm svc draws chat query candidates hints h
  rw [rerank_eq_votes, successfulAggregate_eq]
  generalize svc.passes draws chat query candidates hints = passes at hperm ⊢
  have hsuccessful : ∀ ranking ∈ successful passes, IsPermutation ranking candidates.length :=
    fun ranking h => hperm ranking (List.reduceOption_mem_iff.mp h)
  have hvotes : ∀ ranking ∈ votes candidates.length passes,
      IsPermutation ranking candidates.length := by
    intro ranking h
    obtain ⟨p, hp, rfl⟩ := List.mem_map.mp h
    cases p with
    | none => exact List.Perm.refl _
    | some ranking => exact hperm ranking hp
  rw [bordaAggregate_eq_iff hvotes hsuccessful]
  unfold Outvoted
  -- for each two candidates: the failures add to the lead of the earlier one
  refine forall_congr' (fun a => forall_congr' (fun b => imp_congr_right (fun hab =>
    imp_congr_right (fun hb => ?_))))
  have hfailed : 0 ≤ (failures passes : ℤ) * ((b : ℤ) - a) :=
    mul_nonneg (Int.natCast_nonneg _) (by omega)
  rw [lead_votes (by omega) hb, lead_swap (successful passes) a b]
  omega

/-- Two passes over two candidates. -/
def twoPasses : RerankerService where
  isEnabled := true
  rawN := some 2

/-- The first of the two puts the second candidate first, and the second one fails. -/
def oneFails : ℕ → Chat := fun k _ =>
  if k = 0 then
    .content (some (.object [("ranking", .array [.number (some 1), .number (some 0)])]))
  else .thrown

/-- The pass that fails outvotes the one that succeeds. -/
theorem rerank_counts_failure :
    let candidates : List RerankCandidate := [⟨"a", ""⟩, ⟨"b", ""⟩]
    let draws : ℕ → Draws := fun _ i => Fin.last i
    twoPasses.rerank draws oneFails "q" candidates none = [0, 1] ∧
    twoPasses.passes draws oneFails "q" candidates none = [some [1, 0], none] ∧
    ¬ twoPasses.rerank draws oneFails "q" candidates none
      = successfulAggregate (twoPasses.passes draws oneFails "q" candidates none) 2 := by
  decide

end Brain.Rerankers
