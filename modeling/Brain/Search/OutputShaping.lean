/-
`applyOutputShaping` (`src/src/search/internals/response-builder.ts`) with the arrays that it
works on: which entities the token budget takes away, and whether the caller's array is the one
that loses them.

The budget loop pops. It takes from the tail of the list, whose order is the rerankers' and not
that of the scores, and if neither the floor nor the shape has made an array of its own by
then, the tail is that of the array the caller passed in. When nonetheless only the
lowest-scoring entities go, and no more of them than have to, is `DropLeast.keeps_take_iff` at
the shaped hits (`applyOutputShaping_exact_iff`).
-/
import Brain.Lib.DropLeast
import Brain.Search.ResponseBuilder

set_option autoImplicit false

namespace Brain.OutputShaping

open DropLeast

/-! ## The arrays -/

/-- The array `hits` of the caller and the one that `results` refers to, if that is another. -/
structure Arrays where
  caller : List SearchHit
  own : Option (List SearchHit)

namespace Arrays

/-- The elements of `results`. -/
def results (a : Arrays) : List SearchHit := a.own.getD a.caller

/-- `results = xs`, for an array that has just been made. -/
def assign (a : Arrays) (xs : List SearchHit) : Arrays := { a with own := some xs }

/-- `results.pop()`. -/
def pop (a : Arrays) : Arrays :=
  match a.own with
  | none => { a with caller := a.caller.dropLast }
  | some xs => { a with own := some xs.dropLast }

/-- `while (results.length > 0 && !fitsBudget(results)) results.pop()`, for at most `fuel`
rounds; each makes `results` shorter. -/
def popWhile (fitsBudget : List SearchHit → Bool) : ℕ → Arrays → Arrays
  | 0, a => a
  | fuel + 1, a =>
      if 0 < a.results.length && !fitsBudget a.results then popWhile fitsBudget fuel a.pop else a

@[simp] theorem results_assign (a : Arrays) (xs : List SearchHit) : (a.assign xs).results = xs :=
  rfl

@[simp] theorem caller_assign (a : Arrays) (xs : List SearchHit) :
    (a.assign xs).caller = a.caller := rfl

@[simp] theorem own_assign (a : Arrays) (xs : List SearchHit) : (a.assign xs).own = some xs := rfl

theorem results_pop (a : Arrays) : a.pop.results = a.results.dropLast := by
  unfold pop results
  cases a.own with
  | none => rfl
  | some xs => rfl

end Arrays

/-- `fitsBudget`; without a budget nothing is too long. -/
def fitsBudget (countTokens : List SearchHit → ℕ) (dto : SearchRequest) (xs : List SearchHit) :
    Bool :=
  match dto.tokenBudget with
  | none => true
  | some budget => decide (countTokens xs ≤ budget)

/-- The confidence floor filters into a new array. -/
def floorStep (dto : SearchRequest) (a : Arrays) : Arrays :=
  match dto.confidenceFloor with
  | none => a
  | some floor => a.assign (applyConfidenceFloor floor a.results)

/-- `compact` and `ids` map into a new array. -/
def shapeStep (dto : SearchRequest) (a : Arrays) : Arrays :=
  match dto.outputShape with
  | .full => a
  | shape => a.assign (a.results.map (applyShape shape))

/-- The budget pops from the array there is. -/
def budgetStep (countTokens : List SearchHit → ℕ) (dto : SearchRequest) (a : Arrays) : Arrays :=
  match dto.tokenBudget with
  | none => a
  | some budget =>
      Arrays.popWhile (fun xs => decide (countTokens xs ≤ budget)) a.results.length a

/-- `applyOutputShaping`, with what it leaves of the caller's array. -/
def shapeInPlace (countTokens : List SearchHit → ℕ) (hits : List SearchHit) (dto : SearchRequest) :
    Arrays :=
  budgetStep countTokens dto (shapeStep dto (floorStep dto { caller := hits, own := none }))

/-- The hits with the floor and the shape applied. -/
def shapedHits (hits : List SearchHit) (dto : SearchRequest) : List SearchHit :=
  ((dto.confidenceFloor.map (fun floor => applyConfidenceFloor floor hits)).getD hits).map
    (applyShape dto.outputShape)

/-! ## What the loop leaves -/

theorem popUntilFits_reverse (fits : List SearchHit → Bool) (l : List SearchHit) (hl : l ≠ []) :
    popUntilFits fits l.reverse =
      if fits l then l else popUntilFits fits l.dropLast.reverse := by
  obtain ⟨l, r, rfl⟩ := List.eq_nil_or_concat l |>.resolve_left hl
  simp only [List.concat_eq_append, List.reverse_append, List.reverse_cons, List.reverse_nil,
    List.nil_append, List.singleton_append, List.dropLast_concat]
  rw [popUntilFits, List.reverse_cons, List.reverse_reverse]

/-- Popping leaves the longest prefix that fits. -/
theorem popUntilFits_longest (fits : List SearchHit → Bool) (l : List SearchHit) :
    ∃ m, IsLongest fits l m ∧ popUntilFits fits l.reverse = l.take m := by
  induction l using List.reverseRecOn with
  | nil => exact ⟨0, ⟨le_refl 0, Or.inr rfl, fun j hj hjl => absurd hjl (not_le.mpr hj)⟩, rfl⟩
  | append_singleton l r ih =>
      rw [popUntilFits_reverse fits (l ++ [r]) (by simp), List.dropLast_concat]
      by_cases hfits : fits (l ++ [r]) = true
      · refine ⟨(l ++ [r]).length, ⟨le_refl _, Or.inl ?_, fun j hj hjl => ?_⟩, ?_⟩
        · rw [List.take_length]
          exact hfits
        · omega
        · rw [if_pos hfits, List.take_length]
      · -- the last hit goes, and the prefixes of the rest are those of the list
        obtain ⟨m, hm, heq⟩ := ih
        have htake : ∀ j, j ≤ l.length → (l ++ [r]).take j = l.take j := fun j hj =>
          List.take_append_of_le_length hj
        refine ⟨m, ⟨?_, ?_, fun j hj hjl => ?_⟩, ?_⟩
        · rw [List.length_append]
          exact Nat.le_add_right_of_le hm.le
        · rw [htake m hm.le]
          exact hm.fitting
        · rw [List.length_append, List.length_singleton] at hjl
          rcases Nat.lt_or_ge l.length j with hlast | hinner
          · have hj' : j = (l ++ [r]).length := by
              rw [List.length_append, List.length_singleton]
              omega
            rw [hj', List.take_length]
            simpa using hfits
          · rw [htake j hinner]
            exact hm.longest j hj hinner
        · rw [if_neg hfits, heq, htake m hm.le]

namespace Arrays

/-- The loop on the arrays leaves in `results` what the loop on the list leaves. -/
theorem results_popWhile (fits : List SearchHit → Bool) {fuel : ℕ} {a : Arrays}
    (h : a.results.length ≤ fuel) :
    (popWhile fits fuel a).results = popUntilFits fits a.results.reverse := by
  induction fuel generalizing a with
  | zero =>
      have hnil : a.results = [] := List.length_eq_zero_iff.mp (by omega)
      unfold popWhile
      rw [hnil]
      rfl
  | succ fuel ih =>
      unfold popWhile
      by_cases hnil : a.results = []
      · rw [if_neg (by simp [hnil]), hnil]
        rfl
      · have hpos : 0 < a.results.length := List.length_pos_iff.mpr hnil
        rw [popUntilFits_reverse fits a.results hnil]
        by_cases hfits : fits a.results = true
        · rw [if_neg (by simp [hfits]), if_pos hfits]
        · rw [if_pos (by simp [hfits, hpos]), if_neg hfits, ih, results_pop]
          rw [results_pop, List.length_dropLast]
          omega

/-- An array of its own keeps the caller's from the loop. -/
theorem caller_popWhile_of_own (fits : List SearchHit → Bool) (fuel : ℕ) {a : Arrays}
    (h : a.own ≠ none) : (popWhile fits fuel a).caller = a.caller := by
  induction fuel generalizing a with
  | zero => rfl
  | succ fuel ih =>
      unfold popWhile
      split
      · obtain ⟨xs, hxs⟩ := Option.ne_none_iff_exists'.mp h
        have hpop : a.pop = { a with own := some xs.dropLast } := by
          unfold pop
          rw [hxs]
        rw [ih (by rw [hpop]; exact Option.some_ne_none _), hpop]
      · rfl

/-- Without one the caller's array is what is left. -/
theorem caller_popWhile_of_shared (fits : List SearchHit → Bool) (fuel : ℕ) {a : Arrays}
    (h : a.own = none) : (popWhile fits fuel a).caller = (popWhile fits fuel a).results := by
  induction fuel generalizing a with
  | zero =>
      unfold popWhile results
      rw [h, Option.getD_none]
  | succ fuel ih =>
      have hpop : a.pop.own = none := by
        unfold pop
        rw [h]
      unfold popWhile
      split
      · exact ih hpop
      · unfold results
        rw [h, Option.getD_none]

end Arrays

/-! ## What is returned, and what is left of the caller's array -/

section

variable (countTokens : List SearchHit → ℕ) (hits : List SearchHit) (dto : SearchRequest)

/-- The array that the budget loop starts from. -/
def shapedArrays (hits : List SearchHit) (dto : SearchRequest) : Arrays :=
  { caller := hits
    own := if dto.confidenceFloor = none ∧ dto.outputShape = .full then none
      else some (shapedHits hits dto) }

theorem map_applyShape_full (xs : List SearchHit) : xs.map (applyShape .full) = xs :=
  List.map_id xs

theorem results_shapedArrays : (shapedArrays hits dto).results = shapedHits hits dto := by
  unfold shapedArrays Arrays.results
  dsimp only
  split
  · next h =>
      unfold shapedHits
      rw [h.1, h.2, map_applyShape_full]
      rfl
  · rfl

/-- The floor and the shape each make a new array; without either there is none. -/
theorem shapeStep_floorStep :
    shapeStep dto (floorStep dto { caller := hits, own := none }) = shapedArrays hits dto := by
  unfold shapeStep floorStep shapedArrays shapedHits
  cases hf : dto.confidenceFloor with
  | none =>
      cases hs : dto.outputShape with
      | full => rfl
      | compact => rfl
      | ids => rfl
  | some floor =>
      cases hs : dto.outputShape with
      | full =>
          rw [map_applyShape_full]
          rfl
      | compact => rfl
      | ids => rfl

theorem fitsBudget_of_budget {budget : ℕ} (h : dto.tokenBudget = some budget) :
    (fun xs => decide (countTokens xs ≤ budget)) = fitsBudget countTokens dto := by
  funext xs
  unfold fitsBudget
  rw [h]

theorem fitsBudget_of_no_budget (h : dto.tokenBudget = none) (xs : List SearchHit) :
    fitsBudget countTokens dto xs = true := by
  unfold fitsBudget
  rw [h]

/-- What fits has nothing popped. -/
theorem popUntilFits_of_fits {fits : List SearchHit → Bool} {l : List SearchHit}
    (h : fits l = true) : popUntilFits fits l.reverse = l := by
  rcases eq_or_ne l [] with rfl | hl
  · rfl
  · rw [popUntilFits_reverse fits l hl, if_pos h]

/-- The shaped hits less what has to be popped. -/
theorem applyOutputShaping_eq :
    applyOutputShaping countTokens hits dto =
      popUntilFits (fitsBudget countTokens dto) (shapedHits hits dto).reverse := by
  have hshaped : applyOutputShaping countTokens hits dto =
      match dto.tokenBudget with
      | none => shapedHits hits dto
      | some budget =>
          popUntilFits (fun xs => decide (countTokens xs ≤ budget))
            (shapedHits hits dto).reverse := by
    unfold applyOutputShaping shapedHits
    cases dto.confidenceFloor with
    | none => rfl
    | some floor => rfl
  rw [hshaped]
  cases hb : dto.tokenBudget with
  | none =>
      have hfits := fitsBudget_of_no_budget countTokens dto hb (shapedHits hits dto)
      exact (popUntilFits_of_fits hfits).symm
  | some budget =>
      dsimp only
      rw [fitsBudget_of_budget countTokens dto hb]

/-- The model with arrays returns what the one without them does. -/
theorem results_shapeInPlace :
    (shapeInPlace countTokens hits dto).results = applyOutputShaping countTokens hits dto := by
  rw [applyOutputShaping_eq]
  unfold shapeInPlace budgetStep
  rw [shapeStep_floorStep]
  cases hb : dto.tokenBudget with
  | none =>
      have hfits := fitsBudget_of_no_budget countTokens dto hb (shapedHits hits dto)
      rw [popUntilFits_of_fits hfits, results_shapedArrays]
  | some budget =>
      dsimp only
      rw [Arrays.results_popWhile _ (le_refl _), results_shapedArrays,
        fitsBudget_of_budget countTokens dto hb]

/-- The input array has nothing popped from it: it is not the one that the loop pops from, or
it fits. -/
def Untouched : Prop :=
  dto.confidenceFloor ≠ none ∨ dto.outputShape ≠ .full ∨ hits = [] ∨
    fitsBudget countTokens dto hits = true

/-- What is left of the caller's array if the loop pops from it. -/
theorem caller_shapeInPlace_of_shared (hfloor : dto.confidenceFloor = none)
    (hshape : dto.outputShape = .full) :
    (shapeInPlace countTokens hits dto).caller =
      popUntilFits (fitsBudget countTokens dto) hits.reverse := by
  have hown : (shapedArrays hits dto).own = none := if_pos ⟨hfloor, hshape⟩
  have hhits : shapedHits hits dto = hits := by
    unfold shapedHits
    rw [hfloor, hshape, map_applyShape_full]
    rfl
  have hcaller : (shapeInPlace countTokens hits dto).caller =
      (shapeInPlace countTokens hits dto).results := by
    unfold shapeInPlace budgetStep
    rw [shapeStep_floorStep]
    split
    · unfold Arrays.results
      rw [hown, Option.getD_none]
    · exact Arrays.caller_popWhile_of_shared _ _ hown
  rw [hcaller, results_shapeInPlace, applyOutputShaping_eq, hhits]

/-- A loop that leaves the list as it is has found that it fits. -/
theorem popUntilFits_eq_self_iff (fits : List SearchHit → Bool) (l : List SearchHit) :
    popUntilFits fits l.reverse = l ↔ l = [] ∨ fits l = true := by
  constructor
  · intro h
    obtain ⟨m, hm, heq⟩ := popUntilFits_longest fits l
    rcases hm.fitting with hfits | hm0
    · rw [heq] at h
      rw [h] at hfits
      exact Or.inr hfits
    · rw [heq, hm0, List.take_zero] at h
      exact Or.inl h.symm
  · rintro (rfl | hfits)
    · rfl
    · exact popUntilFits_of_fits hfits

/-- **The caller's array** is what it was exactly if nothing was popped from it. -/
theorem caller_shapeInPlace_iff :
    (shapeInPlace countTokens hits dto).caller = hits ↔ Untouched countTokens hits dto := by
  by_cases hshared : dto.confidenceFloor = none ∧ dto.outputShape = .full
  · -- what is left of the array is the result
    rw [caller_shapeInPlace_of_shared countTokens hits dto hshared.1 hshared.2,
      popUntilFits_eq_self_iff]
    unfold Untouched
    simp only [hshared.1, hshared.2, ne_eq, not_true_eq_false, false_or]
  · have hown : (shapedArrays hits dto).own ≠ none := by
      unfold shapedArrays
      rw [if_neg hshared]
      exact Option.some_ne_none _
    have hcaller : (shapeInPlace countTokens hits dto).caller = hits := by
      unfold shapeInPlace budgetStep
      rw [shapeStep_floorStep]
      split
      · rfl
      · exact Arrays.caller_popWhile_of_own _ _ hown
    constructor
    · intro
      by_cases hfloor : dto.confidenceFloor = none
      · exact Or.inr (Or.inl (fun hshape => hshared ⟨hfloor, hshape⟩))
      · exact Or.inl hfloor
    · intro
      exact hcaller

/-- **The lowest-scoring entities go, and the input stays** exactly if: nothing is popped from
the caller's array; a hit that scores less than a later one is not parted from it by the longest
prefix that fits; and as many as could be kept by dropping the lowest-scoring ones are kept by
some prefix. -/
theorem applyOutputShaping_exact_iff :
    (Keeps (fun hit => hit.score) (fitsBudget countTokens dto) (shapedHits hits dto)
        (shapeInPlace countTokens hits dto).results ∧
      (shapeInPlace countTokens hits dto).caller = hits) ↔
    Untouched countTokens hits dto ∧
      NotDivided (fun hit => hit.score) (fitsBudget countTokens dto) (shapedHits hits dto) ∧
      PrefixesSuffice (fun hit => hit.score) (fitsBudget countTokens dto)
        (shapedHits hits dto) := by
  obtain ⟨m, hm, heq⟩ := popUntilFits_longest (fitsBudget countTokens dto) (shapedHits hits dto)
  rw [results_shapeInPlace, applyOutputShaping_eq, heq, keeps_take_iff hm,
    caller_shapeInPlace_iff]
  exact and_comm

end

/-- The hit that scores less, which the reranker has put first. -/
def weak : SearchHit where
  entityId := 1
  entityType := "person"
  canonicalName := "ann"
  externalRefs := []
  facts := []
  score := 1

/-- The hit that scores more. -/
def strong : SearchHit := { weak with entityId := 2, canonicalName := "bob", score := 2 }

/-- A budget for one hit of forty tokens. -/
def forOne : SearchRequest where
  query := "who"
  tokenBudget := some 60

/-- At forty tokens a hit it is the stronger one that goes, and it goes from the caller's array,
too. -/
theorem shapeInPlace_drops_strong :
    let countTokens : List SearchHit → ℕ := fun xs => 40 * xs.length
    let shaped := shapeInPlace countTokens [weak, strong] forOne
    shaped.results = [weak] ∧ shaped.caller ≠ [weak, strong] ∧
      ¬ Keeps (fun hit => hit.score) (fitsBudget countTokens forOne)
        (shapedHits [weak, strong] forOne) shaped.results := by
  intro countTokens shaped
  have hresults : shaped.results = [weak] := by decide +kernel
  refine ⟨hresults, by decide +kernel, fun hkeeps => ?_⟩
  obtain ⟨dropped, hperm, hle⟩ := hkeeps.upper.2
  rw [hresults] at hperm hle
  have hstrong : strong ∈ [weak] ++ dropped := hperm.mem_iff.mpr (by decide +kernel)
  have hdropped : strong ∈ dropped := by
    rcases List.mem_append.mp hstrong with hweak | hdropped
    · exact absurd hweak (by decide +kernel)
    · exact hdropped
  have := hle strong hdropped weak (List.mem_singleton_self weak)
  revert this
  decide +kernel

end Brain.OutputShaping
