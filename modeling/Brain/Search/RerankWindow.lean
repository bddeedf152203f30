/-
How many entities a search returns.

The rerankers only see so many candidates: `runRerankStage` cuts the buckets to a
window of at most twenty before the LLM reranker, and to one of its own before the
cross-encoder. Both stages permute what they see, in whatever order, and fall back to
the order they were given. So what is left after the slice is as many buckets as were
asked for, or as there are, or as fit the windows, whichever is least
(`length_topEntities`): a limit beyond twenty is admitted by the request and not met.
-/
import Brain.Search.SearchService

set_option autoImplicit false

namespace Brain

/-- The rerankers that are enabled return permutations of the indices. -/
structure RerankersPermute (env : SearchEnv) : Prop where
  crossEncoder : ∀ rerank, env.crossEncoder = some rerank → ∀ query candidates,
    (rerank query candidates).Perm (List.range candidates.length)
  reranker : ∀ rerank, env.reranker = some rerank → ∀ query candidates hints,
    (rerank query candidates hints).Perm (List.range candidates.length)

/-- `n` buckets fit the windows of the stage, that of the cross-encoder only if it is
enabled. -/
def FitsWindows (env : SearchEnv) (n : ℕ) : Prop :=
  n ≤ 20 ∧ (env.crossEncoder.isSome = true → n ≤ env.crossEncoderWindow)

/-- The buckets that a search goes on with. -/
def topEntities (env : SearchEnv) (db : SearchDb) (byEntity : Buckets) (dto : SearchRequest)
    (typeDist : Option Weights) : List EntityBucket :=
  (runRerankStage env db byEntity dto typeDist).take dto.limit

/-! ## Permutations -/

theorem permute_range (candidates : List EntityBucket) :
    permute candidates (List.range candidates.length) = candidates := by
  unfold permute
  induction candidates with
  | nil => rfl
  | cons b candidates ih =>
      rw [List.length_cons, List.range_succ_eq_map, List.filterMap_cons]
      have htail : ((List.range candidates.length).map Nat.succ).filterMap
          (fun i => (b :: candidates)[i]?) = candidates := by
        rw [List.filterMap_map]
        exact ih
      rw [htail]
      rfl

/-- A permutation of the indices permutes the candidates. -/
theorem permute_perm (candidates : List EntityBucket) {permutation : List ℕ}
    (h : permutation.Perm (List.range candidates.length)) :
    (permute candidates permutation).Perm candidates := by
  have hperm := h.filterMap (fun i => candidates[i]?)
  have hid := permute_range candidates
  unfold permute at hid
  rw [hid] at hperm
  exact hperm

/-- With a fallback to the given order a reranker permutes, whether it overruns its
budget or not. -/
theorem permute_withStageBudget_perm (env : SearchEnv) (stage : BudgetedStage)
    (candidates : List EntityBucket) {permutation : List ℕ}
    (h : permutation.Perm (List.range candidates.length)) :
    (permute candidates (withStageBudget env stage permutation
      (List.range candidates.length))).Perm candidates := by
  unfold withStageBudget
  split
  · exact permute_perm candidates (List.Perm.refl _)
  · exact permute_perm candidates h

/-! ## The windows -/

section Window

variable {env : SearchEnv} {db : SearchDb} {dto : SearchRequest} {byEntity : Buckets}
  {typeDist : Option Weights}

/-- `RERANK_WINDOW`, as the stage computes it. -/
def rerankWindow (dto : SearchRequest) : ℕ := min (dto.limit * 2) 20

/-- `CROSS_ENCODER_WINDOW`. -/
def wideWindow (env : SearchEnv) (dto : SearchRequest) (byEntity : Buckets) : ℕ :=
  if env.crossEncoder.isSome then min env.crossEncoderWindow byEntity.size else rerankWindow dto

/-- `candidates` are some of the buckets, as many as both windows take. -/
def Windowed (env : SearchEnv) (dto : SearchRequest) (byEntity : Buckets)
    (candidates : List EntityBucket) : Prop :=
  candidates.Subperm byEntity.values ∧
    candidates.length = min (rerankWindow dto) (min (wideWindow env dto byEntity) byEntity.size)

/-- The cut of a permutation of the wide window. -/
theorem windowed_take {candidates : List EntityBucket}
    (h : candidates.Perm ((byEntity.values.insertionSort
      (fun a b => b.rankScore ≤ a.rankScore)).take (wideWindow env dto byEntity))) :
    Windowed env dto byEntity (candidates.take (rerankWindow dto)) := by
  have hvalues : byEntity.values.length = byEntity.size := List.length_map _
  constructor
  · have hwide : candidates.Subperm byEntity.values := by
      refine h.subperm.trans ((List.take_sublist _ _).subperm.trans ?_)
      exact (List.perm_insertionSort _ _).subperm
    exact (List.take_sublist _ _).subperm.trans hwide
  · rw [List.length_take, h.length_eq, List.length_take, List.length_insertionSort, hvalues]

/-- What the cross-encoder makes of the wide window, or the cut without it. -/
theorem windowed_crossEncoded (dto : SearchRequest) (byEntity : Buckets)
    (hp : RerankersPermute env) {wide : List EntityBucket}
    (hwide : wide = (byEntity.values.insertionSort (fun a b => b.rankScore ≤ a.rankScore)).take
      (wideWindow env dto byEntity)) :
    Windowed env dto byEntity (match env.crossEncoder with
      | none => wide.take (rerankWindow dto)
      | some rerank =>
          if 1 < wide.length then runCrossEncoder env rerank wide dto.query (rerankWindow dto)
          else wide.take (rerankWindow dto)) := by
  subst hwide
  split
  · exact windowed_take (List.Perm.refl _)
  · next rerank hrerank =>
      split
      · refine windowed_take (permute_withStageBudget_perm env .crossEncoder _ ?_)
        have hperm := hp.crossEncoder rerank hrerank dto.query
          (((byEntity.values.insertionSort (fun a b => b.rankScore ≤ a.rankScore)).take
            (wideWindow env dto byEntity)).map candidateOf)
        rwa [List.length_map] at hperm
      · exact windowed_take (List.Perm.refl _)

/-- The LLM reranker, where it is asked, permutes its candidates. -/
theorem llmReranked_perm (db : SearchDb) (dto : SearchRequest) (typeDist : Option Weights)
    (hp : RerankersPermute env) (candidates : List EntityBucket)
    (skip : Bool) :
    (match env.reranker with
      | none => candidates
      | some rerank =>
          if candidates.length ≤ 1 then candidates
          else if skip then candidates
          else runLlmRerank env rerank db candidates dto.query typeDist).Perm candidates := by
  split
  · exact List.Perm.refl _
  · next rerank hrerank =>
      split
      · exact List.Perm.refl _
      · split
        · exact List.Perm.refl _
        · refine permute_withStageBudget_perm env .rerank _ ?_
          have hperm := hp.reranker rerank hrerank dto.query
            (candidates.map (rerankCandidateOf db)) (typeDist.map (typeHints env.scoring.js))
          rwa [List.length_map] at hperm

/-- **What the stage hands on**: some of the buckets, as many as both windows take. -/
theorem windowed_runRerankStage (hp : RerankersPermute env) :
    Windowed env dto byEntity (runRerankStage env db byEntity dto typeDist) := by
  have hcandidates := windowed_crossEncoded dto byEntity hp rfl
  have hperm := llmReranked_perm db dto typeDist hp
  exact ⟨(hperm _ _).subperm.trans hcandidates.1, (hperm _ _).length_eq.trans hcandidates.2⟩

/-- **What the search goes on with.** -/
theorem length_topEntities (hp : RerankersPermute env) :
    (topEntities env db byEntity dto typeDist).length
      = min dto.limit (min (rerankWindow dto) (min (wideWindow env dto byEntity) byEntity.size)) := by
  rw [topEntities, List.length_take, (windowed_runRerankStage hp).2]

end Window

/-- **When a search returns as many entities as asked for.** Some of the buckets come
out, each at most once; and with permutations from the rerankers, or their fallback,
these are as many as the limit and the buckets allow exactly when that many fit the
windows. -/
theorem topEntities_full_iff (env : SearchEnv) (hp : RerankersPermute env) (db : SearchDb)
    (byEntity : Buckets) (dto : SearchRequest) (typeDist : Option Weights) :
    (topEntities env db byEntity dto typeDist).Subperm byEntity.values ∧
    ((topEntities env db byEntity dto typeDist).length = min dto.limit byEntity.size ↔
      FitsWindows env (min dto.limit byEntity.size)) := by
  constructor
  · exact (List.take_sublist _ _).subperm.trans (windowed_runRerankStage hp).1
  · rw [length_topEntities hp, wideWindow, FitsWindows, rerankWindow]
    cases env.crossEncoder with
    | none =>
        simp only [Option.isSome_none, Bool.false_eq_true, if_false, false_implies, and_true]
        omega
    | some rerank =>
        simp only [Option.isSome_some, if_true, true_implies]
        omega

/-- A service without rerankers. -/
def plainSearchEnv (expansion : ExpansionConfig) : SearchEnv where
  now := 0
  engine := { cosine := fun _ _ => 0, fullText := fun _ _ _ _ => none }
  embed _ := []
  detectLanguage _ := none
  route _ := none
  scoring := { js := .atRecording, LN2 := 693 / 1000, calibrate := fun _ => 1 }
  expansion := expansion
  countTokens _ := 0

theorem rerankersPermute_plainSearchEnv (expansion : ExpansionConfig) :
    RerankersPermute (plainSearchEnv expansion) :=
  ⟨fun _ h => (by cases h), fun _ h => (by cases h)⟩

/-- `n` buckets of equal rank. -/
def bucketsOf (n : ℕ) : Buckets :=
  .ofList ((List.range n).map (fun i =>
    (i, { entityId := i, rankScore := 1, bestScore := 1, facts := [] })))

/-- The theorem above for three buckets. -/
theorem topEntities_full_iff_three :
    (topEntities (plainSearchEnv {}) { store := {} } (bucketsOf 3) { query := "q" } none).Subperm
      (bucketsOf 3).values ∧
    ((topEntities (plainSearchEnv {}) { store := {} } (bucketsOf 3) { query := "q" } none).length
        = min 10 (bucketsOf 3).size ↔
      FitsWindows (plainSearchEnv {}) (min 10 (bucketsOf 3).size)) :=
  topEntities_full_iff (plainSearchEnv {}) (rerankersPermute_plainSearchEnv {}) { store := {} }
    (bucketsOf 3) { query := "q" } none

/-- A request for fifty of thirty entities gets twenty. -/
theorem topEntities_cut :
    ¬ ∀ (env : SearchEnv) (db : SearchDb) (byEntity : Buckets) (dto : SearchRequest)
      (typeDist : Option Weights), RerankersPermute env → 1 ≤ dto.limit → dto.limit ≤ 100 →
        (topEntities env db byEntity dto typeDist).length = min dto.limit byEntity.size := by
  intro h
  have hlen := h (plainSearchEnv {}) { store := {} } (bucketsOf 30) { query := "q", limit := 50 } none
    (rerankersPermute_plainSearchEnv {}) (by decide) (by decide)
  revert hlen
  decide +kernel

end Brain
