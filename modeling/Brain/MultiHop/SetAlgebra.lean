/-
What a chain of hops computes. Each combination rule is an operation on sets of entities,
and the running set is the fold of the hops' results under these operations. The service
keeps the running set twice, as a list of identifiers and as a map from the identifiers to
the hits; the two stay aligned at every hop, so the final hits are those of the final
identifiers, one for one and in their order.

The running set is never empty when the loop goes on, so a hop that is restricted to the
entities before it is anchored at some.
-/
import Brain.Lib.Distinct
import Brain.MultiHop.MultiHopService

set_option autoImplicit false

namespace Brain

/-! ## 1. Rules as operations on sets -/

/-- What a combination rule makes of the running set and the result of a hop. -/
def Combination.apply (combination : Combination) (running found : Finset EntityId) :
    Finset EntityId :=
  match combination with
  | .seed | .subset_of_previous => found
  | .intersect => found ∩ running
  | .union => running ∪ found

/-- The set that the hops' results combine to. -/
def combinedSet (outcomes : List HopOutcome) : Finset EntityId :=
  outcomes.foldl (fun running o => o.hop.combination.apply running o.hopEntityIds.toFinset) ∅

theorem combinedSet_concat (outcomes : List HopOutcome) (o : HopOutcome) :
    combinedSet (outcomes ++ [o])
      = o.hop.combination.apply (combinedSet outcomes) o.hopEntityIds.toFinset := by
  rw [combinedSet, List.foldl_append]
  rfl

/-! ## 2. Identifiers and hits -/

/-- The map keeps one hit for each of the identifiers, in their order. -/
structure KeepsHits (ids : List EntityId) (byEntity : InsertionMap EntityId SearchHit) :
    Prop where
  keys : byEntity.keys = ids
  own : ∀ e ∈ byEntity.entries, e.2.entityId = e.1

namespace KeepsHits

variable {ids : List EntityId} {byEntity : InsertionMap EntityId SearchHit} {hits : List SearchHit}

theorem nodup (h : KeepsHits ids byEntity) : ids.Nodup := h.keys ▸ byEntity.nodup

theorem own_get? (h : KeepsHits ids byEntity) {id : EntityId} {hit : SearchHit}
    (hget : byEntity.get? id = some hit) : hit.entityId = id :=
  h.own (id, hit) (InsertionMap.mem_of_get? hget)

/-- Looking the identifiers up gives hits of theirs, in their order. -/
theorem map_entityId (h : KeepsHits ids byEntity) :
    (ids.filterMap byEntity.get?).map (fun hit => hit.entityId) = ids := by
  have hvalues : ids.filterMap byEntity.get? = byEntity.values := by
    rw [← h.keys, InsertionMap.filterMap_get?_keys]
  calc (ids.filterMap byEntity.get?).map (fun hit => hit.entityId)
      = byEntity.entries.map (fun e => e.2.entityId) := by
        rw [hvalues, InsertionMap.values, List.map_map]
        rfl
    _ = byEntity.entries.map Prod.fst := List.map_congr_left h.own
    _ = ids := h.keys

theorem empty : KeepsHits [] .empty where
  keys := rfl
  own := by simp [InsertionMap.empty]

/-- The map of a hop's hits. -/
theorem byEntityOf (hn : (hits.map (fun hit => hit.entityId)).Nodup) :
    KeepsHits (hits.map (fun hit => hit.entityId)) (byEntityOf hits) where
  keys := by
    have hfst : (hits.map (fun hit => (hit.entityId, hit))).map Prod.fst
        = hits.map (fun hit => hit.entityId) := by
      rw [List.map_map]
      rfl
    rw [Brain.byEntityOf, InsertionMap.keys_ofList (hfst ▸ hn), hfst]
  own := by
    intro e he
    obtain ⟨hit, _, rfl⟩ := List.mem_map.mp (InsertionMap.mem_entries_ofList he)
    rfl

end KeepsHits

section Combine

variable {priorIds : List EntityId} {prior : InsertionMap EntityId SearchHit}
  {hits : List SearchHit}

/-- The keys of a map that is copied and then filled with those of another. -/
theorem keys_union (m m' : InsertionMap EntityId SearchHit) :
    (m'.entries.foldl (fun out e => InsertionMap.set out e.1 e.2)
        (InsertionMap.ofList m.entries)).keys
      = m.keys ++ m'.keys.filter (fun k => decide (k ∉ m.keys)) := by
  rw [InsertionMap.keys_foldl_set m'.nodup, InsertionMap.keys_ofList m.nodup]
  rfl

/-- An intersection has an entry for every identifier that is left. -/
theorem map_fst_intersect (prior : InsertionMap EntityId SearchHit) (hits : List SearchHit)
    (ids : List EntityId) (hget : ∀ id ∈ ids, ((byEntityOf hits).get? id).isSome) :
    (ids.filterMap (fun id =>
      (((byEntityOf hits).get? id).or (prior.get? id)).map (fun h => (id, h)))).map Prod.fst
      = ids := by
  induction ids with
  | nil => rfl
  | cons id ids ih =>
      obtain ⟨hit, hhit⟩ := Option.isSome_iff_exists.mp (hget id List.mem_cons_self)
      have hrest := ih (fun id' hid' => hget id' (List.mem_cons_of_mem _ hid'))
      simp only [List.filterMap_cons, hhit, Option.some_or, Option.map_some, List.map_cons]
      rw [hrest]

/-- **Every rule keeps the identifiers and the hits aligned.** -/
theorem KeepsHits.combine (h : KeepsHits priorIds prior)
    (hn : (hits.map (fun hit => hit.entityId)).Nodup) (combination : Combination) :
    KeepsHits (combine combination priorIds (hits.map (fun hit => hit.entityId)) prior hits).1
      (combine combination priorIds (hits.map (fun hit => hit.entityId)) prior hits).2 := by
  have hhop := KeepsHits.byEntityOf hn
  cases combination with
  | seed => exact hhop
  | subset_of_previous => exact hhop
  | union =>
      refine ⟨rfl, fun e he => ?_⟩
      rcases InsertionMap.mem_entries_foldl_set he with he | he
      · exact h.own e (InsertionMap.mem_entries_ofList he)
      · exact hhop.own e he
  | intersect =>
      have hfst := map_fst_intersect prior hits
        ((hits.map (fun hit => hit.entityId)).filter (fun id => priorIds.contains id))
        (fun id hid => by
          rw [Option.isSome_iff_ne_none, ne_eq, InsertionMap.get?_eq_none_iff, hhop.keys, not_not]
          exact (List.mem_filter.mp hid).1)
      refine ⟨?_, fun e he => ?_⟩
      · exact (InsertionMap.keys_ofList (by rw [hfst]; exact hn.filter _)).trans hfst
      · obtain ⟨id, _, hid⟩ := List.mem_filterMap.mp (InsertionMap.mem_entries_ofList he)
        obtain ⟨hit, hhit, rfl⟩ := Option.map_eq_some_iff.mp hid
        rcases Option.or_eq_some_iff.mp hhit with hhit | ⟨_, hhit⟩
        · exact hhop.own_get? hhit
        · exact h.own_get? hhit

/-- **Every rule computes its operation.** -/
theorem combine_toFinset (h : KeepsHits priorIds prior)
    (hn : (hits.map (fun hit => hit.entityId)).Nodup) (combination : Combination) :
    (combine combination priorIds (hits.map (fun hit => hit.entityId)) prior hits).1.toFinset
      = combination.apply priorIds.toFinset (hits.map (fun hit => hit.entityId)).toFinset := by
  cases combination with
  | seed => rfl
  | subset_of_previous => rfl
  | intersect =>
      ext id
      simp [combine, Combination.apply]
  | union =>
      have hkeys := keys_union prior (byEntityOf hits)
      rw [h.keys, (KeepsHits.byEntityOf hn).keys] at hkeys
      have hids : (combine .union priorIds (hits.map (fun hit => hit.entityId)) prior hits).1
          = priorIds ++ (hits.map (fun hit => hit.entityId)).filter
              (fun id => decide (id ∉ priorIds)) := hkeys
      rw [hids]
      ext id
      simp only [Combination.apply, List.mem_toFinset, List.mem_append, List.mem_filter,
        Finset.mem_union, decide_eq_true_eq]
      tauto

end Combine

/-! ## 3. The chain -/

/-- What holds of the chain before every hop. -/
structure HopChain.Aligned (chain : HopChain) : Prop where
  hits : KeepsHits chain.runningIds chain.runningHitsByEntity
  combined : chain.runningIds.toFinset = combinedSet chain.outcomes
  found : ∀ o ∈ chain.outcomes, o.hopEntityIds = o.hits.map (fun hit => hit.entityId)
  supported : ∀ o ∈ chain.outcomes, o.supportingFactIds = collectFactIds o.hits

/-- A search finds an entity at most once. -/
def MultiHopEnv.FindsDistinct (env : MultiHopEnv) : Prop :=
  ∀ i request hits, env.search i request = .ok hits →
    (hits.map (fun hit => hit.entityId)).Nodup

section Chain

variable {env : MultiHopEnv} {dto : MultiHopDto} {chain : HopChain} {hop : HopPlan}
  {hits : List SearchHit}

theorem HopChain.Aligned.empty : ({} : HopChain).Aligned where
  hits := KeepsHits.empty
  combined := rfl
  found := by simp
  supported := by simp

/-- **One hop.** -/
theorem HopChain.Aligned.after (h : chain.Aligned)
    (hn : (hits.map (fun hit => hit.entityId)).Nodup) : (chain.after hop hits).Aligned where
  hits := h.hits.combine hn hop.combination
  combined := by
    have hstep := combine_toFinset h.hits hn hop.combination
    rw [h.combined] at hstep
    rw [HopChain.after, combinedSet_concat]
    exact hstep
  found := by
    intro o ho
    rcases List.mem_append.mp ho with ho | ho
    · exact h.found o ho
    · rw [List.mem_singleton.mp ho]
  supported := by
    intro o ho
    rcases List.mem_append.mp ho with ho | ho
    · exact h.supported o ho
    · rw [List.mem_singleton.mp ho]

theorem runHops_of_error {i : ℕ} {hops : List HopPlan} {e : String}
    (hsearch : env.search i (chain.request env dto i hop) = .error e) :
    runHops env dto i (hop :: hops) chain = chain := by
  rw [runHops, hsearch]

theorem runHops_of_ok {i : ℕ} {hops : List HopPlan}
    (hsearch : env.search i (chain.request env dto i hop) = .ok hits) :
    runHops env dto i (hop :: hops) chain
      = if (chain.after hop hits).stops hop then chain.after hop hits
        else runHops env dto (i + 1) hops (chain.after hop hits) := by
  rw [runHops, hsearch]

/-- **All hops.** -/
theorem HopChain.Aligned.runHops (dto : MultiHopDto) (hdistinct : env.FindsDistinct)
    (hops : List HopPlan) : ∀ {i : ℕ} {chain : HopChain}, chain.Aligned →
      (runHops env dto i hops chain).Aligned := by
  induction hops with
  | nil => exact fun h => h
  | cons hop hops ih =>
      intro i chain h
      cases hsearch : env.search i (chain.request env dto i hop) with
      | error e =>
          rw [runHops_of_error hsearch]
          exact h
      | ok hits =>
          have hnext : (chain.after hop hits).Aligned := h.after (hdistinct _ _ _ hsearch)
          rw [runHops_of_ok hsearch]
          by_cases hstop : (chain.after hop hits).stops hop = true
          · rw [if_pos hstop]
            exact hnext
          · rw [if_neg hstop]
            exact ih hnext

/-- The loop goes on with entities in the running set, if it had some before the hop or
the hop is not a union. -/
theorem HopChain.Aligned.after_ne_nil (h : chain.Aligned)
    (hn : (hits.map (fun hit => hit.entityId)).Nodup)
    (hsome : hop.combination = .union → chain.runningIds ≠ [])
    (hgo : ¬ (chain.after hop hits).stops hop = true) :
    (chain.after hop hits).runningIds ≠ [] := by
  intro hnil
  have hunion : hop.combination = .union := by
    simpa [HopChain.stops, hnil] using hgo
  -- a union keeps the entities of before
  obtain ⟨id, hid⟩ := List.exists_mem_of_ne_nil _ (hsome hunion)
  have hstep := combine_toFinset h.hits hn hop.combination
  rw [hunion] at hstep
  have hids : (chain.after hop hits).runningIds.toFinset
      = chain.runningIds.toFinset ∪ (hits.map (fun hit => hit.entityId)).toFinset := by
    rw [HopChain.after, hunion]
    exact hstep
  have hmem : id ∈ (chain.after hop hits).runningIds.toFinset := by
    rw [hids]
    exact Finset.mem_union_left _ (List.mem_toFinset.mpr hid)
  rw [hnil] at hmem
  simp at hmem

end Chain

/-! ## 4. The searches that are made -/

/-- A search of a run. -/
structure HopCall where
  index : ℕ
  hop : HopPlan
  request : SearchRequest

/-- The searches that the loop makes, the one that fails included. -/
def hopCalls (env : MultiHopEnv) (dto : MultiHopDto) : ℕ → List HopPlan → HopChain → List HopCall
  | _, [], _ => []
  | i, hop :: hops, chain =>
      let request := chain.request env dto i hop
      { index := i, hop := hop, request := request } ::
        match env.search i request with
        | .error _ => []
        | .ok hits =>
            let next := chain.after hop hits
            if next.stops hop then [] else hopCalls env dto (i + 1) hops next

/-- The search of a plan that is run as a single one. -/
def singleCall (env : MultiHopEnv) (dto : MultiHopDto) (plan : MultiHopPlan) : HopCall where
  index := 0
  hop := singleHop dto plan
  request := hopRequest env dto 0 (singleHop dto plan) []

/-- The searches that a run makes for its plan. -/
def multiHopCalls (env : MultiHopEnv) (dto : MultiHopDto) (plan : MultiHopPlan) : List HopCall :=
  if plan.isSingle then [singleCall env dto plan]
  else hopCalls env dto 0 plan.hops {}

/-- What a search found, with its hop. -/
def HopCall.outcome (env : MultiHopEnv) (call : HopCall) : Option (HopPlan × List SearchHit) :=
  (env.search call.index call.request).toOption.map (fun hits => (call.hop, hits))

section Calls

variable {env : MultiHopEnv} {dto : MultiHopDto} {i : ℕ} {chain : HopChain} {hop : HopPlan}
  {hops : List HopPlan} {hits : List SearchHit}

/-- The first search of the loop. -/
def firstCall (env : MultiHopEnv) (dto : MultiHopDto) (i : ℕ) (chain : HopChain)
    (hop : HopPlan) : HopCall where
  index := i
  hop := hop
  request := chain.request env dto i hop

theorem hopCalls_of_error {e : String}
    (hsearch : env.search i (chain.request env dto i hop) = .error e) :
    hopCalls env dto i (hop :: hops) chain = [firstCall env dto i chain hop] := by
  rw [hopCalls, hsearch]
  rfl

theorem hopCalls_of_ok (hsearch : env.search i (chain.request env dto i hop) = .ok hits) :
    hopCalls env dto i (hop :: hops) chain
      = firstCall env dto i chain hop ::
        if (chain.after hop hits).stops hop then []
        else hopCalls env dto (i + 1) hops (chain.after hop hits) := by
  rw [hopCalls, hsearch]
  rfl

/-- The outcomes of the loop are those of its searches. -/
theorem outcomes_runHops (env : MultiHopEnv) (dto : MultiHopDto) (hops : List HopPlan) :
    ∀ (i : ℕ) (chain : HopChain),
    (runHops env dto i hops chain).outcomes.map (fun o => (o.hop, o.hits))
      = chain.outcomes.map (fun o => (o.hop, o.hits))
        ++ (hopCalls env dto i hops chain).filterMap (HopCall.outcome env) := by
  induction hops with
  | nil => exact fun _ _ => (List.append_nil _).symm
  | cons hop hops ih =>
      intro i chain
      cases hsearch : env.search i (chain.request env dto i hop) with
      | error e =>
          have hfirst : (firstCall env dto i chain hop).outcome env = none := by
            simp [HopCall.outcome, firstCall, hsearch, Except.toOption]
          rw [runHops_of_error hsearch, hopCalls_of_error hsearch,
            List.filterMap_cons_none hfirst, List.filterMap_nil, List.append_nil]
      | ok hits =>
          have hfirst : (firstCall env dto i chain hop).outcome env = some (hop, hits) := by
            simp [HopCall.outcome, firstCall, hsearch, Except.toOption]
          have hafter : (chain.after hop hits).outcomes.map (fun o => (o.hop, o.hits))
              = chain.outcomes.map (fun o => (o.hop, o.hits)) ++ [(hop, hits)] := by
            rw [HopChain.after, List.map_append]
            rfl
          rw [runHops_of_ok hsearch, hopCalls_of_ok hsearch, List.filterMap_cons_some hfirst]
          by_cases hstop : (chain.after hop hits).stops hop = true
          · rw [if_pos hstop, if_pos hstop, hafter, List.filterMap_nil]
          · rw [if_neg hstop, if_neg hstop, ih, hafter, List.append_assoc, List.singleton_append]

theorem expandEntityIdsViaEdges_ne_nil {db : SearchDb} {entityIds : List EntityId}
    (h : entityIds ≠ []) : expandEntityIdsViaEdges db entityIds ≠ [] := by
  obtain ⟨id, hid⟩ := List.exists_mem_of_ne_nil _ h
  have hmem : id ∈ expandEntityIdsViaEdges db entityIds :=
    List.mem_eraseDups.mpr (List.mem_append_left _ hid)
  exact List.ne_nil_of_mem hmem

/-- A hop that is restricted to entities is anchored at some. -/
theorem entityIds_hopRequest_ne_nil {i : ℕ} {hop : HopPlan} {prior : List EntityId}
    (hsubset : hop.combination = .subset_of_previous) (hprior : prior ≠ []) :
    (hopRequest env dto i hop prior).entityIds ≠ [] := by
  have hanchor : (hopRequest env dto i hop prior).entityIds
      = (anchorIds env i hop prior).getD [] := rfl
  rw [hanchor, anchorIds, if_pos ⟨hsubset, hprior⟩]
  by_cases hexpand : env.edgeExpansionEnabled = true
  · rw [if_pos hexpand]
    cases env.graph i with
    | none => exact hprior
    | some db => exact expandEntityIdsViaEdges_ne_nil hprior
  · rw [if_neg hexpand]
    exact hprior

/-- **The loop is never unanchored** once its running set has entities. -/
theorem anchored_hopCalls (hdistinct : env.FindsDistinct) (hops : List HopPlan) :
    ∀ {i : ℕ} {chain : HopChain}, chain.Aligned → i ≠ 0 → chain.runningIds ≠ [] →
      ∀ call ∈ hopCalls env dto i hops chain, call.hop.combination = .subset_of_previous →
        call.request.entityIds ≠ [] := by
  induction hops with
  | nil => intro i chain _ _ _ call hcall; cases hcall
  | cons hop hops ih =>
      intro i chain h hi hsome call hcall hsubset
      have hfirst : (firstCall env dto i chain hop).hop.combination = .subset_of_previous →
          (firstCall env dto i chain hop).request.entityIds ≠ [] := by
        intro hsubset
        have hrequest : (firstCall env dto i chain hop).request
            = hopRequest env dto i hop chain.runningIds := by
          rw [firstCall, HopChain.request, if_neg hi]
        rw [hrequest]
        exact entityIds_hopRequest_ne_nil hsubset hsome
      cases hsearch : env.search i (chain.request env dto i hop) with
      | error e =>
          rw [hopCalls_of_error hsearch, List.mem_singleton] at hcall
          rw [hcall] at hsubset ⊢
          exact hfirst hsubset
      | ok hits =>
          rw [hopCalls_of_ok hsearch] at hcall
          rcases List.mem_cons.mp hcall with rfl | hcall
          · exact hfirst hsubset
          · have hn := hdistinct _ _ _ hsearch
            by_cases hstop : (chain.after hop hits).stops hop = true
            · rw [if_pos hstop] at hcall
              cases hcall
            · rw [if_neg hstop] at hcall
              exact ih (h.after hn) (Nat.succ_ne_zero i)
                (h.after_ne_nil hn (fun _ => hsome) hstop) call hcall hsubset

end Calls

/-! ## 5. The plan -/

/-- The planner makes the first hop the seed. -/
theorem seed_of_planHops {complete : String → ℕ → Except String (Option MultiHopPlan)}
    {query : String} {maxHops : ℕ} {plan : MultiHopPlan}
    (h : planHops complete query maxHops = some plan) :
    ∀ hop ∈ plan.hops.head?, hop.combination = .seed := by
  have hcall : callLLM (complete (clampQuery query) maxHops) maxHops = .ok (some plan) := by
    simp only [planHops] at h
    split_ifs at h
    rcases hreply : callLLM (complete (clampQuery query) maxHops) maxHops with e | reply
    · simp [hreply] at h
    · simpa [hreply] using h
  rcases hreply : complete (clampQuery query) maxHops with e | _ | parsed
  · simp [callLLM, hreply] at hcall
  · simp [callLLM, hreply] at hcall
  · rcases hhops : parsed.hops with _ | ⟨first, rest⟩
    · simp [callLLM, hreply, hhops] at hcall
    · simp only [callLLM, hreply, hhops, Except.ok.injEq, Option.some.injEq] at hcall
      rw [← hcall]
      intro hop hhop
      cases maxHops with
      | zero => simp at hhop
      | succ n =>
          rw [List.take_succ_cons, List.head?_cons, Option.mem_some_iff] at hhop
          rw [← hhop]

/-- What the result of a run says, for the searches that were made. -/
structure MultiHopResult.SetAlgebra (env : MultiHopEnv) (calls : List HopCall)
    (r : MultiHopResult) : Prop where
  /-- The outcomes are those of the searches that did not fail, in their order. -/
  executed : r.hops.map (fun o => (o.hop, o.hits)) = calls.filterMap (HopCall.outcome env)
  found : ∀ o ∈ r.hops, o.hopEntityIds = o.hits.map (fun hit => hit.entityId)
  combined : r.finalEntityIds.toFinset = combinedSet r.hops
  distinct : r.finalEntityIds.Nodup
  aligned : r.finalHits.map (fun hit => hit.entityId) = r.finalEntityIds
  anchored : ∀ call ∈ calls, call.hop.combination = .subset_of_previous →
    call.request.entityIds ≠ []
  supported : r.supportingFactIds = collectFactIds (r.hops.flatMap (fun o => o.hits))
  supportedOnce : r.supportingFactIds.Nodup

section Run

variable {env : MultiHopEnv} {dto : MultiHopDto} {plan : MultiHopPlan} {r : MultiHopResult}

/-- The facts of several hops, each once. -/
theorem collectFactIds_flatMap (outcomes : List HopOutcome) :
    (outcomes.flatMap (fun o => collectFactIds o.hits)).eraseDups
      = collectFactIds (outcomes.flatMap (fun o => o.hits)) := by
  unfold collectFactIds
  rw [Distinct.eraseDups_flatMap_eraseDups, List.flatMap_assoc]

/-- The searches of the loop are anchored. -/
theorem anchored_runHops (hdistinct : env.FindsDistinct)
    (hseed : ∀ hop ∈ plan.hops.head?, hop.combination = .seed) :
    ∀ call ∈ hopCalls env dto 0 plan.hops {}, call.hop.combination = .subset_of_previous →
      call.request.entityIds ≠ [] := by
  intro call hcall hsubset
  cases hhops : plan.hops with
  | nil => simp [hhops, hopCalls] at hcall
  | cons hop hops =>
      have hop_seed : hop.combination = .seed := hseed hop (by simp [hhops])
      rw [hhops] at hcall
      have hnot : call ≠ firstCall env dto 0 {} hop := by
        rintro rfl
        have hcontra : Combination.seed = .subset_of_previous := hop_seed.symm.trans hsubset
        cases hcontra
      cases hsearch : env.search 0 (HopChain.request env dto {} 0 hop) with
      | error e =>
          rw [hopCalls_of_error hsearch, List.mem_singleton] at hcall
          exact absurd hcall hnot
      | ok hits =>
          rw [hopCalls_of_ok hsearch] at hcall
          have hcall := (List.mem_cons.mp hcall).resolve_left hnot
          have hn := hdistinct _ _ _ hsearch
          by_cases hstop : (({} : HopChain).after hop hits).stops hop = true
          · rw [if_pos hstop] at hcall
            cases hcall
          · rw [if_neg hstop] at hcall
            -- the seed left the loop with entities
            have hnext := HopChain.Aligned.empty.after_ne_nil hn
              (fun hunion => by rw [hop_seed] at hunion; cases hunion) hstop
            exact anchored_hopCalls hdistinct hops (HopChain.Aligned.empty.after hn) one_ne_zero
              hnext call hcall hsubset

/-- The result of a chain. -/
theorem setAlgebra_chain (hdistinct : env.FindsDistinct)
    (hseed : ∀ hop ∈ plan.hops.head?, hop.combination = .seed) :
    (runHops env dto 0 plan.hops {}).result.SetAlgebra env (hopCalls env dto 0 plan.hops {}) := by
  have hchain := HopChain.Aligned.empty.runHops (i := 0) dto hdistinct plan.hops
  have hsupported : (runHops env dto 0 plan.hops {}).outcomes.flatMap (fun o => o.supportingFactIds)
      = (runHops env dto 0 plan.hops {}).outcomes.flatMap (fun o => collectFactIds o.hits) :=
    List.flatMap_congr hchain.supported
  refine ⟨?_, hchain.found, hchain.combined, hchain.hits.nodup, hchain.hits.map_entityId,
    anchored_runHops hdistinct hseed, ?_, ?_⟩
  · have hcalls := outcomes_runHops env dto plan.hops 0 {}
    rwa [List.map_nil, List.nil_append] at hcalls
  · rw [HopChain.result, hsupported, collectFactIds_flatMap]
  · exact Grouping.nodup_eraseDups _

/-- The result of a single search. -/
theorem setAlgebra_single (hdistinct : env.FindsDistinct)
    (hseed : ∀ hop ∈ plan.hops.head?, hop.combination = .seed)
    (h : runSingleHop env dto plan = .ok r) :
    r.SetAlgebra env [singleCall env dto plan] := by
  have hsingle : (singleHop dto plan).combination = .seed := by
    unfold singleHop
    cases hhops : plan.hops with
    | nil => rfl
    | cons hop hops => exact hseed hop (by simp [hhops])
  unfold runSingleHop at h
  cases hsearch : env.search 0 (hopRequest env dto 0 (singleHop dto plan) []) with
  | error e => simp [hsearch] at h
  | ok hits =>
      simp only [hsearch, Except.ok.injEq] at h
      subst h
      refine ⟨?_, ?_, ?_, hdistinct _ _ _ hsearch, rfl, ?_, ?_, Grouping.nodup_eraseDups _⟩
      · simp [HopCall.outcome, singleCall, hsearch, Except.toOption]
      · simp
      · simp [combinedSet, hsingle, Combination.apply]
      · simp [singleCall, hsingle]
      · simp

/-- The synthesis changes nothing else of the result. -/
theorem setAlgebra_withSynthesis {calls : List HopCall} {result : MultiHopResult}
    (hresult : result.SetAlgebra env calls) (h : withSynthesis env dto result = .ok r) :
    r.SetAlgebra env calls := by
  unfold withSynthesis at h
  rcases hsynthesizer : env.synthesizer with _ | synthesizer
  · simp only [hsynthesizer, Except.ok.injEq] at h
    rwa [← h]
  · by_cases hasked : (dto.synthesize && !result.finalHits.isEmpty) = true
    · simp only [hsynthesizer, hasked, if_true] at h
      rcases hsynth : Brain.synthesize synthesizer (synthesisRequest dto result.finalEntityIds)
        with e | synth
      · simp [hsynth] at h
      · simp only [hsynth, Except.ok.injEq] at h
        rw [← h]
        exact ⟨hresult.executed, hresult.found, hresult.combined, hresult.distinct,
          hresult.aligned, hresult.anchored, hresult.supported, hresult.supportedOnce⟩
    · simp only [hsynthesizer, hasked, Bool.false_eq_true, if_false, Except.ok.injEq] at h
      rwa [← h]

/-- **A chained search computes the algebra of its plan.** -/
theorem runMultiHop_setAlgebra (hdistinct : env.FindsDistinct) (hplan : env.plan dto = some plan)
    (h : runMultiHop env dto = .ok r) : r.SetAlgebra env (multiHopCalls env dto plan) := by
  have hseed := seed_of_planHops hplan
  have hrun : runPlan env dto plan = .ok r := by
    simpa only [runMultiHop, hplan] using h
  unfold runPlan at hrun
  unfold multiHopCalls
  by_cases hsingle : plan.isSingle = true
  · rw [if_pos hsingle] at hrun ⊢
    exact setAlgebra_single hdistinct hseed hrun
  · rw [if_neg hsingle] at hrun ⊢
    exact setAlgebra_withSynthesis (setAlgebra_chain hdistinct hseed) hrun

end Run

/-! ## 6. A chain of three hops -/

/-- A hit of an entity. -/
def hopHit (entityId : EntityId) : SearchHit where
  entityId := entityId
  entityType := "person"
  canonicalName := "Ada"
  externalRefs := []
  facts := []
  score := 1

/-- Three hops, each with another rule. -/
def threeHops : MultiHopPlan where
  isMultiHop := true
  hops := [{ subQuery := "who", combination := .seed },
    { subQuery := "of these", combination := .subset_of_previous },
    { subQuery := "also", combination := .intersect }]

/-- A service whose planner splits every query into these hops. -/
def threeHopService : MultiHopEnv where
  complete _ _ := .ok (some threeHops)
  search i _ := .ok ([[hopHit 0, hopHit 1, hopHit 2], [hopHit 2, hopHit 1], [hopHit 5, hopHit 2]].getD
    i [])

/-- The theorem above for a chain that ends with one entity. -/
theorem runMultiHop_setAlgebra_three :
    ∃ r, runMultiHop threeHopService { query := "who" } = .ok r ∧ r.finalEntityIds = [2] ∧
      r.SetAlgebra threeHopService (multiHopCalls threeHopService { query := "who" } threeHops) := by
  have hdistinct : threeHopService.FindsDistinct := by
    intro i request hits hhits
    cases hhits
    rcases i with _ | _ | _ | i
    · decide
    · decide
    · decide
    · exact List.nodup_nil
  have hplan : threeHopService.plan { query := "who" } = some threeHops := rfl
  refine ⟨_, rfl, by decide, runMultiHop_setAlgebra hdistinct hplan rfl⟩

end Brain
