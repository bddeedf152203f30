/-
Chained search: the planner (`src/src/multi-hop/multi-hop-planner.service.ts`), which
splits a query into hops, and the executor (`multi-hop.service.ts`), which runs them one
after another and combines what they find.

A search may be made at another instant than the one before, so the search that a call
makes for hop `i` is a function of `i`; a search that throws is an `error`. The reply of
the planner's model is what its JSON parses to.
-/
import Brain.Synthesize.SynthesizeService

set_option autoImplicit false

namespace Brain

/-! ## Plans -/

/-- The `combination` of a hop. -/
inductive Combination where
  | seed | subset_of_previous | intersect | union
deriving DecidableEq, Repr

/-- `HopPlan`. -/
structure HopPlan where
  subQuery : String
  predicates : Option (List String) := none
  combination : Combination
  asOf : Option Time := none
  rationale : Option String := none
deriving DecidableEq

/-- `MultiHopPlan`. -/
structure MultiHopPlan where
  hops : List HopPlan
  isMultiHop : Bool

/-- `callLLM`, from the reply of the model on: the first hop is made the seed, and there
are no more hops than allowed. -/
def callLLM (reply : Except String (Option MultiHopPlan)) (maxHops : ℕ) :
    Except String (Option MultiHopPlan) :=
  match reply with
  | .error e => .error e
  | .ok none => .ok none
  | .ok (some parsed) =>
      match parsed.hops with
      | [] => .ok none
      | hop :: hops =>
          .ok (some { parsed with hops := ({ hop with combination := .seed } :: hops).take maxHops })

/-- `plan`; `complete` is the planner's model, of the query and the number of hops. -/
def planHops (complete : String → ℕ → Except String (Option MultiHopPlan)) (query : String)
    (maxHops : ℕ) : Option MultiHopPlan :=
  let clamped := clampQuery query
  if clamped.isEmpty then none
  else
    match callLLM (complete clamped maxHops) maxHops with
    | .ok plan => plan
    | .error _ => none

/-! ## Hops -/

/-- `MultiHopDto`. -/
structure MultiHopDto extends SearchRequest where
  maxHops : Option ℕ := none
  synthesize : Bool := false
  synthesisGuardrails : Option SynthesisGuardrails := none
  synthesisModel : Option String := none

/-- What the service is constructed with. -/
structure MultiHopEnv where
  complete : String → ℕ → Except String (Option MultiHopPlan)
  search : ℕ → SearchRequest → Except String (List SearchHit)
  /-- `MULTI_HOP_EDGE_EXPANSION_ENABLED` is `1`. -/
  edgeExpansionEnabled : Bool := false
  /-- The graph that the expansion for hop `i` reads, if its query does not fail. -/
  graph : ℕ → Option SearchDb := fun _ => none
  synthesizer : Option SynthesizeEnv := none

/-- `expandEntityIdsViaEdges` of `neighbours.ts`: the entities, then their neighbours. -/
def expandEntityIdsViaEdges (db : SearchDb) (entityIds : List EntityId) : List EntityId :=
  let rows := entityIds.filter (fun id => (db.store.entities.get? id).isSome)
  let peers := rows.flatMap (fun seedId =>
    ((peerEdges db seedId).filterMap (fun e => e.peer)).filter (fun peerId => peerId != seedId))
  (entityIds ++ peers).eraseDups

/-- The anchor of a hop, if it has one. -/
def anchorIds (env : MultiHopEnv) (i : ℕ) (hop : HopPlan) (priorEntityIds : List EntityId) :
    Option (List EntityId) :=
  if hop.combination = .subset_of_previous ∧ priorEntityIds ≠ [] then
    if env.edgeExpansionEnabled then
      match env.graph i with
      -- a failed expansion leaves the bare prior set
      | none => some priorEntityIds
      | some db => some (expandEntityIdsViaEdges db priorEntityIds)
    else some priorEntityIds
  else none

/-- The request of a hop: `hopDto`. -/
def hopRequest (env : MultiHopEnv) (dto : MultiHopDto) (i : ℕ) (hop : HopPlan)
    (priorEntityIds : List EntityId) : SearchRequest :=
  { dto.toSearchRequest with
    query := hop.subQuery
    -- an empty list of predicates is no filter
    predicates := match hop.predicates with
      | none => dto.predicates
      | some predicates => if predicates.isEmpty then dto.predicates else predicates
    asOf := match hop.asOf with
      | none => dto.asOf
      | some t => some t
    entityIds := (anchorIds env i hop priorEntityIds).getD [] }

/-- The facts of the hits, each identifier once. -/
def collectFactIds (hits : List SearchHit) : List FactId :=
  (hits.flatMap (fun h => h.facts.map (fun f => f.factId))).eraseDups

/-- `hopByEntity`. -/
def byEntityOf (hits : List SearchHit) : InsertionMap EntityId SearchHit :=
  .ofList (hits.map (fun h => (h.entityId, h)))

/-- `combine`: the running identifiers, and the hit that is kept for each. -/
def combine (combination : Combination) (priorIds hopIds : List EntityId)
    (priorByEntity : InsertionMap EntityId SearchHit) (hopHits : List SearchHit) :
    List EntityId × InsertionMap EntityId SearchHit :=
  let hopByEntity := byEntityOf hopHits
  match combination with
  | .seed => (hopIds, hopByEntity)
  | .union =>
      let out := hopByEntity.entries.foldl (fun m e => m.set e.1 e.2)
        (.ofList priorByEntity.entries)
      (out.keys, out)
  -- the search was anchored, so its hits are taken as they are
  | .subset_of_previous => (hopIds, hopByEntity)
  | .intersect =>
      let ids := hopIds.filter (fun id => priorIds.contains id)
      -- every `id` is one of a hit of the hop
      (ids, .ofList (ids.filterMap (fun id =>
        ((hopByEntity.get? id).or (priorByEntity.get? id)).map (fun h => (id, h)))))

/-! ## The executor -/

/-- `HopOutcome`. -/
structure HopOutcome where
  hop : HopPlan
  hopEntityIds : List EntityId
  runningEntityIds : List EntityId
  hits : List SearchHit
  supportingFactIds : List FactId

/-- What the loop over the hops carries along. -/
structure HopChain where
  outcomes : List HopOutcome := []
  runningIds : List EntityId := []
  runningHitsByEntity : InsertionMap EntityId SearchHit := .empty

/-- The body of the loop, after the search of the hop. -/
def HopChain.after (chain : HopChain) (hop : HopPlan) (hits : List SearchHit) : HopChain :=
  let hopIds := hits.map (fun h => h.entityId)
  let next := combine hop.combination chain.runningIds hopIds chain.runningHitsByEntity hits
  { outcomes := chain.outcomes ++
      [{ hop := hop, hopEntityIds := hopIds, runningEntityIds := next.1, hits := hits,
         supportingFactIds := collectFactIds hits }]
    runningIds := next.1
    runningHitsByEntity := next.2 }

/-- No later hop can recover. -/
def HopChain.stops (chain : HopChain) (hop : HopPlan) : Bool :=
  chain.runningIds.isEmpty && decide (hop.combination ≠ .union)

/-- The request that the loop makes for hop `i`. -/
def HopChain.request (env : MultiHopEnv) (dto : MultiHopDto) (chain : HopChain) (i : ℕ)
    (hop : HopPlan) : SearchRequest :=
  hopRequest env dto i hop (if i = 0 then [] else chain.runningIds)

/-- The loop over the hops from number `i` on; a hop that fails ends it. -/
def runHops (env : MultiHopEnv) (dto : MultiHopDto) : ℕ → List HopPlan → HopChain → HopChain
  | _, [], chain => chain
  | i, hop :: hops, chain =>
      match env.search i (chain.request env dto i hop) with
      | .error _ => chain
      | .ok hits =>
          let next := chain.after hop hits
          if next.stops hop then next else runHops env dto (i + 1) hops next

/-- `MultiHopResult`; of the synthesis the answer, its reason and the citations. -/
structure MultiHopResult where
  isMultiHop : Bool
  hops : List HopOutcome
  finalEntityIds : List EntityId
  finalHits : List SearchHit
  supportingFactIds : List FactId
  synthesis : Option (Option String × Option SynthesisReason × List Citation) := none

/-- The result of a chain, less the synthesis. -/
def HopChain.result (chain : HopChain) : MultiHopResult where
  isMultiHop := true
  hops := chain.outcomes
  finalEntityIds := chain.runningIds
  finalHits := chain.runningIds.filterMap chain.runningHitsByEntity.get?
  supportingFactIds := (chain.outcomes.flatMap (fun o => o.supportingFactIds)).eraseDups

/-- The request to the synthesizer. -/
def synthesisRequest (dto : MultiHopDto) (runningIds : List EntityId) : SynthesizeDto :=
  { dto.toSearchRequest with
    entityIds := runningIds
    synthesisModel := dto.synthesisModel
    synthesisGuardrails := dto.synthesisGuardrails }

/-- The synthesis at the end of the chain, if it is asked for; one that throws ends the
call. -/
def withSynthesis (env : MultiHopEnv) (dto : MultiHopDto) (result : MultiHopResult) :
    Except String MultiHopResult :=
  match env.synthesizer with
  | none => .ok result
  | some synthesizer =>
      if dto.synthesize && !result.finalHits.isEmpty then
        match Brain.synthesize synthesizer (synthesisRequest dto result.finalEntityIds) with
        | .error e => .error e
        | .ok synth =>
            .ok { result with synthesis := some (synth.answer, synth.reason, synth.citations) }
      else .ok result

/-- The hop of a plan that is run as a single search. -/
def singleHop (dto : MultiHopDto) (plan : MultiHopPlan) : HopPlan :=
  plan.hops.headD { subQuery := dto.query, combination := .seed }

/-- The branch of `run` for a single hop. -/
def runSingleHop (env : MultiHopEnv) (dto : MultiHopDto) (plan : MultiHopPlan) :
    Except String MultiHopResult :=
  let hop := singleHop dto plan
  match env.search 0 (hopRequest env dto 0 hop []) with
  | .error e => .error e
  | .ok hits =>
      let ids := hits.map (fun h => h.entityId)
      .ok {
        isMultiHop := false
        hops := [{ hop := hop, hopEntityIds := ids, runningEntityIds := ids, hits := hits,
                   supportingFactIds := collectFactIds hits }]
        finalEntityIds := ids
        finalHits := hits
        supportingFactIds := collectFactIds hits }

/-- The branch of `run` without a plan: one search for the query as it is. -/
def runUnplanned (env : MultiHopEnv) (dto : MultiHopDto) : Except String MultiHopResult :=
  match env.search 0 dto.toSearchRequest with
  | .error e => .error e
  | .ok hits =>
      .ok {
        isMultiHop := false
        hops := []
        finalEntityIds := hits.map (fun h => h.entityId)
        finalHits := hits
        supportingFactIds := collectFactIds hits }

/-- A plan that is run as a single search. -/
def MultiHopPlan.isSingle (plan : MultiHopPlan) : Bool :=
  !plan.isMultiHop || decide (plan.hops.length = 1)

/-- `run` with a plan. -/
def runPlan (env : MultiHopEnv) (dto : MultiHopDto) (plan : MultiHopPlan) :
    Except String MultiHopResult :=
  if plan.isSingle then runSingleHop env dto plan
  else withSynthesis env dto (runHops env dto 0 plan.hops {}).result

/-- The plan of a request. -/
def MultiHopEnv.plan (env : MultiHopEnv) (dto : MultiHopDto) : Option MultiHopPlan :=
  planHops env.complete dto.query (min (dto.maxHops.getD 3) 5)

/-- `run`. -/
def runMultiHop (env : MultiHopEnv) (dto : MultiHopDto) : Except String MultiHopResult :=
  match env.plan dto with
  | none => runUnplanned env dto
  | some plan => runPlan env dto plan

end Brain
