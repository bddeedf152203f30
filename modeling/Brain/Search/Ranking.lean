/-
The middle of the search pipeline, from the rows that passed the scope filter to
the ranked entities: scoring (`src/src/search/internals/scoring.ts`,
`diversity-key.ts`), the walk over the edges (`edge-expansion.ts`, `neighbours.ts`),
the PageRank prior (`ppr.ts`) and the margin test of the reranker
(`rerank-skip.ts`).

The stages hand on a map from entities to buckets, which the source mutates in
place; here every stage returns the map as it leaves it.
-/
import Brain.Ai.PredicateRegistry
import Brain.Search.Retrieval

set_option autoImplicit false

namespace Brain

/-- `ScoreBreakdown`, as far as the pipeline fills it in. -/
structure FactScoreBreakdown where
  fusedScore : ℚ
  confidence : ℚ
  calibratedConfidence : Option ℚ := none
  decay : ℚ
  predBoost : ℚ
  finalScore : ℚ
  stages : List RetrievalStage
deriving DecidableEq

/-- `ScoredRow`. -/
structure ScoredRow where
  row : FusedRow
  score : ℚ
  breakdown : FactScoreBreakdown

/-- `EntityBucket`. -/
structure EntityBucket where
  entityId : EntityId
  rankScore : ℚ
  bestScore : ℚ
  facts : List ScoredRow

/-- The buckets of a search. -/
abbrev Buckets := InsertionMap EntityId EntityBucket

/-! ## Scoring -/

/-- `PREDICATE_BOOST_ALPHA`, with its default. -/
def predicateBoostAlpha (predicate : String) : ℚ :=
  if ["dob", "email", "phone"].contains predicate then 15 / 10
  else if predicate == "address" then 8 / 10
  else 5 / 10

/-- `DEGREE_BOOST_WEIGHT`. -/
def DEGREE_BOOST_WEIGHT : ℚ := 3 / 10

/-- `DEGREE_BOOST_TOP_N`. -/
def DEGREE_BOOST_TOP_N : ℕ := 2

/-- The `weights` of a distribution. -/
abbrev Weights := List (String × ℚ)

/-- `weights[name] ?? 0`. -/
def Weights.at_ (weights : Weights) (name : String) : ℚ :=
  ((weights.find? (fun w => w.1 == name)).map Prod.snd).getD 0

/-- What the scoring takes from outside: `Math`, `Math.LN2` and the calibration map. -/
structure Scoring where
  js : JsMath
  LN2 : ℚ
  calibrate : ℚ → ℚ

/-- The `decay` of a row. -/
def rowDecay (scoring : Scoring) (now : Time) (row : FactRow) : ℚ :=
  match (policyFor row.predicate).decayHalfLifeDays with
  | none => 1
  | some halfLife =>
      let ageDays : ℚ := ((now - row.recordedAt : ℤ) : ℚ) / 86400000
      scoring.js.exp (-scoring.LN2 * ageDays / halfLife)

/-- `scoreRows` on one row. -/
def scoreRow (scoring : Scoring) (predicateDist : Option Weights) (now : Time) (row : FusedRow) :
    ScoredRow :=
  let decay := rowDecay scoring now row.toFactRow
  let predBoost := match predicateDist with
    | none => 1
    | some weights => 1 + predicateBoostAlpha row.predicate * weights.at_ row.predicate
  let calibratedConfidence := scoring.calibrate row.confidence.1
  let finalScore := row.fusedScore * decay * calibratedConfidence * predBoost
  { row := row
    score := finalScore
    breakdown :=
      { fusedScore := row.fusedScore
        confidence := row.confidence.1
        calibratedConfidence := some calibratedConfidence
        decay := decay
        predBoost := predBoost
        finalScore := finalScore
        stages := row.stages } }

/-- `scoreRows`. -/
def scoreRows (scoring : Scoring) (rows : List FusedRow) (predicateDist : Option Weights)
    (now : Time) : List ScoredRow :=
  rows.map (scoreRow scoring predicateDist now)

/-- `toLowerCase` where it can yield a letter of the Latin alphabet: besides the
capitals these are the Kelvin sign and the dotted capital I. -/
def lowerChar (c : Char) : List Char :=
  if c.toNat = 0x212A then ['k']
  else if c.toNat = 0x0130 then ['i', Char.ofNat 0x0307]
  else [c.toLower]

/-- `diversityKey`. Everything but letters and digits separates tokens, be it a
space already or replaced by one. -/
def diversityKey (predicate object : String) : String :=
  let lowered := object.toList.flatMap lowerChar
  let tokens := lowered.splitOnP (fun c => !(c.isLower || c.isDigit))
  let kept := ((tokens.filter (fun t => decide (3 ≤ t.length))).take 3).map String.ofList
  predicate ++ "|" ++ " ".intercalate (kept.insertionSort (fun a b => a ≤ b))

/-- A row goes into the bucket of its entity. -/
def addToBucket (byEntity : Buckets) (sf : ScoredRow) : Buckets :=
  let eid := sf.row.entityId
  let bucket := (byEntity.get? eid).getD
    { entityId := eid, rankScore := 0, bestScore := 0, facts := [] }
  byEntity.set eid { bucket with
    facts := bucket.facts ++ [sf]
    bestScore := if bucket.bestScore < sf.score then sf.score else bucket.bestScore }

/-- The loop over the sorted facts of a bucket: one fact of each key, the first of
those with the best score left out, and at most `DEGREE_BOOST_TOP_N` of the rest. -/
def supplementary (bestScore : ℚ) :
    List ScoredRow → List String → Bool → List ℚ → List ℚ
  | [], _, _, acc => acc
  | f :: sortedFacts, seenKeys, skippedBest, acc =>
      let key := diversityKey f.row.predicate f.row.object
      if seenKeys.contains key then supplementary bestScore sortedFacts seenKeys skippedBest acc
      -- the best fact itself counts once, in `bestScore`
      else if f.score = bestScore ∧ skippedBest = false then
        supplementary bestScore sortedFacts (key :: seenKeys) true acc
      -- `break` once enough are counted
      else if DEGREE_BOOST_TOP_N ≤ acc.length + 1 then acc ++ [f.score]
      else supplementary bestScore sortedFacts (key :: seenKeys) skippedBest (acc ++ [f.score])

/-- The `rankScore` of a bucket. -/
def degreeBoosted (bucket : EntityBucket) : EntityBucket :=
  let sortedFacts := bucket.facts.insertionSort (fun a b => b.score ≤ a.score)
  let boost := (supplementary bucket.bestScore sortedFacts [] false []).sum
  { bucket with rankScore := bucket.bestScore + DEGREE_BOOST_WEIGHT * boost }

/-- `bucketByEntity`. -/
def bucketByEntity (scored : List ScoredRow) : Buckets :=
  (scored.foldl addToBucket .empty).mapValues (fun _ bucket => degreeBoosted bucket)

/-! ## Edge expansion -/

/-- `ExpansionConfig`; `resolveExpansionConfig` keeps the bounds. -/
structure ExpansionConfig where
  topSeeds : ℕ := 3
  maxNeighboursPerSeed : ℕ := 5
  alpha : ℚ := 4 / 10
  one_le_topSeeds : 1 ≤ topSeeds := by decide
  one_le_maxNeighboursPerSeed : 1 ≤ maxNeighboursPerSeed := by decide
  alpha_pos : 0 < alpha := by norm_num
  alpha_le_one : alpha ≤ 1 := by norm_num

/-- `selectEdgeExpansionSeeds`. -/
def selectEdgeExpansionSeeds (byEntity : Buckets) (topN : ℕ) : List EntityBucket :=
  ((byEntity.values.filter (fun b => decide (0 < b.rankScore))).insertionSort
    (fun a b => b.rankScore ≤ a.rankScore)).take topN

/-- An edge seen from one of its ends. `peer` is the other one, if it is there. -/
structure PeerEdge where
  kind : String
  weight : ℚ
  peer : Option EntityId

/-- `outNeighbours` followed by `inNeighbours`, as the graph queries return them. -/
def peerEdges (db : SearchDb) (id : EntityId) : List PeerEdge :=
  let peerOf (e : EntityId) : Option EntityId := (db.store.entities.get? e).map (fun _ => e)
  (db.edges.select (fun _ e => e.in_ == id)).map
      (fun q => { kind := q.2.kind, weight := q.2.weight.1, peer := peerOf q.2.out }) ++
    (db.edges.select (fun _ e => e.out == id)).map
      (fun q => { kind := q.2.kind, weight := q.2.weight.1, peer := peerOf q.2.in_ })

/-- `Tuple`. -/
structure EdgeTuple where
  seedId : EntityId
  neighbourId : EntityId
  weight : ℚ

/-- `consider` on one edge. `tuples` are those of the seed so far: their neighbours
are `seenForSeed`. A side that stops at a full list adds as little as one that goes
on. -/
def considerEdge (config : ExpansionConfig) (byEntity : Buckets) (seedId : EntityId)
    (tuples : List EdgeTuple) (e : PeerEdge) : List EdgeTuple :=
  match e.peer with
  -- an edge into a record that is missing has no peer
  | none => tuples
  | some peerId =>
      if peerId = seedId then tuples
      else if byEntity.has peerId then tuples
      else if tuples.any (fun t => t.neighbourId == peerId) then tuples
      else if config.maxNeighboursPerSeed ≤ tuples.length then tuples
      else tuples ++ [{ seedId := seedId, neighbourId := peerId,
                        -- a weight that is not positive is read as 1
                        weight := if 0 < e.weight then e.weight else 1 }]

/-- The tuples of all seeds; a seed whose record is missing has no row. -/
def edgeTuples (config : ExpansionConfig) (db : SearchDb) (byEntity : Buckets)
    (seeds : List EntityBucket) : List EdgeTuple :=
  (seeds.filter (fun s => (db.store.entities.get? s.entityId).isSome)).flatMap
    (fun s => (peerEdges db s.entityId).foldl (considerEdge config byEntity s.entityId) [])

/-- The rows of the neighbour-fact query. It binds `$entityIds` to its own ids after the
parameters of `baseWhere`. -/
def neighbourFactRows (db : SearchDb) (baseWhere : List EntityId → List WhereClause)
    (ids : List EntityId) : List FactRow :=
  (((db.store.facts.rows.insertionSort newestFirst).filter
    (fun q => ids.contains q.2.entityId && admits (baseWhere ids) q.2)).take 200).map
      (factRowWithEntity db.store)

/-- `factsByNeighbour` of the rows that passed the policy: at most five of each
neighbour. -/
def factsByNeighbour (rows : List FactRow) : InsertionMap EntityId (List FactRow) :=
  rows.foldl (fun m row =>
    let list := (m.get? row.entityId).getD []
    m.set row.entityId (if list.length < 5 then list ++ [row] else list)) .empty

/-- A fact of a neighbour, which went through no leg. -/
def expandedRow (row : FactRow) : ScoredRow :=
  let stages := row.stages ++ [.edge_expansion]
  { row := { row with fusedScore := 0, stages := stages }
    score := 0
    breakdown := { fusedScore := 0, confidence := row.confidence.1, decay := 1, predBoost := 1,
                   finalScore := 0, stages := stages } }

/-- An entry of `expansions`; `bucket` is what `bucketFactory` returns. -/
structure Expansion where
  seedEntityId : EntityId
  seedRankScore : ℚ
  neighbourEntityId : EntityId
  edgeWeight : ℚ
  bucket : EntityBucket

/-- The expansion of a tuple, if its neighbour has facts. -/
def expansionOf (seeds : List EntityBucket) (facts : InsertionMap EntityId (List FactRow))
    (t : EdgeTuple) : Option Expansion :=
  match facts.get? t.neighbourId with
  | none => none
  | some rows =>
      if rows.isEmpty then none
      else some {
        seedEntityId := t.seedId
        seedRankScore :=
          ((seeds.find? (fun s => s.entityId == t.seedId)).map (fun s => s.rankScore)).getD 0
        neighbourEntityId := t.neighbourId
        edgeWeight := t.weight
        bucket := { entityId := t.neighbourId, rankScore := 0, bestScore := 0,
                    facts := rows.map expandedRow } }

/-- The first pass of `mergeExpandedNeighbours`: the best inherited score of every
new neighbour. -/
def inheritBest (byEntity : Buckets) (alpha : ℚ) (best : InsertionMap EntityId ℚ) (e : Expansion) :
    InsertionMap EntityId ℚ :=
  let inherited := alpha * e.seedRankScore * e.edgeWeight
  if inherited ≤ 0 then best
  else if byEntity.has e.neighbourEntityId then best
  else if (best.get? e.neighbourEntityId).getD 0 < inherited then
    best.set e.neighbourEntityId inherited
  else best

/-- The second pass: a neighbour is injected once, with its best score. -/
def injectNeighbour (acc : Buckets × InsertionMap EntityId ℚ) (e : Expansion) :
    Buckets × InsertionMap EntityId ℚ :=
  if acc.1.has e.neighbourEntityId then acc
  else
    match acc.2.get? e.neighbourEntityId with
    | none => acc
    | some inherited =>
        (acc.1.set e.neighbourEntityId
            { e.bucket with
              rankScore := inherited
              bestScore := max e.bucket.bestScore inherited },
          acc.2.delete e.neighbourEntityId)

/-- `mergeExpandedNeighbours`, less the count that it returns. -/
def mergeExpandedNeighbours (byEntity : Buckets) (expansions : List Expansion) (alpha : ℚ) :
    Buckets :=
  if alpha ≤ 0 then byEntity
  else
    let best := expansions.foldl (inheritBest byEntity alpha) .empty
    (expansions.foldl injectNeighbour (byEntity, best)).1

/-- `expandViaEdges`. -/
def expandViaEdges (config : ExpansionConfig) (callerScopes : List BrainScope) (db : SearchDb)
    (byEntity : Buckets) (baseWhere : List EntityId → List WhereClause) : Buckets :=
  let seeds := selectEdgeExpansionSeeds byEntity config.topSeeds
  let tuples := edgeTuples config db byEntity seeds
  let rows := neighbourFactRows db baseWhere (tuples.map (fun t => t.neighbourId))
  let facts := factsByNeighbour (rows.filter (passesPolicy callerScopes))
  mergeExpandedNeighbours byEntity (tuples.filterMap (expansionOf seeds facts)) config.alpha

/-! ## The PageRank prior -/

/-- `ALPHA` of `ppr.ts`. -/
def PPR_ALPHA : ℚ := 85 / 100

/-- `ITERATIONS`. -/
def PPR_ITERATIONS : ℕ := 3

/-- `PPR_BOOST_BETA`. -/
def PPR_BOOST_BETA : ℚ := 5 / 10

/-- `adj`: the neighbours of a node, with the weights of the edges. -/
abbrev Adjacency := InsertionMap EntityId (List (EntityId × ℚ))

/-- `fetchPprEdges`. -/
def fetchPprEdges (db : SearchDb) (ids : List EntityId) : List KnowledgeEdge :=
  (db.edges.select (fun _ e => ids.contains e.in_ && ids.contains e.out)).map Prod.snd

/-- `adj.get(a)!.push(nbr)`. -/
def pushNeighbour (adj : Adjacency) (a : EntityId) (nbr : EntityId × ℚ) : Adjacency :=
  adj.set a ((adj.get? a).getD [] ++ [nbr])

/-- `buildPprAdjacency`: the adjacency. -/
def buildPprAdjacency (ids : List EntityId) (edges : List KnowledgeEdge) : Adjacency :=
  edges.foldl (fun adj e =>
    if adj.has e.in_ && adj.has e.out then
      pushNeighbour (pushNeighbour adj e.in_ (e.out, e.weight.1)) e.out (e.in_, e.weight.1)
    else adj) (.ofList (ids.map (fun id => (id, []))))

/-- `buildPprAdjacency`: `outWeight` of a node. -/
def outWeight (adj : Adjacency) (src : EntityId) : ℚ :=
  (((adj.get? src).getD []).map Prod.snd).sum

/-- `buildPprSeed`. -/
def buildPprSeed (byEntity : Buckets) : Option (InsertionMap EntityId ℚ) :=
  let seedRaw : InsertionMap EntityId ℚ :=
    .ofList (byEntity.entries.map (fun e => (e.1, max e.2.bestScore 0)))
  let seedSum := seedRaw.values.sum
  if seedSum = 0 then none else some (seedRaw.mapValues (fun _ s => s / seedSum))

/-- `next.set(id, (next.get(id) ?? 0) + flow)`. -/
def addFlow (next : InsertionMap EntityId ℚ) (flow : EntityId × ℚ) : InsertionMap EntityId ℚ :=
  next.set flow.1 ((next.get? flow.1).getD 0 + flow.2)

/-- What the node `src` hands on of its mass: along its edges, or, without any, to
the seed. -/
def flowsOf (adj : Adjacency) (seed : InsertionMap EntityId ℚ) (src : EntityId × ℚ) :
    List (EntityId × ℚ) :=
  let ow := outWeight adj src.1
  -- a dangling node gives its mass back to the seed
  if ow = 0 then seed.entries.map (fun s => (s.1, PPR_ALPHA * src.2 * s.2))
  else ((adj.get? src.1).getD []).map (fun nbr => (nbr.1, PPR_ALPHA * src.2 * (nbr.2 / ow)))

/-- One iteration. -/
def pprStep (ids : List EntityId) (adj : Adjacency) (seed r : InsertionMap EntityId ℚ) :
    InsertionMap EntityId ℚ :=
  let next : InsertionMap EntityId ℚ :=
    .ofList (ids.map (fun id => (id, (1 - PPR_ALPHA) * (seed.get? id).getD 0)))
  r.entries.foldl (fun next src => (flowsOf adj seed src).foldl addFlow next) next

/-- `runPprIterations`. -/
def runPprIterations (ids : List EntityId) (adj : Adjacency) (seed : InsertionMap EntityId ℚ) :
    InsertionMap EntityId ℚ :=
  (pprStep ids adj seed)^[PPR_ITERATIONS] seed

/-- `applyPprBoost`. -/
def applyPprBoost (byEntity : Buckets) (r : InsertionMap EntityId ℚ) : Buckets :=
  let maxR := r.values.foldl max 0
  if maxR = 0 then byEntity
  else byEntity.mapValues (fun id bucket =>
    { bucket with
      rankScore := bucket.rankScore * (1 + PPR_BOOST_BETA * ((r.get? id).getD 0 / maxR)) })

/-- `applyPprPrior`. -/
def applyPprPrior (db : SearchDb) (byEntity : Buckets) : Buckets :=
  let ids := byEntity.keys
  if ids.length < 2 then byEntity
  else
    let edges := fetchPprEdges db ids
    if edges.isEmpty then byEntity
    else
      match buildPprSeed byEntity with
      | none => byEntity
      | some seed =>
          applyPprBoost byEntity (runPprIterations ids (buildPprAdjacency ids edges) seed)

/-! ## What the reranker is shown -/

/-- `Neighbour`. -/
structure Neighbour where
  canonicalName : String
  type : String
  kind : String

/-- `pushSide` on one edge; `seen` are the pairs of peer and kind so far. -/
def pushSide (s : Store) (id : EntityId) (acc : List (EntityId × String) × List Neighbour)
    (e : PeerEdge) : List (EntityId × String) × List Neighbour :=
  match e.peer with
  | none => acc
  | some peerId =>
      -- a loop, and a second edge of one kind to one peer, are not shown
      if peerId = id then acc
      else if acc.1.contains (peerId, e.kind) then acc
      else
        match s.entities.get? peerId with
        | none => acc
        | some peer =>
            (acc.1 ++ [(peerId, e.kind)],
              acc.2 ++ [{ canonicalName := peer.canonicalName, type := peer.type, kind := e.kind }])

/-- `fetchNeighbours` of one entity; one whose record is missing has no row. -/
def fetchNeighbours (db : SearchDb) (id : EntityId) : List Neighbour :=
  match db.store.entities.get? id with
  | none => []
  | some _ => ((peerEdges db id).foldl (pushSide db.store id) ([], [])).2

/-- `shouldSkipRerankByMargin`. -/
def shouldSkipRerankByMargin (candidates : List EntityBucket) (marginThreshold : ℚ) : Bool :=
  if marginThreshold ≤ 0 then false
  else
    match candidates with
    | top :: second :: _ =>
        -- the margin is relative to the top score
        if top.rankScore ≤ 0 then false
        else decide (marginThreshold ≤ (top.rankScore - second.rankScore) / top.rankScore)
    | _ => false

end Brain
