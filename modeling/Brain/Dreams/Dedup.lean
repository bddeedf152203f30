/-
`src/src/dreams/dedup.service.ts`: the pass that looks for pairs of entities with
similar names, asks a model whether they are one, and links those that are.

The model's answer is a parameter, as in the resolver. A link of this pass is an
edge and nothing else: no entity is written, while `ingestLink` points the loser at
the survivor when it declares the same edge. Everything that collapses merged
entities reads that pointer, so a link of this pass collapses the pair only where
the pointer was there before.
-/
import Brain.Ingest.IngestLink
import Brain.Search.Reattribution
import Mathlib.Data.String.Basic

set_option autoImplicit false

namespace Brain

/-- The settings that `run` depends on; without an API key it is not enabled either. -/
structure DedupConfig where
  enabled : Bool
  cosineThreshold : ℚ
  maxPairs : ℤ

/-- What the service takes from outside: the string of a record id, the cosine that the
database computes, and the answer of the model, given the facts and the pair. -/
structure DedupEnv (Candidate Verdict : Type) where
  idString : EntityId → String
  cosine : List ℚ → List ℚ → ℚ
  judge : KeyedTable KnowledgeFact → Candidate → Verdict

/-- `DedupCandidate`. -/
structure DedupCandidate where
  aId : EntityId
  bId : EntityId
  cosine : ℚ
deriving DecidableEq

/-- The verdict of `judge`; a failed call is `unsure`. -/
inductive DedupVerdict where
  | same | different | unsure
deriving DecidableEq, Repr

/-- `DedupIdentityLink`. -/
structure DedupIdentityLink where
  survivorId : EntityId
  loserId : EntityId
  cosine : ℚ
deriving DecidableEq

/-- `DedupResult`. -/
structure DedupResult where
  suspectsEvaluated : ℕ := 0
  llmJudgements : ℕ := 0
  identityLinksCreated : ℕ := 0
  unsurePairs : ℕ := 0
  identityLinks : List DedupIdentityLink := []
deriving DecidableEq

abbrev DedupServices := DedupEnv DedupCandidate DedupVerdict

/-! ## Finding the pairs -/

/-- The `WHERE` of both queries: an active `name` fact with an embedding. -/
def isDedupName (f : KnowledgeFact) : Bool :=
  f.predicate == "name" && f.status == .active && f.retractedAt.isNone && f.embedding.isSome

/-- `sim` of a row to the bound embedding. -/
def dedupSim (env : DedupServices) (q : List ℚ) (p : FactId × KnowledgeFact) : ℚ :=
  env.cosine (p.2.embedding.getD []) q

/-- `ORDER BY sim DESC LIMIT 5`. -/
def neighbourRows (env : DedupServices) (names : List (FactId × KnowledgeFact)) (q : List ℚ) :
    List (EntityId × ℚ) :=
  ((names.insertionSort (fun p r => dedupSim env q r ≤ dedupSim env q p)).take 5).map
    (fun p => (p.2.entityId, dedupSim env q p))

/-- The pair as it is pushed: `aId < bId` as strings. Its two ids are also the key in
`seen`. -/
def orderedPair (env : DedupServices) (aId bId : EntityId) (sim : ℚ) : DedupCandidate :=
  if env.idString aId < env.idString bId then { aId := aId, bId := bId, cosine := sim }
  else { aId := bId, bId := aId, cosine := sim }

/-- `out` and `seen`. -/
abbrev DedupFound := List DedupCandidate × List (EntityId × EntityId)

/-- The inner loop; an error is the early `return out` at the cap. -/
def scanNeighbours (env : DedupServices) (cfg : DedupConfig) (aId : EntityId) :
    List (EntityId × ℚ) → DedupFound → Except (List DedupCandidate) DedupFound
  | [], found => .ok found
  | (bId, sim) :: rest, (out, seen) =>
      if env.idString bId = env.idString aId then scanNeighbours env cfg aId rest (out, seen)
      else if sim < cfg.cosineThreshold then scanNeighbours env cfg aId rest (out, seen)
      else
        let pair := orderedPair env aId bId sim
        if (pair.aId, pair.bId) ∈ seen then scanNeighbours env cfg aId rest (out, seen)
        else if cfg.maxPairs ≤ (out ++ [pair]).length then .error (out ++ [pair])
        else scanNeighbours env cfg aId rest (out ++ [pair], (pair.aId, pair.bId) :: seen)

/-- The outer loop, over the seeds. -/
def scanSeeds (env : DedupServices) (cfg : DedupConfig) (names : List (FactId × KnowledgeFact)) :
    List (FactId × KnowledgeFact) → DedupFound → Except (List DedupCandidate) DedupFound
  | [], found => .ok found
  | seed :: seeds, found =>
      match scanNeighbours env cfg seed.2.entityId
          (neighbourRows env names (seed.2.embedding.getD [])) found with
      | .error out => .error out
      | .ok found => scanSeeds env cfg names seeds found

/-- `findCandidates`. -/
def findCandidates (env : DedupServices) (cfg : DedupConfig) (t : KeyedTable KnowledgeFact) :
    List DedupCandidate :=
  let seeds := t.select (fun _ f => isDedupName f)
  if seeds.length < 2 then []
  else
    match scanSeeds env cfg seeds seeds ([], []) with
    | .error out => out
    | .ok found => found.1

/-! ## The run -/

/-- `identityEdgeExists`: in either direction. -/
def identityEdgeExists (edges : KeyedTable KnowledgeEdge) (aId bId : EntityId) : Bool :=
  !(edges.select (fun _ e => e.kind == "identity_of" &&
    (e.in_ == aId && e.out == bId || e.in_ == bId && e.out == aId))).isEmpty

/-- `linkIdentity`; the UNIQUE index has nothing against it, as there is no such edge yet. -/
def linkIdentity (edges : KeyedTable KnowledgeEdge) (aId bId : EntityId) :
    KeyedTable KnowledgeEdge :=
  edges.insert { in_ := aId, out := bId, kind := "identity_of" }

/-- The loop over the candidates. -/
def dedupLoop (env : DedupServices) (facts : KeyedTable KnowledgeFact) :
    List DedupCandidate → KeyedTable KnowledgeEdge → DedupResult →
      DedupResult × KeyedTable KnowledgeEdge
  | [], edges, result => (result, edges)
  | cand :: cands, edges, result =>
      if identityEdgeExists edges cand.aId cand.bId then dedupLoop env facts cands edges result
      else
        let result := { result with llmJudgements := result.llmJudgements + 1 }
        match env.judge facts cand with
        | .same => dedupLoop env facts cands (linkIdentity edges cand.aId cand.bId)
            { result with
              identityLinksCreated := result.identityLinksCreated + 1
              identityLinks := result.identityLinks ++
                [{ survivorId := cand.aId, loserId := cand.bId, cosine := cand.cosine }] }
        | .unsure => dedupLoop env facts cands edges
            { result with unsurePairs := result.unsurePairs + 1 }
        | .different => dedupLoop env facts cands edges result

/-- `run`. -/
def dedupRun (env : DedupServices) (cfg : DedupConfig) (g : GraphStore) :
    DedupResult × GraphStore :=
  if cfg.enabled then
    let candidates := findCandidates env cfg g.facts
    let done := dedupLoop env g.facts candidates g.edges { suspectsEvaluated := candidates.length }
    (done.1, { g with edges := done.2 })
  else ({}, g)

/-! ## The candidates of a run -/

section Candidates

variable {env : DedupServices} {cfg : DedupConfig}

/-- What holds of `out` and `seen` throughout: the pairs are ordered, and each of them is
there once. -/
structure PairsOnce (env : DedupServices) (found : DedupFound) : Prop where
  ordered : ∀ c ∈ found.1, env.idString c.aId < env.idString c.bId
  once : (found.1.map (fun c => (c.aId, c.bId))).Nodup
  seen : ∀ c ∈ found.1, (c.aId, c.bId) ∈ found.2

theorem orderedPair_lt {aId bId : EntityId} (sim : ℚ) (h : env.idString bId ≠ env.idString aId) :
    env.idString (orderedPair env aId bId sim).aId < env.idString (orderedPair env aId bId sim).bId := by
  unfold orderedPair
  split
  · next hlt => exact hlt
  · next hlt => exact lt_of_le_of_ne (not_lt.mp hlt) h

/-- Pushing a pair that was not seen keeps the invariant. -/
theorem PairsOnce.push {found : DedupFound} (h : PairsOnce env found) {c : DedupCandidate}
    (hlt : env.idString c.aId < env.idString c.bId) (hnew : (c.aId, c.bId) ∉ found.2) :
    PairsOnce env (found.1 ++ [c], (c.aId, c.bId) :: found.2) := by
  refine ⟨fun d hd => ?_, ?_, fun d hd => ?_⟩
  · rcases List.mem_append.mp hd with hd | hd
    · exact h.ordered d hd
    · rw [List.mem_singleton.mp hd]
      exact hlt
  · rw [List.map_append, List.nodup_append]
    refine ⟨h.once, List.nodup_singleton _, fun p hp q hq heq => ?_⟩
    obtain ⟨d, hd, rfl⟩ := List.mem_map.mp hp
    simp only [List.map_cons, List.map_nil, List.mem_singleton] at hq
    apply hnew
    rw [← hq, ← heq]
    exact h.seen d hd
  · rcases List.mem_append.mp hd with hd | hd
    · exact List.mem_cons_of_mem _ (h.seen d hd)
    · rw [List.mem_singleton.mp hd]
      exact List.mem_cons_self

/-- Both ways out of the inner loop keep it. -/
theorem PairsOnce.scanNeighbours {aId : EntityId} (rows : List (EntityId × ℚ)) :
    ∀ found, PairsOnce env found →
      (∀ out, scanNeighbours env cfg aId rows found = .error out → ∃ seen, PairsOnce env (out, seen)) ∧
      (∀ found', scanNeighbours env cfg aId rows found = .ok found' → PairsOnce env found') := by
  induction rows with
  | nil =>
      intro found h
      refine ⟨by rintro out ⟨⟩, fun found' heq => ?_⟩
      exact Except.ok.inj heq ▸ h
  | cons row rows ih =>
      obtain ⟨bId, sim⟩ := row
      rintro ⟨out, seen⟩ h
      rw [Brain.scanNeighbours]
      split
      · exact ih _ h
      · next hne =>
          split
          · exact ih _ h
          · dsimp only
            split
            · exact ih _ h
            · next hnew =>
                have hpush := h.push (orderedPair_lt sim hne) hnew
                split
                · refine ⟨fun out' heq => ?_, by rintro found' ⟨⟩⟩
                  exact ⟨_, Except.error.inj heq ▸ hpush⟩
                · exact ih _ hpush

theorem PairsOnce.scanSeeds {names : List (FactId × KnowledgeFact)}
    (seeds : List (FactId × KnowledgeFact)) :
    ∀ found, PairsOnce env found →
      (∀ out, scanSeeds env cfg names seeds found = .error out → ∃ seen, PairsOnce env (out, seen)) ∧
      (∀ found', scanSeeds env cfg names seeds found = .ok found' → PairsOnce env found') := by
  induction seeds with
  | nil =>
      intro found h
      refine ⟨by rintro out ⟨⟩, fun found' heq => ?_⟩
      exact Except.ok.inj heq ▸ h
  | cons seed seeds ih =>
      intro found h
      have hrow := @PairsOnce.scanNeighbours env cfg seed.2.entityId
        (neighbourRows env names (seed.2.embedding.getD [])) found h
      rw [Brain.scanSeeds]
      split
      · next out hout =>
          refine ⟨fun out' heq => ?_, by rintro found' ⟨⟩⟩
          exact Except.error.inj heq ▸ hrow.1 out hout
      · next found' hfound => exact ih found' (hrow.2 found' hfound)

/-- **No pair is a candidate twice**, in either order of its ends. -/
theorem pairsOnce_findCandidates (env : DedupServices) (cfg : DedupConfig)
    (t : KeyedTable KnowledgeFact) :
    ∃ seen, PairsOnce env (findCandidates env cfg t, seen) := by
  have hnil : PairsOnce env ([], []) := ⟨by simp, List.nodup_nil, by simp⟩
  unfold findCandidates
  dsimp only
  split
  · exact ⟨[], hnil⟩
  · have hscan := @PairsOnce.scanSeeds env cfg (t.select (fun _ f => isDedupName f))
      (t.select (fun _ f => isDedupName f)) _ hnil
    split
    · next out hout => exact hscan.1 out hout
    · next found hfound => exact ⟨found.2, hscan.2 found hfound⟩

end Candidates

/-! ## What a run reports -/

section Run

variable {env : DedupServices} {cfg : DedupConfig} {edges : KeyedTable KnowledgeEdge}

/-- An edge between one pair does not count for another one. -/
theorem identityEdgeExists_linkIdentity {aId bId cId dId : EntityId}
    (hsame : ¬ (aId = cId ∧ bId = dId)) (hswap : ¬ (aId = dId ∧ bId = cId)) :
    identityEdgeExists (linkIdentity edges aId bId) cId dId = identityEdgeExists edges cId dId := by
  have hno : ("identity_of" == "identity_of" &&
      (aId == cId && bId == dId || aId == dId && bId == cId)) = false := by
    simp only [beq_self_eq_true, Bool.true_and, Bool.or_eq_false_iff, Bool.and_eq_false_imp,
      beq_iff_eq, beq_eq_false_iff_ne]
    exact ⟨fun h h' => hsame ⟨h, h'⟩, fun h h' => hswap ⟨h, h'⟩⟩
  rw [identityEdgeExists, identityEdgeExists, linkIdentity, KeyedTable.select_insert, hno]
  simp

/-- What is reported of a candidate that is linked. -/
def dedupLink (c : DedupCandidate) : DedupIdentityLink where
  survivorId := c.aId
  loserId := c.bId
  cosine := c.cosine

/-- The candidates that a run links: those without an edge that the model calls the
same. -/
def isLinked (env : DedupServices) (facts : KeyedTable KnowledgeFact)
    (edges : KeyedTable KnowledgeEdge) (c : DedupCandidate) : Bool :=
  !identityEdgeExists edges c.aId c.bId && env.judge facts c == .same

/-- **What the loop reports.** Pairs that are there once do not stand in each other's way,
so the edges at the start decide. -/
theorem identityLinks_dedupLoop (facts : KeyedTable KnowledgeFact) (cands : List DedupCandidate) :
    ∀ (edges : KeyedTable KnowledgeEdge) (result : DedupResult),
      (∀ c ∈ cands, env.idString c.aId < env.idString c.bId) →
      (cands.map (fun c => (c.aId, c.bId))).Nodup →
      (dedupLoop env facts cands edges result).1.identityLinks
        = result.identityLinks ++ (cands.filter (isLinked env facts edges)).map dedupLink := by
  induction cands with
  | nil =>
      intro edges result _ _
      rw [dedupLoop, List.filter_nil, List.map_nil, List.append_nil]
  | cons cand cands ih =>
      intro edges result hlt honce
      rw [List.map_cons, List.nodup_cons] at honce
      have hrest : ∀ c ∈ cands, env.idString c.aId < env.idString c.bId :=
        fun c hc => hlt c (List.mem_cons_of_mem _ hc)
      rw [dedupLoop, List.filter_cons, isLinked]
      by_cases hex : identityEdgeExists edges cand.aId cand.bId = true
      · rw [if_pos hex, ih edges result hrest honce.2]
        simp only [hex, Bool.not_true, Bool.false_and, Bool.false_eq_true, if_false]
      · rw [if_neg hex]
        dsimp only
        have hex' : identityEdgeExists edges cand.aId cand.bId = false := by simpa using hex
        cases hv : env.judge facts cand with
        | same =>
            -- the new edge is none of the pairs that are still to come
            have hkeep : ∀ c ∈ cands, isLinked env facts (linkIdentity edges cand.aId cand.bId) c
                = isLinked env facts edges c := by
              intro c hc
              rw [isLinked, isLinked, identityEdgeExists_linkIdentity]
              · rintro ⟨ha, hb⟩
                exact honce.1 (List.mem_map.mpr ⟨c, hc, by rw [ha, hb]⟩)
              · rintro ⟨ha, hb⟩
                have hcand := hlt cand List.mem_cons_self
                rw [ha, hb] at hcand
                exact lt_asymm hcand (hrest c hc)
            dsimp only
            rw [ih _ _ hrest honce.2, List.filter_congr hkeep, hex']
            simp only [Bool.not_false, Bool.true_and, beq_self_eq_true, if_true, List.map_cons,
              List.append_assoc, List.singleton_append, dedupLink]
        | unsure =>
            dsimp only
            rw [ih _ _ hrest honce.2]
            simp [hex']
        | different =>
            dsimp only
            rw [ih _ _ hrest honce.2]
            simp [hex']

/-- **What a run reports**: the candidates that it links. -/
theorem identityLinks_dedupRun (env : DedupServices) (cfg : DedupConfig) (g : GraphStore) :
    (dedupRun env cfg g).1.identityLinks
      = if cfg.enabled then ((findCandidates env cfg g.facts).filter
          (isLinked env g.facts g.edges)).map dedupLink else [] := by
  unfold dedupRun
  split
  · obtain ⟨seen, hpairs⟩ := pairsOnce_findCandidates env cfg g.facts
    dsimp only
    rw [identityLinks_dedupLoop _ _ _ _ hpairs.ordered hpairs.once, List.nil_append]
  · rfl

/-- **A run writes no entity.** -/
theorem toStore_dedupRun (env : DedupServices) (cfg : DedupConfig) (g : GraphStore) :
    (dedupRun env cfg g).2.toStore = g.toStore := by
  unfold dedupRun
  split <;> rfl

end Run

/-! ## Links that merge -/

open Forest

/-- The loser `b` is merged into the survivor `a`, which does not lead back to it. -/
def MergedInto (s : Store) (a b : EntityId) : Prop :=
  s.mergedInto b = some a ∧ ¬ Leads s.mergedInto a b

/-- The request that declares the same link by hand. -/
def manualLink (a b : EntityId) : IngestLinkDto where
  from_ := .entity a
  to_ := .entity b
  kind := "identity_of"

/-- `ingestLink` merges: the link of an entity that exists into one that does not lead to
it is accepted, and leaves the two merged. -/
theorem mergedInto_manualLink {g : GraphStore} {a b : EntityId} (hb : g.HasEntity b)
    (hlead : ¬ Leads g.mergedInto a b) (now : Time) :
    MergedInto (ingestLink now g (manualLink a b)).2.toStore a b := by
  have hne : a ≠ b := by
    rintro rfl
    exact hlead ⟨0, rfl⟩
  have hguard : comesTo g.toStore b GUARD_HOPS a = false := by
    rw [← Bool.not_eq_true, comesTo_iff]
    rintro ⟨n, _, _, hn⟩
    exact hlead ⟨n, hn⟩
  have hstore : (ingestLink now g (manualLink a b)).2.toStore = mergeEntity g.toStore now b a := by
    simp [manualLink, ingestLink, linkEnds, resolveOrCreateBareRef, linkRejection, hne, hguard]
  rw [MergedInto, hstore, mergedInto_mergeEntity, if_pos hb]
  refine ⟨repoint_self .., ?_⟩
  rintro ⟨n, hn⟩
  rw [ancestor_repoint (fun k _ hk => hlead ⟨k, hk⟩)] at hn
  exact hlead ⟨n, hn⟩

/-- Search attributes the facts of a merged entity to its survivor. -/
theorem MergedInto.attributedTo {s : Store} {a b : EntityId} (h : MergedInto s a b) :
    s.attributedTo b = a := by
  rw [Store.attributedTo, h.1, Option.getD_some]

/-- **Exactly when the links of a run merge**: every pair that the run links was merged
before, its loser into its survivor. Of a manual link of the same two entities that is
what it leaves (unless the survivor already leads to the loser). -/
theorem dedupRun_merges_iff (env : DedupServices) (cfg : DedupConfig) (g : GraphStore) :
    ((∀ link ∈ (dedupRun env cfg g).1.identityLinks,
        MergedInto (dedupRun env cfg g).2.toStore link.survivorId link.loserId ∧
          (dedupRun env cfg g).2.attributedTo link.loserId = link.survivorId) ↔
      (cfg.enabled = true → ∀ c ∈ findCandidates env cfg g.facts,
        identityEdgeExists g.edges c.aId c.bId = false → env.judge g.facts c = .same →
          MergedInto g.toStore c.aId c.bId)) ∧
    (∀ a b now, g.HasEntity b → ¬ Leads g.mergedInto a b →
      MergedInto (ingestLink now g (manualLink a b)).2.toStore a b) := by
  refine ⟨?_, fun a b now hb hlead => mergedInto_manualLink hb hlead now⟩
  have hreported : ∀ c, dedupLink c ∈ (dedupRun env cfg g).1.identityLinks ↔
      cfg.enabled = true ∧ ∃ d ∈ findCandidates env cfg g.facts,
        isLinked env g.facts g.edges d = true ∧ dedupLink d = dedupLink c := by
    intro c
    rw [identityLinks_dedupRun]
    by_cases hon : cfg.enabled = true
    · simp only [hon, if_true, List.mem_map, List.mem_filter, true_and, and_assoc]
    · simp [hon]
  rw [toStore_dedupRun]
  constructor
  · intro hall hon c hc hedge hsame
    have hlinked : isLinked env g.facts g.edges c = true := by simp [isLinked, hedge, hsame]
    exact (hall (dedupLink c) ((hreported c).mpr ⟨hon, c, hc, hlinked, rfl⟩)).1
  · intro hcond link hlink
    obtain ⟨hon, d, hd, hlinked, heq⟩ := (hreported ⟨_, _, link.cosine⟩).mp hlink
    rw [isLinked, Bool.and_eq_true, Bool.not_eq_true', beq_iff_eq] at hlinked
    have hmerged := hcond hon d hd hlinked.1 hlinked.2
    have ha : d.aId = link.survivorId := congrArg DedupIdentityLink.survivorId heq
    have hb : d.bId = link.loserId := congrArg DedupIdentityLink.loserId heq
    rw [ha, hb] at hmerged
    exact ⟨hmerged, hmerged.attributedTo⟩

/-- Two entities by the name of Maya, and a model that calls them the same. -/
def twoMayas : GraphStore where
  facts := ((KeyedTable.empty.insert
    { entityId := 0, predicate := "name", object := "Maya", confidence := .full, validFrom := 0,
      recordedAt := 0, source := {}, embedding := some [1] }).insert
    { entityId := 1, predicate := "name", object := "Maya", confidence := .full, validFrom := 0,
      recordedAt := 0, source := {}, embedding := some [1] })
  entities := (KeyedTable.empty.insert { type := "customer", canonicalName := "Maya" }).insert
    { type := "customer", canonicalName := "Maya" }

def DedupEnv.agreeable : DedupServices where
  idString e := "knowledge_entity:" ++ toString e
  cosine u v := if u = v then 1 else 0
  judge _ _ := .same

/-- The run links the two, and both of them stay as they were; the manual link merges
the second one into the first one. -/
theorem dedupRun_leaves_twoMayas :
    (¬ ∀ (env : DedupServices) (cfg : DedupConfig) (g : GraphStore),
        ∀ link ∈ (dedupRun env cfg g).1.identityLinks,
          (dedupRun env cfg g).2.mergedInto link.loserId = some link.survivorId) ∧
      (dedupRun .agreeable ⟨true, 9 / 10, 50⟩ twoMayas).1.identityLinks
        = [{ survivorId := 0, loserId := 1, cosine := 1 }] ∧
      (dedupRun .agreeable ⟨true, 9 / 10, 50⟩ twoMayas).2.mergedInto 1 = none ∧
      (ingestLink 0 twoMayas (manualLink 0 1)).2.mergedInto 1 = some 0 := by
  have hlinks : (dedupRun .agreeable ⟨true, 9 / 10, 50⟩ twoMayas).1.identityLinks
      = [{ survivorId := 0, loserId := 1, cosine := 1 }] := by decide +kernel
  have hnone : (dedupRun .agreeable ⟨true, 9 / 10, 50⟩ twoMayas).2.mergedInto 1 = none := by
    decide +kernel
  refine ⟨fun h => ?_, hlinks, hnone, by decide +kernel⟩
  have hsome := h .agreeable ⟨true, 9 / 10, 50⟩ twoMayas _
    (hlinks ▸ List.mem_cons_self)
  rw [hnone] at hsome
  cases hsome

end Brain
