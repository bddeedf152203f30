/-
The four ways in which a caller reads facts, and the policy of the tenant.

What a fact asks of its readers is said by the registry of the tenant
(`tenantAllows`). The search, the profile and the timeline ask `policyFor` of the
seed instead, and the graph path asks nothing. So a path keeps to the registry
exactly when its own gate covers it (`enforces_iff`): the first three when whatever
the registry withholds from the caller is withheld by the seed as well, and the graph
path when the registry withholds nothing. The scoped pool changes neither, since it
hides objects and not rows.
-/
import Brain.Ai.PredicateRegistryService
import Brain.Search.GraphRetrieve
import Brain.Search.Probe

set_option autoImplicit false

namespace Brain

/-- The read paths. -/
inductive ReadPath where
  | search | graphRetrieve | getProfile | getTimeline
deriving DecidableEq, Repr

/-- A call of one of them, less its caller. -/
inductive FactRead where
  | search (env : SearchEnv) (dto : SearchRequest)
  | graphRetrieve (env : GraphEnv) (queryText : String) (entityRefs predicateHints : List String)
      (asOf : Option Time)
  | getProfile (entityId : EntityId) (asOf : Option Time)
  | getTimeline (entityId : EntityId) (since until_ : Option Time)

/-- The path that a call takes. -/
def FactRead.path : FactRead → ReadPath
  | .search .. => .search
  | .graphRetrieve .. => .graphRetrieve
  | .getProfile .. => .getProfile
  | .getTimeline .. => .getTimeline

/-- Whether the call is made with the scoped pool. Only the graph path returns rows on
which that makes a difference, so the others may be made with either. -/
def FactRead.onPool (scopedEnabled : Bool) : FactRead → Prop
  | .graphRetrieve env .. => env.scopedEnabled = scopedEnabled
  | _ => True

/-- The fact of an event. -/
def TimelineEvent.factId : TimelineEvent → FactId
  | .recorded _ i .. => i
  | .retracted _ i .. => i

/-- The facts that a call returns. -/
def returnedFacts (db : SearchDb) (scopes : List BrainScope) : FactRead → List FactId
  | .search env dto =>
      (search env db dto scopes).flatMap (fun hit => hit.facts.map (fun f => f.factId))
  | .graphRetrieve env queryText entityRefs predicateHints asOf =>
      (graphRetrieve env db queryText entityRefs predicateHints asOf scopes).flatMap
        (fun hit => hit.facts.map (fun f => f.factId))
  | .getProfile entityId asOf =>
      match getProfile db.store entityId asOf scopes with
      | .error _ => []
      | .ok profile => profile.facts.map (fun f => f.factId)
  | .getTimeline entityId since until_ =>
      (getTimeline db.store entityId since until_ scopes).map (fun e => e.factId)

/-- On every database, calls on the path return to the caller what the registry allows. -/
def Enforces (cached : Option PredicateSnapshot) (scopes : List BrainScope) (scopedEnabled : Bool)
    (path : ReadPath) : Prop :=
  ∀ (db : SearchDb) (call : FactRead), call.path = path → call.onPool scopedEnabled →
    ∀ i ∈ returnedFacts db scopes call, ∀ f, db.store.facts.get? i = some f →
      tenantAllows cached scopes f.predicate = true

/-- The gate of the path withholds what the registry withholds. -/
def GateCovers (cached : Option PredicateSnapshot) (scopes : List BrainScope) : ReadPath → Prop
  | .graphRetrieve => ∀ predicate, tenantAllows cached scopes predicate = true
  | _ => ∀ predicate, tenantAllows cached scopes predicate = false →
      scopeAllows scopes predicate = false

/-! ## What the gates let through -/

section Sound

variable {db : SearchDb} {scopes : List BrainScope} {i : FactId} {f : KnowledgeFact}

/-- A row that passed the filter is that of a stored fact which the seed allows. -/
theorem allowed_of_mem_visibleRows {env : SearchEnv} {dto : SearchRequest} {row : FusedRow}
    (h : row ∈ visibleRows env db dto scopes) :
    ∃ f, db.store.facts.get? row.id = some f ∧ f.predicate = row.predicate ∧
      scopeAllows scopes row.predicate = true := by
  obtain ⟨hmem, hpass⟩ := List.mem_filter.mp h
  rcases reattributed_cases hmem with hrow | ⟨r, hr, sv, rfl⟩
  · obtain ⟨f, hf⟩ := allStored_retrieve env db dto scopes row hrow
    exact ⟨f, hf.stored, hf.predicate.symm, hpass⟩
  · obtain ⟨f, hf⟩ := allStored_retrieve env db dto scopes r hr
    exact ⟨f, hf.stored, hf.predicate.symm, hpass⟩

/-- **The search returns what the seed allows**, the walk and the backfill included. -/
theorem allowed_of_search {env : SearchEnv} {dto : SearchRequest}
    (hi : i ∈ returnedFacts db scopes (.search env dto)) (hf : db.store.facts.get? i = some f) :
    scopeAllows scopes f.predicate = true := by
  obtain ⟨hit, hhit, hfact⟩ := List.mem_flatMap.mp hi
  obtain ⟨x, hx, rfl⟩ := List.mem_map.mp hfact
  have hall : ∀ hit ∈ search env db dto scopes, HitAttributed (fun _ => True)
      (fun _ i predicate => ∃ f, db.store.facts.get? i = some f ∧ f.predicate = predicate ∧
        scopeAllows scopes predicate = true) hit := by
    apply search_attributed (fun _ h => h)
    · exact fun row hrow => ⟨trivial, allowed_of_mem_visibleRows hrow⟩
    · exact fun _ _ _ _ _ _ _ i f hf _ _ hallow => ⟨trivial, f, hf, rfl, hallow⟩
    · exact fun _ _ i f hf _ _ hallow => ⟨f, hf, rfl, hallow⟩
  obtain ⟨g, hg, hpred, hallow⟩ := (hall hit hhit).2 x hx
  rw [hf, Option.some.injEq] at hg
  rw [hg, hpred]
  exact hallow

theorem allowed_of_getProfile {entityId : EntityId} {asOf : Option Time}
    (hi : i ∈ returnedFacts db scopes (.getProfile entityId asOf))
    (hf : db.store.facts.get? i = some f) : scopeAllows scopes f.predicate = true := by
  unfold returnedFacts getProfile at hi
  dsimp only at hi
  split at hi
  · exact absurd hi List.not_mem_nil
  · next profile hprofile =>
      split at hprofile
      · cases hprofile
      · cases hprofile
        obtain ⟨x, hx, rfl⟩ := List.mem_map.mp hi
        obtain ⟨⟨j, g⟩, hq, rfl⟩ := List.mem_map.mp hx
        obtain ⟨hrow, hallow⟩ := List.mem_filter.mp hq
        have hmem := (List.mem_filter.mp (List.mem_of_mem_take hrow)).1
        rw [List.mem_insertionSort] at hmem
        have hg := KeyedTable.mem_rows_iff.mp hmem
        have heq : g = f := Option.some.inj (hg.symm.trans hf)
        exact heq ▸ hallow

theorem allowed_of_getTimeline {entityId : EntityId} {since until_ : Option Time}
    (hi : i ∈ returnedFacts db scopes (.getTimeline entityId since until_))
    (hf : db.store.facts.get? i = some f) : scopeAllows scopes f.predicate = true := by
  obtain ⟨e, he, rfl⟩ := List.mem_map.mp hi
  unfold getTimeline at he
  dsimp only at he
  rw [List.mem_insertionSort, List.mem_flatMap] at he
  obtain ⟨⟨j, g⟩, hq, he⟩ := he
  obtain ⟨hrow, hallow⟩ := List.mem_filter.mp hq
  have hmem := (List.mem_filter.mp hrow).1
  rw [List.mem_insertionSort] at hmem
  have hg := KeyedTable.mem_rows_iff.mp hmem
  -- both events of a row are about its fact
  have hid : e.factId = j := by
    unfold timelineEvents at he
    rcases List.mem_cons.mp he with rfl | he
    · rfl
    · split at he
      · exact absurd he List.not_mem_nil
      · rw [List.mem_singleton.mp he]
        rfl
  rw [hid] at hf
  have heq : g = f := Option.some.inj (hg.symm.trans hf)
  exact heq ▸ hallow

end Sound

/-! ## What the gates do not stop -/

/-- The only fact of the example: one of an entity named ada, with the given predicate. -/
def loneFact (predicate : String) : KnowledgeFact where
  entityId := 0
  predicate := predicate
  object := "secret"
  confidence := .full
  validFrom := 0
  recordedAt := 0
  source := { vertical := some "rent" }

/-- A tenant with that entity and that fact. -/
def loneFactDb (predicate : String) : SearchDb where
  store :=
    { facts := KeyedTable.empty.insert (loneFact predicate)
      entities := KeyedTable.empty.insert { type := "person", canonicalName := "ada" } }

/-- The graph service of the example, with either pool. -/
def plainGraphEnv (scopedEnabled : Bool) : GraphEnv where
  now := 0
  scopedEnabled := scopedEnabled
  toLowerCase s := s
  nameScore _ _ _ := none

section Complete

variable {scopes : List BrainScope} {predicate : String}

/-- The graph path returns it to anyone. -/
theorem returned_graphRetrieve (scopedEnabled : Bool) : 0 ∈ returnedFacts (loneFactDb predicate)
    scopes (.graphRetrieve (plainGraphEnv scopedEnabled) "" ["ada"] [] none) := by
  let ada := toGraphEntity (0, { type := "person", canonicalName := "ada" })
  let fact := readGraphFact scopedEnabled scopes (toGraphFactRow (0, loneFact predicate))
  have hseeds : resolveSeedEntities (plainGraphEnv scopedEnabled) (loneFactDb predicate).store ""
      ["ada"] = [ada] := rfl
  have hrows : fetchFactsForEntities 0 (loneFactDb predicate).store.facts [0] [] none
      = [[toGraphFactRow (0, loneFact predicate)]] := rfl
  have hhits : graphRetrieve (plainGraphEnv scopedEnabled) (loneFactDb predicate) "" ["ada"] [] none
      scopes = assembleGraphHits [0] (.ofList [(0, ada)]) (.ofList [(0, [fact])]) [] := by
    have hnone : fetchEntitiesByIds (loneFactDb predicate).store
        (fetchOneHopNeighbourIds (loneFactDb predicate) [0]) = [] := rfl
    unfold graphRetrieve
    dsimp only
    rw [hseeds, List.map_singleton, show ada.entityId = 0 from rfl, hnone, List.append_nil,
      List.map_singleton, show ada.entityId = 0 from rfl,
      show (plainGraphEnv scopedEnabled).now = 0 from rfl,
      show (InsertionMap.ofList [(0, ada)]).keys = [0] from rfl, hrows]
    rfl
  refine List.mem_flatMap.mpr ⟨renderHit ada [fact] [] .graph_seed SEED_SCORE, ?_, ?_⟩
  · rw [hhits]
    exact List.mem_cons_self
  · exact List.mem_cons_self

theorem returned_getProfile (h : scopeAllows scopes predicate = true) :
    0 ∈ returnedFacts (loneFactDb predicate) scopes (.getProfile 0 none) := by
  have hfacts : (profileRows (loneFactDb predicate).store.facts 0 none).filter
      (fun q => scopeAllows scopes q.2.predicate) = [(0, loneFact predicate)] := by
    have hrows : profileRows (loneFactDb predicate).store.facts 0 none
        = [(0, loneFact predicate)] := rfl
    rw [hrows, List.filter_cons]
    dsimp only
    rw [show (loneFact predicate).predicate = predicate from rfl, h]
    rfl
  unfold returnedFacts getProfile
  dsimp only
  rw [hfacts]
  exact List.mem_cons_self

theorem returned_getTimeline (h : scopeAllows scopes predicate = true) :
    0 ∈ returnedFacts (loneFactDb predicate) scopes (.getTimeline 0 none none) := by
  have hrows : ((loneFactDb predicate).store.facts.rows.insertionSort oldestFirst).filter
      (fun q => timelineWhere 0 none none q.2) = [(0, loneFact predicate)] := rfl
  unfold returnedFacts getTimeline
  dsimp only
  rw [hrows, List.filter_cons]
  dsimp only
  rw [show (loneFact predicate).predicate = predicate from rfl, h]
  exact List.mem_cons_self

theorem returned_search (h : scopeAllows scopes predicate = true) :
    0 ∈ returnedFacts (loneFactDb predicate) scopes
      (.search (probeEnv 0 0 {} 0) (probeRequest [0])) := by
  have hf : (loneFactDb predicate).store.facts.get? 0 = some (loneFact predicate) := rfl
  have hids : [(0 : EntityId)] ≠ [] := List.cons_ne_nil _ _
  obtain ⟨m, b, hentries, _, _, ⟨sf, hsf, hid⟩, hwalk⟩ :=
    probeBuckets_eq_walk {} 0 hf hids List.mem_cons_self h
  -- there are no edges to walk over
  rw [expandViaEdges_eq_self (fun _ => rfl)] at hwalk
  have hhit : assembleHit .empty false b
      ∈ search (probeEnv 0 0 {} 0) (loneFactDb predicate) (probeRequest [0]) scopes := by
    refine mem_search_probe (i := 0) (f := loneFact predicate) ?_
    rw [hwalk, InsertionMap.values, hentries]
    rfl
  -- the bucket has one fact, which is shown
  refine List.mem_flatMap.mpr ⟨_, hhit, List.mem_map.mpr ⟨renderMatched sf, ?_, hid⟩⟩
  unfold assembleHit
  rw [hsf]
  exact List.mem_cons_self

end Complete

/-! ## When a path keeps to the registry -/

/-- **A path enforces the policy of the tenant exactly when its gate covers it**, for
every registry, every caller and either pool. -/
theorem enforces_iff (cached : Option PredicateSnapshot) (scopes : List BrainScope)
    (scopedEnabled : Bool) (path : ReadPath) :
    Enforces cached scopes scopedEnabled path ↔ GateCovers cached scopes path := by
  have hget : ∀ predicate, (loneFactDb predicate).store.facts.get? 0 = some (loneFact predicate) :=
    fun _ => rfl
  -- a predicate that the seed allows is returned, so the registry has to allow it
  have hcovers : ∀ call : FactRead, call.path = path → call.onPool scopedEnabled →
      (∀ predicate, scopeAllows scopes predicate = true →
        0 ∈ returnedFacts (loneFactDb predicate) scopes call) →
      Enforces cached scopes scopedEnabled path →
      ∀ predicate, tenantAllows cached scopes predicate = false →
        scopeAllows scopes predicate = false := by
    intro call hpath hpool hreturned h predicate hdenied
    by_contra hallow
    rw [Bool.not_eq_false] at hallow
    have hok := h (loneFactDb predicate) call hpath hpool 0 (hreturned predicate hallow) _
      (hget predicate)
    rw [show (loneFact predicate).predicate = predicate from rfl, hdenied] at hok
    cases hok
  -- and what the gate lets through is allowed by the registry, if the gate covers it
  have hallowed : (∀ predicate, tenantAllows cached scopes predicate = false →
      scopeAllows scopes predicate = false) → ∀ predicate, scopeAllows scopes predicate = true →
        tenantAllows cached scopes predicate = true := by
    intro hgate predicate hallow
    by_contra hdenied
    rw [Bool.not_eq_true] at hdenied
    rw [hgate predicate hdenied] at hallow
    cases hallow
  cases path with
  | search =>
      refine ⟨hcovers (.search (probeEnv 0 0 {} 0) (probeRequest [0])) rfl trivial
        (fun _ => returned_search), ?_⟩
      rintro hgate db (_ | _ | _ | _) hpath _ i hi f hf
      · exact hallowed hgate _ (allowed_of_search hi hf)
      all_goals cases hpath
  | graphRetrieve =>
      constructor
      · intro h predicate
        exact h (loneFactDb predicate) (.graphRetrieve (plainGraphEnv scopedEnabled) "" ["ada"] [] none)
          rfl rfl 0 (returned_graphRetrieve scopedEnabled) _ (hget predicate)
      · exact fun hgate db call _ _ i _ f _ => hgate f.predicate
  | getProfile =>
      refine ⟨hcovers (.getProfile 0 none) rfl trivial (fun _ => returned_getProfile), ?_⟩
      rintro hgate db (_ | _ | _ | _) hpath _ i hi f hf
      case getProfile => exact hallowed hgate _ (allowed_of_getProfile hi hf)
      all_goals cases hpath
  | getTimeline =>
      refine ⟨hcovers (.getTimeline 0 none none) rfl trivial (fun _ => returned_getTimeline), ?_⟩
      rintro hgate db (_ | _ | _ | _) hpath _ i hi f hf
      case getTimeline => exact hallowed hgate _ (allowed_of_getTimeline hi hf)
      all_goals cases hpath

/-- A registry in which an operator has added a salary, for those with
`brain:read_pii` only. -/
def salaryRegistry : PredicateSnapshot :=
  loadFresh (CORE_PREDICATES.map PredicateDefinition.toRow ++
    [{ predicateId := "salary", semantics := .single_active, decayHalfLifeDays := none,
       piiClass := "sensitive", requiresScope := some "brain:read_pii" }])

/-- A caller without that scope is shown the salary in the profile. -/
theorem salary_shown_in_profile :
    ¬ ∀ (cached : Option PredicateSnapshot) (scopes : List BrainScope) (scopedEnabled : Bool)
      (path : ReadPath), Enforces cached scopes scopedEnabled path := by
  intro h
  have hallow : scopeAllows [.read] "salary" = true := by decide
  have hok := h (some salaryRegistry) [.read] true .getProfile (loneFactDb "salary")
    (.getProfile 0 none) rfl trivial 0 (returned_getProfile hallow) (loneFact "salary") rfl
  revert hok
  decide +kernel

end Brain
