/-
A fact with an aliased predicate, on the two ways into the tenant. What a model reads out of a
mention goes through `canonicalize` (`src/src/ai/extractor-internals/predicate-canonicalize.ts`)
before it is recorded. A typed fact goes to `fn::resolve_fact` under the predicate of the
request, with the policy that the active set has for it; an aliased predicate is not in the
active set, so it gets the one of the seed.

So the two ways settle a fact under the end of its aliases if and only if there are none
(`both_paths_settle_iff`).
-/
import Brain.Ai.ExtractorInternals
import Brain.Ai.StableCanonicalization
import Brain.Ingest.IngestService

set_option autoImplicit false

namespace Brain

/-! ## 1. The policy of an active predicate -/

/-- What the ingest reads of an entry of the registry. -/
def TenantPredicate.policy (p : TenantPredicate) : PredicatePolicy where
  semantics := p.semantics
  decayHalfLifeDays := p.decayHalfLifeDays
  piiClass := p.piiClass

/-- The service with the policies of a snapshot that has been loaded. -/
def IngestConfig.withRegistry (cfg : IngestConfig) (snapshot : CanonicalSnapshot) : IngestConfig :=
  { cfg with
    policyFor := fun p => (tenantPolicyFor (some snapshot.toPredicateSnapshot) p).policy }

section Policy

variable {rows : List RegistryRow} {row : RegistryRow}

/-- The active set has an active row under its identifier. -/
theorem get?_byId_of_active (h : UniqueIds rows) (hrow : row ∈ rows)
    (hstatus : row.status = .active) : (loadSnapshot rows).byId.get? row.predicateId
      = some (deserializeFromRow row.toTenantPredicate) := by
  have hids : (((rows.map RegistryRow.toTenantPredicate).map deserializeFromRow).map
      (fun p => p.predicateId)).Nodup := by
    rw [List.map_map, List.map_map]
    exact h
  have hkeys : (((((rows.map RegistryRow.toTenantPredicate).map deserializeFromRow).filter
      (fun def_ => def_.status == .active)).map (fun p => (p.predicateId, p))).map
        Prod.fst).Nodup := by
    rw [List.map_map]
    exact hids.sublist (List.filter_sublist.map _)
  have hbyId : (loadSnapshot rows).byId = .ofList
      ((((rows.map RegistryRow.toTenantPredicate).map deserializeFromRow).filter
        (fun def_ => def_.status == .active)).map (fun p => (p.predicateId, p))) := rfl
  rw [hbyId, InsertionMap.get?_ofList_iff hkeys]
  refine List.mem_map.mpr ⟨deserializeFromRow row.toTenantPredicate, ?_, rfl⟩
  refine List.mem_filter.mpr ⟨List.mem_map_of_mem (List.mem_map_of_mem hrow), ?_⟩
  exact beq_iff_eq.mpr hstatus

/-- The policy of an active predicate is the one of its row. -/
theorem semantics_withRegistry (cfg : IngestConfig) (h : UniqueIds rows) (hrow : row ∈ rows)
    (hstatus : row.status = .active) :
    ((cfg.withRegistry (loadSnapshot rows)).policyFor row.predicateId).semantics
      = row.semantics := by
  have hget := get?_byId_of_active h hrow hstatus
  show (tenantPolicyFor (some (loadSnapshot rows).toPredicateSnapshot) row.predicateId).semantics
    = row.semantics
  rw [tenantPolicyFor, Option.bind_some]
  simp only [hget]
  rfl

end Policy

/-! ## 2. The pass over the facts of a mention -/

/-- What happens to a call of `canonicalize` that does not throw. -/
structure CallEvents where
  expired : Bool
  embedded : Bool
  stored : Bool

/-- The call for a predicate in a context. -/
def CallEvents.call (events : CallEvents) (predicate contextText : String) :
    CanonicalizeCall where
  predicate := predicate
  contextText := contextText
  expired := events.expired
  embedded := events.embedded
  stored := events.stored

/-- The facts of a mention as they come to the pass, and what happens to the call for each of
them; a call that throws has written nothing. -/
structure MentionFacts where
  facts : List ExtractorFact
  events : ℕ → Option CallEvents

/-- The calls of the pass for the first `i` facts. -/
def MentionFacts.calls (m : MentionFacts) (i : ℕ) : List CanonicalizeCall :=
  (m.facts.take i).zipIdx.filterMap (fun x =>
    (m.events x.2).map (fun events => events.call x.1.predicate (contextText x.1)))

/-- What the registry answers in the pass. -/
def MentionFacts.services (m : MentionFacts) (env : CanonicalizeEnv)
    (rank : ℕ → String → Except String (List RankedPredicate)) (r : Registry) : PassServices where
  rank := rank
  canonicalize i predicate contextText := (m.events i).map (fun events =>
    (canonicalize env (events.call predicate contextText)
      (canonicalizeAll env (m.calls i) r)).1.canonicalId)

/-- The registry after the pass. -/
def MentionFacts.registry (m : MentionFacts) (env : CanonicalizeEnv) (r : Registry) : Registry :=
  canonicalizeAll env (m.calls m.facts.length) r

/-- The parameters that `ingestFact` binds, with the registry warmed. -/
def typedArgs (cfg : IngestConfig) (r : Registry) (expired : Bool) (dto : IngestFactDto)
    (e : EntityId) : ResolveArgs :=
  dto.resolveArgs (cfg.withRegistry (r.getSnapshot expired).1) e

/-- The parameters that `recordExtractedFact` binds for fact `i` of a mention, after the pass
and with the registry warmed. -/
def mentionArgs (cfg : IngestConfig) (env : CanonicalizeEnv)
    (rank : ℕ → String → Except String (List RankedPredicate)) (r : Registry) (m : MentionFacts)
    (i : ℕ) (expired : Bool) (e : EntityId) (confidence : ℚ) (validFrom : Time)
    (source : FactSource) : Option ResolveArgs :=
  (applyCanonicalizePass (m.services env rank r) 0 m.facts)[i]?.map (fun f =>
    extractedFactArgs (cfg.withRegistry ((m.registry env r).getSnapshot expired).1) e f.predicate
      f.object confidence validFrom source)

/-- A fact with the predicate that the pass leaves it. -/
def answeredFact (services : PassServices) (i : ℕ) (f : ExtractorFact) : ExtractorFact :=
  { f with predicate := (services.canonicalize i f.predicate (contextText f)).getD f.predicate }

/-- A fact is settled under a predicate of the registry, with its semantics. -/
structure SettlesUnder (a : ResolveArgs) (row : RegistryRow) : Prop where
  predicate : a.predicate = row.predicateId
  semantics : a.semantics = row.semantics

section Pass

variable {env : CanonicalizeEnv} {r : Registry} {row : RegistryRow} {p : String}

/-- The pass gives every fact the answer for its number. -/
theorem getElem?_applyCanonicalizePass (services : PassServices) (facts : List ExtractorFact) :
    ∀ k i : ℕ, (applyCanonicalizePass services k facts)[i]?
      = facts[i]?.map (answeredFact services (k + i)) := by
  induction facts with
  | nil => exact fun _ _ => rfl
  | cons f facts ih =>
      intro k i
      cases i with
      | zero => rfl
      | succ i =>
          rw [applyCanonicalizePass, List.getElem?_cons_succ, List.getElem?_cons_succ, ih,
            show k + 1 + i = k + (i + 1) by omega]

/-- Calls keep the rows that are there. -/
theorem mem_rows_canonicalizeAll (calls : List CanonicalizeCall) (h : row ∈ r.rows) :
    row ∈ (canonicalizeAll env calls r).rows :=
  canonicalizeAll_induct (P := fun rows => row ∈ rows)
    (fun _ _ _ hp => List.mem_append_left _ hp) calls h

/-- What a predicate with few enough aliases is answered with in the pass, unless the call
throws. -/
theorem services_of_resolves (m : MentionFacts)
    (rank : ℕ → String → Except String (List RankedPredicate)) (i : ℕ) (text : String) {c : String}
    (h : Resolves r.rows p c) :
    (m.services env rank r).canonicalize i p text = (m.events i).map (fun _ => c) := by
  show (m.events i).map _ = (m.events i).map _
  cases m.events i with
  | none => rfl
  | some events =>
      have hcall : Resolves r.rows (events.call p text).predicate c := h
      rw [Option.map_some, Option.map_some, canonicalId_of_resolves hcall]

end Pass

/-! ## 3. Both ways -/

section Paths

variable {env : CanonicalizeEnv} {r : Registry} {row : RegistryRow}

/-- A typed fact settles under its own predicate, with its semantics if it is active. -/
theorem typedArgs_settles_iff (cfg : IngestConfig) (expired : Bool) (dto : IngestFactDto)
    (e : EntityId) (hrow : row ∈ r.rows) (hstatus : row.status = .active) :
    SettlesUnder (typedArgs cfg r expired dto e) row ↔ dto.predicate = row.predicateId := by
  constructor
  · exact fun h => h.predicate
  · intro hp
    refine ⟨hp, ?_⟩
    show ((cfg.withRegistry (r.getSnapshot expired).1).policyFor dto.predicate).semantics
      = row.semantics
    rw [hp, getSnapshot_fst]
    exact semantics_withRegistry cfg r.unique hrow hstatus

/-- A fact of a mention settles under what its predicate resolves to, unless the call for it
throws. -/
theorem mentionArgs_settles (cfg : IngestConfig)
    (rank : ℕ → String → Except String (List RankedPredicate)) {m : MentionFacts} {i : ℕ}
    {f : ExtractorFact} (hf : m.facts[i]? = some f) (expired : Bool) (e : EntityId)
    (confidence : ℚ) (validFrom : Time) (source : FactSource) (hrow : row ∈ r.rows)
    (hstatus : row.status = .active) (hresolves : Resolves r.rows f.predicate row.predicateId)
    (hanswer : m.events i = none → f.predicate = row.predicateId) :
    ∃ a, mentionArgs cfg env rank r m i expired e confidence validFrom source = some a ∧
      SettlesUnder a row := by
  have hpredicate : (answeredFact (m.services env rank r) (0 + i) f).predicate
      = row.predicateId := by
    rw [answeredFact, services_of_resolves m rank (0 + i) _ hresolves, Nat.zero_add]
    cases hevents : m.events i with
    | none => exact hanswer hevents
    | some events => rfl
  rw [mentionArgs, getElem?_applyCanonicalizePass, hf, Option.map_some, Option.map_some]
  refine ⟨_, rfl, hpredicate, ?_⟩
  show ((cfg.withRegistry ((m.registry env r).getSnapshot expired).1).policyFor _).semantics
    = row.semantics
  rw [getSnapshot_fst, hpredicate]
  exact semantics_withRegistry cfg (m.registry env r).unique
    (mem_rows_canonicalizeAll _ hrow) hstatus

/-- **Where both ways settle** a fact whose aliases end in an active predicate under that one:
where it has no aliases. -/
theorem both_paths_settle_iff (cfg : IngestConfig) (env : CanonicalizeEnv)
    (rank : ℕ → String → Except String (List RankedPredicate)) (r : Registry) (m : MentionFacts)
    (i n : ℕ) (f : ExtractorFact) (row : RegistryRow) (dto : IngestFactDto) (e : EntityId)
    (typedExpired mentionExpired : Bool) (confidence : ℚ) (validFrom : Time) (source : FactSource)
    (hrow : row ∈ r.rows) (hstatus : row.status = .active)
    (hchain : Forest.ancestor (aliasOf r.rows) n f.predicate = some row.predicateId)
    (hf : m.facts[i]? = some f) (hdto : dto.predicate = f.predicate) :
    (SettlesUnder (typedArgs cfg r typedExpired dto e) row ∧
      ∃ a, mentionArgs cfg env rank r m i mentionExpired e confidence validFrom source = some a ∧
        SettlesUnder a row) ↔ n = 0 := by
  have hactive : IsActive r.rows row.predicateId := ⟨row, hrow, rfl, hstatus⟩
  constructor
  · rintro ⟨htyped, _⟩
    have hp := (typedArgs_settles_iff cfg typedExpired dto e hrow hstatus).mp htyped
    rw [hdto] at hp
    -- a predicate that is active itself is at no distance from the end of its aliases
    have hself : Forest.ancestor (aliasOf r.rows) 0 f.predicate = some row.predicateId := by
      rw [Forest.ancestor_zero, hp]
    exact (length_unique r.unique hchain hactive hself hactive).1
  · intro hn
    rw [hn, Forest.ancestor_zero, Option.some_inj] at hchain
    refine ⟨(typedArgs_settles_iff cfg typedExpired dto e hrow hstatus).mpr (hdto.trans hchain), ?_⟩
    refine mentionArgs_settles cfg rank hf mentionExpired e confidence validFrom source hrow hstatus
      ?_ (fun _ => hchain)
    rw [hchain]
    exact resolves_self hactive

/-- A mention of which the given facts come to the pass; every call is carried out. -/
def plainMention (facts : List ExtractorFact) : MentionFacts where
  facts := facts
  events _ := some { expired := false, embedded := true, stored := true }

/-- A fact that a model has read, with the given predicate. -/
def soupFact (predicate : String) : ExtractorFact where
  entityIndex := 0
  predicate := predicate
  object := "soup"
  confidence := 1

/-- The same fact in a request. -/
def soupDto (predicate : String) : IngestFactDto where
  entityRef := .entity 1
  predicate := predicate
  object := "soup"
  validFrom := 0

/-- The registry of a food predicate and an alias of it. -/
def foodRegistry : Registry :=
  chainRegistry ["likes_food", "favourite_food"] (by decide)

/-- The row of the active one of the two. -/
def foodRow : RegistryRow := { DEFAULT_FALLBACK with predicateId := "favourite_food" }

/-- No ranking of predicates. -/
def noRanking (_ : ℕ) (_ : String) : Except String (List RankedPredicate) := .ok []

theorem both_paths_settle_active :
    SettlesUnder (typedArgs (.uniform .append_only) foodRegistry false (soupDto "favourite_food") 1)
        foodRow ∧
      ∃ a, mentionArgs (.uniform .append_only) plainCanonicalizeEnv noRanking foodRegistry
        (plainMention [soupFact "favourite_food"]) 0 false 1 1 0 {} = some a ∧
        SettlesUnder a foodRow :=
  (both_paths_settle_iff (.uniform .append_only) plainCanonicalizeEnv noRanking foodRegistry
    (plainMention [soupFact "favourite_food"]) 0 0 (soupFact "favourite_food") foodRow
    (soupDto "favourite_food") 1 false false 1 0 {} (List.mem_cons_of_mem _ List.mem_cons_self)
    rfl rfl rfl rfl).mpr rfl

/-- A typed fact with an alias stays under the alias. -/
theorem aliased_fact_forks :
    ¬ ∀ (cfg : IngestConfig) (env : CanonicalizeEnv) (r : Registry) (m : MentionFacts) (i n : ℕ)
      (f : ExtractorFact) (row : RegistryRow) (dto : IngestFactDto) (e : EntityId),
      row ∈ r.rows → row.status = .active →
      Forest.ancestor (aliasOf r.rows) n f.predicate = some row.predicateId →
      m.facts[i]? = some f → dto.predicate = f.predicate →
      SettlesUnder (typedArgs cfg r false dto e) row ∧
        ∃ a, mentionArgs cfg env noRanking r m i false e 1 0 {} = some a ∧ SettlesUnder a row := by
  intro hall
  have htyped := (hall (.uniform .append_only) plainCanonicalizeEnv foodRegistry
    (plainMention [soupFact "likes_food"]) 0 1 (soupFact "likes_food") foodRow
    (soupDto "likes_food") 1 (List.mem_cons_of_mem _ List.mem_cons_self) rfl (by decide)
    rfl rfl).1.predicate
  revert htyped
  decide

end Paths

end Brain
