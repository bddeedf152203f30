/-
`src/src/ingest/ingest.service.ts`: how a request becomes a call of
`fn::resolve_fact`. Two methods of the service make that call, `ingestFact` for
typed facts and `recordExtractedFact` for facts that a model read out of a
mention; both assemble the same parameters (`resolveParams`).

The alternative embedding and the extraction entropy that a further UPDATE may
add to a row are columns that nothing modelled here reads, and are left out.
-/
import Brain.Db.ResolveFact

set_option autoImplicit false

namespace Brain

/-- `EntityRef`: by a vertical's own identifier, or by the entity's record. -/
inductive EntityRef where
  | external (vertical : String) (id : String)
  | entity (entityId : EntityId)
deriving DecidableEq, Repr

/-- `IngestFactDto`, as the validation pipe lets it through. -/
structure IngestFactDto where
  entityRef : EntityRef
  predicate : String
  object : String
  validFrom : Time
  validUntil : Option Time := none
  confidence : Option Confidence := none
  source : FactSource := {}

/-- What the service is constructed with, and the predicate registry it asks. -/
structure IngestConfig where
  fns : SurrealFns
  conflict : ConflictConfig
  policyFor : String → PredicatePolicy
  embed : String → List ℚ
  /-- `detectLanguage`, with `'und'` as `none`. -/
  detectLanguage : String → Option String

/-- What `ingestFact` throws. -/
inductive IngestError where
  | badRequest (message : String)
  | db (e : DbError)
deriving DecidableEq, Repr

/-! ## The subject -/

/-- `externalRefKey`: dots become double underscores. -/
def externalRefKey (vertical id : String) : String :=
  let safe (s : String) : String :=
    String.ofList (s.toList.flatMap (fun c => if c = '.' then ['_', '_'] else [c]))
  safe vertical ++ "__" ++ safe id

/-- `lookupExternalRef`. -/
def lookupExternalRef (s : Store) (key : String) : Option EntityId :=
  (s.externalRefs.find? (fun r => r.1 == key)).map Prod.snd

/-- `upsertEntityByExternalRef`, without other callers in between. -/
def upsertEntityByExternalRef (s : Store) (key : String) (content : KnowledgeEntity) :
    EntityId × Store :=
  match lookupExternalRef s key with
  | some e => (e, s)
  | none =>
      let newId := s.entities.next
      (newId, { s with entities := s.entities.insert content
                       externalRefs := s.externalRefs ++ [(key, newId)] })

/-- `resolveOrCreateEntity`. -/
def resolveOrCreateEntity (s : Store) (ref : EntityRef) : EntityId × Store :=
  match ref with
  | .entity e => (e, s)
  | .external vertical id =>
      let refKey := externalRefKey vertical id
      upsertEntityByExternalRef s refKey
        { type := "other", canonicalName := id, externalRefs := [(refKey, id)] }

/-! ## The call -/

/-- The parameters that both callers of `fn::resolve_fact` bind. -/
def resolveParams (conflict : ConflictConfig) (semantics : Semantics) (entityId : EntityId)
    (predicate object : String) (embedding : List ℚ) (confidence : ℚ) (validFrom : Time)
    (validUntil : Option Time) (source : FactSource) : ResolveArgs where
  entityId := entityId
  predicate := predicate
  object := object
  -- objects that are not strings do not pass the validation
  objectMeta := none
  embedding := embedding
  confidence := confidence
  validFrom := validFrom
  validUntil := validUntil
  source := source
  sourceTrust := sourceTrustFor source
  semantics := semantics
  similarityThreshold := conflict.similarityThreshold
  wConfidence := conflict.weights.confidence
  wSourceTrust := conflict.weights.sourceTrust
  wRecency := conflict.weights.recency
  wAuthority := conflict.weights.authority
  rejectThreshold := conflict.rejectThreshold
  marginForSupersede := conflict.marginForSupersede

/-- The parameters that `ingestFact` binds for a request on `entityId`. -/
def IngestFactDto.resolveArgs (cfg : IngestConfig) (dto : IngestFactDto) (entityId : EntityId) :
    ResolveArgs :=
  resolveParams cfg.conflict (cfg.policyFor dto.predicate).semantics entityId dto.predicate
    dto.object (cfg.embed (dto.predicate ++ ": " ++ dto.object))
    (match dto.confidence with
      | none => 7 / 10
      | some c => c.1)
    dto.validFrom dto.validUntil dto.source

/-- The parameters that `recordExtractedFact` binds; a mention has no end date. -/
def extractedFactArgs (cfg : IngestConfig) (entityId : EntityId) (predicate object : String)
    (confidence : ℚ) (validFrom : Time) (source : FactSource) : ResolveArgs :=
  resolveParams cfg.conflict (cfg.policyFor predicate).semantics entityId predicate object
    (cfg.embed (predicate ++ ": " ++ object)) confidence validFrom none source

/-- Steps 1 to 5 of `ingestFact`: find the subject, then resolve. -/
def ingestResolve (cfg : IngestConfig) (env : DbEnv) (s : Store) (dto : IngestFactDto) :
    Except DbError ResolveResult × Store :=
  let subject := resolveOrCreateEntity s dto.entityRef
  match resolveFact cfg.fns env subject.2 (dto.resolveArgs cfg subject.1) with
  | .ok (r, s') => (.ok r, s')
  -- the entity was created in a transaction of its own
  | .error e => (.error e, subject.2)

/-- The language tag that an inserted fact gets. -/
def tagLanguage (cfg : IngestConfig) (r : ResolveResult) (object : String) (s : Store) : Store :=
  match r, cfg.detectLanguage object with
  | .inserted factId, some lang =>
      { s with facts := s.facts.update factId (fun f => { f with lang := some lang }) }
  | _, _ => s

/-- `ingestFact`. -/
def ingestFact (cfg : IngestConfig) (env : DbEnv) (s : Store) (dto : IngestFactDto) :
    Except IngestError ResolveResult × Store :=
  if dto.validUntil.any (fun u => decide (u ≤ dto.validFrom)) then
    (.error (.badRequest "validUntil must be strictly after validFrom"), s)
  else
    match ingestResolve cfg env s dto with
    | (.ok r, s') => (.ok r, tagLanguage cfg r dto.object s')
    | (.error e, s') => (.error (.db e), s')

/-- Looking a subject up, or creating it, touches no fact. -/
theorem facts_resolveOrCreateEntity (s : Store) (ref : EntityRef) :
    (resolveOrCreateEntity s ref).2.facts = s.facts := by
  cases ref with
  | entity e => rfl
  | external vertical id =>
      simp only [resolveOrCreateEntity, upsertEntityByExternalRef]
      cases lookupExternalRef s (externalRefKey vertical id) with
      | none => rfl
      | some e => rfl

/-- A call of `fn::resolve_fact` with the environment it is executed in. -/
structure ResolveCall where
  env : DbEnv
  args : ResolveArgs

/-- The store after a sequence of calls. -/
def ingestAll (fns : SurrealFns) (s : Store) (calls : List ResolveCall) : Store :=
  calls.foldl (fun s c => afterResolve fns c.env s c.args) s

theorem ingestAll_append (fns : SurrealFns) (s : Store) (calls : List ResolveCall)
    (c : ResolveCall) :
    ingestAll fns s (calls ++ [c]) = afterResolve fns c.env (ingestAll fns s calls) c.args := by
  simp only [ingestAll, List.foldl_append, List.foldl_cons, List.foldl_nil]

/-- A call for the examples of the later modules: an address, of which a subject
has one at a time, valid from the given date on. -/
def addressFrom (validFrom : Time) : ResolveCall where
  env := { now := 0, sourceTrust := [] }
  args := resolveParams .fallback .single_active 1 "address" "Berlin" [] 1 validFrom none
    { vertical := some "rent" }

/-- Another one: a status, which competes with what contradicts it. -/
def statusFrom (validFrom : Time) : ResolveCall where
  env := { now := 0, sourceTrust := [] }
  args := resolveParams .fallback .bitemporal 1 "status" "churned" [1] 1 validFrom none
    { vertical := some "rent" }

/-- A service for the examples: every predicate has the given semantics, all texts
have one embedding and none has a language. -/
def IngestConfig.uniform (semantics : Semantics) : IngestConfig where
  fns := .atRecording
  conflict := .fallback
  policyFor _ := { DEFAULT_POLICY with semantics := semantics }
  embed _ := [1]
  detectLanguage _ := none

/-- A request that is not turned away has an interval that covers some instant. -/
theorem lt_of_ingestFact {cfg : IngestConfig} {env : DbEnv} {s : Store} {dto : IngestFactDto}
    (h : ∀ m, (ingestFact cfg env s dto).1 ≠ .error (.badRequest m)) :
    ∀ u ∈ dto.validUntil, dto.validFrom < u := by
  intro u hu
  by_contra hle
  have hany : dto.validUntil.any (fun u => decide (u ≤ dto.validFrom)) = true := by
    rw [Option.mem_def.mp hu]
    simpa using hle
  apply h "validUntil must be strictly after validFrom"
  rw [ingestFact, if_pos hany]

end Brain
