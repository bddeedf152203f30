/-
`canonicalize` of `src/src/ai/predicate-registry.service.ts`: the predicate under which a
fact is stored whose predicate a model has coined.

The rows are those after the tenant has been seeded. Their identifiers are unique, by the
index of the table, and the snapshot in the cache is the one of the rows: what is written
through the service drops it. An embedding is a function of the text; the embedder and the
database may fail at every call. Columns that nothing here reads are left out.
-/
import Brain.Ai.PredicateRegistryService
import Brain.Lib.Forest

set_option autoImplicit false

namespace Brain

/-! ## 1. Rows and snapshots -/

/-- A row of `knowledge_predicate`, with the columns of canonicalization. -/
structure RegistryRow extends TenantPredicate where
  aliasedTo : Option String := none
  embedding : Option (List ℚ) := none

/-- `deserializeFromRow`: the empty string is no alias. -/
def deserializeRegistryRow (row : RegistryRow) : RegistryRow where
  toTenantPredicate := deserializeFromRow row.toTenantPredicate
  aliasedTo := row.aliasedTo.filter (fun a => !a.isEmpty)
  embedding := row.embedding

/-- `MAX_CHAIN`. -/
def MAX_CHAIN : ℕ := 8

/-- The loop that follows `aliasedTo`, for a number of hops. -/
def followAliases (allById : InsertionMap String RegistryRow) :
    ℕ → RegistryRow → Option RegistryRow
  | 0, cursor => some cursor
  | hops + 1, cursor =>
      if cursor.status = .aliased then
        match cursor.aliasedTo with
        | none => some cursor
        | some a => (allById.get? a).bind (followAliases allById hops)
      else some cursor

/-- `PredicateSnapshot`, with the maps of canonicalization. -/
structure CanonicalSnapshot extends PredicateSnapshot where
  aliasMap : InsertionMap String String
  embeddings : InsertionMap String (List ℚ)

/-- The entry of `aliasMap` for a row. -/
def aliasEntry (allById : InsertionMap String RegistryRow) (def_ : RegistryRow) :
    Option (String × String) :=
  match followAliases allById MAX_CHAIN def_ with
  | none => none
  | some cursor =>
      if cursor.status = .active then some (def_.predicateId, cursor.predicateId) else none

/-- The entry of `embeddings` for a row. -/
def embeddingEntry (def_ : RegistryRow) : Option (String × List ℚ) :=
  if def_.status = .active then
    (def_.embedding.filter (fun emb => !emb.isEmpty)).map (fun emb => (def_.predicateId, emb))
  else none

/-- `loadFresh`. -/
def loadSnapshot (rows : List RegistryRow) : CanonicalSnapshot :=
  let all := rows.map deserializeRegistryRow
  let allById := InsertionMap.ofList (all.map (fun def_ => (def_.predicateId, def_)))
  { toPredicateSnapshot := loadFresh (rows.map RegistryRow.toTenantPredicate)
    aliasMap := .ofList (all.filterMap (aliasEntry allById))
    embeddings := .ofList (all.filterMap embeddingEntry) }

/-- The registry of a tenant, and the snapshot in the cache of the service. -/
structure Registry where
  rows : List RegistryRow
  unique : (rows.map (fun row => row.predicateId)).Nodup
  cached : Option CanonicalSnapshot := none
  current : ∀ snapshot, cached = some snapshot → snapshot = loadSnapshot rows

/-- `getSnapshot`; `expired` says that the time of the snapshot in the cache is over. -/
def Registry.getSnapshot (r : Registry) (expired : Bool) : CanonicalSnapshot × Registry :=
  let loaded : Registry :=
    { r with cached := some (loadSnapshot r.rows)
             current := fun _ h => (Option.some_inj.mp h).symm }
  match r.cached with
  | none => (loadSnapshot r.rows, loaded)
  | some snapshot => if expired then (loadSnapshot r.rows, loaded) else (snapshot, r)

/-- `CREATE knowledge_predicate`, then `invalidate`. The index refuses an identifier that is
there, and then nothing is invalidated. -/
def Registry.create (r : Registry) (stored : Bool) (row : RegistryRow) : Registry :=
  if h : stored = true ∧ row.predicateId ∉ r.rows.map (fun row => row.predicateId) then
    { rows := r.rows ++ [row]
      unique := by
        rw [List.map_append, List.nodup_append]
        refine ⟨r.unique, List.nodup_singleton _, ?_⟩
        intro a ha b hb hab
        rw [List.map_singleton, List.mem_singleton] at hb
        exact h.2 (hb ▸ hab ▸ ha)
      cached := none
      current := fun _ h => by cases h }
  else r

/-! ## 2. The decision -/

/-- `CanonicalizeDecision`. -/
inductive CanonicalizeDecision where
  | matched (canonicalId : String)
  | aliased (canonicalId : String) (similarity : ℚ) (novelPredicateId : String)
  | proposed (canonicalId novelPredicateId : String) (bestMatch : Option (String × ℚ))
deriving DecidableEq

/-- The `canonicalId` of a decision. -/
def CanonicalizeDecision.canonicalId : CanonicalizeDecision → String
  | .matched canonicalId => canonicalId
  | .aliased canonicalId _ _ => canonicalId
  | .proposed canonicalId _ _ => canonicalId

/-- What the service is constructed with. -/
structure CanonicalizeEnv where
  embed : String → List ℚ
  cosineSimilarity : List ℚ → List ℚ → ℚ
  /-- `PREDICATE_CANONICALIZE_THRESHOLD`. -/
  canonicalizeThreshold : ℚ := 85 / 100

/-- A call of `canonicalize`, with what happens to it. -/
structure CanonicalizeCall where
  predicate : String
  contextText : String
  /-- The snapshot in the cache has expired. -/
  expired : Bool := false
  /-- The embedder answers. -/
  embedded : Bool := true
  /-- The database takes a row whose identifier is new. -/
  stored : Bool := true

/-- `CANONICALIZE_REPORT_FLOOR`. -/
def CANONICALIZE_REPORT_FLOOR : ℚ := 6 / 10

/-- The direct hit. -/
def directHit (snapshot : CanonicalSnapshot) (predicate : String) : Option String :=
  match (snapshot.aliasMap.get? predicate).filter
      (fun a => !a.isEmpty && snapshot.byId.has a) with
  | some aliasResolved => some aliasResolved
  | none => if snapshot.byId.has predicate then some predicate else none

/-- One step of the similarity search: the better of two matches, the first if they are
equal. -/
def betterMatch (env : CanonicalizeEnv) (queryEmb : List ℚ) (best : Option (String × ℚ))
    (e : String × List ℚ) : Option (String × ℚ) :=
  let sim := env.cosineSimilarity queryEmb e.2
  match best with
  | none => some (e.1, sim)
  | some b => if b.2 < sim then some (e.1, sim) else some b

/-- The similarity search. -/
def bestMatch (env : CanonicalizeEnv) (snapshot : CanonicalSnapshot)
    (queryEmb : Option (List ℚ)) : Option (String × ℚ) :=
  match queryEmb with
  | none => none
  | some queryEmb => snapshot.embeddings.entries.foldl (betterMatch env queryEmb) none

/-- The row of a predicate that is aliased automatically; the policy is the one of the
canonical predicate. -/
def aliasedRow (snapshot : CanonicalSnapshot) (predicate canonicalId : String)
    (queryEmb : Option (List ℚ)) : RegistryRow :=
  let canonical := (snapshot.byId.get? canonicalId).getD DEFAULT_FALLBACK
  { predicateId := predicate
    semantics := canonical.semantics
    decayHalfLifeDays := canonical.decayHalfLifeDays
    piiClass := canonical.piiClass
    status := .aliased
    aliasedTo := some canonicalId
    embedding := queryEmb }

/-- The row of a predicate that is proposed. -/
def proposedRow (predicate : String) (queryEmb : Option (List ℚ)) : RegistryRow where
  predicateId := predicate
  semantics := DEFAULT_FALLBACK.semantics
  decayHalfLifeDays := DEFAULT_FALLBACK.decayHalfLifeDays
  piiClass := DEFAULT_FALLBACK.piiClass
  status := .proposed
  embedding := queryEmb

/-- `queryEmb`: the embedding of the context, if the embedder answers. -/
def CanonicalizeCall.queryEmb (env : CanonicalizeEnv) (call : CanonicalizeCall) :
    Option (List ℚ) :=
  if call.embedded then some (env.embed call.contextText) else none

/-- `canonicalize`, from the miss on. -/
def decideNovel (env : CanonicalizeEnv) (call : CanonicalizeCall) (snapshot : CanonicalSnapshot)
    (r : Registry) : CanonicalizeDecision × Registry :=
  let queryEmb := call.queryEmb env
  let proposed := r.create call.stored (proposedRow call.predicate queryEmb)
  match bestMatch env snapshot queryEmb with
  | none => (.proposed call.predicate call.predicate none, proposed)
  | some best =>
      if env.canonicalizeThreshold ≤ best.2 then
        (.aliased best.1 best.2 call.predicate,
          r.create call.stored (aliasedRow snapshot call.predicate best.1 queryEmb))
      else
        (.proposed call.predicate call.predicate
          (if CANONICALIZE_REPORT_FLOOR ≤ best.2 then some best else none), proposed)

/-- `canonicalize`. -/
def canonicalize (env : CanonicalizeEnv) (call : CanonicalizeCall) (r : Registry) :
    CanonicalizeDecision × Registry :=
  let loaded := r.getSnapshot call.expired
  match directHit loaded.1 call.predicate with
  | some canonicalId => (.matched canonicalId, loaded.2)
  | none => decideNovel env call loaded.1 loaded.2

/-- Calls one after the other. -/
def canonicalizeAll (env : CanonicalizeEnv) (calls : List CanonicalizeCall) (r : Registry) :
    Registry := calls.foldl (fun r call => (canonicalize env call r).2) r

end Brain
