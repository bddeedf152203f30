/-
`src/src/summarize-entity/summarize-entity.service.ts`: one-line briefings about an
entity, rendered from its profile and cached in the process.

The cache is asked before anything else, under a key that is made of the arguments. The
caller's scopes are not among them; they only go into the profile that a miss reads.
-/
import Brain.Entities.EntitiesService
import Brain.Lib.LruCache

set_option autoImplicit false

namespace Brain

/-- `SummarizeStyle`. -/
inductive SummarizeStyle where
  | neutral | sales | support
deriving DecidableEq, Repr

def SummarizeStyle.text : SummarizeStyle → String
  | .neutral => "neutral"
  | .sales => "sales"
  | .support => "support"

/-- `SummarizeArgs`, as the caller spells them. -/
structure SummarizeArgs where
  entityId : String
  asOf : Option String := none
  styleHint : Option SummarizeStyle := none

/-- `CachedSummary.result`. -/
structure CachedSummary where
  entityId : EntityId
  summary : String
  factsConsidered : ℕ
  style : SummarizeStyle
  asOf : Option String
deriving DecidableEq, Repr

/-- `SummarizeResult`. -/
structure SummarizeResult extends CachedSummary where
  cached : Bool
deriving DecidableEq, Repr

/-- What the service takes from elsewhere: the hash in hex, the record that a spelled
identifier names (with or without its table), and the instant that a date names. -/
structure SummarizeEnv where
  sha256 : String → String
  recordOf : String → EntityId
  dateOf : String → Time

/-- `buildCacheKey`. -/
def buildCacheKey (env : SummarizeEnv) (companyId : String) (args : SummarizeArgs) : String :=
  let asOf := args.asOf.getD "now"
  let style := (args.styleHint.getD .neutral).text
  let raw := companyId ++ "::" ++ args.entityId ++ "::" ++ asOf ++ "::" ++ style
  String.ofList ((env.sha256 raw).toList.take 32)

/-- The facts that a briefing shows: the six most confident of those that are in force. -/
def topFacts (facts : List ProfileFact) : List ProfileFact :=
  ((facts.filter (fun f => f.status == .active || f.status == .competing)).insertionSort
    (fun a b => b.confidence.1 ≤ a.confidence.1)).take 6

/-- `renderSummary`. -/
def renderSummary (profile : EntityProfile) (style : SummarizeStyle) : String :=
  if profile.facts.length = 0 then
    profile.canonicalName ++ " (" ++ profile.type ++ "). No active facts on record."
  else
    let factLine := "; ".intercalate
      ((topFacts profile.facts).map (fun f => f.predicate ++ "=" ++ f.object))
    let refsLine :=
      if profile.externalRefs.length = 0 then ""
      else " (refs: " ++
        ", ".intercalate (profile.externalRefs.map (fun r => r.1 ++ "=" ++ r.2)) ++ ")"
    match style with
    | .sales => profile.canonicalName ++ " — " ++ factLine ++ "." ++ refsLine
    | .support =>
        "Customer: " ++ profile.canonicalName ++ " (" ++ profile.type ++ "). Active state — " ++
          factLine ++ "." ++ refsLine
    | .neutral =>
        profile.canonicalName ++ " (" ++ profile.type ++ "): " ++ factLine ++ "." ++ refsLine

/-- `maxEntries`. -/
def maxEntries : ℕ := 500

/-- `summarize`, with the cache that it leaves. -/
def SummarizeEntityService.summarize (env : SummarizeEnv) (s : Store) (cache : InsertionMap String CachedSummary)
    (companyId : String) (args : SummarizeArgs) (scopes : List BrainScope) :
    Except HttpError SummarizeResult × InsertionMap String CachedSummary :=
  let cacheKey := buildCacheKey env companyId args
  match cache.get? cacheKey with
  -- a hit is answered without a look at the scopes or at the database
  | some hit => (.ok { toCachedSummary := hit, cached := true }, cache.touch cacheKey hit)
  | none =>
      match getProfile s (env.recordOf args.entityId) (args.asOf.map env.dateOf) scopes with
      -- `getProfile` throws before anything is cached
      | .error e => (.error e, cache)
      | .ok profile =>
          let style := args.styleHint.getD .neutral
          let cacheable : CachedSummary :=
            { entityId := profile.entityId, summary := renderSummary profile style,
              factsConsidered := profile.facts.length, style := style, asOf := args.asOf }
          (.ok { toCachedSummary := cacheable, cached := false },
            (cache.set cacheKey cacheable).evict maxEntries)

section Spec

variable {env : SummarizeEnv} {s : Store} {cache : InsertionMap String CachedSummary}
  {companyId : String} {args : SummarizeArgs} {scopes : List BrainScope}

theorem summarize_of_hit {hit : CachedSummary}
    (h : cache.get? (buildCacheKey env companyId args) = some hit) :
    SummarizeEntityService.summarize env s cache companyId args scopes
      = (.ok { toCachedSummary := hit, cached := true },
          cache.touch (buildCacheKey env companyId args) hit) := by
  simp only [SummarizeEntityService.summarize, h]

/-- What a call computes that finds nothing. -/
def freshSummary (args : SummarizeArgs) (profile : EntityProfile) : CachedSummary where
  entityId := profile.entityId
  summary := renderSummary profile (args.styleHint.getD .neutral)
  factsConsidered := profile.facts.length
  style := args.styleHint.getD .neutral
  asOf := args.asOf

theorem summarize_of_miss {profile : EntityProfile}
    (h : cache.get? (buildCacheKey env companyId args) = none)
    (hprofile : getProfile s (env.recordOf args.entityId) (args.asOf.map env.dateOf) scopes
      = .ok profile) :
    SummarizeEntityService.summarize env s cache companyId args scopes
      = (.ok { toCachedSummary := freshSummary args profile, cached := false },
          (cache.set (buildCacheKey env companyId args) (freshSummary args profile)).evict
            maxEntries) := by
  simp only [SummarizeEntityService.summarize, h, hprofile]
  rfl

theorem summarize_of_error {e : HttpError}
    (h : cache.get? (buildCacheKey env companyId args) = none)
    (hprofile : getProfile s (env.recordOf args.entityId) (args.asOf.map env.dateOf) scopes
      = .error e) :
    SummarizeEntityService.summarize env s cache companyId args scopes = (.error e, cache) := by
  simp only [SummarizeEntityService.summarize, h, hprofile]

/-- The cache stays within its bound. -/
theorem size_summarize_le (h : cache.size ≤ maxEntries) :
    (SummarizeEntityService.summarize env s cache companyId args scopes).2.size ≤ maxEntries := by
  cases hget : cache.get? (buildCacheKey env companyId args) with
  | some hit =>
      rw [summarize_of_hit hget]
      exact le_trans (InsertionMap.size_touch_le hget) h
  | none =>
      cases hprofile : getProfile s (env.recordOf args.entityId) (args.asOf.map env.dateOf)
          scopes with
      | error e =>
          rw [summarize_of_error hget hprofile]
          exact h
      | ok profile =>
          rw [summarize_of_miss hget hprofile]
          exact InsertionMap.size_evict_le _ _

end Spec

/-- A briefing shows facts of the profile. -/
theorem mem_of_mem_topFacts {facts : List ProfileFact} {f : ProfileFact}
    (h : f ∈ topFacts facts) : f ∈ facts := by
  have hmem := List.mem_of_mem_take h
  rw [List.mem_insertionSort] at hmem
  exact (List.mem_filter.mp hmem).1

/-- **What a profile contains**: stored facts that the caller may see. -/
theorem mem_facts_of_getProfile {s : Store} {e : EntityId} {asOf : Option Time}
    {scopes : List BrainScope} {profile : EntityProfile}
    (h : getProfile s e asOf scopes = .ok profile) {f : ProfileFact} (hf : f ∈ profile.facts) :
    scopeAllows scopes f.predicate = true ∧
      ∃ g, s.facts.get? f.factId = some g ∧ toProfileFact (f.factId, g) = f := by
  unfold getProfile at h
  split at h
  · cases h
  · cases h
    obtain ⟨⟨i, g⟩, hq, rfl⟩ := List.mem_map.mp hf
    -- the rows are read in order, cut, and then filtered by what the caller may see
    obtain ⟨hrow, hpass⟩ := List.mem_filter.mp hq
    have hmem := (List.mem_filter.mp (List.mem_of_mem_take hrow)).1
    rw [List.mem_insertionSort] at hmem
    exact ⟨hpass, g, KeyedTable.mem_rows_iff.mp hmem, rfl⟩

end Brain
