/-
`src/src/admin/chat-router.service.ts` with the cache of
`src/src/admin/chat-router-cache.service.ts`: a request is answered with the route that is
stored under its key, or a route is built for it and stored.

The key has the normalised message and, if the message has a temporal anchor, the day; the
route has offsets into the message as it came and the instant of the anchor, and depends on
the phrases that the tenant has learned. If requests with the same key agree on these
(`Agree`), every answer is the route that would be built (`answer_eq_missRoute`).

The models answer alike to texts that are the same when normalised (`RouterModels`). What the
service learns from an answer changes the phrases of later requests, which are part of a
request here.
-/
import Brain.ChatRouter.GroundedSpans
import Brain.ChatRouter.LocalPrepass
import Brain.Lib.LruCache

set_option autoImplicit false

namespace Brain.ChatRouter

/-! ## 1. Models and requests -/

structure RouterConfig where
  hintSimilarityThreshold : ℚ
  hintMaxCount : ℕ
  intentConfidenceFloor : ℚ
  /-- `askThreshold` of the intent classifier. -/
  askThreshold : ℚ
  cacheSize : ℕ
  cacheEnabled : Bool

/-- What `callRouterLlm` returns. -/
inductive Reply where
  | empty
  | parseError (message : Text)
  | llmError (message : Text)
  | parsed (parsed : RawRouteOutput)

/-- The models. The prompt of the router has the vocabulary, the known names, the clock and the
message. -/
structure RouterModels (libs : RouterLibs) where
  embed : Text → Option (List ℚ)
  /-- The score of `question`, of a text that is trimmed; none while the model is not there. -/
  nli : Text → Option ℚ
  reply : List Text → List Text → Text → Text → Reply
  embed_nfc : ∀ s t, libs.nfc s = libs.nfc t → embed s = embed t
  nli_nfc : ∀ s t, libs.nfc s = libs.nfc t → nli s = nli t
  reply_nfc : ∀ vocab names now now' s t, libs.nfc s = libs.nfc t →
    reply vocab names now s = reply vocab names now' t

/-- A call of `route`, with what it reads of the tenant. -/
structure RouteRequest where
  companyId : Text
  message : Text
  knownNames : List Text
  now : ℤ
  snapshot : Option PredicateSnapshot
  /-- The learned phrases; none if they cannot be read. -/
  patterns : Option (List CollapsePattern)

structure RouteContext where
  knownNames : List Text
  predicateVocab : List Text
  nowIso : Text
  cacheKey : Text
  localTemporal : Option TemporalAnchor
  localMentions : List Mention
  localHints : List LocalHint
  localCollapses : List CollapseMatch
  localIntent : Intent × ℚ

/-! ## 2. The service -/

section Service

variable (libs : RouterLibs) (models : RouterModels libs) (config : RouterConfig)

/-- `clampLlmInputText` of a query. -/
def clampQuery (message : Text) : Text := (trim message).take 8000

/-- `classify` of the intent classifier. -/
def classify (message : Text) : Intent × ℚ :=
  let trimmed := trim message
  if trimmed.isEmpty then (.tell, 0)
  else if trimmed.getLast? = some 0x3F then (.ask, 95 / 100)
  else
    match models.nli trimmed with
    | none => (.tell, 7 / 10)
    | some qScore =>
        if config.askThreshold ≤ qScore then (.ask, qScore) else (.tell, 1 - qScore)

/-- `stableArrayHash`. -/
def stableArrayHash (arr : List Text) : Text :=
  if arr.isEmpty then units "empty"
  else (libs.sha256 ([0x1E].intercalate (arr.insertionSort (· ≤ ·)))).take 16

/-- `computeKey`. -/
def computeKey (companyId message : Text) (knownNames predicateVocab : List Text)
    (hasTemporal : Bool) (now : ℤ) : Text :=
  let nowBucket := if hasTemporal then (libs.toISOString now).take 10 else units "-"
  libs.sha256 ([0x1F].intercalate
    [units "v1", companyId, stableArrayHash libs knownNames, stableArrayHash libs predicateVocab,
      nowBucket, libs.nfc message])

def buildRouteContext (message : Text) (request : RouteRequest) : RouteContext :=
  let predicateVocab := (request.snapshot.map PredicateSnapshot.active).getD []
  let localTemporal := extractTemporalLocally libs message request.now
  { knownNames := request.knownNames
    predicateVocab := predicateVocab
    nowIso := libs.toISOString request.now
    cacheKey := computeKey libs request.companyId message request.knownNames predicateVocab
      localTemporal.isSome request.now
    localTemporal := localTemporal
    localMentions := extractMentionsLocally libs message request.knownNames
    localHints := extractPredicateHintsLocally libs message request.snapshot
      (models.embed message) config.hintSimilarityThreshold config.hintMaxCount
    localCollapses := extractCollapseEditsLocally libs message (request.patterns.getD [])
    localIntent := classify libs models config message }

/-- `shouldSkipLLM`: whether, and the reason. -/
def shouldSkipLLM (ctx : RouteContext) : Bool × Text :=
  if ctx.localIntent.2 < config.intentConfidenceFloor then (false, units "intent_confidence_low")
  else if ctx.localMentions.isEmpty then (false, units "no_mentions_resolved")
  else
    match ctx.localIntent.1 with
    | .ask =>
        if ctx.localHints.isEmpty then (false, units "no_predicate_hints")
        else (true, units "all_local_ask")
    | .tell =>
        if ctx.localCollapses.isEmpty then (false, units "tell_no_cached_collapses")
        else (true, units "all_local_tell")

end Service

/-- A span that was found in the message, as raw output. -/
def Span.raw (s : Span) : RawSpan := ⟨some s.text, some s.start, some s.stop⟩

def Mention.raw (m : Mention) : RawMention := ⟨some m.canonical, some m.span.raw⟩

def LocalHint.raw (h : LocalHint) : RawHint := ⟨h.predicateId, some h.triggerSpan.raw⟩

def CollapseMatch.raw (c : CollapseMatch) : RawEdit :=
  ⟨.collapseStateChange, some c.span.raw, none, some c.replacement⟩

def TemporalAnchor.raw (t : TemporalAnchor) : RawAnchor := ⟨t.iso, some t.anchorSpan.raw⟩

def buildSyntheticRoute (ctx : RouteContext) (skipReason : Text) : RawRouteOutput where
  intent := ctx.localIntent.1
  mentions := ctx.localMentions.map Mention.raw
  predicateHints := if ctx.localIntent.1 = .ask then ctx.localHints.map LocalHint.raw else []
  edits := ctx.localCollapses.map CollapseMatch.raw
  asOf := if ctx.localIntent.1 = .ask then ctx.localTemporal.map TemporalAnchor.raw else none
  validFrom := if ctx.localIntent.1 = .tell then ctx.localTemporal.map TemporalAnchor.raw else none
  reason := some (units "local-skip (" ++ skipReason ++ units ")")

def mergeLlmWithLocals (parsed : RawRouteOutput) (ctx : RouteContext) : RawRouteOutput where
  intent := parsed.intent
  mentions :=
    if ctx.localMentions.isEmpty then parsed.mentions else ctx.localMentions.map Mention.raw
  predicateHints :=
    if parsed.intent = .ask ∧ ctx.localHints ≠ [] then
      ctx.localHints.map LocalHint.raw ++ parsed.predicateHints.filter (fun h =>
        !(ctx.localHints.map LocalHint.predicateId).contains h.predicateId)
    else parsed.predicateHints
  edits :=
    if ctx.localCollapses.isEmpty then parsed.edits
    else ctx.localCollapses.map CollapseMatch.raw ++ parsed.edits
  asOf :=
    if parsed.intent = .ask ∧ ctx.localTemporal.isSome then
      ctx.localTemporal.map TemporalAnchor.raw
    else parsed.asOf
  validFrom :=
    if parsed.intent = .tell ∧ ctx.localTemporal.isSome then
      ctx.localTemporal.map TemporalAnchor.raw
    else parsed.validFrom
  reason := parsed.reason

def safeDefault (message reason : Text) : ChatRoute where
  intent := .tell
  normalizedMessage := message
  reason := some reason

section Route

variable (libs : RouterLibs) (models : RouterModels libs) (config : RouterConfig)

/-- `routeMiss`: the route, and whether it is stored. -/
def routeMiss (message : Text) (ctx : RouteContext) : ChatRoute × Bool :=
  let skipDecision := shouldSkipLLM config ctx
  if skipDecision.1 then
    (validateAndAssemble libs.toJsText message (buildSyntheticRoute ctx skipDecision.2)
      ctx.predicateVocab ctx.knownNames, true)
  else
    match models.reply ctx.predicateVocab ctx.knownNames ctx.nowIso message with
    | .empty => (safeDefault message (units "router-empty"), false)
    | .parseError e => (safeDefault message (units "router-parse: " ++ e), false)
    | .llmError e => (safeDefault message (units "router-llm: " ++ e), false)
    | .parsed parsed =>
        (validateAndAssemble libs.toJsText message (mergeLlmWithLocals parsed ctx)
          ctx.predicateVocab ctx.knownNames, true)

/-- The stored routes. -/
abbrev RouteStore := InsertionMap Text ChatRoute

/-- `get` of the cache. -/
def cacheGet (cache : RouteStore) (key : Text) : Option ChatRoute × RouteStore :=
  if config.cacheEnabled then cache.lruGet key else (none, cache)

/-- `set` of the cache. -/
def cacheSet (cache : RouteStore) (key : Text) (route : ChatRoute) : RouteStore :=
  if config.cacheEnabled then cache.lruSet config.cacheSize key route else cache

/-- The context of a request. -/
def RouteRequest.context (request : RouteRequest) : RouteContext :=
  buildRouteContext libs models config (clampQuery request.message) request

/-- What a cache miss builds. -/
def missRoute (request : RouteRequest) : ChatRoute :=
  (routeMiss libs models config (clampQuery request.message)
    (request.context libs models config)).1

/-- `route`: the answer, and the cache after it. -/
def route (cache : RouteStore) (request : RouteRequest) : ChatRoute × RouteStore :=
  let ctx := request.context libs models config
  match cacheGet config cache ctx.cacheKey with
  | (some cached, cache) => (cached, cache)
  | (none, cache) =>
      let miss := routeMiss libs models config (clampQuery request.message) ctx
      (miss.1, if miss.2 then cacheSet config cache ctx.cacheKey miss.1 else cache)

/-- The cache after some requests; it is empty at first. -/
def cacheAfter (requests : List RouteRequest) : RouteStore :=
  requests.foldl (fun cache request => (route libs models config cache request).2)
    InsertionMap.empty

end Route

/-! ## 3. Requests that agree -/

/-- Two requests agree on all that a route is built from: the message and what is found in it,
the known names and the predicates. -/
structure Agree (libs : RouterLibs) (r r' : RouteRequest) : Prop where
  message : clampQuery r.message = clampQuery r'.message
  knownNames : r.knownNames = r'.knownNames
  snapshot : r.snapshot = r'.snapshot
  temporal : extractTemporalLocally libs (clampQuery r.message) r.now
    = extractTemporalLocally libs (clampQuery r'.message) r'.now
  collapses : extractCollapseEditsLocally libs (clampQuery r.message) (r.patterns.getD [])
    = extractCollapseEditsLocally libs (clampQuery r'.message) (r'.patterns.getD [])

/-- The cache holds routes that were built for requests with their key. -/
def CacheOf (libs : RouterLibs) (models : RouterModels libs) (config : RouterConfig)
    (history : List RouteRequest) (cache : RouteStore) : Prop :=
  ∀ e ∈ cache.entries, ∃ r ∈ history, (r.context libs models config).cacheKey = e.1 ∧
    missRoute libs models config r = e.2

section Cache

variable {libs : RouterLibs} {models : RouterModels libs} {config : RouterConfig}
  {cache : RouteStore} {history : List RouteRequest} {r r' : RouteRequest}

/-- The clock and the key of a context make no difference to the route. -/
theorem routeMiss_clock (message : Text) (ctx : RouteContext) (nowIso cacheKey : Text) :
    routeMiss libs models config message { ctx with nowIso := nowIso, cacheKey := cacheKey }
      = routeMiss libs models config message ctx := by
  have hreply := models.reply_nfc ctx.predicateVocab ctx.knownNames nowIso ctx.nowIso message
    message rfl
  unfold routeMiss
  dsimp only
  rw [hreply]
  rfl

/-- Requests that agree have the same context, but for the clock and the key. -/
theorem Agree.context_eq (h : Agree libs r r') :
    r.context libs models config =
      { r'.context libs models config with
        nowIso := (r.context libs models config).nowIso
        cacheKey := (r.context libs models config).cacheKey } := by
  unfold RouteRequest.context buildRouteContext
  dsimp only
  rw [h.temporal, h.collapses, h.message, h.knownNames, h.snapshot]

/-- **The same route is built for requests that agree**, whatever the clocks say. -/
theorem Agree.missRoute_eq (h : Agree libs r r') :
    missRoute libs models config r = missRoute libs models config r' := by
  rw [missRoute, missRoute, h.context_eq, routeMiss_clock, h.message]

theorem mem_of_cacheGet {key : Text} {cached : ChatRoute}
    (h : (cacheGet config cache key).1 = some cached) : (key, cached) ∈ cache.entries := by
  unfold cacheGet at h
  split at h
  · unfold InsertionMap.lruGet at h
    cases hget : cache.get? key with
    | none => simp [hget] at h
    | some v =>
        rw [hget] at h
        rw [← Option.some.inj h]
        exact InsertionMap.mem_of_get? hget
  · cases h

theorem mem_of_mem_cacheGet {key : Text} {e : Text × ChatRoute}
    (h : e ∈ (cacheGet config cache key).2.entries) : e ∈ cache.entries := by
  unfold cacheGet at h
  split at h
  · exact InsertionMap.mem_of_mem_lruGet h
  · exact h

theorem mem_of_mem_cacheSet {key : Text} {value : ChatRoute} {e : Text × ChatRoute}
    (h : e ∈ (cacheSet config cache key value).entries) : e = (key, value) ∨ e ∈ cache.entries := by
  unfold cacheSet at h
  split at h
  · exact (InsertionMap.mem_of_mem_lruSet h).imp_right And.right
  · exact Or.inr h

/-- A request is answered with what is stored, or with the route that is built for it. -/
theorem route_cases (cache : RouteStore) (r : RouteRequest) :
    (((r.context libs models config).cacheKey, (route libs models config cache r).1)
        ∈ cache.entries ∨ (route libs models config cache r).1 = missRoute libs models config r) ∧
      ∀ e ∈ (route libs models config cache r).2.entries, e ∈ cache.entries ∨
        e = ((r.context libs models config).cacheKey, missRoute libs models config r) := by
  unfold route
  dsimp only
  cases hget : cacheGet config cache (r.context libs models config).cacheKey with
  | mk found after =>
      have hafter : ∀ e ∈ after.entries, e ∈ cache.entries := by
        have hsnd : (cacheGet config cache (r.context libs models config).cacheKey).2 = after := by
          rw [hget]
        intro e he
        rw [← hsnd] at he
        exact mem_of_mem_cacheGet he
      cases found with
      | some cached =>
          have hfst : (cacheGet config cache (r.context libs models config).cacheKey).1
              = some cached := by rw [hget]
          exact ⟨Or.inl (mem_of_cacheGet hfst), fun e he => Or.inl (hafter e he)⟩
      | none =>
          refine ⟨Or.inr rfl, ?_⟩
          intro e he
          dsimp only at he
          split at he
          · rcases mem_of_mem_cacheSet he with rfl | he
            · exact Or.inr rfl
            · exact Or.inl (hafter e he)
          · exact Or.inl (hafter e he)

/-- A request keeps the cache to routes that were built for their key. -/
theorem CacheOf.route (h : CacheOf libs models config history cache) (r : RouteRequest) :
    CacheOf libs models config (history ++ [r]) (route libs models config cache r).2 := by
  intro e he
  rcases (route_cases cache r).2 e he with hold | rfl
  · obtain ⟨earlier, hmem, hkey, hroute⟩ := h e hold
    exact ⟨earlier, List.mem_append_left _ hmem, hkey, hroute⟩
  · exact ⟨r, List.mem_append_right _ List.mem_cons_self, rfl, rfl⟩

theorem cacheOf_cacheAfter (requests : List RouteRequest) :
    CacheOf libs models config requests (cacheAfter libs models config requests) := by
  induction requests using List.reverseRecOn with
  | nil => exact fun e he => absurd he List.not_mem_nil
  | append_singleton requests r ih =>
      rw [cacheAfter, List.foldl_concat]
      exact ih.route r

/-- **The cache makes no difference**, if requests with the same key agree: every answer is
the route that would be built for the request. -/
theorem answer_eq_missRoute (libs : RouterLibs) (models : RouterModels libs)
    (config : RouterConfig) (requests : List RouteRequest)
    (hagree : requests.Pairwise (fun r r' =>
      (r.context libs models config).cacheKey = (r'.context libs models config).cacheKey →
        Agree libs r r'))
    (history : List RouteRequest) (r : RouteRequest) (hr : history ++ [r] <+: requests) :
    (route libs models config (cacheAfter libs models config history) r).1
      = missRoute libs models config r := by
  rcases (route_cases (cacheAfter libs models config history) r).1 with hstored | hbuilt
  · obtain ⟨earlier, hmem, hkey, hroute⟩ := cacheOf_cacheAfter history _ hstored
    have hpair := List.pairwise_append.mp (hagree.sublist hr.sublist)
    have hsame := hpair.2.2 earlier hmem r List.mem_cons_self hkey
    exact hroute.symm.trans hsame.missRoute_eq
  · exact hbuilt

end Cache

/-! ## 4. Two spellings of a message -/

/-- The libraries, as far as the messages below need them. -/
def asciiLibs : RouterLibs where
  toJsText := acuteText
  toLowerCase := fun s => s
  isWordChar := fun u =>
    (decide (0x41 ≤ u) && decide (u ≤ 0x5A)) || (decide (0x61 ≤ u) && decide (u ≤ 0x7A))
  chronoParse := fun _ _ => []
  toISOString := fun _ => units "1970-01-01T00:00:00.000Z"
  sha256 := fun s => s
  cosineSimilarity := fun _ _ => 0

/-- The output for the message with the accent as a unit of its own. -/
def bobReply : RawRouteOutput where
  intent := .tell
  mentions := [⟨some (units "Robert"), some ⟨some (units "Bob"), some 3, some 6⟩⟩]

/-- A router that finds Bob in any message, with the offsets of the longer spelling. -/
def bobModels : RouterModels asciiLibs where
  embed := fun _ => none
  nli := fun _ => none
  reply := fun _ _ _ _ => .parsed bobReply
  embed_nfc := fun _ _ _ => rfl
  nli_nfc := fun _ _ _ => rfl
  reply_nfc := fun _ _ _ _ _ _ _ => rfl

def defaultConfig : RouterConfig where
  hintSimilarityThreshold := 2 / 5
  hintMaxCount := 3
  intentConfidenceFloor := 85 / 100
  askThreshold := 3 / 5
  cacheSize := 1000
  cacheEnabled := true

/-- A request of a tenant that knows Robert. -/
def requestOf (message : Text) : RouteRequest where
  companyId := units "acme"
  message := message
  knownNames := [units "Robert"]
  now := 0
  snapshot := none
  patterns := none

/-- The same message, asked twice. -/
theorem answer_asked_twice :
    (route asciiLibs bobModels defaultConfig
      (cacheAfter asciiLibs bobModels defaultConfig [requestOf acuteMessage])
        (requestOf acuteMessage)).1
      = missRoute asciiLibs bobModels defaultConfig (requestOf acuteMessage) := by
  refine answer_eq_missRoute asciiLibs bobModels defaultConfig
    [requestOf acuteMessage, requestOf acuteMessage] ?_ [requestOf acuteMessage]
    (requestOf acuteMessage) List.prefix_rfl
  refine List.pairwise_pair.mpr (fun _ => ?_)
  exact ⟨rfl, rfl, rfl, rfl, rfl⟩

/-- The route of the longer spelling is returned for the shorter one, with a span past its
end. -/
theorem span_replayed_in_composed_message :
    ¬ ∀ (libs : RouterLibs) (models : RouterModels libs) (config : RouterConfig)
      (r r' : RouteRequest), r.knownNames = r'.knownNames → r.snapshot = r'.snapshot →
      r.patterns = r'.patterns →
      (r.context libs models config).cacheKey = (r'.context libs models config).cacheKey →
      (route libs models config (cacheAfter libs models config [r]) r').1
        = missRoute libs models config r' := by
  intro hall
  have hsame := hall asciiLibs bobModels defaultConfig (requestOf acuteMessage)
    (requestOf (composeAcute acuteMessage)) rfl rfl rfl (by decide +kernel)
  have hcached : (route asciiLibs bobModels defaultConfig
      (cacheAfter asciiLibs bobModels defaultConfig [requestOf acuteMessage])
      (requestOf (composeAcute acuteMessage))).1.mentions
        = [⟨units "Robert", ⟨units "Bob", 3, 6⟩⟩] := by decide +kernel
  have hbuilt : (missRoute asciiLibs bobModels defaultConfig
      (requestOf (composeAcute acuteMessage))).mentions
        = [⟨units "Robert", ⟨units "Bob", 2, 5⟩⟩] := by decide +kernel
  rw [hsame, hbuilt] at hcached
  revert hcached
  decide

end Brain.ChatRouter
