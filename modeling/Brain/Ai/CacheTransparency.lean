/-
What a call is answered from the cache, and what the call before it returned that filled
the entry.

The cache holds under every key the value that was set last (`CacheOf`). A single pass and
the local skip set what they return. Of several passes each sets the key when it is
assembled, and what they are merged to is not set at all; so later calls are answered with
the pass that was done last, without the statistics of the merge.
-/
import Brain.Ai.SelfConsistency

set_option autoImplicit false

namespace Brain

/-! ## 1. The call that filled an entry -/

/-- The last call so far that set a key. -/
def populating (history : List ExtractRecord) (key : String) : Option ExtractRecord :=
  history.reverse.find? (fun r => decide (r.key = key) && !r.writes.isEmpty)

/-- Every call that is answered from the cache returns what the call returned that filled
the entry. -/
def CacheTransparent (records : List ExtractRecord) : Prop :=
  ∀ history r later, records = history ++ r :: later → r.hit = true →
    ∃ p, populating history r.key = some p ∧ p.returned = r.returned

/-- The cache holds the last value that was set under each of its keys. -/
def CacheOf (history : List ExtractRecord) (cache : ExtractionCache) : Prop :=
  ∀ e ∈ cache.entries, ∃ p, populating history e.1 = some p ∧ p.writes.getLast? = some e.2

section Cache

variable {config : ExtractorConfig} {call : ExtractCall} {cache : ExtractionCache}
  {history : List ExtractRecord}

theorem populating_concat (history : List ExtractRecord) (r : ExtractRecord) (key : String) :
    populating (history ++ [r]) key
      = if r.key = key ∧ r.writes ≠ [] then some r else populating history key := by
  unfold populating
  rw [List.reverse_append, List.reverse_singleton, List.singleton_append, List.find?_cons]
  by_cases h : r.key = key ∧ r.writes ≠ []
  · have htrue : (decide (r.key = key) && !r.writes.isEmpty) = true := by
      simpa using h
    rw [if_pos h, htrue]
  · have hfalse : (decide (r.key = key) && !r.writes.isEmpty) = false := by
      rw [Bool.eq_false_iff]
      intro htrue
      apply h
      simpa using htrue
    rw [if_neg h, hfalse]

theorem mem_of_populating {key : String} {p : ExtractRecord}
    (h : populating history key = some p) : p ∈ history ∧ p.writes ≠ [] := by
  have hp := List.find?_some h
  rw [Bool.and_eq_true, Bool.not_eq_true', List.isEmpty_eq_false_iff] at hp
  exact ⟨List.mem_reverse.mp (List.mem_of_find?_eq_some h), hp.2⟩

/-- What the writes of a call leave in the cache. -/
theorem mem_foldl_cacheSet (henabled : config.cacheEnabled = true) {key : String}
    {e : String × ExtractorResult} (writes : List ExtractorResult) :
    ∀ {cache : ExtractionCache}, e ∈ (writes.foldl (cacheSet config key) cache).entries →
      (e.1 = key ∧ writes.getLast? = some e.2) ∨
        ((e.1 ≠ key ∨ writes = []) ∧ e ∈ cache.entries) := by
  induction writes using List.reverseRecOn with
  | nil => exact fun h => Or.inr ⟨Or.inr rfl, h⟩
  | append_singleton writes w ih =>
      intro cache h
      rw [List.foldl_concat, cacheSet, if_pos henabled] at h
      rcases InsertionMap.mem_of_mem_lruSet h with rfl | ⟨hne, hmem⟩
      · exact Or.inl ⟨rfl, List.getLast?_concat⟩
      · rcases ih hmem with ⟨hkey, _⟩ | ⟨_, hmem⟩
        · exact absurd hkey hne
        · exact Or.inr ⟨Or.inl hne, hmem⟩

/-- Looking a key up leaves the entries as they are. -/
theorem mem_of_mem_cacheGet {key : String} {e : String × ExtractorResult}
    (h : e ∈ (cacheGet config cache key).2.entries) : e ∈ cache.entries := by
  unfold cacheGet at h
  by_cases henabled : config.cacheEnabled = true
  · rw [if_pos henabled] at h
    exact InsertionMap.mem_of_mem_lruGet h
  · rwa [if_neg henabled] at h

theorem mem_of_cacheGet {key : String} {cached : ExtractorResult}
    (h : (cacheGet config cache key).1 = some cached) : (key, cached) ∈ cache.entries := by
  unfold cacheGet at h
  by_cases henabled : config.cacheEnabled = true
  · rw [if_pos henabled, InsertionMap.lruGet] at h
    cases hget : cache.get? key with
    | none => simp [hget] at h
    | some v =>
        rw [hget] at h
        rw [← Option.some_inj.mp h]
        exact InsertionMap.mem_of_get? hget
  · simp [henabled] at h

/-- The record of a call and the cache after it, when there is no text. -/
theorem extract_of_empty (htext : (clampMention call.text).isEmpty = true) :
    extract config call cache
      = ({ call := call, key := computeKey config call, hit := false, writes := [],
           returned := .ok .empty }, cache) := by
  rw [extract]
  exact if_pos htext

/-- When there is one: it depends on what is found under the key. -/
theorem extract_of_text (htext : ¬ (clampMention call.text).isEmpty = true) :
    extract config call cache =
      match (cacheGet config cache (computeKey config call)).1 with
      | some cached =>
          ({ call := call, key := computeKey config call, hit := true, writes := [],
             returned := .ok cached }, (cacheGet config cache (computeKey config call)).2)
      | none =>
          ({ call := call, key := computeKey config call, hit := false,
             writes := (extractUncached config call).writes,
             returned := (extractUncached config call).returned },
            (extractUncached config call).writes.foldl (cacheSet config (computeKey config call))
              (cacheGet config cache (computeKey config call)).2) := by
  rw [extract]
  refine (if_neg htext).trans ?_
  rcases cacheGet config cache (computeKey config call) with ⟨found, after⟩
  cases found with
  | none => rfl
  | some cached => rfl

/-- When the key is found. -/
theorem extract_of_hit (htext : ¬ (clampMention call.text).isEmpty = true)
    {cached : ExtractorResult}
    (hget : (cacheGet config cache (computeKey config call)).1 = some cached) :
    extract config call cache
      = ({ call := call, key := computeKey config call, hit := true, writes := [],
           returned := .ok cached }, (cacheGet config cache (computeKey config call)).2) := by
  rw [extract_of_text htext, hget]

/-- When it is not. -/
theorem extract_of_miss (htext : ¬ (clampMention call.text).isEmpty = true)
    (hget : (cacheGet config cache (computeKey config call)).1 = none) :
    extract config call cache
      = ({ call := call, key := computeKey config call, hit := false,
           writes := (extractUncached config call).writes,
           returned := (extractUncached config call).returned },
          (extractUncached config call).writes.foldl (cacheSet config (computeKey config call))
            (cacheGet config cache (computeKey config call)).2) := by
  rw [extract_of_text htext, hget]

/-- **One call** keeps the cache that of its history. -/
theorem CacheOf.extract (henabled : config.cacheEnabled = true) (h : CacheOf history cache) :
    CacheOf (history ++ [(extract config call cache).1]) (extract config call cache).2 := by
  intro e he
  rw [populating_concat]
  by_cases htext : (clampMention call.text).isEmpty = true
  · rw [extract_of_empty htext] at he ⊢
    simpa using h e he
  · cases hget : (cacheGet config cache (computeKey config call)).1 with
    | some cached =>
        rw [extract_of_hit htext hget] at he ⊢
        simpa using h e (mem_of_mem_cacheGet he)
    | none =>
        rw [extract_of_miss htext hget] at he ⊢
        rcases mem_foldl_cacheSet henabled _ he with ⟨hkey, hlast⟩ | ⟨hother, hmem⟩
        · have hwrites : (extractUncached config call).writes ≠ [] := by
            intro hnil
            simp [hnil] at hlast
          rw [if_pos ⟨hkey.symm, hwrites⟩]
          exact ⟨_, rfl, hlast⟩
        · rw [if_neg (fun hset => hother.elim (fun hne => hne hset.1.symm) hset.2)]
          exact h e (mem_of_mem_cacheGet hmem)

/-- **All calls**: what is answered from the cache was set last by the call that filled the
entry. -/
theorem exists_populating (henabled : config.cacheEnabled = true) (calls : List ExtractCall) :
    ∀ {history : List ExtractRecord} {cache : ExtractionCache}, CacheOf history cache →
      ∀ {before r later}, runExtracts config calls cache = before ++ r :: later → r.hit = true →
        ∃ p v, populating (history ++ before) r.key = some p ∧ p.writes.getLast? = some v ∧
          r.returned = .ok v := by
  induction calls with
  | nil =>
      intro history cache _ before r later hrun
      have hmem : r ∈ runExtracts config [] cache := by
        rw [hrun]
        simp
      exact absurd hmem List.not_mem_nil
  | cons call calls ih =>
      intro history cache h before r later hrun hhit
      rw [runExtracts] at hrun
      cases before with
      | nil =>
          obtain ⟨rfl, _⟩ := List.cons.inj hrun
          rw [List.append_nil]
          by_cases htext : (clampMention call.text).isEmpty = true
          · rw [extract_of_empty htext] at hhit
            cases hhit
          · cases hget : (cacheGet config cache (computeKey config call)).1 with
            | none =>
                rw [extract_of_miss htext hget] at hhit
                cases hhit
            | some cached =>
                rw [extract_of_hit htext hget]
                obtain ⟨p, hp, hlast⟩ := h _ (mem_of_cacheGet hget)
                exact ⟨p, cached, hp, hlast, rfl⟩
      | cons r₀ before =>
          obtain ⟨rfl, hrest⟩ := List.cons.inj hrun
          have hgo := ih (h.extract henabled) hrest hhit
          rwa [List.append_assoc, List.singleton_append] at hgo

/-- Nothing is answered from a cache that is switched off. -/
theorem hit_eq_false_of_disabled (hdisabled : config.cacheEnabled = false)
    (calls : List ExtractCall) : ∀ {cache : ExtractionCache} {r : ExtractRecord},
    r ∈ runExtracts config calls cache → r.hit = false := by
  induction calls with
  | nil => exact fun h => absurd h List.not_mem_nil
  | cons call calls ih =>
      intro cache r h
      rcases List.mem_cons.mp h with rfl | h
      · have hget : (cacheGet config cache (computeKey config call)).1 = none := by
          simp [cacheGet, hdisabled]
        by_cases htext : (clampMention call.text).isEmpty = true
        · rw [extract_of_empty htext]
        · rw [extract_of_miss htext hget]
      · exact ih h

/-- A call that sets its key does so without having found it. -/
theorem extracted_of_writes (calls : List ExtractCall) :
    ∀ {cache : ExtractionCache} {r : ExtractRecord}, r ∈ runExtracts config calls cache →
      r.writes ≠ [] → r.writes = (extractUncached config r.call).writes ∧
        r.returned = (extractUncached config r.call).returned := by
  induction calls with
  | nil => exact fun h => absurd h List.not_mem_nil
  | cons call calls ih =>
      intro cache r h hwrites
      rcases List.mem_cons.mp h with rfl | h
      · by_cases htext : (clampMention call.text).isEmpty = true
        · rw [extract_of_empty htext] at hwrites
          exact absurd rfl hwrites
        · cases hget : (cacheGet config cache (computeKey config call)).1 with
          | some cached =>
              rw [extract_of_hit htext hget] at hwrites
              exact absurd rfl hwrites
          | none =>
              rw [extract_of_miss htext hget]
              exact ⟨rfl, rfl⟩
      · exact ih h hwrites

end Cache

/-! ## 2. Calls that cache what they return -/

/-- The results of the passes that have one, in the order of the passes. -/
def survivingPasses (config : ExtractorConfig) (call : ExtractCall) : List ExtractorResult :=
  (List.range config.scPasses).filterMap (fun i => assembled? (passResult config call i))

/-- The pass that is done last has nothing to add: no pass fails, none finds a fact, and
this one lists the entities and the edges of all of them. -/
structure LastPassSpeaksForAll (config : ExtractorConfig) (call : ExtractCall) : Prop where
  noFailure : ∀ i < config.scPasses, ∀ e, passResult config call i ≠ .error e
  noFacts : ∀ i < config.scPasses, ∀ r, passResult config call i = .ok (some r) → r.facts = []
  last : ∀ r, (runMultiPassExtract config call).writes.getLast? = some r →
    r.entities = FirstSeen.firstSeen (entityKey config.libs)
      ((survivingPasses config call).flatMap (fun r => r.entities)) ∧
    r.edges = FirstSeen.firstSeen edgeKey
      ((survivingPasses config call).flatMap (fun r => r.edges))

/-- The call is one whose value in the cache is the value that it returns. -/
def CachesWhatItReturns (config : ExtractorConfig) (call : ExtractCall) : Prop :=
  config.scPasses ≤ 1 ∨ (∃ r, tryLocalSkip config call = .ok (some r)) ∨
    LastPassSpeaksForAll config call

section Returns

variable {config : ExtractorConfig} {call : ExtractCall}

theorem assembled?_eq_some_iff {result : Except String (Option ExtractorResult)}
    {r : ExtractorResult} : assembled? result = some r ↔ result = .ok (some r) := by
  rcases result with e | _ | r'
  · simp [assembled?]
  · simp [assembled?]
  · simp [assembled?]

theorem mem_survivingPasses {r : ExtractorResult} :
    r ∈ survivingPasses config call ↔
      ∃ i < config.scPasses, passResult config call i = .ok (some r) := by
  simp only [survivingPasses, List.mem_filterMap, List.mem_range, assembled?_eq_some_iff]

theorem mem_finishingOrder {i : ℕ} : i ∈ finishingOrder config call ↔ i < config.scPasses := by
  rw [finishingOrder, (List.perm_insertionSort _ _).mem_iff, List.mem_range]

/-- A write of a multi-pass call is the result of a pass. -/
theorem mem_writes_runMultiPassExtract {r : ExtractorResult} :
    r ∈ (runMultiPassExtract config call).writes ↔
      ∃ i < config.scPasses, passResult config call i = .ok (some r) := by
  simp only [runMultiPassExtract, List.mem_filterMap, mem_finishingOrder, assembled?_eq_some_iff]

/-- The result of a pass is assembled. -/
theorem assembled_of_passResult {i : ℕ} {r : ExtractorResult}
    (h : passResult config call i = .ok (some r)) : r.Assembled := by
  unfold passResult at h
  rcases hreply : call.reply i with e | _ | raw
  · simp [hreply] at h
  · simp [hreply] at h
  · simp only [hreply] at h
    cases hassemble : assembleResult config (clampMention call.text) (call.services i) raw with
    | error e => simp [hassemble, Except.map] at h
    | ok r' =>
        simp only [hassemble, Except.map, Except.ok.injEq, Option.some.injEq] at h
        rw [← h]
        exact assembled_assembleResult hassemble

theorem failure?_eq_none_iff {result : Except String (Option ExtractorResult)} :
    failure? result = none ↔ ∀ e, result ≠ .error e := by
  cases result with
  | error e => simp [failure?]
  | ok r => simp [failure?]

/-- The passes are merged if none of them fails. -/
theorem returned_of_noFailure
    (h : ∀ i < config.scPasses, ∀ e, passResult config call i ≠ .error e) :
    (runMultiPassExtract config call).returned
      = .ok (mergePasses config.libs (survivingPasses config call)) := by
  have hnone : (finishingOrder config call).filterMap
      (fun i => failure? (passResult config call i)) = [] := by
    rw [List.filterMap_eq_nil_iff]
    exact fun i hi => failure?_eq_none_iff.mpr (h i (mem_finishingOrder.mp hi))
  have hall : promiseAll config call
      = .ok ((List.range config.scPasses).map (fun i => assembled? (passResult config call i))) := by
    rw [promiseAll, hnone]
  simp only [runMultiPassExtract, hall, List.filterMap_map, survivingPasses]
  rfl

/-- And a failure of one is one of the call. -/
theorem noFailure_of_returned {v : ExtractorResult}
    (h : (runMultiPassExtract config call).returned = .ok v) :
    ∀ i < config.scPasses, ∀ e, passResult config call i ≠ .error e := by
  intro i hi
  rw [← failure?_eq_none_iff]
  cases hfailures : (finishingOrder config call).filterMap
      (fun i => failure? (passResult config call i)) with
  | nil => exact List.filterMap_eq_nil_iff.mp hfailures i (mem_finishingOrder.mpr hi)
  | cons e es =>
      have herror : promiseAll config call = .error e := by
        rw [promiseAll, hfailures]
      simp [runMultiPassExtract, herror] at h

/-- The facts of the merge have their statistics. -/
theorem extractionAgreement_ne_none {libs : ExtractorLibs} {passes : List ExtractorResult}
    {m : ExtractorFact} (hm : m ∈ (mergePasses libs passes).facts) :
    m.extractionAgreement ≠ none := by
  rw [facts_mergePasses] at hm
  obtain ⟨p, hp, rfl⟩ := List.mem_map.mp hm
  obtain ⟨hr, hf⟩ := mem_of_mem_tracedFacts hp
  rw [extractionAgreement_annotate hr hf]
  exact Option.some_ne_none _

/-- So passes are merged to a result without statistics only if they find no facts. -/
theorem facts_eq_nil_of_assembled {libs : ExtractorLibs} {passes : List ExtractorResult}
    (h : (mergePasses libs passes).Assembled) : ∀ r ∈ passes, r.facts = [] := by
  intro r hr
  rw [List.eq_nil_iff_forall_not_mem]
  intro f hf
  obtain ⟨p, hp, _⟩ := exists_traced libs hr hf
  have hm : annotate libs (passStats libs passes) p.2 ∈ (mergePasses libs passes).facts := by
    rw [facts_mergePasses]
    exact List.mem_map_of_mem hp
  exact extractionAgreement_ne_none hm (h.unannotated _ hm).2

theorem facts_mergePasses_eq_nil {libs : ExtractorLibs} {passes : List ExtractorResult}
    (h : ∀ r ∈ passes, r.facts = []) : (mergePasses libs passes).facts = [] := by
  rw [facts_mergePasses, List.map_eq_nil_iff, List.eq_nil_iff_forall_not_mem]
  intro p hp
  obtain ⟨hr, hf⟩ := mem_of_mem_tracedFacts hp
  rw [h p.1 hr] at hf
  exact List.not_mem_nil hf

/-- **Several passes cache what they return exactly if the last one speaks for all.** -/
theorem runMultiPassExtract_iff (hwrites : (runMultiPassExtract config call).writes ≠ []) :
    (∃ v, (runMultiPassExtract config call).writes.getLast? = some v ∧
      (runMultiPassExtract config call).returned = .ok v) ↔ LastPassSpeaksForAll config call := by
  constructor
  · rintro ⟨v, hlast, hreturned⟩
    have hnoFailure := noFailure_of_returned hreturned
    rw [returned_of_noFailure hnoFailure, Except.ok.injEq] at hreturned
    obtain ⟨i, _, hpass⟩ := mem_writes_runMultiPassExtract.mp (List.mem_of_getLast? hlast)
    have hassembled := assembled_of_passResult hpass
    rw [← hreturned] at hassembled
    refine ⟨hnoFailure, fun i hi r hr => ?_, fun r hr => ?_⟩
    · exact facts_eq_nil_of_assembled hassembled r (mem_survivingPasses.mpr ⟨i, hi, hr⟩)
    · rw [hlast, Option.some_inj] at hr
      rw [← hr, ← hreturned, entities_mergePasses, edges_mergePasses]
      exact ⟨rfl, rfl⟩
  · rintro ⟨hnoFailure, hnoFacts, hspeaks⟩
    have hlast := List.getLast?_eq_some_getLast hwrites
    generalize (runMultiPassExtract config call).writes.getLast hwrites = v at hlast
    obtain ⟨i, hi, hpass⟩ := mem_writes_runMultiPassExtract.mp (List.mem_of_getLast? hlast)
    obtain ⟨hentities, hedges⟩ := hspeaks v hlast
    have hfacts : (mergePasses config.libs (survivingPasses config call)).facts = [] := by
      refine facts_mergePasses_eq_nil (fun r hr => ?_)
      obtain ⟨j, hj, hr⟩ := mem_survivingPasses.mp hr
      exact hnoFacts j hj r hr
    have hmerge : mergePasses config.libs (survivingPasses config call) = v := by
      apply ExtractorResult.ext
      · rw [entities_mergePasses, hentities]
      · rw [hfacts, hnoFacts i hi v hpass]
      · rw [edges_mergePasses, hedges]
    exact ⟨v, hlast, by rw [returned_of_noFailure hnoFailure, hmerge]⟩

/-- **The value in the cache is the value that is returned**, under the condition above and
under no other. -/
theorem extractUncached_iff (hwrites : (extractUncached config call).writes ≠ []) :
    (∃ v, (extractUncached config call).writes.getLast? = some v ∧
      (extractUncached config call).returned = .ok v) ↔ CachesWhatItReturns config call := by
  rcases hskip : tryLocalSkip config call with e | _ | r
  · simp [extractUncached, hskip] at hwrites
  · by_cases hpasses : 1 < config.scPasses
    · have hmulti : extractUncached config call = runMultiPassExtract config call := by
        simp only [extractUncached, hskip, if_pos hpasses]
      have hcond : CachesWhatItReturns config call ↔ LastPassSpeaksForAll config call := by
        simp [CachesWhatItReturns, hskip, Nat.not_le.mpr hpasses]
      rw [hmulti] at hwrites ⊢
      rw [hcond]
      exact runMultiPassExtract_iff hwrites
    · have hsingle : extractUncached config call = runSinglePass config call := by
        simp only [extractUncached, hskip, if_neg hpasses]
      refine iff_of_true ?_ (Or.inl (Nat.not_lt.mp hpasses))
      rw [hsingle] at hwrites ⊢
      unfold runSinglePass at hwrites ⊢
      rcases hreply : call.reply 0 with e | _ | raw
      · simp [hreply] at hwrites
      · simp [hreply] at hwrites
      · cases hassemble : assembleResult config (clampMention call.text) (call.services 0) raw with
        | error e => simp [hreply, hassemble] at hwrites
        | ok r => exact ⟨r, by simp [hassemble], by simp [hassemble]⟩
  · have hlocal : extractUncached config call = { writes := [r], returned := .ok r } := by
      simp only [extractUncached, hskip]
    rw [hlocal]
    exact iff_of_true ⟨r, rfl, rfl⟩ (Or.inr (Or.inl ⟨r, hskip⟩))

/-- **The cache is transparent exactly if every call that filled an entry which is read later
cached what it returned.** -/
theorem cacheTransparent_iff (config : ExtractorConfig) (calls : List ExtractCall) :
    CacheTransparent (runExtracts config calls .empty) ↔
      ∀ history r later, runExtracts config calls .empty = history ++ r :: later → r.hit = true →
        ∀ p, populating history r.key = some p → CachesWhatItReturns config p.call := by
  by_cases henabled : config.cacheEnabled = true
  · refine forall₅_congr (fun history r later hrun hhit => ?_)
    have hempty : CacheOf [] (.empty : ExtractionCache) := fun e he => absurd he List.not_mem_nil
    obtain ⟨p, v, hp, hlast, hreturned⟩ := exists_populating henabled calls hempty hrun hhit
    rw [List.nil_append] at hp
    obtain ⟨hmem, hwrites⟩ := mem_of_populating hp
    have hrecord : p ∈ runExtracts config calls .empty := by
      rw [hrun]
      exact List.mem_append_left _ hmem
    obtain ⟨hpw, hpr⟩ := extracted_of_writes calls hrecord hwrites
    rw [hpw] at hwrites hlast
    have hiff := extractUncached_iff hwrites
    constructor
    · rintro ⟨p', hp', hsame⟩ q hq
      rw [hp, Option.some_inj] at hp' hq
      rw [← hq]
      refine hiff.mp ⟨v, hlast, ?_⟩
      rw [← hpr, hp', hsame, hreturned]
    · intro hcond
      obtain ⟨w, hw, hwret⟩ := hiff.mpr (hcond p hp)
      rw [hlast, Option.some_inj] at hw
      exact ⟨p, hp, by rw [hpr, hwret, hreturned, hw]⟩
  · have hnever : ∀ history r later, runExtracts config calls .empty = history ++ r :: later →
        r.hit ≠ true := by
      intro history r later hrun hhit
      have hmem : r ∈ runExtracts config calls .empty := by
        rw [hrun]
        simp
      rw [hit_eq_false_of_disabled (Bool.eq_false_iff.mpr henabled) calls hmem] at hhit
      cases hhit
    exact iff_of_true (fun history r later hrun hhit => absurd hhit (hnever history r later hrun))
      (fun history r later hrun hhit => absurd hhit (hnever history r later hrun))

end Returns

/-! ## 3. Two passes, and the same text again -/

/-- A service that asks the model twice. -/
def twoPasses : ExtractorConfig where
  libs := asciiLibs
  scPasses := 2

/-- A text in which both passes find the same fact. -/
def twoPassCall : ExtractCall where
  text := "Anna likes tea"
  companyId := "acme"
  versionHash := "1"
  reply _ := .ok (some (likesReply ["Anna"] 0 "tea"))
  services _ := silentServices

/-- The first call returns the fact with its agreement, the second one without. -/
theorem second_call_differs :
    ¬ CacheTransparent (runExtracts twoPasses [twoPassCall, twoPassCall] .empty) := by
  intro h
  obtain ⟨p, hp, hsame⟩ := h [_] _ [] rfl rfl
  cases hp
  have hagreement := congrArg (fun returned : Except String ExtractorResult =>
    returned.toOption.map (fun r => r.facts.map (fun f => f.extractionAgreement.isSome))) hsame
  exact absurd hagreement (by decide)

end Brain
