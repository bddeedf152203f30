/-
What the indices of a reply refer to, and what they refer to in the result that is assembled
from it (`assembleResult` of `src/src/ai/extractor.service.ts`, before its predicates are
refined).

An index of a fact or an edge counts the elements of `entities[]` in the reply. It is checked
against, and read in, the list that `parseEntities` leaves, without the malformed ones. So it
means the entity that it referred to only if the entity with its number among the well-formed
ones is the one with its number among all (`keepsReferences_iff`): if no malformed one stands
before it, that is, when the well-formed ones are all different (`inPlace_iff_unshifted`). All
else that a result is to satisfy it does.
-/
import Brain.Ai.MultiPass

set_option autoImplicit false

namespace Brain.RawReferences

/-! ## 1. The compacted entities -/

section Remap

variable {grounded : ExtractedEntity → Bool} {parsed : List ExtractedEntity}

theorem groundedRemap_concat (grounded : ExtractedEntity → Bool) (parsed : List ExtractedEntity)
    (e : ExtractedEntity) : groundedRemap grounded (parsed ++ [e]) =
      if grounded e then
        ((groundedRemap grounded parsed).1.set parsed.length (groundedRemap grounded parsed).2.length,
          (groundedRemap grounded parsed).2 ++ [e])
      else groundedRemap grounded parsed := by
  rw [groundedRemap, List.zipIdx_append, List.foldl_append, Nat.zero_add]
  rfl

/-- The new index of an entity is the number of grounded ones before it. -/
theorem get?_groundedRemap (grounded : ExtractedEntity → Bool) (parsed : List ExtractedEntity) :
    (groundedRemap grounded parsed).2 = parsed.filter grounded ∧
      ∀ i, (groundedRemap grounded parsed).1.get? i = (parsed[i]?).bind (fun e =>
        if grounded e then some ((parsed.take i).countP grounded) else none) := by
  induction parsed using List.reverseRecOn with
  | nil => exact ⟨rfl, fun i => rfl⟩
  | append_singleton parsed e ih =>
      obtain ⟨hkept, hget⟩ := ih
      rw [groundedRemap_concat]
      -- an index of before is looked up as before, and the rest are not there yet
      have hold : ∀ i, i ≠ parsed.length → (groundedRemap grounded parsed).1.get? i
          = ((parsed ++ [e])[i]?).bind (fun e' =>
              if grounded e' then some (((parsed ++ [e]).take i).countP grounded) else none) := by
        intro i hi
        rw [hget]
        by_cases hlt : i < parsed.length
        · rw [List.getElem?_append_left hlt, List.take_append_of_le_length hlt.le]
        · rw [List.getElem?_eq_none (by omega),
            List.getElem?_eq_none (by rw [List.length_append, List.length_singleton]; omega)]
          rfl
      have hlast : (parsed ++ [e])[parsed.length]? = some e := by simp
      by_cases he : grounded e = true
      · rw [if_pos he]
        refine ⟨by rw [hkept, List.filter_append, List.filter_cons_of_pos he, List.filter_nil],
          fun i => ?_⟩
        by_cases hi : i = parsed.length
        · rw [hi, InsertionMap.get?_set_self, hlast, Option.bind_some, if_pos he, List.take_left,
            hkept, List.countP_eq_length_filter]
        · rw [InsertionMap.get?_set_of_ne _ _ hi, hold i hi]
      · rw [if_neg he]
        refine ⟨by rw [hkept, List.filter_append, List.filter_cons_of_neg he, List.filter_nil,
          List.append_nil], fun i => ?_⟩
        by_cases hi : i = parsed.length
        · rw [hi, hget, hlast, Option.bind_some, if_neg he,
            List.getElem?_eq_none (le_refl parsed.length)]
          rfl
        · exact hold i hi

/-- Two entities do not get one index. -/
theorem groundedRemap_inj {i i' j : ℕ} (h : (groundedRemap grounded parsed).1.get? i = some j)
    (h' : (groundedRemap grounded parsed).1.get? i' = some j) : i = i' := by
  -- the one that stands first counts for the other one
  have hlt : ∀ {i i' j j' : ℕ}, i < i' → (groundedRemap grounded parsed).1.get? i = some j →
      (groundedRemap grounded parsed).1.get? i' = some j' → j < j' := by
    intro i i' j j' hii h h'
    rw [(get?_groundedRemap grounded parsed).2, Option.bind_eq_some_iff] at h h'
    obtain ⟨e, he, hj⟩ := h
    obtain ⟨e', he', hj'⟩ := h'
    by_cases hg : grounded e = true
    · rw [if_pos hg, Option.some_inj] at hj
      split at hj'
      · rw [Option.some_inj] at hj'
        have hle : (parsed.take (i + 1)).countP grounded ≤ (parsed.take i').countP grounded :=
          (List.take_prefix_take_left hii).sublist.countP_le
        have hnext : (parsed.take (i + 1)).countP grounded
            = (parsed.take i).countP grounded + 1 := by
          rw [List.take_add_one, he, Option.toList_some, List.countP_append,
            List.countP_singleton, if_pos hg]
        omega
      · cases hj'
    · rw [if_neg hg] at hj
      cases hj
  rcases Nat.lt_trichotomy i i' with hii | hii | hii
  · exact absurd (hlt hii h h') (lt_irrefl j)
  · exact hii
  · exact absurd (hlt hii h' h) (lt_irrefl j)

end Remap

/-! ## 2. The result before its predicates are refined -/

/-- An element of `entities[]`, as `parseEntities` reads it; a malformed one is `none`. -/
def parseEntity (e : JsonEntity) : Option ExtractedEntity :=
  e.name.map (fun name =>
    { name := trimString name
      type := extractedEntityType e.type
      canonical := (e.canonical.filter (fun c => !c.isEmpty)).map trimString })

theorem parseEntities_eq (raw : JsonExtraction) :
    parseEntities raw = raw.entities.filterMap parseEntity := rfl

/-- The fact that the grounding gate makes of a raw one. -/
def factOf (clauses : List String) (rf : RawExtractedFact) : ExtractorFact where
  entityIndex := rf.entityIndex
  predicate := rf.predicate
  object := rf.valueSpan
  confidence := rf.confidence
  clause := clauseText clauses rf.clauseIndex

section Assembly

variable (libs : ExtractorLibs) (trimmed : String) (raw : JsonExtraction)

/-- The grounding gate lets the fact through. -/
def factGrounded (rf : RawExtractedFact) : Bool :=
  !rf.valueSpan.isEmpty && isGroundedSpan (normalizeForGrounding libs trimmed)
    (normalizeForGrounding libs rf.valueSpan)

/-- The new indices of the parsed entities, and those that are left. -/
def compacted : InsertionMap ℕ ℕ × List ExtractedEntity :=
  groundedRemap (groundEntity libs trimmed) (parseEntities raw)

/-- What `assembleResult` has before it refines the predicates. -/
def beforeRefinement : ExtractorResult where
  entities := (compacted libs trimmed raw).2
  facts := (applyGroundingGate libs trimmed (parseRawFacts raw (parseEntities raw).length)
    (parseClauses raw)).filterMap (remapFact (compacted libs trimmed raw).1)
  edges := (validateEdges libs raw (parseEntities raw).length (parseClauses raw)).filterMap
    (remapEdge (compacted libs trimmed raw).1)

theorem assembleResult_eq (config : ExtractorConfig) (services : PassServices) :
    assembleResult config trimmed services raw =
      match applyLocalPredicateOverrides services config.localPredicateThreshold 0
          (beforeRefinement config.libs trimmed raw).facts with
      | .error e => .error e
      | .ok refined =>
          .ok { beforeRefinement config.libs trimmed raw with
                facts := applyCanonicalizePass services 0 refined } := rfl

/-- The fact of the result that a raw one leads to, if it survives. -/
def survivingFact (jf : JsonFact) : Option ExtractorFact :=
  (parseRawFact (parseEntities raw).length jf).bind (fun rf =>
    if factGrounded libs trimmed rf then
      remapFact (compacted libs trimmed raw).1 (factOf (parseClauses raw) rf)
    else none)

/-- The edge of the result that a raw one leads to, if it survives. -/
def survivingEdge (je : JsonEdge) : Option ExtractorEdge :=
  (validateEdge libs (parseEntities raw).length (parseClauses raw) je).bind
    (remapEdge (compacted libs trimmed raw).1)

/-- The facts of the result, each with the raw one that it comes from. -/
def tracedFacts : List (JsonFact × ExtractorFact) :=
  raw.facts.filterMap (fun jf => (survivingFact libs trimmed raw jf).map (fun f => (jf, f)))

/-- The edges of the result, each with the raw one that it comes from. -/
def tracedEdges : List (JsonEdge × ExtractorEdge) :=
  raw.edges.filterMap (fun je => (survivingEdge libs trimmed raw je).map (fun e => (je, e)))

theorem facts_eq : (beforeRefinement libs trimmed raw).facts
    = (tracedFacts libs trimmed raw).map Prod.snd := by
  have hgate : applyGroundingGate libs trimmed (parseRawFacts raw (parseEntities raw).length)
      (parseClauses raw) = ((parseRawFacts raw (parseEntities raw).length).filter
        (factGrounded libs trimmed)).map (factOf (parseClauses raw)) := rfl
  rw [beforeRefinement, hgate, parseRawFacts, tracedFacts, List.map_filterMap,
    List.filterMap_map, List.filterMap_filter, List.filterMap_filterMap]
  refine List.filterMap_congr (fun jf _ => ?_)
  rw [survivingFact, Option.map_map]
  cases parseRawFact (parseEntities raw).length jf with
  | none => rfl
  | some rf => exact Option.map_id'.symm

theorem edges_eq : (beforeRefinement libs trimmed raw).edges
    = (tracedEdges libs trimmed raw).map Prod.snd := by
  rw [beforeRefinement, validateEdges, tracedEdges, List.map_filterMap, List.filterMap_filterMap]
  refine List.filterMap_congr (fun je _ => ?_)
  rw [Option.map_map]
  exact Option.map_id'.symm

/-! ## 3. References -/

/-- The entity that an index of a raw item refers to. -/
def rawEntity (i : ℕ) : Option ExtractedEntity := (raw.entities[i]?).bind parseEntity

/-- The index `i` of a raw item means an entity, and the entity `j` of the result is that one. -/
def Denotes (index : Option ℤ) (j : ℕ) : Prop :=
  ∃ i e, naturalIndex index = some i ∧ rawEntity raw i = some e ∧
    (beforeRefinement libs trimmed raw).entities[j]? = some e

/-- **References and grounding are kept straight.** -/
structure KeepsReferences : Prop where
  facts_lt : ∀ f ∈ (beforeRefinement libs trimmed raw).facts,
    f.entityIndex < (beforeRefinement libs trimmed raw).entities.length
  edges_lt : ∀ e ∈ (beforeRefinement libs trimmed raw).edges,
    e.fromEntityIndex < (beforeRefinement libs trimmed raw).entities.length ∧
      e.toEntityIndex < (beforeRefinement libs trimmed raw).entities.length
  facts : ∀ p ∈ tracedFacts libs trimmed raw,
    Denotes libs trimmed raw p.1.entityIndex p.2.entityIndex
  edges : ∀ p ∈ tracedEdges libs trimmed raw,
    Denotes libs trimmed raw p.1.fromEntityIndex p.2.fromEntityIndex ∧
      Denotes libs trimmed raw p.1.toEntityIndex p.2.toEntityIndex
  names : ∀ e ∈ (beforeRefinement libs trimmed raw).entities,
    isGroundedSpan (normalizeForGrounding libs trimmed) (normalizeForGrounding libs e.name) = true
  objects : ∀ f ∈ (beforeRefinement libs trimmed raw).facts,
    isGroundedSpan (normalizeForGrounding libs trimmed) (normalizeForGrounding libs f.object) = true
  no_self : ∀ e ∈ (beforeRefinement libs trimmed raw).edges, e.fromEntityIndex ≠ e.toEntityIndex

/-- Among the well-formed entities the one with this number is the same as among all. -/
def InPlace (i : ℕ) : Prop := ∃ e, rawEntity raw i = some e ∧ (parseEntities raw)[i]? = some e

/-- The parsed entity with this number is grounded. -/
def EntityGrounded (i : ℕ) : Prop :=
  ∃ e, (parseEntities raw)[i]? = some e ∧ groundEntity libs trimmed e = true

/-- The indices of all facts and edges that pass the checks are in place. -/
structure ReferencesInPlace : Prop where
  facts : ∀ jf ∈ raw.facts, ∀ rf, parseRawFact (parseEntities raw).length jf = some rf →
    factGrounded libs trimmed rf = true → EntityGrounded libs trimmed raw rf.entityIndex →
      InPlace raw rf.entityIndex
  edges : ∀ je ∈ raw.edges, ∀ e,
    validateEdge libs (parseEntities raw).length (parseClauses raw) je = some e →
      EntityGrounded libs trimmed raw e.fromEntityIndex →
        EntityGrounded libs trimmed raw e.toEntityIndex →
          InPlace raw e.fromEntityIndex ∧ InPlace raw e.toEntityIndex

variable {libs trimmed raw}

/-- An entity is looked up by its index among the parsed ones if it is grounded. -/
theorem entityGrounded_iff {i : ℕ} : EntityGrounded libs trimmed raw i ↔
    ∃ j, (compacted libs trimmed raw).1.get? i = some j := by
  rw [compacted, (get?_groundedRemap (groundEntity libs trimmed) (parseEntities raw)).2]
  constructor
  · rintro ⟨e, he, hg⟩
    exact ⟨_, by rw [he, Option.bind_some, if_pos hg]⟩
  · rintro ⟨j, hj⟩
    obtain ⟨e, he, hj⟩ := Option.bind_eq_some_iff.mp hj
    split at hj
    · next hg => exact ⟨e, he, hg⟩
    · cases hj

/-- **What the new index of an entity denotes**: the parsed entity with the old one. -/
theorem denotes_iff {index : Option ℤ} {i j : ℕ} (hindex : naturalIndex index = some i)
    (hj : (compacted libs trimmed raw).1.get? i = some j) :
    Denotes libs trimmed raw index j ↔ InPlace raw i := by
  have hmoved := ((compacts_groundedRemap (groundEntity libs trimmed)
    (parseEntities raw)).moved i j hj).2
  constructor
  · rintro ⟨i', e, hi', he, hentity⟩
    obtain rfl : i = i' := Option.some_inj.mp (hindex.symm.trans hi')
    exact ⟨e, he, hmoved.symm.trans hentity⟩
  · rintro ⟨e, he, hparsed⟩
    exact ⟨i, e, hindex, he, hmoved.trans hparsed⟩

theorem index_of_parseRawFact {n : ℕ} {jf : JsonFact} {rf : RawExtractedFact}
    (h : parseRawFact n jf = some rf) : naturalIndex jf.entityIndex = some rf.entityIndex := by
  unfold parseRawFact at h
  split at h
  · next entityIndex predicate valueSpan hindex hpredicate hspan =>
      split at h
      · rw [← Option.some_inj.mp h]
        exact hindex
      · cases h
  · cases h

/-- What a validated edge says. -/
theorem of_validateEdge {n : ℕ} {clauses : List String} {je : JsonEdge} {e : ExtractorEdge}
    (h : validateEdge libs n clauses je = some e) :
    naturalIndex je.fromEntityIndex = some e.fromEntityIndex ∧
      naturalIndex je.toEntityIndex = some e.toEntityIndex ∧
        e.fromEntityIndex ≠ e.toEntityIndex := by
  unfold validateEdge at h
  dsimp only at h
  split at h
  · next source target hsource htarget =>
      split_ifs at h with hrange hself hkind
      rw [← Option.some_inj.mp h]
      exact ⟨hsource, htarget, hself⟩
  · cases h

/-- Where a traced fact comes from. -/
theorem mem_tracedFacts_iff {p : JsonFact × ExtractorFact} : p ∈ tracedFacts libs trimmed raw ↔
    p.1 ∈ raw.facts ∧ ∃ rf j, parseRawFact (parseEntities raw).length p.1 = some rf ∧
      factGrounded libs trimmed rf = true ∧
        (compacted libs trimmed raw).1.get? rf.entityIndex = some j ∧
          p.2 = { factOf (parseClauses raw) rf with entityIndex := j } := by
  obtain ⟨jf, f⟩ := p
  simp only [tracedFacts, List.mem_filterMap, Option.map_eq_some_iff, Prod.mk.injEq]
  constructor
  · rintro ⟨jf', hjf', f', hf', rfl, rfl⟩
    obtain ⟨rf, hrf, hf'⟩ := Option.bind_eq_some_iff.mp hf'
    split at hf'
    · next hg =>
        obtain ⟨j, hj, rfl⟩ := Option.map_eq_some_iff.mp hf'
        exact ⟨hjf', rf, j, hrf, hg, hj, rfl⟩
    · cases hf'
  · rintro ⟨hjf, rf, j, hrf, hg, hj, rfl⟩
    refine ⟨jf, hjf, _, ?_, rfl, rfl⟩
    rw [survivingFact, hrf, Option.bind_some, if_pos hg]
    exact Option.map_eq_some_iff.mpr ⟨j, hj, rfl⟩

/-- Where a traced edge comes from. -/
theorem mem_tracedEdges_iff {p : JsonEdge × ExtractorEdge} : p ∈ tracedEdges libs trimmed raw ↔
    p.1 ∈ raw.edges ∧ ∃ e source target,
      validateEdge libs (parseEntities raw).length (parseClauses raw) p.1 = some e ∧
        (compacted libs trimmed raw).1.get? e.fromEntityIndex = some source ∧
          (compacted libs trimmed raw).1.get? e.toEntityIndex = some target ∧
            p.2 = { e with fromEntityIndex := source, toEntityIndex := target } := by
  obtain ⟨je, e'⟩ := p
  simp only [tracedEdges, List.mem_filterMap, Option.map_eq_some_iff, Prod.mk.injEq]
  constructor
  · rintro ⟨je', hje', e'', he'', rfl, rfl⟩
    obtain ⟨e, he, he''⟩ := Option.bind_eq_some_iff.mp he''
    unfold remapEdge at he''
    split at he''
    · next source target hsource htarget =>
        exact ⟨hje', e, source, target, he, hsource, htarget, (Option.some_inj.mp he'').symm⟩
    · cases he''
  · rintro ⟨hje, e, source, target, he, hsource, htarget, rfl⟩
    refine ⟨je, hje, _, ?_, rfl, rfl⟩
    rw [survivingEdge, he, Option.bind_some, remapEdge, hsource, htarget]

/-- Where a fact of the result comes from. -/
theorem origin_of_mem_facts {f : ExtractorFact}
    (hf : f ∈ (beforeRefinement libs trimmed raw).facts) :
    ∃ (rf : RawExtractedFact) (j : ℕ), factGrounded libs trimmed rf = true ∧
      (compacted libs trimmed raw).1.get? rf.entityIndex = some j ∧
        f = { factOf (parseClauses raw) rf with entityIndex := j } := by
  rw [facts_eq] at hf
  obtain ⟨⟨jf, f'⟩, hp, rfl⟩ := List.mem_map.mp hf
  obtain ⟨_, rf, j, _, hg, hj, hf'⟩ := mem_tracedFacts_iff.mp hp
  exact ⟨rf, j, hg, hj, hf'⟩

/-- Where an edge of the result comes from: one that is not a self-edge. -/
theorem origin_of_mem_edges {e' : ExtractorEdge}
    (he' : e' ∈ (beforeRefinement libs trimmed raw).edges) :
    ∃ (e : ExtractorEdge) (source target : ℕ), e.fromEntityIndex ≠ e.toEntityIndex ∧
      (compacted libs trimmed raw).1.get? e.fromEntityIndex = some source ∧
        (compacted libs trimmed raw).1.get? e.toEntityIndex = some target ∧
          e' = { e with fromEntityIndex := source, toEntityIndex := target } := by
  rw [edges_eq] at he'
  obtain ⟨⟨je, e''⟩, hp, rfl⟩ := List.mem_map.mp he'
  obtain ⟨_, e, source, target, he, hsource, htarget, heq⟩ := mem_tracedEdges_iff.mp hp
  exact ⟨e, source, target, (of_validateEdge he).2.2, hsource, htarget, heq⟩

theorem lt_of_compacted {i j : ℕ} (h : (compacted libs trimmed raw).1.get? i = some j) :
    j < (beforeRefinement libs trimmed raw).entities.length :=
  ((compacts_groundedRemap (groundEntity libs trimmed) (parseEntities raw)).moved i j h).1

/-! ## 4. What a reference denotes -/

/-- The facts denote what they referred to exactly if their indices are in place. -/
theorem facts_denote_iff :
    (∀ p ∈ tracedFacts libs trimmed raw,
      Denotes libs trimmed raw p.1.entityIndex p.2.entityIndex) ↔
      ∀ jf ∈ raw.facts, ∀ rf, parseRawFact (parseEntities raw).length jf = some rf →
        factGrounded libs trimmed rf = true → EntityGrounded libs trimmed raw rf.entityIndex →
          InPlace raw rf.entityIndex := by
  constructor
  · intro h jf hjf rf hrf hg hentity
    obtain ⟨j, hj⟩ := entityGrounded_iff.mp hentity
    refine (denotes_iff (index_of_parseRawFact hrf) hj).mp ?_
    exact h (jf, { factOf (parseClauses raw) rf with entityIndex := j })
      (mem_tracedFacts_iff.mpr ⟨hjf, rf, j, hrf, hg, hj, rfl⟩)
  · intro h p hp
    obtain ⟨hjf, rf, j, hrf, hg, hj, hf⟩ := mem_tracedFacts_iff.mp hp
    rw [hf]
    exact (denotes_iff (index_of_parseRawFact hrf) hj).mpr
      (h p.1 hjf rf hrf hg (entityGrounded_iff.mpr ⟨j, hj⟩))

/-- The same for the edges, at both of their ends. -/
theorem edges_denote_iff :
    (∀ p ∈ tracedEdges libs trimmed raw,
      Denotes libs trimmed raw p.1.fromEntityIndex p.2.fromEntityIndex ∧
        Denotes libs trimmed raw p.1.toEntityIndex p.2.toEntityIndex) ↔
      ∀ je ∈ raw.edges, ∀ e,
        validateEdge libs (parseEntities raw).length (parseClauses raw) je = some e →
          EntityGrounded libs trimmed raw e.fromEntityIndex →
            EntityGrounded libs trimmed raw e.toEntityIndex →
              InPlace raw e.fromEntityIndex ∧ InPlace raw e.toEntityIndex := by
  constructor
  · intro h je hje e he hsource htarget
    obtain ⟨source, hsource⟩ := entityGrounded_iff.mp hsource
    obtain ⟨target, htarget⟩ := entityGrounded_iff.mp htarget
    obtain ⟨hfrom, hto, _⟩ := of_validateEdge he
    have hdenotes := h (je, { e with fromEntityIndex := source, toEntityIndex := target })
      (mem_tracedEdges_iff.mpr ⟨hje, e, source, target, he, hsource, htarget, rfl⟩)
    exact ⟨(denotes_iff hfrom hsource).mp hdenotes.1, (denotes_iff hto htarget).mp hdenotes.2⟩
  · intro h p hp
    obtain ⟨hje, e, source, target, he, hsource, htarget, heq⟩ := mem_tracedEdges_iff.mp hp
    obtain ⟨hfrom, hto, _⟩ := of_validateEdge he
    have hplaces := h p.1 hje e he (entityGrounded_iff.mpr ⟨source, hsource⟩)
      (entityGrounded_iff.mpr ⟨target, htarget⟩)
    rw [heq]
    exact ⟨(denotes_iff hfrom hsource).mpr hplaces.1, (denotes_iff hto htarget).mpr hplaces.2⟩

end Assembly

/-! ## 5. The result -/

/-- **When references are kept straight**: exactly if the index of each fact and edge that passes
the checks has the same entity among the well-formed ones as among all. -/
theorem keepsReferences_iff (libs : ExtractorLibs) (trimmed : String) (raw : JsonExtraction) :
    KeepsReferences libs trimmed raw ↔ ReferencesInPlace libs trimmed raw := by
  constructor
  · intro h
    exact ⟨facts_denote_iff.mp h.facts, edges_denote_iff.mp h.edges⟩
  · intro h
    refine ⟨fun f hf => ?_, fun e he => ?_, facts_denote_iff.mpr h.facts,
      edges_denote_iff.mpr h.edges, fun e he => ?_, fun f hf => ?_, fun e he => ?_⟩
    · obtain ⟨rf, j, _, hj, rfl⟩ := origin_of_mem_facts hf
      exact lt_of_compacted hj
    · obtain ⟨e, source, target, _, hsource, htarget, rfl⟩ := origin_of_mem_edges he
      exact ⟨lt_of_compacted hsource, lt_of_compacted htarget⟩
    · have hkept : e ∈ (parseEntities raw).filter (groundEntity libs trimmed) := by
        rw [← (get?_groundedRemap (groundEntity libs trimmed) (parseEntities raw)).1]
        exact he
      exact (List.mem_filter.mp hkept).2
    · obtain ⟨rf, j, hg, _, rfl⟩ := origin_of_mem_facts hf
      exact (Bool.and_eq_true_iff.mp hg).2
    · -- two ends that were different are not given one index
      obtain ⟨e, source, target, hself, hsource, htarget, rfl⟩ := origin_of_mem_edges he
      intro heq
      have heq' : source = target := heq
      exact hself (groundedRemap_inj hsource (heq' ▸ htarget))

/-- A malformed entity, then Anna and Boris, and a fact about Anna. -/
def shiftedReply : JsonExtraction where
  entities := [{ name := none }, { name := some "Anna" }, { name := some "Boris" }]
  facts := [{ entityIndex := some 1, predicate := some "likes", valueSpan := some "tea" }]

/-- The fact about Anna is about Boris in the result. -/
theorem malformed_entity_shifts_reference :
    ¬ ∀ (libs : ExtractorLibs) (trimmed : String) (raw : JsonExtraction),
      KeepsReferences libs trimmed raw := by
  intro h
  have htraced : tracedFacts asciiLibs "Anna likes tea, Boris likes rum" shiftedReply
      = [({ entityIndex := some 1, predicate := some "likes", valueSpan := some "tea" },
          { entityIndex := 1, predicate := "likes", object := "tea", confidence := 1 / 2 })] := rfl
  obtain ⟨i, e, hi, hraw, hresult⟩ := (h asciiLibs "Anna likes tea, Boris likes rum"
    shiftedReply).facts _ (htraced.symm ▸ List.mem_singleton_self _)
  obtain rfl : 1 = i := Option.some_inj.mp hi
  -- Anna is the element with the index 1, and Boris the entity with the new one
  have hAnna : rawEntity shiftedReply 1 = some { name := "Anna", type := "other" } := rfl
  have hBoris : (beforeRefinement asciiLibs "Anna likes tea, Boris likes rum"
      shiftedReply).entities[1]? = some { name := "Boris", type := "other" } := rfl
  have hsame := (hAnna.symm.trans hraw).trans (hresult.symm.trans hBoris)
  simp at hsame

/-! ## 6. Malformed entities -/

/-- The entity of a well-formed element stands behind those of the elements before it. -/
theorem getElem?_parseEntities {raw : JsonExtraction} {i : ℕ} {e : ExtractedEntity}
    (h : rawEntity raw i = some e) :
    (parseEntities raw)[((raw.entities.take i).filterMap parseEntity).length]? = some e := by
  obtain ⟨je, hje, he⟩ := Option.bind_eq_some_iff.mp h
  obtain ⟨hi, hget⟩ := List.getElem?_eq_some_iff.mp hje
  have hsplit : raw.entities = raw.entities.take i ++ je :: raw.entities.drop (i + 1) := by
    rw [← hget, List.cons_getElem_drop_succ, List.take_append_drop]
  have hparsed : parseEntities raw = (raw.entities.take i).filterMap parseEntity
      ++ e :: (raw.entities.drop (i + 1)).filterMap parseEntity := by
    rw [parseEntities_eq]
    conv_lhs => rw [hsplit]
    rw [List.filterMap_append, List.filterMap_cons_some he]
  rw [hparsed, List.getElem?_append_right (le_refl _), Nat.sub_self]
  rfl

/-- All elements before this one are well-formed if there are as many entities of theirs. -/
theorem unshifted_iff {raw : JsonExtraction} {i : ℕ} (hi : i ≤ raw.entities.length) :
    ((raw.entities.take i).filterMap parseEntity).length = i ↔
      ∀ k < i, (rawEntity raw k).isSome = true := by
  have hlen : (raw.entities.take i).length = i := List.length_take_of_le hi
  have hall : ((raw.entities.take i).filterMap parseEntity).length = i ↔
      ∀ je ∈ raw.entities.take i, (parseEntity je).isSome = true := by
    conv_lhs => rhs; rw [← hlen]
    exact List.filterMap_length_eq_length
  have hentity : ∀ k, ∀ hk : k < raw.entities.length,
      rawEntity raw k = parseEntity raw.entities[k] := by
    intro k hk
    rw [rawEntity, List.getElem?_eq_getElem hk, Option.bind_some]
  rw [hall]
  constructor
  · intro h k hk
    rw [hentity k (by omega)]
    exact h _ (List.mem_take_iff_getElem.mpr ⟨k, by omega, rfl⟩)
  · intro h je hje
    obtain ⟨k, hk, rfl⟩ := List.mem_take_iff_getElem.mp hje
    rw [← hentity k (by omega)]
    exact h k (by omega)

/-- An index is in place if no malformed entity stands at it or before it. -/
theorem inPlace_of_unshifted {raw : JsonExtraction} {i : ℕ}
    (h : ∀ k ≤ i, (rawEntity raw k).isSome = true) : InPlace raw i := by
  obtain ⟨e, he⟩ := Option.isSome_iff_exists.mp (h i (le_refl i))
  have hlt : i < raw.entities.length := by
    obtain ⟨je, hje, _⟩ := Option.bind_eq_some_iff.mp he
    exact (List.getElem?_eq_some_iff.mp hje).1
  have hcount := (unshifted_iff hlt.le).mpr (fun k hk => h k hk.le)
  have hparsed := getElem?_parseEntities he
  rw [hcount] at hparsed
  exact ⟨e, he, hparsed⟩

/-- **An index is in place** exactly then, if the well-formed entities are all different. -/
theorem inPlace_iff_unshifted {raw : JsonExtraction} (hnodup : (parseEntities raw).Nodup) {i : ℕ} :
    InPlace raw i ↔ ∀ k ≤ i, (rawEntity raw k).isSome = true := by
  refine ⟨?_, inPlace_of_unshifted⟩
  rintro ⟨e, he, hparsed⟩ k hk
  have hlt : i < raw.entities.length := by
    obtain ⟨je, hje, _⟩ := Option.bind_eq_some_iff.mp he
    exact (List.getElem?_eq_some_iff.mp hje).1
  -- the entity stands at two places among the well-formed ones, which are the same
  have hcount : ((raw.entities.take i).filterMap parseEntity).length = i := by
    have hmine := getElem?_parseEntities he
    exact (List.getElem?_inj (List.getElem?_eq_some_iff.mp hmine).1 hnodup).mp
      (hmine.trans hparsed.symm)
  rcases Nat.lt_or_eq_of_le hk with hk | rfl
  · exact (unshifted_iff hlt.le).mp hcount k hk
  · rw [he]
    rfl

end Brain.RawReferences
