/-
What the merge of several passes keeps of them.

Within a pass an index is an index into the entities of that pass, also after those that
are not grounded are left out: the indices are moved along. The merge makes one list of
the entities of all passes and leaves the indices of the facts and edges as they are. So
an index is right if the entity it means stands at the same place in the merged list, which
is the number of distinct entities that the passes list before it.
-/
import Brain.Ai.ExtractorService
import Mathlib.Data.List.Forall2

set_option autoImplicit false

namespace Brain

/-! ## 1. The result of a pass -/

/-- What holds of an assembled result. -/
structure ExtractorResult.Assembled (r : ExtractorResult) : Prop where
  facts_lt : ∀ f ∈ r.facts, f.entityIndex < r.entities.length
  edges_lt : ∀ e ∈ r.edges,
    e.fromEntityIndex < r.entities.length ∧ e.toEntityIndex < r.entities.length
  types : ∀ e ∈ r.entities, e.type ∈ ENTITY_TYPE_VOCABULARY
  unannotated : ∀ f ∈ r.facts, f.extractionEntropy = none ∧ f.extractionAgreement = none

theorem extractedEntityType_mem (t : Option String) :
    extractedEntityType t ∈ ENTITY_TYPE_VOCABULARY := by
  have hother : "other" ∈ ENTITY_TYPE_VOCABULARY := by decide
  unfold extractedEntityType
  cases t with
  | none => exact hother
  | some t =>
      dsimp only
      split_ifs with ht
      · exact List.contains_iff_mem.mp ht
      · exact hother

theorem type_mem_of_mem_parseEntities {raw : JsonExtraction} {e : ExtractedEntity}
    (h : e ∈ parseEntities raw) : e.type ∈ ENTITY_TYPE_VOCABULARY := by
  obtain ⟨j, _, hj⟩ := List.mem_filterMap.mp h
  obtain ⟨name, _, rfl⟩ := Option.map_eq_some_iff.mp hj
  exact extractedEntityType_mem j.type

section Remap

variable {grounded : ExtractedEntity → Bool} {parsed : List ExtractedEntity}

/-- What holds of the loop that compacts the entities. -/
structure Compacts (parsed : List ExtractedEntity)
    (s : InsertionMap ℕ ℕ × List ExtractedEntity) : Prop where
  kept : ∀ e ∈ s.2, e ∈ parsed
  moved : ∀ i j, s.1.get? i = some j → j < s.2.length ∧ s.2[j]? = parsed[i]?

/-- **The indices move along with the entities.** -/
theorem compacts_groundedRemap (grounded : ExtractedEntity → Bool) (parsed : List ExtractedEntity) :
    Compacts parsed (groundedRemap grounded parsed) := by
  have hfold : ∀ (l : List (ExtractedEntity × ℕ)) (s : InsertionMap ℕ ℕ × List ExtractedEntity),
      (∀ e ∈ l, parsed[e.2]? = some e.1) → Compacts parsed s →
      Compacts parsed (l.foldl (fun s e =>
        if grounded e.1 then (s.1.set e.2 s.2.length, s.2 ++ [e.1]) else s) s) := by
    intro l
    induction l with
    | nil => exact fun _ _ hs => hs
    | cons e l ih =>
        intro s hl hs
        rw [List.foldl_cons]
        refine ih _ (fun e' he' => hl e' (List.mem_cons_of_mem e he')) ?_
        by_cases hg : grounded e.1 = true
        · have he := hl e List.mem_cons_self
          rw [if_pos hg]
          refine ⟨fun e' he' => ?_, fun i j hij => ?_⟩
          · rcases List.mem_append.mp he' with he' | he'
            · exact hs.kept e' he'
            · rw [List.mem_singleton.mp he']
              exact List.mem_of_getElem? he
          · rw [List.length_append, List.length_singleton]
            by_cases hi : i = e.2
            · rw [hi, InsertionMap.get?_set_self, Option.some_inj] at hij
              rw [← hij, hi, he]
              exact ⟨Nat.lt_succ_self _, by simp⟩
            · rw [InsertionMap.get?_set_of_ne _ _ hi] at hij
              obtain ⟨hlt, hget⟩ := hs.moved i j hij
              exact ⟨Nat.lt_succ_of_lt hlt, by rw [List.getElem?_append_left hlt, hget]⟩
        · rw [if_neg hg]
          exact hs
  refine hfold _ _ (fun e he => ?_) ⟨by simp, fun i j hij => ?_⟩
  · exact List.mem_zipIdx_iff_getElem?.mp he
  · simp [InsertionMap.get?, InsertionMap.empty] at hij

end Remap

section Refine

variable {services : PassServices} {threshold : ℚ}

/-- Refining changes the predicates and nothing else. -/
def SameButPredicate (f g : ExtractorFact) : Prop :=
  ∃ predicate, g = { f with predicate := predicate }

theorem forall₂_applyCanonicalizePass (facts : List ExtractorFact) : ∀ i : ℕ,
    List.Forall₂ SameButPredicate facts (applyCanonicalizePass services i facts) := by
  induction facts with
  | nil => exact fun _ => List.Forall₂.nil
  | cons f facts ih => exact fun i => List.Forall₂.cons ⟨_, rfl⟩ (ih (i + 1))

theorem forall₂_applyLocalPredicateOverrides (facts : List ExtractorFact) :
    ∀ {i : ℕ} {refined : List ExtractorFact},
      applyLocalPredicateOverrides services threshold i facts = .ok refined →
      List.Forall₂ SameButPredicate facts refined := by
  induction facts with
  | nil =>
      intro i refined h
      cases h
      exact List.Forall₂.nil
  | cons f facts ih =>
      intro i refined h
      unfold applyLocalPredicateOverrides at h
      dsimp only at h
      cases hrank : (if (f.clause.getD "").isEmpty then (.ok [] : Except String (List RankedPredicate))
          else services.rank i (f.clause.getD "")) with
      | error e =>
          rw [hrank] at h
          cases h
      | ok ranked =>
          rw [hrank] at h
          cases hrest : applyLocalPredicateOverrides services threshold (i + 1) facts with
          | error e => simp [hrest] at h
          | ok rest =>
              simp only [hrest, Except.ok.injEq] at h
              rw [← h]
              exact List.Forall₂.cons ⟨_, rfl⟩ (ih hrest)

/-- What a refined fact was. -/
theorem exists_of_mem_refined {facts refined : List ExtractorFact} {i : ℕ}
    (h : applyLocalPredicateOverrides services threshold i facts = .ok refined) {g : ExtractorFact}
    (hg : g ∈ applyCanonicalizePass services i refined) :
    ∃ f ∈ facts, g.entityIndex = f.entityIndex ∧ g.extractionEntropy = f.extractionEntropy ∧
      g.extractionAgreement = f.extractionAgreement := by
  have hof : ∀ {l l' : List ExtractorFact}, List.Forall₂ SameButPredicate l l' → ∀ g ∈ l',
      ∃ f ∈ l, SameButPredicate f g := by
    intro l l' hll
    induction hll with
    | nil => exact fun g hg => absurd hg List.not_mem_nil
    | cons hfg _ ih =>
        intro g hg
        rcases List.mem_cons.mp hg with rfl | hg
        · exact ⟨_, List.mem_cons_self, hfg⟩
        · obtain ⟨f, hf, hfg⟩ := ih g hg
          exact ⟨f, List.mem_cons_of_mem _ hf, hfg⟩
  obtain ⟨g', hg', p', rfl⟩ := hof (forall₂_applyCanonicalizePass refined i) g hg
  obtain ⟨f, hf, p, rfl⟩ := hof (forall₂_applyLocalPredicateOverrides facts h) g' hg'
  exact ⟨f, hf, rfl, rfl, rfl⟩

end Refine

/-- **An assembled result is well formed.** -/
theorem assembled_assembleResult {config : ExtractorConfig} {trimmed : String}
    {services : PassServices} {raw : JsonExtraction} {r : ExtractorResult}
    (h : assembleResult config trimmed services raw = .ok r) : r.Assembled := by
  unfold assembleResult at h
  dsimp only at h
  cases hrefine : applyLocalPredicateOverrides services config.localPredicateThreshold 0
      ((applyGroundingGate config.libs trimmed (parseRawFacts raw (parseEntities raw).length)
        (parseClauses raw)).filterMap (remapFact
          (groundedRemap (groundEntity config.libs trimmed) (parseEntities raw)).1)) with
  | error e => simp [hrefine] at h
  | ok refined =>
      have hcompact := compacts_groundedRemap (groundEntity config.libs trimmed) (parseEntities raw)
      simp only [hrefine, Except.ok.injEq] at h
      subst h
      refine ⟨fun g hg => ?_, fun e he => ?_, fun e he => ?_, fun g hg => ?_⟩
      · obtain ⟨f, hf, hindex, _⟩ := exists_of_mem_refined hrefine hg
        obtain ⟨f', _, hf'⟩ := List.mem_filterMap.mp hf
        obtain ⟨j, hj, rfl⟩ := Option.map_eq_some_iff.mp hf'
        rw [hindex]
        exact (hcompact.moved _ _ hj).1
      · obtain ⟨e', _, he'⟩ := List.mem_filterMap.mp he
        unfold remapEdge at he'
        split at he'
        · next source target hsource htarget =>
            rw [← Option.some_inj.mp he']
            exact ⟨(hcompact.moved _ _ hsource).1, (hcompact.moved _ _ htarget).1⟩
        · cases he'
      · exact type_mem_of_mem_parseEntities (hcompact.kept e he)
      · obtain ⟨f, hf, _, hentropy, hagreement⟩ := exists_of_mem_refined hrefine hg
        obtain ⟨f', hf', hremap⟩ := List.mem_filterMap.mp hf
        obtain ⟨j, _, rfl⟩ := Option.map_eq_some_iff.mp hremap
        obtain ⟨rf, _, rfl⟩ := List.mem_map.mp hf'
        exact ⟨hentropy, hagreement⟩

/-! ## 2. The merged entities -/

/-- The name that two passes have to agree on. -/
def foldedName (libs : ExtractorLibs) (e : ExtractedEntity) : String :=
  trimString (libs.toLowerCase e.name)

/-- The same type, and the same name but for its case and the spaces around it. -/
def SameEntity (libs : ExtractorLibs) (e e' : ExtractedEntity) : Prop :=
  e.type = e'.type ∧ foldedName libs e = foldedName libs e'

/-- The keys of the entities that the passes list, one pass after the other. -/
def listedKeys (libs : ExtractorLibs) (passes : List ExtractorResult) : List String :=
  (passes.flatMap (fun r => r.entities)).map (entityKey libs)

/-- The entity that index `i` means in pass `r` is listed after exactly `i` others. -/
def KeepsPlace (libs : ExtractorLibs) (passes : List ExtractorResult) (r : ExtractorResult)
    (i : ℕ) : Prop :=
  ∃ e, r.entities[i]? = some e ∧
    FirstSeen.placeOf (entityKey libs e) (listedKeys libs passes) = i

/-- Two indices, each into its own list, mean the same entity. -/
def MeanTheSame (libs : ExtractorLibs) (entities entities' : List ExtractedEntity) (i i' : ℕ) :
    Prop :=
  ∃ e e', entities[i]? = some e ∧ entities'[i']? = some e' ∧ SameEntity libs e e'

section Entities

variable {libs : ExtractorLibs} {passes : List ExtractorResult} {r : ExtractorResult} {i : ℕ}
  {e e' : ExtractedEntity}

theorem entities_mergePasses :
    (mergePasses libs passes).entities
      = FirstSeen.firstSeen (entityKey libs) (passes.flatMap (fun r => r.entities)) := by
  unfold mergePasses
  by_cases hempty : passes.isEmpty = true
  · rw [if_pos hempty, List.isEmpty_iff.mp hempty]
    rfl
  · rw [if_neg hempty]
    exact InsertionMap.values_foldl_setNew _ _

theorem edges_mergePasses :
    (mergePasses libs passes).edges
      = FirstSeen.firstSeen edgeKey (passes.flatMap (fun r => r.edges)) := by
  unfold mergePasses
  by_cases hempty : passes.isEmpty = true
  · rw [if_pos hempty, List.isEmpty_iff.mp hempty]
    rfl
  · rw [if_neg hempty]
    exact InsertionMap.values_foldl_setNew _ _

/-- No type has the separator of the key in it. -/
theorem sep_notMem_type : ∀ t ∈ ENTITY_TYPE_VOCABULARY, ':' ∉ t.toList := by decide

theorem entityKey_eq_of_sameEntity (h : SameEntity libs e e') :
    entityKey libs e = entityKey libs e' := by
  have hname : trimString (libs.toLowerCase e.name) = trimString (libs.toLowerCase e'.name) := h.2
  rw [entityKey, entityKey, h.1, hname]

/-- **The key of an entity says its type and its name.** -/
theorem sameEntity_of_entityKey_eq (ht : e.type ∈ ENTITY_TYPE_VOCABULARY)
    (ht' : e'.type ∈ ENTITY_TYPE_VOCABULARY) (h : entityKey libs e = entityKey libs e') :
    SameEntity libs e e' := by
  have hlist := congrArg String.toList h
  unfold entityKey at hlist
  simp only [String.toList_append, List.append_assoc] at hlist
  obtain ⟨htype, hname⟩ := eq_of_append_sep (sep_notMem_type _ ht) (sep_notMem_type _ ht') hlist
  exact ⟨String.toList_inj.mp htype, String.toList_inj.mp hname⟩

/-- **An index keeps its meaning exactly if its entity keeps its place.** -/
theorem meanTheSame_iff (hassembled : ∀ r ∈ passes, r.Assembled) (hr : r ∈ passes) :
    MeanTheSame libs r.entities (mergePasses libs passes).entities i i ↔
      KeepsPlace libs passes r i := by
  have hmerged : ((mergePasses libs passes).entities).map (entityKey libs)
      = (listedKeys libs passes).eraseDups := by
    rw [entities_mergePasses, FirstSeen.map_firstSeen]
    rfl
  have htypes : ∀ e ∈ passes.flatMap (fun r => r.entities), e.type ∈ ENTITY_TYPE_VOCABULARY := by
    intro e he
    obtain ⟨r', hr', he⟩ := List.mem_flatMap.mp he
    exact (hassembled r' hr').types e he
  constructor
  · rintro ⟨e, e', he, he', hsame⟩
    have hkey : (listedKeys libs passes).eraseDups[i]? = some (entityKey libs e) := by
      rw [← hmerged, List.getElem?_map, he', Option.map_some, entityKey_eq_of_sameEntity hsame]
    exact ⟨e, he, (FirstSeen.getElem?_eraseDups_iff.mp hkey).2⟩
  · rintro ⟨e, he, hplace⟩
    have hlisted : e ∈ passes.flatMap (fun r => r.entities) :=
      List.mem_flatMap.mpr ⟨r, hr, List.mem_of_getElem? he⟩
    have hkey := FirstSeen.getElem?_eraseDups_iff.mpr ⟨List.mem_map_of_mem hlisted, hplace⟩
    rw [← listedKeys, ← hmerged, List.getElem?_map] at hkey
    obtain ⟨e', he', heq⟩ := Option.map_eq_some_iff.mp hkey
    have hmem : e' ∈ passes.flatMap (fun r => r.entities) := by
      have hfirst := List.mem_of_getElem? he'
      rw [entities_mergePasses] at hfirst
      exact FirstSeen.mem_of_mem_firstSeen hfirst
    exact ⟨e, e', he, he', sameEntity_of_entityKey_eq (htypes e hlisted) (htypes e' hmem) heq.symm⟩

end Entities

/-! ## 3. Facts and edges stay on their entities -/

/-- The facts that the merge keeps, each with the pass that it comes from. -/
def tracedFacts (libs : ExtractorLibs) (passes : List ExtractorResult) :
    List (ExtractorResult × ExtractorFact) :=
  FirstSeen.firstSeen (fun p => clusterKey libs p.2.toPassFact)
    (passes.flatMap (fun r => r.facts.map (fun f => (r, f))))

/-- The edges that the merge keeps, each with the pass that it comes from. -/
def tracedEdges (passes : List ExtractorResult) : List (ExtractorResult × ExtractorEdge) :=
  FirstSeen.firstSeen (fun p => edgeKey p.2)
    (passes.flatMap (fun r => r.edges.map (fun e => (r, e))))

/-- Each fact and edge of the merge means the entities that it means in its pass. -/
structure KeepsEntities (libs : ExtractorLibs) (passes : List ExtractorResult) : Prop where
  facts : List.Forall₂ (fun p m => MeanTheSame libs p.1.entities (mergePasses libs passes).entities
    p.2.entityIndex m.entityIndex) (tracedFacts libs passes) (mergePasses libs passes).facts
  edges : List.Forall₂ (fun p m =>
    MeanTheSame libs p.1.entities (mergePasses libs passes).entities
      p.2.fromEntityIndex m.fromEntityIndex ∧
    MeanTheSame libs p.1.entities (mergePasses libs passes).entities
      p.2.toEntityIndex m.toEntityIndex) (tracedEdges passes) (mergePasses libs passes).edges

/-- The statistics that the merge adds. -/
def passStats (libs : ExtractorLibs) (passes : List ExtractorResult) :
    InsertionMap String FactSelfConsistency :=
  selfConsistencyByFact libs (passes.map (fun r => r.facts.map ExtractorFact.toPassFact))

section Traces

variable {libs : ExtractorLibs} {passes : List ExtractorResult}

theorem toExtractedFact_annotate (libs : ExtractorLibs)
    (sc : InsertionMap String FactSelfConsistency) (f : ExtractorFact) :
    (annotate libs sc f).toExtractedFact = f.toExtractedFact := by
  unfold annotate
  cases sc.get? (clusterKey libs f.toPassFact) with
  | none => rfl
  | some stats => rfl

theorem flatMap_snd {β : Type} (f : ExtractorResult → List β) :
    (passes.flatMap (fun r => (f r).map (fun x => (r, x)))).map Prod.snd = passes.flatMap f := by
  rw [List.map_flatMap]
  simp [Function.comp_def]

/-- The facts of the merge are the traced ones with the statistics of their clusters. -/
theorem facts_mergePasses :
    (mergePasses libs passes).facts
      = (tracedFacts libs passes).map (fun p => annotate libs (passStats libs passes) p.2) := by
  have htraced : (tracedFacts libs passes).map Prod.snd
      = FirstSeen.firstSeen (fun f => clusterKey libs f.toPassFact)
          (passes.flatMap (fun r => r.facts)) := by
    rw [← flatMap_snd, FirstSeen.firstSeen_map]
    rfl
  have hmap : (tracedFacts libs passes).map (fun p => annotate libs (passStats libs passes) p.2)
      = ((tracedFacts libs passes).map Prod.snd).map (annotate libs (passStats libs passes)) := by
    rw [List.map_map]
    rfl
  rw [hmap, htraced]
  unfold mergePasses
  by_cases hempty : passes.isEmpty = true
  · rw [if_pos hempty, List.isEmpty_iff.mp hempty]
    rfl
  · rw [if_neg hempty]
    rfl

/-- The edges of the merge are the traced ones. -/
theorem edges_eq_tracedEdges :
    (mergePasses libs passes).edges = (tracedEdges passes).map Prod.snd := by
  rw [edges_mergePasses, ← flatMap_snd, FirstSeen.firstSeen_map]
  rfl

theorem mem_of_mem_tracedFacts {p : ExtractorResult × ExtractorFact}
    (h : p ∈ tracedFacts libs passes) : p.1 ∈ passes ∧ p.2 ∈ p.1.facts := by
  obtain ⟨r, hr, hp⟩ := List.mem_flatMap.mp (FirstSeen.mem_of_mem_firstSeen h)
  obtain ⟨f, hf, rfl⟩ := List.mem_map.mp hp
  exact ⟨hr, hf⟩

theorem mem_of_mem_tracedEdges {p : ExtractorResult × ExtractorEdge} (h : p ∈ tracedEdges passes) :
    p.1 ∈ passes ∧ p.2 ∈ p.1.edges := by
  obtain ⟨r, hr, hp⟩ := List.mem_flatMap.mp (FirstSeen.mem_of_mem_firstSeen h)
  obtain ⟨e, he, rfl⟩ := List.mem_map.mp hp
  exact ⟨hr, he⟩

theorem forall₂_map_right_same {α β : Type} {R : α → β → Prop} (f : α → β) (l : List α) :
    List.Forall₂ R l (l.map f) ↔ ∀ x ∈ l, R x (f x) := by
  rw [List.forall₂_map_right_iff, List.forall₂_same]

theorem forall₂_tracedFacts_iff :
    List.Forall₂ (fun p m => MeanTheSame libs p.1.entities (mergePasses libs passes).entities
        p.2.entityIndex m.entityIndex) (tracedFacts libs passes) (mergePasses libs passes).facts ↔
      ∀ p ∈ tracedFacts libs passes, MeanTheSame libs p.1.entities
        (mergePasses libs passes).entities p.2.entityIndex p.2.entityIndex := by
  rw [facts_mergePasses, forall₂_map_right_same]
  refine forall₂_congr (fun p _ => ?_)
  rw [toExtractedFact_annotate]

theorem forall₂_tracedEdges_iff :
    List.Forall₂ (fun p m =>
        MeanTheSame libs p.1.entities (mergePasses libs passes).entities
          p.2.fromEntityIndex m.fromEntityIndex ∧
        MeanTheSame libs p.1.entities (mergePasses libs passes).entities
          p.2.toEntityIndex m.toEntityIndex) (tracedEdges passes) (mergePasses libs passes).edges ↔
      ∀ p ∈ tracedEdges passes,
        MeanTheSame libs p.1.entities (mergePasses libs passes).entities
          p.2.fromEntityIndex p.2.fromEntityIndex ∧
        MeanTheSame libs p.1.entities (mergePasses libs passes).entities
          p.2.toEntityIndex p.2.toEntityIndex := by
  rw [edges_eq_tracedEdges, forall₂_map_right_same]

/-- **The merge keeps facts and edges on their entities exactly if all of these keep their
places**: as many distinct entities are listed before each as its index says. -/
theorem keepsEntities_iff (hassembled : ∀ r ∈ passes, r.Assembled) :
    KeepsEntities libs passes ↔
      (∀ p ∈ tracedFacts libs passes, KeepsPlace libs passes p.1 p.2.entityIndex) ∧
      (∀ p ∈ tracedEdges passes, KeepsPlace libs passes p.1 p.2.fromEntityIndex ∧
        KeepsPlace libs passes p.1 p.2.toEntityIndex) := by
  have hfacts : (∀ p ∈ tracedFacts libs passes, MeanTheSame libs p.1.entities
        (mergePasses libs passes).entities p.2.entityIndex p.2.entityIndex) ↔
      ∀ p ∈ tracedFacts libs passes, KeepsPlace libs passes p.1 p.2.entityIndex :=
    forall₂_congr (fun p hp => meanTheSame_iff hassembled (mem_of_mem_tracedFacts hp).1)
  have hedges : (∀ p ∈ tracedEdges passes,
        MeanTheSame libs p.1.entities (mergePasses libs passes).entities
          p.2.fromEntityIndex p.2.fromEntityIndex ∧
        MeanTheSame libs p.1.entities (mergePasses libs passes).entities
          p.2.toEntityIndex p.2.toEntityIndex) ↔
      ∀ p ∈ tracedEdges passes, KeepsPlace libs passes p.1 p.2.fromEntityIndex ∧
        KeepsPlace libs passes p.1 p.2.toEntityIndex := by
    refine forall₂_congr (fun p hp => ?_)
    have hr := (mem_of_mem_tracedEdges hp).1
    rw [meanTheSame_iff hassembled hr, meanTheSame_iff hassembled hr]
  rw [← hfacts, ← hedges, ← forall₂_tracedFacts_iff, ← forall₂_tracedEdges_iff]
  exact ⟨fun h => ⟨h.facts, h.edges⟩, fun h => ⟨h.1, h.2⟩⟩

end Traces

/-! ## 4. Passes that list their entities in another order -/

/-- Libraries that take every text for ASCII. -/
def asciiLibs : ExtractorLibs where
  toLowerCase s := String.ofList (asciiLower s.toList)
  normalizeNfd s := s
  normalizeNfc s := s
  log _ := 0
  sha256 s := s

/-- Services that change no predicate. -/
def silentServices : PassServices where
  rank _ _ := .ok []
  canonicalize _ _ _ := none

/-- A reply with some entities, and a fact about one of them. -/
def likesReply (names : List String) (entityIndex : ℤ) (object : String) : JsonExtraction where
  entities := names.map (fun name => { name := some name, type := some "staff" })
  facts := [{ entityIndex := some entityIndex, predicate := some "likes", valueSpan := some object }]

/-- What the reply is assembled to. -/
def likesResult (names : List String) (entityIndex : ℕ) (object : String) : ExtractorResult where
  entities := names.map (fun name => { name := name, type := "staff" })
  facts := [{ entityIndex := entityIndex, predicate := "likes", object := object,
              confidence := 1 / 2 }]
  edges := []

/-- The theorem above for two passes that list the same entities. -/
theorem keepsEntities_iff_agreeing :
    KeepsEntities asciiLibs
      [likesResult ["Anna", "Boris"] 1 "rum", likesResult ["Anna", "Boris"] 1 "rum"] := by
  have hassembled : (likesResult ["Anna", "Boris"] 1 "rum").Assembled := by
    have hassemble : assembleResult { libs := asciiLibs } "Anna likes tea, Boris likes rum"
        silentServices (likesReply ["Anna", "Boris"] 1 "rum")
          = .ok (likesResult ["Anna", "Boris"] 1 "rum") := rfl
    exact assembled_assembleResult hassemble
  refine (keepsEntities_iff ?_).mpr ⟨?_, ?_⟩
  · intro r hr
    rcases List.mem_cons.mp hr with rfl | hr
    · exact hassembled
    · rw [List.mem_singleton.mp hr]
      exact hassembled
  · intro p hp
    have htraced : p ∈ [(likesResult ["Anna", "Boris"] 1 "rum",
      ({ entityIndex := 1, predicate := "likes", object := "rum", confidence := 1 / 2 }
        : ExtractorFact))] := hp
    rw [List.mem_singleton.mp htraced]
    exact ⟨_, rfl, by decide⟩
  · intro p hp
    cases hp

/-- A second pass that lists the entities the other way round: its fact about Boris is
about Anna after the merge. -/
theorem swapped_entities_not_kept :
    ∃ r r', assembleResult { libs := asciiLibs } "Anna likes tea, Boris likes rum" silentServices
        (likesReply ["Anna", "Boris"] 0 "tea") = .ok r ∧
      assembleResult { libs := asciiLibs } "Anna likes tea, Boris likes rum" silentServices
        (likesReply ["Boris", "Anna"] 0 "rum") = .ok r' ∧
      ¬ KeepsEntities asciiLibs [r, r'] := by
  refine ⟨likesResult ["Anna", "Boris"] 0 "tea", likesResult ["Boris", "Anna"] 0 "rum", rfl, rfl,
    fun h => ?_⟩
  have hfacts := forall₂_tracedFacts_iff.mp h.facts
  obtain ⟨e, e', he, he', hsame⟩ := hfacts (likesResult ["Boris", "Anna"] 0 "rum",
    { entityIndex := 0, predicate := "likes", object := "rum", confidence := 1 / 2 })
    (List.mem_of_getElem? (i := 1) rfl)
  cases he
  cases he'
  exact absurd hsame.2 (by decide)

end Brain
