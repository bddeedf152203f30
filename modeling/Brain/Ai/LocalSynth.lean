/-
`src/src/ai/extractor-internals/local-synth.ts` and `pattern-emitter.ts`, with the store of
`extraction-pattern.service.ts` between them: what an extraction records of its clauses, and
what is replayed of it without the model.

A row of the store carries the extraction that it was recorded from, so that what is replayed
can be compared with what survived there. The recorder goes through the raw facts, before they
are grounded, and looks for the surviving fact by an index into the entities before they are
compacted; the replayer asks for less than the grounding gate, and takes the indices of an edge
as indices of its own entities. A replay is as strict as the model's path exactly if the rows
that it uses make up for that (`attemptLocalSynth_strict_iff`).
-/
import Brain.Ai.MultiPass

set_option autoImplicit false

namespace Brain.LocalSynth

/-! ## 1. Recording -/

section Record

variable (rawFacts : List RawExtractedFact) (facts : List ExtractorFact)
  (edges : List ExtractorEdge)

/-- The surviving fact that the recorder takes the predicate of a raw fact from. -/
def survivor (clauseText : String) (f : RawExtractedFact) : Option ExtractorFact :=
  facts.find? (fun ff => decide (ff.entityIndex = f.entityIndex) &&
    decide (ff.object = f.valueSpan) && decide (ff.clause = some clauseText))

def factTemplate (clauseText : String) (f : RawExtractedFact) : CachedFactTemplate where
  predicate := ((survivor facts clauseText f).map (fun ff => ff.predicate)).getD f.predicate
  valueSpan := f.valueSpan
  confidence := f.confidence

def edgeTemplate (e : ExtractorEdge) : CachedEdgeTemplate where
  kind := e.kind
  fromEntityIndex := e.fromEntityIndex
  toEntityIndex := e.toEntityIndex
  confidence := e.confidence

/-- The entry of one clause, if there is anything to record. -/
def clauseEntry (i : ℕ) (clauseText : String) : Option ExtractionPatternEntry :=
  let clauseFacts := (rawFacts.filter (fun rf => decide (rf.clauseIndex = some i))).map
    (factTemplate facts clauseText)
  let clauseEdges := (edges.filter (fun e => decide (e.clause = some clauseText))).map edgeTemplate
  if clauseFacts.isEmpty && clauseEdges.isEmpty then none else some ⟨clauseFacts, clauseEdges⟩

/-- `persistExtractionPatterns`: the entries that are recorded, with their clauses. -/
def persistExtractionPatterns (clauses : List String) : List (String × ExtractionPatternEntry) :=
  clauses.zipIdx.filterMap (fun c =>
    (clauseEntry rawFacts facts edges c.2 c.1).map (fun entry => (c.1, entry)))

end Record

/-- An extraction that has come to its result. -/
structure Extraction (libs : ExtractorLibs) where
  config : ExtractorConfig
  trimmed : String
  services : PassServices
  rawJson : JsonExtraction
  result : ExtractorResult
  config_libs : config.libs = libs
  assembled : assembleResult config trimmed services rawJson = .ok result

section Extraction

variable {libs : ExtractorLibs} (x : Extraction libs)

def Extraction.clauses : List String := parseClauses x.rawJson

def Extraction.rawFacts : List RawExtractedFact :=
  parseRawFacts x.rawJson (parseEntities x.rawJson).length

/-- What it records. -/
def Extraction.entries : List (String × ExtractionPatternEntry) :=
  persistExtractionPatterns x.rawFacts x.result.facts x.result.edges x.clauses

end Extraction

/-- A row of `extraction_pattern`, with the extraction and the number of the clause that it was
recorded from. -/
structure PatternRow (libs : ExtractorLibs) where
  extraction : Extraction libs
  index : ℕ
  clauseText : String
  entry : ExtractionPatternEntry
  clause_eq : extraction.clauses[index]? = some clauseText
  recorded : clauseEntry extraction.rawFacts extraction.result.facts extraction.result.edges
    index clauseText = some entry

/-! ## 2. The store -/

section Store

variable (libs : ExtractorLibs)

/-- `normalise` of a clause. -/
def normaliseClause (s : String) : String := libs.toLowerCase (libs.normalizeNfc (trimString s))

/-- `extraction_pattern`, by `clauseText`. -/
abbrev PatternRows := InsertionMap String (PatternRow libs)

/-- One turn of the loop of `record`; `ok` says whether the query succeeds. -/
def recordRow (rows : PatternRows libs) (w : PatternRow libs × Bool) : PatternRows libs :=
  let key := normaliseClause libs w.1.clauseText
  if key.isEmpty || !w.2 then rows else rows.set key w.1

/-- What the queries of a tenant leave, in the order in which they are run. -/
def rowsAfter (writes : List (PatternRow libs × Bool)) : PatternRows libs :=
  writes.foldl (recordRow libs) .empty

/-- `loadFresh`. -/
def loadFresh (rows : PatternRows libs) : PatternRows libs :=
  .ofList (rows.entries.map (fun e => (normaliseClause libs e.1, e.2)))

/-- `lookup` in a snapshot. -/
def lookupPattern (snapshot : PatternRows libs) (clauseText : String) : Option (PatternRow libs) :=
  snapshot.get? (normaliseClause libs clauseText)

variable {libs}

/-- The rows are what was written, under the keys of their clauses. -/
theorem mem_rowsAfter {writes : List (PatternRow libs × Bool)} {key : String}
    {row : PatternRow libs} (h : (key, row) ∈ (rowsAfter libs writes).entries) :
    (row, true) ∈ writes ∧ key = normaliseClause libs row.clauseText := by
  induction writes using List.reverseRecOn with
  | nil => exact absurd h List.not_mem_nil
  | append_singleton writes w ih =>
      rw [rowsAfter, List.foldl_append, List.foldl_cons, List.foldl_nil, recordRow] at h
      split at h
      · exact (ih h).imp_left (List.mem_append_left _)
      · next hok =>
          rw [Bool.or_eq_true, not_or, Bool.not_eq_true', Bool.not_eq_false] at hok
          rcases InsertionMap.mem_entries_set h with heq | hold
          · cases heq
            refine ⟨List.mem_append_right _ (List.mem_singleton.mpr ?_), rfl⟩
            rw [← hok.2]
          · exact (ih hold).imp_left (List.mem_append_left _)

/-- **What a lookup returns was recorded**, for a clause with the same key. -/
theorem recorded_of_lookupPattern {writes : List (PatternRow libs × Bool)} {c : String}
    {row : PatternRow libs}
    (h : lookupPattern libs (loadFresh libs (rowsAfter libs writes)) c = some row) :
    (row, true) ∈ writes ∧
      normaliseClause libs (normaliseClause libs row.clauseText) = normaliseClause libs c := by
  have hmem := InsertionMap.mem_entries_ofList (InsertionMap.mem_of_get? h)
  obtain ⟨⟨key, row'⟩, hrow, heq⟩ := List.mem_map.mp hmem
  obtain ⟨hkeys, rfl⟩ := Prod.mk.inj heq
  obtain ⟨hwritten, hkey⟩ := mem_rowsAfter hrow
  exact ⟨hwritten, hkey ▸ hkeys⟩

/-- A row that was written is found, if no other one was. -/
theorem lookupPattern_singleton {row : PatternRow libs} {c : String}
    (hkey : (normaliseClause libs row.clauseText).isEmpty = false)
    (hsame : normaliseClause libs (normaliseClause libs row.clauseText) = normaliseClause libs c) :
    lookupPattern libs (loadFresh libs (rowsAfter libs [(row, true)])) c = some row := by
  have hrows : rowsAfter libs [(row, true)]
      = InsertionMap.empty.set (normaliseClause libs row.clauseText) row := by
    rw [rowsAfter, List.foldl_cons, List.foldl_nil, recordRow]
    dsimp only
    rw [hkey]
    rfl
  have hfresh : loadFresh libs (rowsAfter libs [(row, true)])
      = InsertionMap.empty.set (normaliseClause libs c) row := by
    rw [hrows, ← hsame]
    rfl
  rw [lookupPattern, hfresh]
  exact InsertionMap.get?_set_self _ _ _

variable (libs)

/-- The rows behind the answers of `patterns.lookup` to a call: each one is from a snapshot of
what was recorded up to some time, and a lookup may fail. -/
structure PatternLookups (call : ExtractCall) where
  seen : String → Except String (Option (PatternRow libs))
  lookup_eq : ∀ c, call.lookup c = (seen c).map (fun row => row.map PatternRow.entry)
  stored : ∀ c row, seen c = .ok (some row) →
    ∃ writes, lookupPattern libs (loadFresh libs (rowsAfter libs writes)) c = some row

end Store

/-! ## 3. Replaying -/

/-- `attemptLocalSynth`. -/
def attemptLocalSynth (config : ExtractorConfig) (call : ExtractCall) (clauseTexts : List String) :
    Except String (Option ExtractorResult) :=
  match synthClauses config call clauseTexts with
  | .error e => .error e
  | .ok none => .ok none
  | .ok (some (facts, edges)) =>
      .ok (some {
        entities := call.localEntities.map (fun e =>
          { name := e.text, type := mapNerTypeToEntityType e.type })
        facts := facts
        edges := edges })

theorem tryLocalSkip_eq (config : ExtractorConfig) (call : ExtractCall) :
    tryLocalSkip config call =
      (let localClauses := config.splitClauses (clampMention call.text)
       if !config.skipLlmEnabled || localClauses.isEmpty || call.localEntities.isEmpty then .ok none
       else attemptLocalSynth config call localClauses) := rfl

section Replay

variable (config : ExtractorConfig) (call : ExtractCall) (clauseTexts : List String)

/-- The name of the entity occurs in the clause, up to case. -/
def NamedIn (clauseText : String) (en : LocalEntity) : Prop :=
  includes (config.libs.toLowerCase clauseText) (config.libs.toLowerCase en.text) = true

/-- The check that the model's path makes of a value. -/
def GroundedIn (valueSpan : String) : Prop :=
  isGroundedSpan (normalizeForGrounding config.libs (clampMention call.text))
    (normalizeForGrounding config.libs valueSpan) = true

/-- What the replayer checks of the pattern of a clause. -/
structure Replayable (clauseText : String) (pattern : ExtractionPatternEntry) : Prop where
  spans : ∀ t ∈ pattern.facts,
    includes (normalizeForGrounding config.libs (clampMention call.text))
      (normalizeForGrounding config.libs t.valueSpan) = true
  named : pattern.facts ≠ [] → ∃ en ∈ call.localEntities, NamedIn config clauseText en
  indices : ∀ e ∈ pattern.edges, e.fromEntityIndex < call.localEntities.length ∧
    e.toEntityIndex < call.localEntities.length ∧ e.fromEntityIndex ≠ e.toEntityIndex

/-- Each clause has a pattern that the replayer accepts. -/
def Covered : Prop :=
  ∀ c ∈ clauseTexts, ∃ pattern, call.lookup c = .ok (some pattern) ∧
    Replayable config call c pattern

end Replay

section Synth

variable {config : ExtractorConfig} {call : ExtractCall} {clauseTexts : List String}

theorem mapM_isSome_iff {α β : Type} {f : α → Option β} {l : List α} :
    (l.mapM f).isSome = true ↔ ∀ a ∈ l, (f a).isSome = true := by
  induction l with
  | nil => simp
  | cons a l ih =>
      rw [List.mapM_cons, List.forall_mem_cons, ← ih]
      cases f a <;> cases l.mapM f <;> simp

theorem mem_mapM_iff {α β : Type} {f : α → Option β} {l : List α} {l' : List β}
    (h : l.mapM f = some l') {b : β} : b ∈ l' ↔ ∃ a ∈ l, f a = some b := by
  induction l generalizing l' with
  | nil =>
      cases h
      simp
  | cons a l ih =>
      rw [List.mapM_cons] at h
      cases ha : f a with
      | none =>
          rw [ha] at h
          cases h
      | some b' =>
          cases hl : l.mapM f with
          | none =>
              rw [ha, hl] at h
              cases h
          | some rest =>
              rw [ha, hl] at h
              cases h
              rw [List.mem_cons, ih hl, List.exists_mem_cons_iff, ha, Option.some.injEq, eq_comm]

theorem synthFact_isSome_iff {c : String} {t : CachedFactTemplate} :
    (synthFact config call c t).isSome = true ↔
      includes (normalizeForGrounding config.libs (clampMention call.text))
          (normalizeForGrounding config.libs t.valueSpan) = true ∧
        ∃ en ∈ call.localEntities, NamedIn config c en := by
  rw [synthFact]
  split
  · next hspan =>
      rw [Option.isSome_map, entityIndexForFact, List.findIdx?_isSome, List.any_eq_true,
        and_iff_right hspan]
      rfl
  · next hspan =>
      exact ⟨fun h => absurd h Bool.false_ne_true, fun h => absurd h.1 hspan⟩

theorem synthEdge_isSome_iff {c : String} {e : CachedEdgeTemplate} :
    (synthEdge call c e).isSome = true ↔ e.fromEntityIndex < call.localEntities.length ∧
      e.toEntityIndex < call.localEntities.length ∧ e.fromEntityIndex ≠ e.toEntityIndex := by
  rw [synthEdge]
  split
  · next hbad => exact ⟨fun h => absurd h Bool.false_ne_true, fun h => by omega⟩
  · next hgood => exact ⟨fun _ => by omega, fun _ => rfl⟩

/-- The replayer accepts a pattern exactly if all of it can be replayed. -/
theorem replayable_iff {c : String} {pattern : ExtractionPatternEntry} :
    Replayable config call c pattern ↔
      (pattern.facts.mapM (synthFact config call c)).isSome = true ∧
        (pattern.edges.mapM (synthEdge call c)).isSome = true := by
  rw [mapM_isSome_iff, mapM_isSome_iff]
  simp only [synthFact_isSome_iff, synthEdge_isSome_iff]
  constructor
  · intro h
    exact ⟨fun t ht => ⟨h.spans t ht, h.named (List.ne_nil_of_mem ht)⟩, h.indices⟩
  · rintro ⟨hfacts, hedges⟩
    refine ⟨fun t ht => (hfacts t ht).1, fun hne => ?_, hedges⟩
    obtain ⟨t, ht⟩ := List.exists_mem_of_ne_nil _ hne
    exact (hfacts t ht).2

/-- A result is returned if every clause is covered. -/
theorem exists_synthClauses (h : Covered config call clauseTexts) :
    ∃ facts edges, synthClauses config call clauseTexts = .ok (some (facts, edges)) := by
  induction clauseTexts with
  | nil => exact ⟨[], [], rfl⟩
  | cons c clauses ih =>
      obtain ⟨pattern, hlookup, hreplay⟩ := h c List.mem_cons_self
      obtain ⟨facts, edges, hrest⟩ := ih (fun c' hc' => h c' (List.mem_cons_of_mem _ hc'))
      obtain ⟨hfacts, hedges⟩ := replayable_iff.mp hreplay
      obtain ⟨facts', hfacts'⟩ := Option.isSome_iff_exists.mp hfacts
      obtain ⟨edges', hedges'⟩ := Option.isSome_iff_exists.mp hedges
      refine ⟨facts' ++ facts, edges' ++ edges, ?_⟩
      rw [synthClauses, hlookup]
      dsimp only
      rw [hfacts', hedges']
      dsimp only
      rw [hrest]

/-- What is returned is what the patterns of the clauses replay to. -/
structure ReplaysTo (config : ExtractorConfig) (call : ExtractCall) (clauseTexts : List String)
    (facts : List ExtractorFact) (edges : List ExtractorEdge) : Prop where
  covered : Covered config call clauseTexts
  mem_facts : ∀ f, f ∈ facts ↔ ∃ c ∈ clauseTexts, ∃ pattern, call.lookup c = .ok (some pattern) ∧
    ∃ t ∈ pattern.facts, synthFact config call c t = some f
  mem_edges : ∀ e, e ∈ edges ↔ ∃ c ∈ clauseTexts, ∃ pattern, call.lookup c = .ok (some pattern) ∧
    ∃ t ∈ pattern.edges, synthEdge call c t = some e

theorem replaysTo_of_synthClauses {facts : List ExtractorFact} {edges : List ExtractorEdge}
    (h : synthClauses config call clauseTexts = .ok (some (facts, edges))) :
    ReplaysTo config call clauseTexts facts edges := by
  induction clauseTexts generalizing facts edges with
  | nil =>
      cases h
      exact ⟨fun c hc => absurd hc List.not_mem_nil, by simp, by simp⟩
  | cons c clauses ih =>
      rw [synthClauses] at h
      split at h
      · cases h
      · cases h
      · next pattern hlookup =>
          split at h
          · next facts' edges' hfacts hedges =>
              split at h
              · next rest hrest =>
                  cases h
                  obtain ⟨hcovered, hrestFacts, hrestEdges⟩ := ih hrest
                  have hreplay : Replayable config call c pattern :=
                    replayable_iff.mpr ⟨by rw [hfacts]; rfl, by rw [hedges]; rfl⟩
                  refine ⟨List.forall_mem_cons.mpr ⟨⟨pattern, hlookup, hreplay⟩, hcovered⟩,
                    fun f => ?_, fun e => ?_⟩
                  · rw [List.mem_append, mem_mapM_iff hfacts, hrestFacts f,
                      List.exists_mem_cons_iff]
                    refine or_congr_left ⟨fun hf => ⟨pattern, hlookup, hf⟩, ?_⟩
                    rintro ⟨pattern', hlookup', hf⟩
                    cases hlookup.symm.trans hlookup'
                    exact hf
                  · rw [List.mem_append, mem_mapM_iff hedges, hrestEdges e,
                      List.exists_mem_cons_iff]
                    refine or_congr_left ⟨fun he => ⟨pattern, hlookup, he⟩, ?_⟩
                    rintro ⟨pattern', hlookup', he⟩
                    cases hlookup.symm.trans hlookup'
                    exact he
              · next hother => exact absurd h (fun heq => hother _ heq)
          · cases h

end Synth

/-! ## 4. What a strict replay is -/

section Strict

variable (config : ExtractorConfig) (call : ExtractCall) (lookups : PatternLookups config.libs call)

/-- The replay passes what the model's path checks, and was extracted before. -/
structure StrictReplay (r : ExtractorResult) : Prop where
  grounded : ∀ f ∈ r.facts, GroundedIn config call f.object
  joins : ∀ e ∈ r.edges, e.fromEntityIndex ≠ e.toEntityIndex ∧ ∃ c source target,
    e.clause = some c ∧ call.localEntities[e.fromEntityIndex]? = some source ∧
      call.localEntities[e.toEntityIndex]? = some target ∧ NamedIn config c source ∧
        NamedIn config c target
  facts_survived : ∀ f ∈ r.facts, ∃ c row, f.clause = some c ∧ lookups.seen c = .ok (some row) ∧
    ∃ ff ∈ row.extraction.result.facts, ff.clause = some row.clauseText ∧ ff.object = f.object ∧
      ff.predicate = f.predicate
  edges_survived : ∀ e ∈ r.edges, ∃ c row, e.clause = some c ∧ lookups.seen c = .ok (some row) ∧
    ∃ ee ∈ row.extraction.result.edges, ee.clause = some row.clauseText ∧
      edgeTemplate ee = edgeTemplate e

/-- What the row of a clause has to make up for. -/
structure StrictRow (c : String) (row : PatternRow config.libs) : Prop where
  /-- Each span stands in the text as a word. -/
  grounded : ∀ t ∈ row.entry.facts, GroundedIn config call t.valueSpan
  /-- The entities that now have the numbers of an edge are named in the clause. -/
  named : ∀ e ∈ row.entry.edges, ∀ en, call.localEntities[e.fromEntityIndex]? = some en ∨
    call.localEntities[e.toEntityIndex]? = some en → NamedIn config c en
  /-- Each raw fact of the clause has a surviving fact of the clause with its value, and with its
  entity number or its predicate. -/
  backed : ∀ rf ∈ row.extraction.rawFacts, rf.clauseIndex = some row.index →
    ∃ ff ∈ row.extraction.result.facts, ff.clause = some row.clauseText ∧
      ff.object = rf.valueSpan ∧ (ff.entityIndex = rf.entityIndex ∨ ff.predicate = rf.predicate)

end Strict

section Settle

variable {config : ExtractorConfig} {call : ExtractCall} {clauseTexts : List String}
  {lookups : PatternLookups config.libs call}

theorem synthClauses_of_attemptLocalSynth {r : ExtractorResult}
    (h : attemptLocalSynth config call clauseTexts = .ok (some r)) :
    ReplaysTo config call clauseTexts r.facts r.edges := by
  rw [attemptLocalSynth] at h
  split at h
  · cases h
  · cases h
  · next facts edges hsynth =>
      cases h
      exact replaysTo_of_synthClauses hsynth

theorem exists_attemptLocalSynth (h : Covered config call clauseTexts) :
    ∃ r, attemptLocalSynth config call clauseTexts = .ok (some r) := by
  obtain ⟨facts, edges, hsynth⟩ := exists_synthClauses h
  rw [attemptLocalSynth, hsynth]
  exact ⟨_, rfl⟩

theorem of_synthFact {c : String} {t : CachedFactTemplate} {f : ExtractorFact}
    (h : synthFact config call c t = some f) :
    f.predicate = t.predicate ∧ f.object = t.valueSpan ∧ f.clause = some c := by
  rw [synthFact] at h
  split at h
  · obtain ⟨_, _, rfl⟩ := Option.map_eq_some_iff.mp h
    exact ⟨rfl, rfl, rfl⟩
  · cases h

theorem of_synthEdge {c : String} {t : CachedEdgeTemplate} {e : ExtractorEdge}
    (h : synthEdge call c t = some e) :
    edgeTemplate e = t ∧ e.clause = some c ∧ e.fromEntityIndex < call.localEntities.length ∧
      e.toEntityIndex < call.localEntities.length ∧ e.fromEntityIndex ≠ e.toEntityIndex := by
  rw [synthEdge] at h
  split at h
  · cases h
  · next hgood =>
      have hbounds : t.fromEntityIndex < call.localEntities.length ∧
          t.toEntityIndex < call.localEntities.length ∧ t.fromEntityIndex ≠ t.toEntityIndex := by
        omega
      cases h
      exact ⟨rfl, rfl, hbounds⟩

/-- The row behind a pattern that a lookup returns. -/
theorem PatternLookups.exists_row {c : String} {pattern : ExtractionPatternEntry}
    (h : call.lookup c = .ok (some pattern)) :
    ∃ row, lookups.seen c = .ok (some row) ∧ row.entry = pattern := by
  rw [lookups.lookup_eq] at h
  cases hseen : lookups.seen c with
  | error e =>
      rw [hseen] at h
      cases h
  | ok row =>
      rw [hseen] at h
      cases row with
      | none => cases h
      | some row =>
          cases h
          exact ⟨row, rfl, rfl⟩

theorem PatternLookups.lookup_of_seen {c : String} {row : PatternRow config.libs}
    (h : lookups.seen c = .ok (some row)) : call.lookup c = .ok (some row.entry) := by
  rw [lookups.lookup_eq, h]
  rfl

section Row

variable {libs : ExtractorLibs} {row : PatternRow libs}

/-- The entry of a row is the entry of its clause. -/
theorem PatternRow.entry_eq (row : PatternRow libs) :
    row.entry = ⟨(row.extraction.rawFacts.filter
        (fun rf => decide (rf.clauseIndex = some row.index))).map
          (factTemplate row.extraction.result.facts row.clauseText),
      (row.extraction.result.edges.filter
        (fun e => decide (e.clause = some row.clauseText))).map edgeTemplate⟩ := by
  have hrecorded := row.recorded
  rw [clauseEntry] at hrecorded
  split at hrecorded
  · cases hrecorded
  · exact (Option.some.inj hrecorded).symm

theorem PatternRow.mem_facts {t : CachedFactTemplate} :
    t ∈ row.entry.facts ↔ ∃ rf ∈ row.extraction.rawFacts, rf.clauseIndex = some row.index ∧
      factTemplate row.extraction.result.facts row.clauseText rf = t := by
  rw [row.entry_eq, List.mem_map]
  simp only [List.mem_filter, decide_eq_true_iff, and_assoc]

theorem PatternRow.mem_edges {t : CachedEdgeTemplate} :
    t ∈ row.entry.edges ↔ ∃ e ∈ row.extraction.result.edges, e.clause = some row.clauseText ∧
      edgeTemplate e = t := by
  rw [row.entry_eq, List.mem_map]
  simp only [List.mem_filter, decide_eq_true_iff, and_assoc]

/-- What `survivor` finds. -/
theorem of_survivor {facts : List ExtractorFact} {c : String} {rf : RawExtractedFact}
    {ff : ExtractorFact} (h : survivor facts c rf = some ff) :
    ff ∈ facts ∧ ff.entityIndex = rf.entityIndex ∧ ff.object = rf.valueSpan ∧
      ff.clause = some c := by
  have hfound := List.find?_some h
  rw [Bool.and_eq_true, Bool.and_eq_true, decide_eq_true_iff, decide_eq_true_iff,
    decide_eq_true_iff] at hfound
  exact ⟨List.mem_of_find?_eq_some h, hfound.1.1, hfound.1.2, hfound.2⟩

/-- **A recorded fact survived exactly if its raw fact is backed.** -/
theorem survived_iff {facts : List ExtractorFact} {c : String} {rf : RawExtractedFact} :
    (∃ ff ∈ facts, ff.clause = some c ∧ ff.object = rf.valueSpan ∧
        ff.predicate = (factTemplate facts c rf).predicate) ↔
      ∃ ff ∈ facts, ff.clause = some c ∧ ff.object = rf.valueSpan ∧
        (ff.entityIndex = rf.entityIndex ∨ ff.predicate = rf.predicate) := by
  cases hsurvivor : survivor facts c rf with
  | some ff =>
      obtain ⟨hmem, hindex, hobject, hclause⟩ := of_survivor hsurvivor
      have hpredicate : (factTemplate facts c rf).predicate = ff.predicate := by
        rw [factTemplate, hsurvivor]
        rfl
      exact iff_of_true ⟨ff, hmem, hclause, hobject, hpredicate.symm⟩
        ⟨ff, hmem, hclause, hobject, Or.inl hindex⟩
  | none =>
      have hpredicate : (factTemplate facts c rf).predicate = rf.predicate := by
        rw [factTemplate, hsurvivor]
        rfl
      rw [hpredicate]
      constructor
      · rintro ⟨ff, hmem, hclause, hobject, heq⟩
        exact ⟨ff, hmem, hclause, hobject, Or.inr heq⟩
      · rintro ⟨ff, hmem, hclause, hobject, hindex | heq⟩
        · -- a fact with the number would have been found
          have hnone := List.find?_eq_none.mp hsurvivor ff hmem
          simp [hindex, hobject, hclause] at hnone
        · exact ⟨ff, hmem, hclause, hobject, heq⟩

end Row

/-- Strict rows make a strict replay. -/
theorem StrictReplay.of_rows {r : ExtractorResult}
    (hreplay : ReplaysTo config call clauseTexts r.facts r.edges)
    (hrows : ∀ c ∈ clauseTexts, ∀ row, lookups.seen c = .ok (some row) →
      StrictRow config call c row) : StrictReplay config call lookups r := by
  refine ⟨fun f hf => ?_, fun e he => ?_, fun f hf => ?_, fun e he => ?_⟩
  · obtain ⟨c, hc, pattern, hlookup, t, ht, hsynth⟩ := (hreplay.mem_facts f).mp hf
    obtain ⟨row, hseen, rfl⟩ := lookups.exists_row hlookup
    rw [(of_synthFact hsynth).2.1]
    exact (hrows c hc row hseen).grounded t ht
  · obtain ⟨c, hc, pattern, hlookup, t, ht, hsynth⟩ := (hreplay.mem_edges e).mp he
    obtain ⟨row, hseen, rfl⟩ := lookups.exists_row hlookup
    obtain ⟨rfl, hclause, hsource, htarget, hne⟩ := of_synthEdge hsynth
    have hnamed := (hrows c hc row hseen).named _ ht
    have hsource' := List.getElem?_eq_getElem hsource
    have htarget' := List.getElem?_eq_getElem htarget
    exact ⟨hne, c, _, _, hclause, hsource', htarget', hnamed _ (Or.inl hsource'),
      hnamed _ (Or.inr htarget')⟩
  · obtain ⟨c, hc, pattern, hlookup, t, ht, hsynth⟩ := (hreplay.mem_facts f).mp hf
    obtain ⟨row, hseen, rfl⟩ := lookups.exists_row hlookup
    obtain ⟨hpredicate, hobject, hclause⟩ := of_synthFact hsynth
    obtain ⟨rf, hrf, hindex, rfl⟩ := row.mem_facts.mp ht
    obtain ⟨ff, hff, hffclause, hffobject, hffpredicate⟩ :=
      survived_iff.mpr ((hrows c hc row hseen).backed rf hrf hindex)
    exact ⟨c, row, hclause, hseen, ff, hff, hffclause, hffobject.trans hobject.symm,
      hffpredicate.trans hpredicate.symm⟩
  · obtain ⟨c, hc, pattern, hlookup, t, ht, hsynth⟩ := (hreplay.mem_edges e).mp he
    obtain ⟨row, hseen, rfl⟩ := lookups.exists_row hlookup
    obtain ⟨htemplate, hclause, _⟩ := of_synthEdge hsynth
    obtain ⟨ee, hee, heeclause, heq⟩ := row.mem_edges.mp ht
    exact ⟨c, row, hclause, hseen, ee, hee, heeclause, heq.trans htemplate.symm⟩

/-- The rows of a strict replay are strict. -/
theorem StrictReplay.rows {r : ExtractorResult}
    (hreplay : ReplaysTo config call clauseTexts r.facts r.edges)
    (h : StrictReplay config call lookups r) {c : String} (hc : c ∈ clauseTexts)
    {row : PatternRow config.libs} (hseen : lookups.seen c = .ok (some row)) :
    StrictRow config call c row := by
  have hlookup := lookups.lookup_of_seen hseen
  obtain ⟨pattern, hlookup', hreplayable⟩ := hreplay.covered c hc
  cases hlookup.symm.trans hlookup'
  obtain ⟨hfacts, hedges⟩ := replayable_iff.mp hreplayable
  -- every template of the row is replayed
  have hfact : ∀ t ∈ row.entry.facts, ∃ f ∈ r.facts, synthFact config call c t = some f := by
    intro t ht
    obtain ⟨f, hsynth⟩ := Option.isSome_iff_exists.mp (mapM_isSome_iff.mp hfacts t ht)
    exact ⟨f, (hreplay.mem_facts f).mpr ⟨c, hc, _, hlookup, t, ht, hsynth⟩, hsynth⟩
  refine ⟨fun t ht => ?_, fun t ht en hen => ?_, fun rf hrf hindex => ?_⟩
  · obtain ⟨f, hf, hsynth⟩ := hfact t ht
    rw [← (of_synthFact hsynth).2.1]
    exact h.grounded f hf
  · obtain ⟨e, hsynth⟩ := Option.isSome_iff_exists.mp (mapM_isSome_iff.mp hedges t ht)
    obtain ⟨rfl, hclause, _⟩ := of_synthEdge hsynth
    have he := (hreplay.mem_edges e).mpr ⟨c, hc, _, hlookup, _, ht, hsynth⟩
    obtain ⟨_, c', source, target, hclause', hsource, htarget, hnamed, hnamed'⟩ := h.joins e he
    cases hclause.symm.trans hclause'
    rcases hen with hen | hen
    · cases hsource.symm.trans hen
      exact hnamed
    · cases htarget.symm.trans hen
      exact hnamed'
  · obtain ⟨f, hf, hsynth⟩ := hfact _ (row.mem_facts.mpr ⟨rf, hrf, hindex, rfl⟩)
    obtain ⟨hpredicate, hobject, hclause⟩ := of_synthFact hsynth
    obtain ⟨c', row', hclause', hseen', ff, hff, hffclause, hffobject, hffpredicate⟩ :=
      h.facts_survived f hf
    cases hclause.symm.trans hclause'
    cases hseen.symm.trans hseen'
    exact survived_iff.mp ⟨ff, hff, hffclause, hffobject.trans hobject,
      hffpredicate.trans hpredicate⟩

/-- **The path without the model is as strict as the one with it**, exactly if the rows that it
uses are strict whenever it returns a result. -/
theorem attemptLocalSynth_strict_iff (config : ExtractorConfig) (call : ExtractCall)
    (lookups : PatternLookups config.libs call) (clauseTexts : List String) :
    (∀ r, attemptLocalSynth config call clauseTexts = .ok (some r) →
        StrictReplay config call lookups r) ↔
      (Covered config call clauseTexts → ∀ c ∈ clauseTexts, ∀ row,
        lookups.seen c = .ok (some row) → StrictRow config call c row) := by
  constructor
  · intro h hcovered c hc row hseen
    obtain ⟨r, hr⟩ := exists_attemptLocalSynth hcovered
    exact StrictReplay.rows (synthClauses_of_attemptLocalSynth hr) (h r hr) hc hseen
  · intro h r hr
    have hreplay := synthClauses_of_attemptLocalSynth hr
    exact StrictReplay.of_rows hreplay (h hreplay.covered)

end Settle

/-! ## 5. A value inside a word -/

/-- A reply with a value that stands in the text only inside a longer word. -/
def actReply : JsonExtraction where
  entities := [{ name := some "Anna", type := some "staff" }]
  facts := [{ entityIndex := some 0, clauseIndex := some 0, predicate := some "status",
              valueSpan := some "act" }]
  clauses := [some "Anna is active"]

/-- The gate drops the fact. -/
def actExtraction : Extraction asciiLibs where
  config := { libs := asciiLibs }
  trimmed := "Anna is active"
  services := silentServices
  rawJson := actReply
  result := { entities := [{ name := "Anna", type := "staff" }], facts := [], edges := [] }
  config_libs := rfl
  assembled := rfl

/-- The recorder keeps it. -/
def actRow : PatternRow asciiLibs where
  extraction := actExtraction
  index := 0
  clauseText := "Anna is active"
  entry := ⟨[⟨"status", "act", 1 / 2⟩], []⟩
  clause_eq := rfl
  recorded := rfl

/-- The same text again. -/
def actCall : ExtractCall where
  text := "Anna is active"
  companyId := "acme"
  versionHash := "1"
  localEntities := [⟨"Anna", "PER"⟩]
  lookup c := .ok ((lookupPattern asciiLibs (loadFresh asciiLibs
    (rowsAfter asciiLibs [(actRow, true)])) c).map PatternRow.entry)
  reply _ := .ok none
  services _ := silentServices

def actLookups : PatternLookups asciiLibs actCall where
  seen c := .ok (lookupPattern asciiLibs (loadFresh asciiLibs
    (rowsAfter asciiLibs [(actRow, true)])) c)
  lookup_eq _ := rfl
  stored _ _ h := ⟨_, Except.ok.inj h⟩

theorem normaliseClause_active :
    normaliseClause asciiLibs "Anna is active" = "anna is active" := by decide +kernel

theorem normaliseClause_lower :
    normaliseClause asciiLibs "anna is active" = "anna is active" := by decide +kernel

theorem actLookups_seen : actLookups.seen "Anna is active" = .ok (some actRow) := by
  refine congrArg Except.ok (lookupPattern_singleton ?_ ?_)
  · show (normaliseClause asciiLibs "Anna is active").isEmpty = false
    rw [normaliseClause_active]
    decide
  · show normaliseClause asciiLibs (normaliseClause asciiLibs "Anna is active") = _
    rw [normaliseClause_active, normaliseClause_lower]

theorem covered_actCall : Covered { libs := asciiLibs } actCall ["Anna is active"] := by
  intro c hc
  rw [List.mem_singleton.mp hc]
  have hlookup := @PatternLookups.lookup_of_seen { libs := asciiLibs } actCall actLookups
    "Anna is active" actRow actLookups_seen
  refine ⟨actRow.entry, hlookup,
    ⟨fun t ht => ?_, fun _ => ?_, fun e he => absurd he List.not_mem_nil⟩⟩
  · rw [List.mem_singleton.mp ht]
    decide +kernel
  · exact ⟨⟨"Anna", "PER"⟩, List.mem_singleton_self _, by
      show includes _ _ = true
      decide +kernel⟩

/-- The dropped fact is replayed. -/
theorem attemptLocalSynth_replays_dropped :
    ¬ ∀ r, attemptLocalSynth { libs := asciiLibs } actCall ["Anna is active"] = .ok (some r) →
      StrictReplay { libs := asciiLibs } actCall actLookups r := by
  intro h
  obtain ⟨r, hr⟩ := exists_attemptLocalSynth covered_actCall
  have hrow := StrictReplay.rows (synthClauses_of_attemptLocalSynth hr) (h r hr)
    (List.mem_singleton_self _) actLookups_seen
  have hgrounded := hrow.grounded ⟨"status", "act", 1 / 2⟩ (List.mem_singleton_self _)
  rw [GroundedIn] at hgrounded
  exact absurd hgrounded (by decide +kernel)

end Brain.LocalSynth
