/-
Texts that are made of other texts.

The operations of a tenant are put together with the service calls that feed it
(`MemoryOp`), and a summary is followed through all of them: its sources stay in the
table, no operation changes what a summary says of them, and so the text of a summary
is at every point what the concatenating generator writes of its sources
(`derivedTexts_of_memoryReaches`).
-/
import Brain.Facts.TenantLife

set_option autoImplicit false

namespace Brain

/-! ## Operations on the memory of a tenant -/

/-- The operations of a tenant together with the service calls that feed it. -/
inductive MemoryOp where
  | tenant (op : TenantOp)
  | ingestFact (cfg : IngestConfig) (env : DbEnv) (dto : IngestFactDto)
  /-- The language tag that the extraction of a mention gives to a fact. -/
  | tagFact (factId : FactId) (lang : Option String)
  /-- What mentions, links and merges write to the entity tables. -/
  | writeEntities (entities : KeyedTable KnowledgeEntity)
      (externalRefs : List (String × EntityId))

/-- The store after an operation. -/
def execMemory (fns : SurrealFns) (s : Store) : MemoryOp → Store
  | .tenant op => execTenant fns s op
  | .ingestFact cfg env dto => (ingestFact cfg env s dto).2
  | .tagFact factId lang =>
      { s with facts := s.facts.update factId (fun f => { f with lang := lang }) }
  | .writeEntities entities externalRefs =>
      { s with entities := entities, externalRefs := externalRefs }

/-- The stores that operations which each meet `C` lead to from the empty one. -/
abbrev MemoryReaches (fns : SurrealFns) (C : Store → MemoryOp → Prop) (s : Store) : Prop :=
  Runs.Reached (execMemory fns) C Store.empty s

/-- Compaction writes its summaries with the concatenating generator. -/
def MemoryOp.Concatenates (day : Time → String) : MemoryOp → Prop
  | .tenant (.compact cfg _) => cfg.generate = ConcatSummaryGenerator day
  | .tenant (.compactFails cfg _ _) => cfg.generate = ConcatSummaryGenerator day
  | _ => True

/-- The groups that a compaction run gets to summarize are of predicates in `G`. -/
def MemoryOp.SummarizesOnly (G : String → Prop) (s : Store) : MemoryOp → Prop
  | .tenant (.compact cfg now) =>
      ∀ group ∈ summarizedGroups cfg (compactionCandidates cfg now s.facts),
        ∀ q ∈ group, G q.2.predicate
  | .tenant (.compactFails cfg now n) =>
      ∀ group ∈ (summarizedGroups cfg (compactionCandidates cfg now s.facts)).take n,
        ∀ q ∈ group, G q.2.predicate
  | _ => True

/-- Which is no condition when all predicates are. -/
theorem summarizesOnly_true (s : Store) (op : MemoryOp) :
    op.SummarizesOnly (fun _ => True) s := by
  unfold MemoryOp.SummarizesOnly
  split
  · exact fun _ _ _ _ => trivial
  · exact fun _ _ _ _ => trivial
  · trivial

/-! ## Summaries written anew -/

/-- What the concatenating generator writes of the facts `ids`. -/
def summaryText (day : Time → String) (t : KeyedTable KnowledgeFact) (ids : List FactId) : String :=
  ConcatSummaryGenerator day
    (ids.filterMap (fun d => (t.get? d).map (fun g => factToSummarize (d, g))))

/-- `f'` still has the columns of `f` that a summary reads, and its sources. -/
structure KeepsText (f f' : KnowledgeFact) : Prop where
  predicate : f'.predicate = f.predicate
  object : f'.object = f.object
  validFrom : f'.validFrom = f.validFrom
  derivedFrom : f'.derivedFrom = f.derivedFrom

theorem KeepsText.refl (f : KnowledgeFact) : KeepsText f f := ⟨rfl, rfl, rfl, rfl⟩

theorem KeepsText.trans {f g h : KnowledgeFact} (hfg : KeepsText f g) (hgh : KeepsText g h) :
    KeepsText f h :=
  ⟨hgh.predicate.trans hfg.predicate, hgh.object.trans hfg.object,
    hgh.validFrom.trans hfg.validFrom, hgh.derivedFrom.trans hfg.derivedFrom⟩

section Texts

variable {G : String → Prop} {day : Time → String} {t t' : KeyedTable KnowledgeFact} {i : FactId}
  {f : KnowledgeFact}

/-- The generator reads three columns. -/
theorem summaryText_congr {ids : List FactId}
    (h : ∀ d ∈ ids, ∃ g g', t.get? d = some g ∧ t'.get? d = some g' ∧
      g'.predicate = g.predicate ∧ g'.object = g.object ∧ g'.validFrom = g.validFrom) :
    summaryText day t' ids = summaryText day t ids := by
  unfold summaryText ConcatSummaryGenerator
  simp only [List.map_filterMap, Option.map_map]
  have hparts : ∀ d ∈ ids,
      (t'.get? d).map ((fun f => "[" ++ day f.validFrom ++ "] " ++ f.predicate ++ ": " ++ f.object) ∘
          fun g => factToSummarize (d, g))
        = (t.get? d).map ((fun f => "[" ++ day f.validFrom ++ "] " ++ f.predicate ++ ": "
            ++ f.object) ∘ fun g => factToSummarize (d, g)) := by
    intro d hd
    obtain ⟨g, g', hg, hg', hpred, hobj, hfrom⟩ := h d hd
    rw [hg, hg', Option.map_some, Option.map_some]
    simp only [Function.comp_apply, factToSummarize, hpred, hobj, hfrom]
  rw [List.filterMap_congr hparts]

/-- A row is what the generator writes of its sources. These are older, all of one
predicate in `G`, and the row's own predicate is named after it. -/
structure DerivedRow (G : String → Prop) (day : Time → String) (t : KeyedTable KnowledgeFact)
    (i : FactId) (f : KnowledgeFact) : Prop where
  text : f.object = summaryText day t f.derivedFrom
  sources : ∃ p, G p ∧ f.predicate = "summary_" ++ p ∧
    ∀ d ∈ f.derivedFrom, d < i ∧ ∃ g, t.get? d = some g ∧ g.predicate = p

/-- Every row with sources is derived from them. -/
def DerivedTexts (G : String → Prop) (day : Time → String) (t : KeyedTable KnowledgeFact) : Prop :=
  ∀ i f, t.get? i = some f → f.derivedFrom ≠ [] → DerivedRow G day t i f

/-- A derived row stays so while the rows of the table keep their texts. -/
theorem DerivedRow.mono (h : DerivedRow G day t i f)
    (hkeep : ∀ i f, t.get? i = some f → ∃ f', t'.get? i = some f' ∧ KeepsText f f') :
    DerivedRow G day t' i f := by
  obtain ⟨p, hp, hname, hsources⟩ := h.sources
  refine ⟨?_, p, hp, hname, fun d hd => ?_⟩
  · rw [h.text]
    refine (summaryText_congr (fun d hd => ?_)).symm
    obtain ⟨_, g, hg, _⟩ := hsources d hd
    obtain ⟨g', hg', hkept⟩ := hkeep d g hg
    exact ⟨g, g', hg, hg', hkept.predicate, hkept.object, hkept.validFrom⟩
  · obtain ⟨hlt, g, hg, hgp⟩ := hsources d hd
    obtain ⟨g', hg', hkept⟩ := hkeep d g hg
    exact ⟨hlt, g', hg', hkept.predicate.trans hgp⟩

/-- **Step rule.** The texts stay derived when old rows keep theirs and new rows are
derived from old ones. -/
theorem DerivedTexts.step (h : DerivedTexts G day t)
    (hkeep : ∀ i f, t.get? i = some f → ∃ f', t'.get? i = some f' ∧ KeepsText f f')
    (hnew : ∀ i f', t'.get? i = some f' → t.get? i = none → f'.derivedFrom ≠ [] →
      DerivedRow G day t i f') : DerivedTexts G day t' := by
  intro i f' hf' hne
  cases hf : t.get? i with
  | none => exact (hnew i f' hf' hf hne).mono hkeep
  | some f =>
      obtain ⟨f'', hf'', hkept⟩ := hkeep i f hf
      rw [hf'] at hf''
      rw [← Option.some.inj hf''] at hkept
      have hrow := (h i f hf (hkept.derivedFrom ▸ hne)).mono hkeep
      refine ⟨?_, ?_⟩
      · rw [hkept.object, hkept.derivedFrom]
        exact hrow.text
      · rw [hkept.derivedFrom, hkept.predicate]
        exact hrow.sources

/-- In particular when there are no new rows. -/
theorem DerivedTexts.of_rel (h : DerivedTexts G day t)
    (hrel : ∀ i, Option.Rel KeepsText (t.get? i) (t'.get? i)) : DerivedTexts G day t' := by
  apply h.step
  · intro i f hf
    have hi := hrel i
    rw [hf] at hi
    cases hi' : t'.get? i with
    | none =>
        rw [hi'] at hi
        cases hi
    | some f' =>
        rw [hi'] at hi
        cases hi with
        | some hkept => exact ⟨f', rfl, hkept⟩
  · intro i f' hf' hf _
    have hi := hrel i
    rw [hf, hf'] at hi
    cases hi

end Texts

/-! ## Every operation keeps the texts derived -/

section Invariant

variable {fns : SurrealFns} {G : String → Prop} {day : Time → String} {s : Store}

/-- A call of the resolver writes no text but that of its new row. -/
theorem DerivedTexts.afterResolve (h : DerivedTexts G day s.facts) (fns : SurrealFns) (env : DbEnv)
    (a : ResolveArgs) : DerivedTexts G day (afterResolve fns env s a).facts := by
  apply h.step
  · intro i f hf
    rcases afterResolve_cases fns env s a with
      ⟨hfacts, _⟩ | ⟨c, _, hfacts, _⟩ | ⟨c, _, _, hfacts, _⟩
    · exact ⟨f, by rw [hfacts, hf], .refl f⟩
    · rw [hfacts, get?_settledFacts_of_get? hf]
      refine ⟨_, rfl, ?_⟩
      unfold settleRow
      split <;> exact ⟨rfl, rfl, rfl, rfl⟩
    · rw [hfacts, get?_contestedFacts_of_get? hf]
      refine ⟨_, rfl, ?_⟩
      unfold contestRow
      split <;> exact ⟨rfl, rfl, rfl, rfl⟩
  · -- the new row has no sources
    intro i f' hf' hnone hne
    have hrows : ∀ i f, (Brain.afterResolve fns env s a).facts.get? i = some f →
        s.facts.get? i = none → f.derivedFrom = [] := by
      apply afterResolve_rows (P := fun i f => s.facts.get? i = none → f.derivedFrom = [])
      · intro i f hf hnone
        rw [hf] at hnone
        cases hnone
      · exact fun c _ => ⟨fun _ => rfl, fun _ _ => rfl⟩
      · exact fun i f _ hf hnone => hf hnone
      · exact fun i f _ _ hf hnone => hf hnone
    exact absurd (hrows i f' hf' hnone) hne

/-- A retract writes no text. -/
theorem DerivedTexts.interruptedRetract (h : DerivedTexts G day s.facts) (now : Time)
    (root : FactId) (dto : RetractFactDto) (callerScopes : Option (List BrainScope)) (n : ℕ) :
    DerivedTexts G day (interruptedRetract s now root dto callerScopes n).facts := by
  have hupdates : ∀ u ∈ retractUpdates s now root dto callerScopes, ∀ f, KeepsText f (u.2 f) := by
    intro u hu f
    unfold retractUpdates at hu
    split at hu
    · cases hu
    · split at hu
      · cases hu
      · rcases List.mem_append.mp hu with hu | hu
        · obtain ⟨j, _, rfl⟩ := List.mem_map.mp hu
          exact ⟨rfl, rfl, rfl, rfl⟩
        · rcases List.mem_cons.mp hu with rfl | hu
          · exact ⟨rfl, rfl, rfl, rfl⟩
          · obtain ⟨c, _, rfl⟩ := List.mem_map.mp hu
            exact ⟨rfl, rfl, rfl, rfl⟩
  apply h.of_rel
  exact KeyedTable.rel_get?_execAll_updates KeepsText.refl (fun _ _ _ hab hbc => hab.trans hbc)
    (fun u hu => hupdates u (List.mem_of_mem_take hu)) s.facts

/-- What a compaction run writes is derived. -/
theorem DerivedTexts.interruptedCompact (h : DerivedTexts G day s.facts) {cfg : CompactionConfig}
    (hconcat : cfg.generate = ConcatSummaryGenerator day) {now : Time} {n : ℕ}
    (honly : ∀ group ∈ (summarizedGroups cfg (compactionCandidates cfg now s.facts)).take n,
      ∀ q ∈ group, G q.2.predicate) :
    DerivedTexts G day (interruptedCompact cfg now n s).facts := by
  apply h.step
  · intro i f hf
    rcases get?_interruptedCompact cfg now n hf with hf' | ⟨_, hf'⟩
    · exact ⟨f, hf', .refl f⟩
    · exact ⟨compactRow f, hf', rfl, rfl, rfl, rfl⟩
  · intro i f' hf' hnone _
    rcases interruptedCompact_row_cases hf' with hf | ⟨f, hf, _⟩ | ⟨hle, hmem⟩
    · rw [hf] at hnone
      cases hnone
    · rw [hf] at hnone
      cases hnone
    · obtain ⟨group, htake, hsum⟩ := exists_group_of_mem_summaryRows (List.mem_of_getElem? hmem)
      have hgroup := List.mem_of_mem_take htake
      have hrows : ∀ q ∈ group, s.facts.get? q.1 = some q.2 := fun q hq =>
        (mem_compactionCandidates (mem_of_mem_summarizedGroups hgroup hq)).1
      obtain ⟨first, last, c, hfirst, _, _, hrow, _⟩ := summaryOf_eq_some hsum
      refine ⟨?_, first.2.predicate, honly group htake first hfirst, ?_, fun d hd => ?_⟩
      · -- the generator was given the very rows that the sources are looked up to
        have hlook : ∀ q ∈ group.insertionSort byValidFrom,
            (s.facts.get? q.1).map (fun g => factToSummarize (q.1, g)) = some (factToSummarize q) := by
          intro q hq
          rw [hrows q ((List.mem_insertionSort byValidFrom).mp hq), Option.map_some]
        rw [hrow]
        show cfg.generate ((group.insertionSort byValidFrom).map factToSummarize)
          = summaryText day s.facts ((group.insertionSort byValidFrom).map Prod.fst)
        rw [hconcat, summaryText, List.filterMap_map, ← List.filterMap_eq_map]
        exact congrArg _ (List.filterMap_congr hlook).symm
      · rw [hrow]
        rfl
      · obtain ⟨q, hq, rfl⟩ := (mem_derivedFrom_summaryOf_iff hsum).mp hd
        exact ⟨Nat.lt_of_lt_of_le (KeyedTable.get?_lt_next (hrows q hq)) hle, q.2, hrows q hq,
          congrArg Prod.snd (key_eq_of_mem_summarizedGroups hgroup hq hfirst)⟩

/-- Rewrites that keep every row's text keep the texts derived. -/
theorem DerivedTexts.modify (h : DerivedTexts G day s.facts)
    {p : FactId → KnowledgeFact → Bool} {g : KnowledgeFact → KnowledgeFact}
    (hg : ∀ f, KeepsText f (g f)) : DerivedTexts G day (s.facts.modify p g) := by
  apply h.of_rel
  intro i
  rw [KeyedTable.get?_modify]
  cases s.facts.get? i with
  | none => exact Option.Rel.none
  | some f =>
      refine Option.Rel.some ?_
      dsimp only
      split
      · exact hg f
      · exact .refl f

/-- A request writes no text but that of its new row. -/
theorem DerivedTexts.ingestFact (h : DerivedTexts G day s.facts) (cfg : IngestConfig) (env : DbEnv)
    (dto : IngestFactDto) : DerivedTexts G day (ingestFact cfg env s dto).2.facts := by
  have hsubject : DerivedTexts G day (resolveOrCreateEntity s dto.entityRef).2.facts := by
    rw [facts_resolveOrCreateEntity]
    exact h
  unfold Brain.ingestFact
  split
  · exact h
  · unfold ingestResolve
    dsimp only
    have hresolved := hsubject.afterResolve cfg.fns env
      (dto.resolveArgs cfg (resolveOrCreateEntity s dto.entityRef).1)
    unfold Brain.afterResolve at hresolved
    cases hres : resolveFact cfg.fns env (resolveOrCreateEntity s dto.entityRef).2
        (dto.resolveArgs cfg (resolveOrCreateEntity s dto.entityRef).1) with
    | error e => exact hsubject
    | ok p =>
        obtain ⟨r, s'⟩ := p
        rw [hres] at hresolved
        have hresolved : DerivedTexts G day s'.facts := hresolved
        show DerivedTexts G day (tagLanguage cfg r dto.object s').facts
        unfold tagLanguage
        split
        · exact hresolved.modify (fun f => ⟨rfl, rfl, rfl, rfl⟩)
        · exact hresolved

/-- Every operation that writes summaries with the concatenating generator, and of
predicates in `G`, keeps the texts derived. -/
theorem DerivedTexts.execMemory (h : DerivedTexts G day s.facts) {op : MemoryOp}
    (hconcat : op.Concatenates day) (honly : op.SummarizesOnly G s) :
    DerivedTexts G day (execMemory fns s op).facts := by
  cases op with
  | tenant op =>
      cases op with
      | fact op =>
          cases op with
          | ingest env a => exact h.afterResolve fns env a
          | retract now root dto callerScopes =>
              show DerivedTexts G day (afterRetract s now root dto callerScopes).facts
              rw [afterRetract_eq_interrupted]
              exact h.interruptedRetract now root dto callerScopes _
          | dreams judge cfg now =>
              show DerivedTexts G day (execOp fns s (.dreams judge cfg now)).facts
              rw [execOp_dreams]
              exact h
      | retractFails now root dto callerScopes n =>
          exact h.interruptedRetract now root dto callerScopes n
      | compact cfg now =>
          show DerivedTexts G day (afterCompact cfg now s).facts
          rw [afterCompact_eq_interrupted]
          exact h.interruptedCompact hconcat
            (fun group hgroup => honly group (List.mem_of_mem_take hgroup))
      | compactFails cfg now n => exact h.interruptedCompact hconcat honly
      | reindex embed reached => exact h.modify (fun f => ⟨rfl, rfl, rfl, rfl⟩)
  | ingestFact cfg env dto => exact h.ingestFact cfg env dto
  | tagFact factId lang => exact h.modify (fun f => ⟨rfl, rfl, rfl, rfl⟩)
  | writeEntities entities externalRefs => exact h

/-- **The texts are derived in every store that is reached.** -/
theorem derivedTexts_of_memoryReaches
    (h : MemoryReaches fns (fun s op => op.Concatenates day ∧ op.SummarizesOnly G s) s) :
    DerivedTexts G day s.facts :=
  h.invariant (P := fun s => DerivedTexts G day s.facts) (fun i f hf => by cases hf)
    (fun s op hs hop => hs.execMemory hop.1 hop.2)

end Invariant

end Brain
