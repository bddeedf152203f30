/-
The entity-shaped read tools and resources of `src/src/mcp/mcp.service.ts`, and what
they tell a caller without `brain:read_pii` about the objects of gated facts.

The profile and the timeline forward the caller's scopes and drop gated facts. The
other three do not know who is asking: `get_competing_facts`, `detect_contradiction`
and `memory_diff` read over the root pool and show what they list. So a call tells
nothing exactly when it lists no gated fact (`respond_reword_iff`).
-/
import Brain.Diff.MemoryDiff
import Brain.Ingest.Predictor
import Brain.Search.Rewording

set_option autoImplicit false

namespace Brain

open IngestPrediction

/-- What the tools run with. -/
structure McpEnv where
  js : JsMath
  cfg : IngestConfig
  now : Time
  entityClause : EntityClause

/-- A call of a tool, or a read of a resource. -/
inductive McpRead where
  | get_entity_profile (entityId : EntityId) (asOf : Option Time)
  | get_entity_timeline (entityId : EntityId) (since until_ : Option Time)
  | get_competing_facts (entityId : EntityId) (predicate : Option String) (asOf : Option Time)
  | detect_contradiction (args : PredictResolveArgs)
  | memory_diff (args : MemoryDiffArgs)
  | entityProfileResource (entityId : EntityId)
  | entityTimelineResource (entityId : EntityId)

/-- The `structuredContent` of the response, which is what its text serialises. -/
inductive McpContent where
  | profile (result : Except HttpError EntityProfile)
  | timeline (events : List TimelineEvent)
  | competing (result : ListCompetingResult)
  | prediction (result : PredictResolveResult)
  | diff (result : Except String MemoryDiffResult)

/-- The handlers that `buildServer` registers for a caller with these scopes. -/
def McpRead.respond (env : McpEnv) (db : TenantDb) (scopes : List BrainScope) :
    McpRead → McpContent
  | .get_entity_profile entityId asOf => .profile (getProfile db.toStore entityId asOf scopes)
  | .get_entity_timeline entityId since until_ =>
      .timeline (getTimeline db.toStore entityId since until_ scopes)
  | .get_competing_facts entityId predicate asOf =>
      .competing (listCompeting db.toStore entityId predicate asOf)
  | .detect_contradiction args => .prediction (predict env.js env.cfg env.now db.toStore args)
  | .memory_diff args => .diff (memoryDiff env.entityClause db args)
  | .entityProfileResource entityId => .profile (getProfile db.toStore entityId none scopes)
  | .entityTimelineResource entityId =>
      .timeline (getTimeline db.toStore entityId none none scopes)

/-! ## Other texts -/

/-- The object of a gated fact is replaced. -/
def rewordFact (objects : FactId → String) (i : FactId) (f : KnowledgeFact) : KnowledgeFact :=
  if isGated f.predicate then { f with object := objects i } else f

/-- The same in the whole table. -/
def TenantDb.reword (objects : FactId → String) (db : TenantDb) : TenantDb :=
  { db with facts := db.facts.mapRows (rewordFact objects) }

/-- The call lists a gated fact. -/
def McpRead.ListsGated (env : McpEnv) (db : TenantDb) : McpRead → Prop
  | .get_competing_facts entityId predicate asOf =>
      ∃ i f, db.facts.get? i = some f ∧ isGated f.predicate = true ∧
        competingWhere entityId predicate asOf f = true
  | .detect_contradiction args =>
      isGated args.predicate = true ∧ ∃ e, lookupEntity db.toStore args.entityRef = some e ∧
        if candidateScore env.js env.cfg.conflict env.now args < env.cfg.conflict.rejectThreshold
        then priors db.toStore (e, args.predicate) ≠ []
        else (env.cfg.policyFor args.predicate).semantics ≠ .append_only ∧
          overlapping db.toStore (e, args.predicate) args ≠ []
  | .memory_diff args =>
      ∃ from_ to_, args.from_ = some from_ ∧ args.to_ = some to_ ∧ from_ < to_ ∧
        ∃ i f, db.facts.get? i = some f ∧ isGated f.predicate = true ∧
          DiffLists env.entityClause db args from_ to_ i f
  | _ => False

section Reworded

variable {objects : FactId → String} {db : TenantDb} {i : FactId} {f : KnowledgeFact}
  {l l' : List (FactId × KnowledgeFact)}

theorem reworded_rewordFact (objects : FactId → String) (i : FactId) (f : KnowledgeFact) :
    Reworded f (rewordFact objects i f) := by
  unfold rewordFact
  by_cases hg : isGated f.predicate = true
  · rw [if_pos hg]
    exact ⟨objects i, rfl, fun h => absurd hg (by rw [h]; decide)⟩
  · rw [if_neg hg]
    exact ⟨f.object, rfl, fun _ => rfl⟩

theorem rewordedStore_reword (objects : FactId → String) (db : TenantDb) :
    RewordedStore db.toStore (db.reword objects).toStore := by
  refine ⟨?_, rfl⟩
  show List.Forall₂ RewordedEntry db.facts.rows
    (db.facts.rows.map (fun q => (q.1, rewordFact objects q.1 q.2)))
  rw [List.forall₂_map_right_iff, List.forall₂_same]
  exact fun q _ => ⟨rfl, reworded_rewordFact objects q.1 q.2⟩

theorem get?_reword (objects : FactId → String) (db : TenantDb) (i : FactId) :
    (db.reword objects).facts.get? i = (db.facts.get? i).map (rewordFact objects i) :=
  KeyedTable.get?_mapRows ..

/-- Rows that ask for no scope are the same in both. -/
theorem eq_of_ungated (h : List.Forall₂ RewordedEntry l l')
    (hrows : ∀ q ∈ l, isGated q.2.predicate = false) : l' = l := by
  induction h with
  | nil => rfl
  | @cons p q l l' hpq _ ih =>
      obtain ⟨j, g⟩ := q
      obtain ⟨hid, object, heq, hobject⟩ := hpq
      have hp := hrows p List.mem_cons_self
      simp only at hid heq
      rw [ih (fun q hq => hrows q (List.mem_cons_of_mem p hq)), heq, hobject hp, ← hid]

theorem competingRows_rel (objects : FactId → String) (db : TenantDb) (entityId : EntityId)
    (predicate : Option String) (asOf : Option Time) :
    List.Forall₂ RewordedEntry (competingRows db.facts entityId predicate asOf)
      (competingRows (db.reword objects).facts entityId predicate asOf) :=
  rewordedEntry_filter (fun _ _ _ => rfl)
    (rewordedEntry_order (fun _ _ _ _ _ _ => Iff.rfl) (rewordedStore_reword objects db).facts)

theorem priors_rel (objects : FactId → String) (db : TenantDb) (key : FactKey) :
    List.Forall₂ RewordedEntry (priors db.toStore key) (priors (db.reword objects).toStore key) := by
  refine List.forall₂_take _ (rewordedEntry_order (fun _ _ _ _ _ _ => Iff.rfl) ?_)
  exact rewordedEntry_filter (fun _ _ _ => rfl) (rewordedStore_reword objects db).facts

theorem overlapping_rel (objects : FactId → String) (db : TenantDb) (key : FactKey)
    (args : PredictResolveArgs) :
    List.Forall₂ RewordedEntry (overlapping db.toStore key args)
      (overlapping (db.reword objects).toStore key args) :=
  rewordedEntry_filter (fun _ _ _ => rfl) (priors_rel objects db key)

theorem createdRows_rel (objects : FactId → String) (db : TenantDb) (entityClause : EntityClause)
    (args : MemoryDiffArgs) (from_ to_ : Time) :
    List.Forall₂ RewordedEntry (createdRows entityClause db.facts args from_ to_)
      (createdRows entityClause (db.reword objects).facts args from_ to_) :=
  rewordedEntry_filter (fun _ _ _ => rfl)
    (rewordedEntry_order (fun _ _ _ _ _ _ => Iff.rfl) (rewordedStore_reword objects db).facts)

theorem retractedRows_rel (objects : FactId → String) (db : TenantDb) (entityClause : EntityClause)
    (args : MemoryDiffArgs) (from_ to_ : Time) :
    List.Forall₂ RewordedEntry (retractedRows entityClause db.facts args from_ to_)
      (retractedRows entityClause (db.reword objects).facts args from_ to_) :=
  rewordedEntry_filter (fun _ _ _ => rfl)
    (rewordedEntry_order (fun _ _ _ _ _ _ => Iff.rfl) (rewordedStore_reword objects db).facts)

end Reworded

/-! ## Calls that list no gated fact -/

section Quiet

variable {objects : FactId → String} {env : McpEnv} {db : TenantDb}

theorem listCompeting_reword {entityId : EntityId} {predicate : Option String} {asOf : Option Time}
    (h : ¬ (McpRead.get_competing_facts entityId predicate asOf).ListsGated env db) :
    listCompeting (db.reword objects).toStore entityId predicate asOf
      = listCompeting db.toStore entityId predicate asOf := by
  have hrows : competingRows (db.reword objects).facts entityId predicate asOf
      = competingRows db.facts entityId predicate asOf := by
    refine eq_of_ungated (competingRows_rel objects db entityId predicate asOf) ?_
    rintro ⟨i, f⟩ hq
    obtain ⟨hmem, hwhere⟩ := List.mem_filter.mp hq
    rw [List.mem_insertionSort] at hmem
    by_contra hg
    exact h ⟨i, f, KeyedTable.mem_rows_iff.mp hmem, by simpa using hg, hwhere⟩
  unfold listCompeting
  rw [hrows]

/-- The facts that the dry run weighs are of the predicate that is asked about. -/
theorem predicate_of_mem_priors {s : Store} {e : EntityId} {predicate : String}
    {q : FactId × KnowledgeFact} (h : q ∈ priors s (e, predicate)) :
    s.facts.get? q.1 = some q.2 ∧ q.2.predicate = predicate := by
  have hmem := List.mem_of_mem_take h
  rw [List.mem_insertionSort, Store.mem_activeOn] at hmem
  exact ⟨hmem.1, congrArg Prod.snd hmem.2.1⟩

theorem eq_nil_of_rel {l l' : List (FactId × KnowledgeFact)} (h : List.Forall₂ RewordedEntry l l')
    (hl : l = []) : l' = [] := by
  rw [hl] at h
  exact List.forall₂_nil_left_iff.mp h

theorem predict_reword {args : PredictResolveArgs}
    (h : ¬ (McpRead.detect_contradiction args).ListsGated env db) :
    predict env.js env.cfg env.now (db.reword objects).toStore args
      = predict env.js env.cfg env.now db.toStore args := by
  have hlookup : lookupEntity (db.reword objects).toStore args.entityRef
      = lookupEntity db.toStore args.entityRef := rfl
  unfold predict
  rw [hlookup]
  cases hentity : lookupEntity db.toStore args.entityRef with
  | none => rfl
  | some e =>
      dsimp only
      have hpriors := priors_rel objects db (e, args.predicate)
      have hoverlap := overlapping_rel objects db (e, args.predicate) args
      by_cases hg : isGated args.predicate = true
      · -- the call lists nothing, before and after
        have hnot : ¬ (if candidateScore env.js env.cfg.conflict env.now args
              < env.cfg.conflict.rejectThreshold
            then priors db.toStore (e, args.predicate) ≠ []
            else (env.cfg.policyFor args.predicate).semantics ≠ .append_only ∧
              overlapping db.toStore (e, args.predicate) args ≠ []) :=
          fun hlists => h ⟨hg, e, hentity, hlists⟩
        split
        · next hreject =>
            rw [if_pos hreject, not_not] at hnot
            rw [hnot, eq_nil_of_rel hpriors hnot]
        · next hreject =>
            rw [if_neg hreject, not_and, not_not] at hnot
            split
            · rfl
            · next happend =>
                rw [hnot happend, eq_nil_of_rel hoverlap (hnot happend)]
      · -- no fact of the predicate has been reworded
        have hungated : ∀ q ∈ priors db.toStore (e, args.predicate), isGated q.2.predicate = false := by
          intro q hq
          rw [(predicate_of_mem_priors hq).2]
          simpa using hg
        rw [eq_of_ungated hpriors hungated,
          eq_of_ungated hoverlap (fun q hq => hungated q (List.mem_filter.mp hq).1)]

theorem diffWindow_reword {args : MemoryDiffArgs} {from_ to_ : Time}
    (h : ∀ i f, db.facts.get? i = some f → isGated f.predicate = true →
      ¬ DiffLists env.entityClause db args from_ to_ i f) :
    diffWindow env.entityClause (db.reword objects) args from_ to_
      = diffWindow env.entityClause db args from_ to_ := by
  have hcreated : createdRows env.entityClause (db.reword objects).facts args from_ to_
      = createdRows env.entityClause db.facts args from_ to_ := by
    refine eq_of_ungated (createdRows_rel objects db env.entityClause args from_ to_) ?_
    intro q hq
    obtain ⟨hget, hwhere⟩ := mem_createdRows.mp hq
    by_contra hg
    exact h q.1 q.2 hget (by simpa using hg) (Or.inl hwhere)
  have hretracted : retractedRows env.entityClause (db.reword objects).facts args from_ to_
      = retractedRows env.entityClause db.facts args from_ to_ := by
    refine eq_of_ungated (retractedRows_rel objects db env.entityClause args from_ to_) ?_
    intro q hq
    obtain ⟨hget, hwhere⟩ := mem_retractedRows.mp hq
    by_contra hg
    exact h q.1 q.2 hget (by simpa using hg) (Or.inr (Or.inl hwhere))
  -- nor is a successor reworded
  have hchanged : (retractedRows env.entityClause db.facts args from_ to_).filterMap
        (changedFact (db.reword objects).facts)
      = (retractedRows env.entityClause db.facts args from_ to_).filterMap
        (changedFact db.facts) := by
    apply List.filterMap_congr
    intro q hq
    obtain ⟨hget, hwhere⟩ := mem_retractedRows.mp hq
    unfold changedFact
    cases hw : q.2.supersededBy with
    | none => rfl
    | some w =>
        have hafter : (db.reword objects).facts.get? w = db.facts.get? w := by
          rw [get?_reword]
          cases hf : db.facts.get? w with
          | none => rfl
          | some f =>
              have hlists : DiffLists env.entityClause db args from_ to_ w f :=
                Or.inr (Or.inr ⟨q.1, q.2, hget, hwhere, hw⟩)
              have hg : ¬ isGated f.predicate = true := fun hg => h w f hf hg hlists
              rw [Option.map_some, rewordFact, if_neg hg]
        rw [Option.map_some, Option.map_some, hafter]
  unfold diffWindow
  dsimp only
  rw [hcreated, hretracted, hchanged]
  rfl

theorem memoryDiff_reword {args : MemoryDiffArgs}
    (h : ¬ (McpRead.memory_diff args).ListsGated env db) :
    memoryDiff env.entityClause (db.reword objects) args = memoryDiff env.entityClause db args := by
  unfold memoryDiff
  split
  · next from_ to_ hfrom hto =>
      split
      · rfl
      · next hlt =>
          rw [diffWindow_reword (fun i f hf hg hlists =>
            h ⟨from_, to_, hfrom, hto, not_le.mp hlt, i, f, hf, hg, hlists⟩)]
  · rfl

end Quiet

/-! ## Calls that list one -/

/-- The texts of facts in a response of the tools that do not ask for scopes. -/
def McpContent.texts : McpContent → List (FactId × String)
  | .competing r => r.groups.flatMap (fun g => g.facts.map (fun x => (x.factId, x.object)))
  | .prediction r => r.opposingFacts.map (fun x => (x.factId, x.object))
  | .diff (.ok r) => r.facts.map (fun x => (x.factId, x.object))
  | _ => []

section Telling

variable {env : McpEnv} {db : TenantDb} {scopes : List BrainScope} {i : FactId} {o : String}

/-- The text is that of a stored fact. -/
def StoredText (db : TenantDb) (x : FactId × String) : Prop :=
  ∃ f, db.facts.get? x.1 = some f ∧ f.object = x.2

theorem storedText_listCompeting {entityId : EntityId} {predicate : Option String}
    {asOf : Option Time} {x : FactId × String}
    (h : x ∈ (McpContent.competing (listCompeting db.toStore entityId predicate asOf)).texts) :
    StoredText db x := by
  obtain ⟨g, hg, hx⟩ := List.mem_flatMap.mp h
  obtain ⟨r, hr, rfl⟩ := List.mem_map.mp hx
  obtain ⟨facts, hfacts, rfl⟩ := List.mem_map.mp hg
  obtain ⟨⟨i, f⟩, hq, rfl⟩ := List.mem_map.mp (Grouping.mem_of_mem_groups hfacts hr)
  have hmem := (List.mem_filter.mp hq).1
  rw [List.mem_insertionSort] at hmem
  exact ⟨f, KeyedTable.mem_rows_iff.mp hmem, rfl⟩

theorem mem_texts_listCompeting {entityId : EntityId} {predicate : Option String}
    {asOf : Option Time} {f : KnowledgeFact} (hf : db.facts.get? i = some f)
    (hwhere : competingWhere entityId predicate asOf f = true) :
    (i, f.object)
      ∈ (McpContent.competing (listCompeting db.toStore entityId predicate asOf)).texts := by
  have hrow : toCompetingFactRecord (i, f)
      ∈ (competingRows db.facts entityId predicate asOf).map toCompetingFactRecord := by
    refine List.mem_map_of_mem (List.mem_filter.mpr ⟨?_, hwhere⟩)
    rw [List.mem_insertionSort]
    exact KeyedTable.mem_rows_iff.mpr hf
  obtain ⟨facts, hfacts, hmem⟩ := Grouping.exists_mem_groups
    (fun r : CompetingFactRecord => (r.entityId, r.predicate)) hrow
  exact List.mem_flatMap.mpr ⟨_, List.mem_map_of_mem hfacts, List.mem_map.mpr ⟨_, hmem, rfl⟩⟩

/-- An opposing fact is one of the 25 newest of the predicate. -/
theorem opposing_of_mem {args : PredictResolveArgs} {x : OpposingFact}
    (h : x ∈ (predict env.js env.cfg env.now db.toStore args).opposingFacts) :
    ∃ e q, q ∈ priors db.toStore (e, args.predicate) ∧ x = rowToOpposingFact q := by
  unfold predict at h
  cases hentity : lookupEntity db.toStore args.entityRef with
  | none =>
      rw [hentity] at h
      exact absurd h List.not_mem_nil
  | some e =>
      rw [hentity] at h
      dsimp only at h
      have hover : ∀ q ∈ overlapping db.toStore (e, args.predicate) args,
          q ∈ priors db.toStore (e, args.predicate) := fun q hq => (List.mem_filter.mp hq).1
      split at h
      · obtain ⟨q, hq, rfl⟩ := List.mem_map.mp h
        exact ⟨e, q, hq, rfl⟩
      · split at h
        · exact absurd h List.not_mem_nil
        · split at h
          · exact absurd h List.not_mem_nil
          · next q l hrows =>
              rw [hrows] at hover
              split at h
              · -- one value at a time: the rows in the order of their scores
                have hsorted : x ∈ (((q :: l).map (scoreSingle env.js env.cfg.conflict
                    env.now)).insertionSort (fun a b => b.score ≤ a.score)).map Scored.opposing := by
                  unfold predictSingleActive at h
                  dsimp only at h
                  split at h
                  · exact h
                  · exact h
                obtain ⟨y, hy, rfl⟩ := List.mem_map.mp hsorted
                rw [List.mem_insertionSort] at hy
                obtain ⟨q', hq', rfl⟩ := List.mem_map.mp hy
                exact ⟨e, q', hover q' hq', rfl⟩
              · have hscored : ∀ y ∈ scoreBitemporal env.js env.cfg.conflict env.now
                    (env.cfg.embed (args.predicate ++ ": " ++ args.object)) (q :: l),
                    ∃ e q, q ∈ priors db.toStore (e, args.predicate) ∧
                      y.opposing = rowToOpposingFact q := by
                  intro y hy
                  obtain ⟨q', hq', rfl⟩ := List.mem_map.mp hy
                  exact ⟨e, q', hover q' hq', rfl⟩
                split at h
                · obtain ⟨y, hy, rfl⟩ := List.mem_map.mp h
                  exact hscored y hy
                · next c cs hsimilar =>
                    have hclose : x ∈ (c :: cs).map Scored.opposing := by
                      unfold predictBitemporal at h
                      dsimp only at h
                      split at h
                      · exact h
                      · exact h
                    obtain ⟨y, hy, rfl⟩ := List.mem_map.mp hclose
                    rw [← hsimilar] at hy
                    exact hscored y (List.mem_filter.mp hy).1

/-- A dry run that weighs the candidate against something shows what. -/
theorem exists_opposing {args : PredictResolveArgs} {e : EntityId}
    (hentity : lookupEntity db.toStore args.entityRef = some e)
    (h : if candidateScore env.js env.cfg.conflict env.now args < env.cfg.conflict.rejectThreshold
      then priors db.toStore (e, args.predicate) ≠ []
      else (env.cfg.policyFor args.predicate).semantics ≠ .append_only ∧
        overlapping db.toStore (e, args.predicate) args ≠ []) :
    ∃ x, x ∈ (predict env.js env.cfg env.now db.toStore args).opposingFacts := by
  apply List.exists_mem_of_ne_nil
  unfold predict
  rw [hentity]
  dsimp only
  split at h
  · next hreject =>
      rw [if_pos hreject]
      simpa using h
  · next hreject =>
      rw [if_neg hreject, if_neg h.1]
      split
      · next hnil => exact absurd hnil h.2
      · next q l hrows =>
          split
          · have hsorted : (((q :: l).map (scoreSingle env.js env.cfg.conflict
                env.now)).insertionSort (fun a b => b.score ≤ a.score)).map Scored.opposing ≠ [] := by
              rw [Ne, List.map_eq_nil_iff, ← List.length_eq_zero_iff, List.length_insertionSort,
                List.length_map]
              exact Nat.succ_ne_zero _
            unfold predictSingleActive
            dsimp only
            split
            · exact hsorted
            · exact hsorted
          · split
            · exact List.cons_ne_nil _ _
            · unfold predictBitemporal
              dsimp only
              split
              · exact List.cons_ne_nil _ _
              · exact List.cons_ne_nil _ _

/-- Whatever text is shown is stored. -/
theorem storedText_of_mem_texts {call : McpRead} {x : FactId × String}
    (h : x ∈ (call.respond env db scopes).texts) : StoredText db x := by
  cases call with
  | get_entity_profile => exact absurd h List.not_mem_nil
  | get_entity_timeline => exact absurd h List.not_mem_nil
  | get_competing_facts => exact storedText_listCompeting h
  | detect_contradiction args =>
      obtain ⟨r, hr, rfl⟩ := List.mem_map.mp h
      obtain ⟨e, q, hq, rfl⟩ := opposing_of_mem hr
      exact ⟨q.2, (predicate_of_mem_priors hq).1, rfl⟩
  | memory_diff args =>
      unfold McpRead.respond memoryDiff at h
      dsimp only at h
      split at h
      · split at h
        · exact absurd h List.not_mem_nil
        · obtain ⟨r, hr, rfl⟩ := List.mem_map.mp h
          obtain ⟨f, hf, heq⟩ := stored_of_mem_facts hr
          refine ⟨f, hf, ?_⟩
          show f.object = r.object
          rw [heq]
          rfl
      · exact absurd h List.not_mem_nil
  | entityProfileResource => exact absurd h List.not_mem_nil
  | entityTimelineResource => exact absurd h List.not_mem_nil

/-- A call that lists a gated fact shows its text. -/
theorem exists_gated_text {call : McpRead} (h : call.ListsGated env db) :
    ∃ i f, db.facts.get? i = some f ∧ isGated f.predicate = true ∧
      (i, f.object) ∈ (call.respond env db scopes).texts := by
  cases call with
  | get_entity_profile => cases h
  | get_entity_timeline => cases h
  | get_competing_facts =>
      obtain ⟨i, f, hf, hg, hwhere⟩ := h
      exact ⟨i, f, hf, hg, mem_texts_listCompeting hf hwhere⟩
  | detect_contradiction args =>
      obtain ⟨hg, e, hentity, hlists⟩ := h
      obtain ⟨x, hx⟩ := exists_opposing hentity hlists
      obtain ⟨e', q, hq, rfl⟩ := opposing_of_mem hx
      obtain ⟨hget, hpred⟩ := predicate_of_mem_priors hq
      exact ⟨q.1, q.2, hget, hpred ▸ hg, List.mem_map.mpr ⟨_, hx, rfl⟩⟩
  | memory_diff args =>
      obtain ⟨from_, to_, hfrom, hto, hlt, i, f, hf, hg, hlists⟩ := h
      refine ⟨i, f, hf, hg, ?_⟩
      unfold McpRead.respond memoryDiff
      dsimp only
      rw [hfrom, hto]
      dsimp only
      rw [if_neg (not_le.mpr hlt)]
      exact List.mem_map.mpr ⟨_, mem_facts_of_lists hf hlists, rfl⟩
  | entityProfileResource => cases h
  | entityTimelineResource => cases h

end Telling

/-! ## When a call tells nothing -/

/-- **What the entity tools tell.** To a caller without `brain:read_pii`, the response
is the same whatever the objects of gated facts are exactly when the call lists no
gated fact. -/
theorem respond_reword_iff (env : McpEnv) (db : TenantDb) (scopes : List BrainScope)
    (hscopes : .read_pii ∉ scopes) (call : McpRead) :
    (∀ objects, call.respond env (db.reword objects) scopes = call.respond env db scopes) ↔
      ¬ call.ListsGated env db := by
  constructor
  · intro h hlists
    obtain ⟨i, f, hf, hg, htext⟩ := exists_gated_text hlists
    -- with a longer text the response is another one
    rw [← h (fun _ => f.object ++ "x")] at htext
    obtain ⟨f', hf', hobject⟩ := storedText_of_mem_texts htext
    rw [get?_reword, hf, Option.map_some, Option.some.injEq] at hf'
    have hlen := congrArg String.length (hf'.symm ▸ hobject)
    simp [rewordFact, hg] at hlen
  · intro h objects
    have hstore := rewordedStore_reword objects db
    cases call with
    | get_entity_profile entityId asOf =>
        exact congrArg McpContent.profile (getProfile_reworded hstore hscopes entityId asOf)
    | get_entity_timeline entityId since until_ =>
        exact congrArg McpContent.timeline
          (getTimeline_reworded hstore hscopes entityId since until_)
    | get_competing_facts => exact congrArg McpContent.competing (listCompeting_reword h)
    | detect_contradiction => exact congrArg McpContent.prediction (predict_reword h)
    | memory_diff => exact congrArg McpContent.diff (memoryDiff_reword h)
    | entityProfileResource entityId =>
        exact congrArg McpContent.profile (getProfile_reworded hstore hscopes entityId none)
    | entityTimelineResource entityId =>
        exact congrArg McpContent.timeline (getTimeline_reworded hstore hscopes entityId none none)

/-- The tools for the example. -/
def plainMcpEnv : McpEnv where
  js := .atRecording
  cfg := .uniform .single_active
  now := 0
  entityClause _ _ := false

/-- A tenant with one address. -/
def addressTenant : TenantDb :=
  { toStore := ingestAll .atRecording .empty [addressFrom 0] }

/-- What has changed since the epoch. -/
def diffSinceEpoch : McpRead := .memory_diff { from_ := some 0, to_ := some 10 }

/-- The theorem above for that diff. -/
theorem respond_reword_iff_address :
    (∀ objects, diffSinceEpoch.respond plainMcpEnv (addressTenant.reword objects) [.read]
        = diffSinceEpoch.respond plainMcpEnv addressTenant [.read]) ↔
      ¬ diffSinceEpoch.ListsGated plainMcpEnv addressTenant :=
  respond_reword_iff plainMcpEnv addressTenant [.read] (by decide) diffSinceEpoch

/-- The diff tells the address. -/
theorem address_told_by_diff :
    ¬ ∀ (env : McpEnv) (db : TenantDb) (scopes : List BrainScope), .read_pii ∉ scopes →
      ∀ (call : McpRead) (objects : FactId → String),
        call.respond env (db.reword objects) scopes = call.respond env db scopes := by
  intro h
  have heq := congrArg McpContent.texts
    (h plainMcpEnv addressTenant [.read] (by decide) diffSinceEpoch (fun _ => "Paris"))
  revert heq
  decide +kernel

end Brain
