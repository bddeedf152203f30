/-
`src/src/compaction/compaction.service.ts` and `summary-generator.ts`: the daily
pass over the facts past the retention window. It selects the candidates, creates
a summary fact for every group of two or more (when that is switched on), and
marks the originals `'compacted'`.

The three steps are separate calls of the database. `compactStatements` lists the
writes of a run in their order, `compactCompany_store` says that a run is its
writes, and a run that fails on the way leaves a prefix of them
(`interruptedCompact`).

The two places where the query text and its bindings leave the comparison open
(the `d$cutoff` literal and the record ids that are bound as strings) are read the
way the comments read them: earlier than the cutoff, and one of the candidates.
-/
import Brain.Lib.Grouping
import Brain.Lib.Statements
import Brain.Dreams.Resolver

set_option autoImplicit false

namespace Brain

/-! ## Generators -/

/-- `FactToSummarize`. -/
structure FactToSummarize where
  factId : FactId
  predicate : String
  object : String
  validFrom : Time
  validUntil : Option Time
  confidence : Confidence

/-- `SummaryGenerator`. -/
abbrev SummaryGenerator := List FactToSummarize → String

/-- `ConcatSummaryGenerator.generate`; `day` is the date part of an ISO string.
Lengths are counted in characters here, and in UTF-16 units in the source. -/
def ConcatSummaryGenerator (day : Time → String) : SummaryGenerator := fun group =>
  let parts := group.map (fun f => "[" ++ day f.validFrom ++ "] " ++ f.predicate ++ ": " ++ f.object)
  let text := " | ".intercalate parts
  if text.length ≤ 8000 then text else String.ofList (text.toList.take 7997) ++ "..."

/-! ## The service -/

/-- What the constructor reads; it throws unless the window is positive. -/
structure CompactionConfig where
  hotRetentionDays : ℤ
  positive : 1 ≤ hotRetentionDays
  summariesEnabled : Bool
  generate : SummaryGenerator

theorem one_le_ninety : (1 : ℤ) ≤ 90 := by decide

/-- The default window, with summaries by the default generator. -/
def CompactionConfig.concat : CompactionConfig where
  hotRetentionDays := 90
  positive := one_le_ninety
  summariesEnabled := true
  generate := ConcatSummaryGenerator (fun _ => "1970-01-01")

/-- `CompactionStats`, less the company. -/
structure CompactionStats where
  factsCompacted : ℕ := 0
  summariesCreated : ℕ := 0
  bytesFreed : ℕ := 0
deriving DecidableEq, Repr

/-- A `CandidateFactRow`. -/
abbrev CandidateFactRow := FactId × KnowledgeFact

def CompactionConfig.cutoff (cfg : CompactionConfig) (now : Time) : Time :=
  now - cfg.hotRetentionDays * 24 * 60 * 60 * 1000

/-- The `WHERE` of the candidate query. -/
def isCompactable (cutoff : Time) (f : KnowledgeFact) : Bool :=
  f.status != .compacted && f.embedding.isSome &&
    (f.validUntil.any (fun u => decide (u < cutoff)) ||
      f.retractedAt.any (fun r => decide (r < cutoff)))

/-- `ORDER BY validFrom ASC`. -/
def byValidFrom (p q : CandidateFactRow) : Prop := p.2.validFrom ≤ q.2.validFrom

instance : DecidableRel byValidFrom := fun p q =>
  inferInstanceAs (Decidable (p.2.validFrom ≤ q.2.validFrom))

/-- The candidates of a run: at most a thousand, the earliest ones. -/
def compactionCandidates (cfg : CompactionConfig) (now : Time) (t : KeyedTable KnowledgeFact) :
    List CandidateFactRow :=
  ((t.select (fun _ f => isCompactable (cfg.cutoff now) f)).insertionSort byValidFrom).take 1000

/-- The groups of `createSummaries`. -/
def candidateGroups (rows : List CandidateFactRow) : List (List CandidateFactRow) :=
  Grouping.groups (fun q => q.2.key) rows

/-- What the generator is given of a candidate. -/
def factToSummarize (q : CandidateFactRow) : FactToSummarize where
  factId := q.1
  predicate := q.2.predicate
  object := q.2.object
  validFrom := q.2.validFrom
  validUntil := q.2.validUntil
  confidence := q.2.confidence

/-- `meanConfidence`. -/
def meanConfidence (sorted : List CandidateFactRow) : ℚ :=
  (sorted.map (fun q => q.2.confidence.1)).sum / sorted.length

/-- The summary fact of a group: `first` and `last` are its ends, `text` is what
the generator wrote. It is created without an embedding. -/
def summaryRow (now : Time) (first last : KnowledgeFact) (ids : List FactId) (text : String)
    (confidence : Confidence) : KnowledgeFact where
  entityId := first.entityId
  predicate := "summary_" ++ first.predicate
  object := text
  confidence := confidence
  validFrom := first.validFrom
  validUntil := some (last.validUntil.getD last.validFrom)
  recordedAt := now
  source := { kind := some "compaction-summary" }
  derivedFrom := ids
  status := .active

/-- What happens to one group: nothing, an ASSERT that fails, or a summary. -/
def summarize (cfg : CompactionConfig) (now : Time) (group : List CandidateFactRow) :
    Except DbError (Option KnowledgeFact) :=
  let sorted := group.insertionSort byValidFrom
  match sorted with
  | first :: second :: rest =>
      let text := cfg.generate (sorted.map factToSummarize)
      if text.isEmpty then .ok none
      else
        match assertConfidence (meanConfidence sorted) with
        | none => .error (.assertFailed "confidence")
        | some c => .ok (some (summaryRow now first.2
            (((second :: rest).getLast (List.cons_ne_nil _ _)).2) (sorted.map Prod.fst) text c))
  | _ => .ok none

/-- `createSummaries`: the number of summaries or what was thrown, and the facts
as they are then. -/
def createSummaries (cfg : CompactionConfig) (now : Time) :
    List (List CandidateFactRow) → KeyedTable KnowledgeFact → ℕ →
      Except DbError ℕ × KeyedTable KnowledgeFact
  | [], t, created => (.ok created, t)
  | group :: groups, t, created =>
      match summarize cfg now group with
      | .error e => (.error e, t)
      | .ok none => createSummaries cfg now groups t created
      | .ok (some r) => createSummaries cfg now groups (t.insert r) (created + 1)

/-- The SET on a compacted original. -/
def compactRow (f : KnowledgeFact) : KnowledgeFact :=
  { f with status := .compacted, embedding := none }

/-- `id INSIDE $ids`. -/
def isInside (ids : List FactId) (i : FactId) (_ : KnowledgeFact) : Bool := ids.contains i

/-- `compactCompany`, executed at `now`. -/
def compactCompany (cfg : CompactionConfig) (now : Time) (s : Store) :
    Except DbError CompactionStats × Store :=
  let rows := compactionCandidates cfg now s.facts
  if rows.isEmpty then (.ok {}, s)
  else
    let summaries :=
      if cfg.summariesEnabled then createSummaries cfg now (candidateGroups rows) s.facts 0
      else (.ok 0, s.facts)
    match summaries with
    | (.error e, t) => (.error e, { s with facts := t })
    | (.ok created, t) =>
        (.ok { factsCompacted := rows.length, summariesCreated := created,
               bytesFreed := rows.length * 6 * 1024 },
          { s with facts := t.modify (isInside (rows.map Prod.fst)) compactRow })

/-! ## The writes of a run -/

/-- The summary of a group, if it gets one. -/
def summaryOf (cfg : CompactionConfig) (now : Time) (group : List CandidateFactRow) :
    Option KnowledgeFact :=
  match summarize cfg now group with
  | .error _ => none
  | .ok r => r

/-- Whether a group gets a summary: it has two members, and the generator finds
something to say. -/
def summarizes (cfg : CompactionConfig) (group : List CandidateFactRow) : Bool :=
  decide (2 ≤ group.length) &&
    !(cfg.generate ((group.insertionSort byValidFrom).map factToSummarize)).isEmpty

/-- The groups of the candidates `rows` that get a summary, in the order in which
the run comes to them. -/
def summarizedGroups (cfg : CompactionConfig) (rows : List CandidateFactRow) :
    List (List CandidateFactRow) :=
  if cfg.summariesEnabled then (candidateGroups rows).filter (summarizes cfg) else []

/-- The summaries that a run creates for its candidates, in their order. -/
def summaryRows (cfg : CompactionConfig) (now : Time) (rows : List CandidateFactRow) :
    List KnowledgeFact :=
  if cfg.summariesEnabled then (candidateGroups rows).filterMap (summaryOf cfg now) else []

/-- The writes of a run, in the order in which it makes them. -/
def compactStatements (cfg : CompactionConfig) (now : Time) (t : KeyedTable KnowledgeFact) :
    List (KeyedTable.Statement KnowledgeFact) :=
  let rows := compactionCandidates cfg now t
  if rows.isEmpty then []
  else
    (summaryRows cfg now rows).map .create ++
      [.updateWhere (isInside (rows.map Prod.fst)) compactRow]

/-- The store after a run. -/
def afterCompact (cfg : CompactionConfig) (now : Time) (s : Store) : Store :=
  (compactCompany cfg now s).2

/-- The store that a run leaves which fails after `n` of its writes. -/
def interruptedCompact (cfg : CompactionConfig) (now : Time) (n : ℕ) (s : Store) : Store :=
  { s with facts := s.facts.execAll ((compactStatements cfg now s.facts).take n) }

section Spec

variable {cfg : CompactionConfig} {now : Time} {s : Store} {t : KeyedTable KnowledgeFact}
  {group : List CandidateFactRow}

/-- **The mean of confidences is a confidence.** -/
theorem meanConfidence_mem {group : List CandidateFactRow} (h : group ≠ []) :
    0 ≤ meanConfidence group ∧ meanConfidence group ≤ 1 := by
  have hpos : (0 : ℚ) < group.length := by
    exact_mod_cast List.length_pos_iff.mpr h
  have hnonneg : 0 ≤ (group.map (fun q => q.2.confidence.1)).sum := by
    apply List.sum_nonneg
    intro x hx
    obtain ⟨q, _, rfl⟩ := List.mem_map.mp hx
    exact q.2.confidence.2.1
  have hle : (group.map (fun q => q.2.confidence.1)).sum ≤ group.length := by
    have hcard := List.sum_le_card_nsmul (group.map (fun q => q.2.confidence.1)) 1 (by
      intro x hx
      obtain ⟨q, _, rfl⟩ := List.mem_map.mp hx
      exact q.2.confidence.2.2)
    simpa using hcard
  rw [meanConfidence]
  exact ⟨div_nonneg hnonneg hpos.le, (div_le_one hpos).mpr hle⟩

/-- So the ASSERT on a summary's confidence holds. -/
theorem summarize_eq_ok (cfg : CompactionConfig) (now : Time) (group : List CandidateFactRow) :
    summarize cfg now group = .ok (summaryOf cfg now group) := by
  have hok : ∃ r, summarize cfg now group = .ok r := by
    unfold summarize
    dsimp only
    split
    · next first second rest hsorted =>
        split
        · exact ⟨none, rfl⟩
        · have hne : group.insertionSort byValidFrom ≠ [] := by
            rw [hsorted]
            exact List.cons_ne_nil _ _
          have hmean := meanConfidence_mem hne
          rw [assertConfidence, dif_pos hmean]
          exact ⟨_, rfl⟩
    · exact ⟨none, rfl⟩
  obtain ⟨r, hr⟩ := hok
  rw [summaryOf, hr]

/-- What is known of a summary: it is made of two or more members of its group,
all of one key, and nothing but the generator's text is in it that is not theirs. -/
theorem summaryOf_eq_some {r : KnowledgeFact} (h : summaryOf cfg now group = some r) :
    ∃ first last c, first ∈ group ∧ last ∈ group ∧ 2 ≤ group.length ∧
      r = summaryRow now first.2 last.2 ((group.insertionSort byValidFrom).map Prod.fst)
        (cfg.generate ((group.insertionSort byValidFrom).map factToSummarize)) c ∧
      (cfg.generate ((group.insertionSort byValidFrom).map factToSummarize)).isEmpty = false := by
  have hok := summarize_eq_ok cfg now group
  rw [h] at hok
  unfold summarize at hok
  dsimp only at hok
  have hmem : ∀ q, q ∈ group.insertionSort byValidFrom ↔ q ∈ group := fun q =>
    List.mem_insertionSort byValidFrom
  have hlen := List.length_insertionSort byValidFrom group
  split at hok
  · next first second rest hsorted =>
      split at hok
      · cases hok
      · next htext =>
          split at hok
          · cases hok
          · next c hc =>
              rw [hsorted] at hmem hlen ⊢
              refine ⟨first, (second :: rest).getLast (List.cons_ne_nil _ _), c, ?_, ?_, ?_, ?_, ?_⟩
              · exact (hmem _).mp List.mem_cons_self
              · exact (hmem _).mp (List.mem_cons_of_mem _ (List.getLast_mem _))
              · rw [List.length_cons, List.length_cons] at hlen
                omega
              · rw [hsorted] at hok
                exact (Option.some.inj (Except.ok.inj hok)).symm
              · rw [hsorted] at htext
                simpa using htext
  · cases hok

/-- A group gets a summary exactly when `summarizes` says so. -/
theorem isSome_summaryOf (cfg : CompactionConfig) (now : Time) (group : List CandidateFactRow) :
    (summaryOf cfg now group).isSome = summarizes cfg group := by
  have hok := summarize_eq_ok cfg now group
  have hlen := List.length_insertionSort byValidFrom group
  unfold summarize at hok
  dsimp only at hok
  rw [summarizes, ← hlen]
  split at hok
  · next first second rest hsorted =>
      rw [hsorted] at hok ⊢
      by_cases htext : (cfg.generate ((first :: second :: rest).map factToSummarize)).isEmpty = true
      · rw [if_pos htext] at hok
        rw [← Except.ok.inj hok, htext]
        simp
      · rw [if_neg htext] at hok
        split at hok
        · cases hok
        · rw [← Except.ok.inj hok, Bool.eq_false_of_not_eq_true htext]
          simp
  · next hshort =>
      rw [← Except.ok.inj hok]
      rcases hl : group.insertionSort byValidFrom with _ | ⟨p, _ | ⟨q, l⟩⟩
      · rfl
      · rfl
      · exact absurd hl (hshort p q l)

/-- The summaries of a run are those of its summarized groups. -/
theorem summaryRows_eq (cfg : CompactionConfig) (now : Time) (rows : List CandidateFactRow) :
    summaryRows cfg now rows = (summarizedGroups cfg rows).filterMap (summaryOf cfg now) := by
  unfold summaryRows summarizedGroups
  split
  · rw [List.filterMap_filter]
    apply List.filterMap_congr
    intro group _
    rw [← isSome_summaryOf cfg now]
    cases summaryOf cfg now group <;> rfl
  · rfl

theorem isSome_summaryOf_of_mem (now : Time) {rows : List CandidateFactRow}
    (h : group ∈ summarizedGroups cfg rows) : ∃ r, summaryOf cfg now group = some r := by
  rw [← Option.isSome_iff_exists, isSome_summaryOf]
  unfold summarizedGroups at h
  split at h
  · exact (List.mem_filter.mp h).2
  · cases h

/-- Each summarized group gets its own summary. -/
theorem take_summaryRows (cfg : CompactionConfig) (now : Time) (rows : List CandidateFactRow)
    (n : ℕ) :
    (summaryRows cfg now rows).take n
      = ((summarizedGroups cfg rows).take n).filterMap (summaryOf cfg now) := by
  have hall : ∀ group ∈ summarizedGroups cfg rows, (summaryOf cfg now group).isSome = true :=
    fun group hgroup => Option.isSome_iff_exists.mpr (isSome_summaryOf_of_mem now hgroup)
  rw [summaryRows_eq]
  exact KeyedTable.take_filterMap_of_isSome hall n

/-- A summary is made of a group. -/
theorem exists_group_of_mem_summaryRows {rows : List CandidateFactRow} {n : ℕ} {r : KnowledgeFact}
    (hr : r ∈ (summaryRows cfg now rows).take n) :
    ∃ group ∈ (summarizedGroups cfg rows).take n, summaryOf cfg now group = some r := by
  rw [take_summaryRows] at hr
  exact List.mem_filterMap.mp hr

/-- What a summary derives from is its group. -/
theorem mem_derivedFrom_summaryOf_iff {r : KnowledgeFact} (hr : summaryOf cfg now group = some r)
    {d : FactId} : d ∈ r.derivedFrom ↔ ∃ q ∈ group, q.1 = d := by
  obtain ⟨first, last, c, _, _, _, rfl, _⟩ := summaryOf_eq_some hr
  rw [summaryRow, List.mem_map]
  simp only [List.mem_insertionSort]

/-- A member of a summarized group is a candidate. -/
theorem mem_of_mem_summarizedGroups {rows : List CandidateFactRow}
    (hgroup : group ∈ summarizedGroups cfg rows) {q : CandidateFactRow} (hq : q ∈ group) :
    q ∈ rows := by
  unfold summarizedGroups at hgroup
  split at hgroup
  · exact Grouping.mem_of_mem_groups (List.mem_filter.mp hgroup).1 hq
  · cases hgroup

/-- The members of a summarized group are of one entity and one predicate. -/
theorem key_eq_of_mem_summarizedGroups {rows : List CandidateFactRow}
    (hgroup : group ∈ summarizedGroups cfg rows) {q r : CandidateFactRow} (hq : q ∈ group)
    (hr : r ∈ group) : q.2.key = r.2.key := by
  unfold summarizedGroups at hgroup
  split at hgroup
  · exact Grouping.key_eq_of_mem_groups (List.mem_filter.mp hgroup).1 hq hr
  · cases hgroup

/-- The members of a summary are candidates of its run. -/
theorem mem_candidates_of_mem_derivedFrom {rows : List CandidateFactRow} {n : ℕ}
    {r : KnowledgeFact} (hr : r ∈ (summaryRows cfg now rows).take n) {d : FactId}
    (hd : d ∈ r.derivedFrom) : ∃ q ∈ rows, q.1 = d := by
  obtain ⟨group, hgroup, hsum⟩ := exists_group_of_mem_summaryRows hr
  obtain ⟨q, hq, rfl⟩ := (mem_derivedFrom_summaryOf_iff hsum).mp hd
  exact ⟨q, mem_of_mem_summarizedGroups (List.mem_of_mem_take hgroup) hq, rfl⟩

/-- The columns of a summary that do not depend on its group. -/
theorem summary_columns {rows : List CandidateFactRow} {n : ℕ} {r : KnowledgeFact}
    (hr : r ∈ (summaryRows cfg now rows).take n) :
    r.status = .active ∧ r.retractedAt = none ∧ r.supersededBy = none ∧ r.embedding = none := by
  obtain ⟨group, _, hsum⟩ := exists_group_of_mem_summaryRows hr
  obtain ⟨first, last, c, _, _, _, rfl, _⟩ := summaryOf_eq_some hsum
  exact ⟨rfl, rfl, rfl, rfl⟩

/-- A candidate is a row of the table that is past the window. -/
theorem mem_compactionCandidates {q : CandidateFactRow} (h : q ∈ compactionCandidates cfg now t) :
    t.get? q.1 = some q.2 ∧ isCompactable (cfg.cutoff now) q.2 = true := by
  have hq := List.mem_of_mem_take h
  rw [List.mem_insertionSort] at hq
  exact KeyedTable.mem_select.mp hq

theorem nodup_compactionCandidates :
    ((compactionCandidates cfg now t).map Prod.fst).Nodup := by
  have hperm := (List.perm_insertionSort byValidFrom
    (t.select (fun _ f => isCompactable (cfg.cutoff now) f))).map Prod.fst
  have hnd := hperm.nodup_iff.mpr (KeyedTable.nodup_select _ _)
  exact hnd.sublist ((List.take_sublist _ _).map Prod.fst)

/-- The loop over the groups does not throw, and creates their summaries. -/
theorem createSummaries_eq (groups : List (List CandidateFactRow)) :
    ∀ t created, createSummaries cfg now groups t created
      = (.ok (created + (groups.filterMap (summaryOf cfg now)).length),
          t.execAll ((groups.filterMap (summaryOf cfg now)).map .create)) := by
  induction groups with
  | nil => exact fun t created => rfl
  | cons group groups ih =>
      intro t created
      rw [createSummaries, summarize_eq_ok]
      -- a group that is too small is skipped, and the count stays
      cases hr : summaryOf cfg now group with
      | none => rw [List.filterMap_cons_none hr]; exact ih t created
      | some r =>
          dsimp only
          rw [List.filterMap_cons_some hr, ih, List.length_cons, List.map_cons,
            KeyedTable.execAll_cons]
          have hcount : created + 1 + (groups.filterMap (summaryOf cfg now)).length
              = created + ((groups.filterMap (summaryOf cfg now)).length + 1) := by omega
          rw [hcount]
          rfl

/-- **A run does not throw, and is its writes.** -/
theorem compactCompany_eq (cfg : CompactionConfig) (now : Time) (s : Store) :
    compactCompany cfg now s
      = (.ok { factsCompacted := (compactionCandidates cfg now s.facts).length
               summariesCreated :=
                 (summaryRows cfg now (compactionCandidates cfg now s.facts)).length
               bytesFreed := (compactionCandidates cfg now s.facts).length * 6 * 1024 },
          { s with facts := s.facts.execAll (compactStatements cfg now s.facts) }) := by
  unfold compactCompany compactStatements
  dsimp only
  by_cases hnil : (compactionCandidates cfg now s.facts).isEmpty = true
  · rw [if_pos hnil, if_pos hnil, List.isEmpty_iff.mp hnil]
    simp [summaryRows, candidateGroups, Grouping.groups]
  · rw [if_neg hnil, if_neg hnil, KeyedTable.execAll_append]
    by_cases hon : cfg.summariesEnabled = true
    · rw [if_pos hon, createSummaries_eq]
      simp only [summaryRows, if_pos hon, Nat.zero_add]
      rfl
    · rw [if_neg hon]
      simp only [summaryRows, if_neg hon]
      rfl

theorem afterCompact_eq (cfg : CompactionConfig) (now : Time) (s : Store) :
    afterCompact cfg now s
      = { s with facts := s.facts.execAll (compactStatements cfg now s.facts) } := by
  rw [afterCompact, compactCompany_eq]

/-- The run that fails after its last write has done everything. -/
theorem interruptedCompact_of_length_le {n : ℕ}
    (h : (compactStatements cfg now s.facts).length ≤ n) :
    interruptedCompact cfg now n s = afterCompact cfg now s := by
  rw [interruptedCompact, List.take_of_length_le h, afterCompact_eq]

theorem afterCompact_eq_interrupted (cfg : CompactionConfig) (now : Time) (s : Store) :
    afterCompact cfg now s
      = interruptedCompact cfg now (compactStatements cfg now s.facts).length s :=
  (interruptedCompact_of_length_le (le_refl _)).symm

/-- A run with candidates at the point where it fails: some summaries, and the
mark when `n` reaches past them all. -/
theorem facts_interruptedCompact {n : ℕ}
    (hrows : (compactionCandidates cfg now s.facts).isEmpty = false) :
    (interruptedCompact cfg now n s).facts
      = if (summaryRows cfg now (compactionCandidates cfg now s.facts)).length < n then
          (s.facts.execAll ((summaryRows cfg now (compactionCandidates cfg now s.facts)).map
            .create)).modify
              (isInside ((compactionCandidates cfg now s.facts).map Prod.fst)) compactRow
        else
          s.facts.execAll (((summaryRows cfg now (compactionCandidates cfg now s.facts)).take n).map
            .create) := by
  simp only [interruptedCompact, compactStatements, hrows, Bool.false_eq_true, if_false,
    List.take_append, List.length_map, KeyedTable.execAll_append]
  split
  -- past all summaries the mark is the one write that is left
  · next hlt =>
      have hpos : 0 < n - (summaryRows cfg now (compactionCandidates cfg now s.facts)).length := by
        omega
      rw [List.take_of_length_le (by rw [List.length_map]; omega),
        List.take_of_length_le (by rw [List.length_singleton]; omega)]
      rfl
  · next hge =>
      rw [Nat.sub_eq_zero_of_le (by omega), List.take_zero, ← List.map_take]
      rfl

/-- A run without candidates writes nothing. -/
theorem interruptedCompact_of_isEmpty {n : ℕ}
    (hrows : (compactionCandidates cfg now s.facts).isEmpty = true) :
    interruptedCompact cfg now n s = s := by
  simp only [interruptedCompact, compactStatements, hrows, if_true, List.take_nil]
  rfl

/-- **What a run leaves, at whatever point it ends**: each row is as it was, or is a
compacted candidate, or is a new summary. -/
theorem interruptedCompact_row_cases {n : ℕ} {i : FactId} {f' : KnowledgeFact}
    (h : (interruptedCompact cfg now n s).facts.get? i = some f') :
    s.facts.get? i = some f' ∨
    (∃ f, s.facts.get? i = some f ∧ i ∈ (compactionCandidates cfg now s.facts).map Prod.fst ∧
      f' = compactRow f) ∨
    (s.facts.next ≤ i ∧
      ((summaryRows cfg now (compactionCandidates cfg now s.facts)).take n)[i - s.facts.next]?
        = some f') := by
  by_cases hrows : (compactionCandidates cfg now s.facts).isEmpty = true
  · rw [interruptedCompact_of_isEmpty hrows] at h
    exact Or.inl h
  · rw [facts_interruptedCompact (by simpa using hrows)] at h
    split at h
    -- the run has reached the mark, or failed among its summaries
    · next hlt =>
      rw [KeyedTable.get?_modify, Option.map_eq_some_iff] at h
      obtain ⟨f, hf, rfl⟩ := h
      have hin : isInside ((compactionCandidates cfg now s.facts).map Prod.fst) i f = true ↔
          i ∈ (compactionCandidates cfg now s.facts).map Prod.fst := by
        rw [isInside, List.contains_iff_mem]
      rcases KeyedTable.get?_execAll_create s.facts hf with hf | ⟨hle, hmem⟩
      · by_cases hi : i ∈ (compactionCandidates cfg now s.facts).map Prod.fst
        · rw [if_pos (hin.mpr hi)]
          exact Or.inr (Or.inl ⟨f, hf, hi, rfl⟩)
        · rw [if_neg (fun h => hi (hin.mp h))]
          exact Or.inl hf
      · -- a summary is none of the candidates it was made of
        have hnew : i ∉ (compactionCandidates cfg now s.facts).map Prod.fst := by
          intro hi
          obtain ⟨q, hq, rfl⟩ := List.mem_map.mp hi
          exact absurd (KeyedTable.get?_lt_next (mem_compactionCandidates hq).1) (Nat.not_lt.mpr hle)
        rw [if_neg (fun h => hnew (hin.mp h)), List.take_of_length_le hlt.le]
        exact Or.inr (Or.inr ⟨hle, hmem⟩)
    · rcases KeyedTable.get?_execAll_create s.facts h with hf | ⟨hle, hmem⟩
      · exact Or.inl hf
      · exact Or.inr (Or.inr ⟨hle, hmem⟩)

/-- Where the mark is reached, every candidate bears it. -/
theorem get?_interruptedCompact_marked {n : ℕ}
    (hn : (summaryRows cfg now (compactionCandidates cfg now s.facts)).length < n) {i : FactId}
    (hi : i ∈ (compactionCandidates cfg now s.facts).map Prod.fst) {f : KnowledgeFact}
    (hf : s.facts.get? i = some f) :
    (interruptedCompact cfg now n s).facts.get? i = some (compactRow f) := by
  have hrows : (compactionCandidates cfg now s.facts).isEmpty = false := by
    obtain ⟨q, hq, _⟩ := List.mem_map.mp hi
    rw [List.isEmpty_eq_false_iff]
    exact List.ne_nil_of_mem hq
  rw [facts_interruptedCompact hrows, if_pos hn, KeyedTable.get?_modify,
    KeyedTable.get?_execAll_create_of_get? s.facts hf, Option.map_some, isInside,
    if_pos (List.contains_iff_mem.mpr hi)]

theorem length_summaryRows (cfg : CompactionConfig) (now : Time) (rows : List CandidateFactRow) :
    (summaryRows cfg now rows).length = (summarizedGroups cfg rows).length := by
  have hall : ∀ group ∈ summarizedGroups cfg rows, (summaryOf cfg now group).isSome = true :=
    fun group hgroup => Option.isSome_iff_exists.mpr (isSome_summaryOf_of_mem now hgroup)
  rw [summaryRows_eq, List.length_filterMap_eq_countP, List.countP_eq_length]
  exact hall

/-- An old row stays where it is, compacted or not. -/
theorem get?_interruptedCompact (cfg : CompactionConfig) (now : Time) (n : ℕ) {i : FactId}
    {f : KnowledgeFact}
    (hf : s.facts.get? i = some f) :
    (interruptedCompact cfg now n s).facts.get? i = some f ∨
    (i ∈ (compactionCandidates cfg now s.facts).map Prod.fst ∧
      (interruptedCompact cfg now n s).facts.get? i = some (compactRow f)) := by
  by_cases hrows : (compactionCandidates cfg now s.facts).isEmpty = true
  · rw [interruptedCompact_of_isEmpty hrows]
    exact Or.inl hf
  · rw [facts_interruptedCompact (by simpa using hrows)]
    split
    · rw [KeyedTable.get?_modify, KeyedTable.get?_execAll_create_of_get? s.facts hf,
        Option.map_some, isInside]
      by_cases hi : i ∈ (compactionCandidates cfg now s.facts).map Prod.fst
      · rw [if_pos (List.contains_iff_mem.mpr hi)]
        exact Or.inr ⟨hi, rfl⟩
      · rw [if_neg (fun h => hi (List.contains_iff_mem.mp h))]
        exact Or.inl rfl
    · exact Or.inl (KeyedTable.get?_execAll_create_of_get? s.facts hf)

end Spec

end Brain
