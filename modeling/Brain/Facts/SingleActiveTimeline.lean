/-
Single-active predicates as a sequenced timeline: what a run of `single_active`
calls of `fn::resolve_fact`, in any order of their dates, makes visible to a
point-in-time search.

The facts of one `(entityId, predicate)` refine the abstract timeline of
`Brain.Lib.Timeline`: read in the order they were recorded, they are the timeline
of the intervals that the calls asked for (`Sequenced.entries`). Two results
follow. Calls whose dates never go back make a search see exactly the last fact
that starts by its instant (`searchAsOf_in_order`). With dates in any order, a
search sees at most one fact at every instant exactly when the dates sweep no
stretch of time twice (`searchAsOf_unique_iff`).
-/
import Brain.Ingest.IngestService
import Brain.Search.WhereBuilder

set_option autoImplicit false

namespace Brain

/-- The calls on `k` that record a fact; the others throw on their confidence. -/
def ingests (k : FactKey) (calls : List ResolveCall) : List ResolveArgs :=
  (calls.map ResolveCall.args).filter
    (fun a => decide (a.key = k) && (assertConfidence a.confidence).isSome)

/-- The intervals that these calls ask for, in the order of the calls. -/
def arrivals (k : FactKey) (calls : List ResolveCall) : List (Span Time) :=
  (ingests k calls).map ResolveArgs.span

/-- A fact as an entry of a timeline. -/
def KnowledgeFact.entry (f : KnowledgeFact) : TimelineEntry Time := ⟨f.span, f.isActive⟩

/-- The fact `f` is what call `a` recorded; what later calls rewrite is not compared. -/
structure RecordedBy (f : KnowledgeFact) (a : ResolveArgs) : Prop where
  key : f.key = a.key
  object : f.object = a.object
  objectMeta : f.objectMeta = a.objectMeta
  confidence : f.confidence.1 = a.confidence
  validFrom : f.validFrom = a.validFrom
  source : f.source = a.source
  embedding : f.embedding = some a.embedding

/-- What a run of `single_active` calls keeps true of the facts on `k`. -/
structure Sequenced (k : FactKey) (calls : List ResolveCall) (s : Store) : Prop where
  entries : (s.factsOn k).map (fun q => q.2.entry) = timeline (arrivals k calls)
  recorded : List.Forall₂ (fun q a => RecordedBy q.2 a) (s.factsOn k) (ingests k calls)
  kept : ∀ i f, s.facts.get? i = some f → f.retractedAt = none ∧ f.status ≠ .compacted

section Run

variable {fns : SurrealFns} {k : FactKey} {calls : List ResolveCall} {s : Store}

/-- Whether `c` is one of the calls that record a fact on `k`. -/
def ResolveCall.recordsOn (c : ResolveCall) (k : FactKey) : Prop :=
  c.args.key = k ∧ (assertConfidence c.args.confidence).isSome = true

theorem ingests_append_pos {c : ResolveCall} (hc : c.recordsOn k) :
    ingests k (calls ++ [c]) = ingests k calls ++ [c.args] := by
  simp [ingests, hc.1, hc.2]

theorem ingests_append_neg {c : ResolveCall} (hc : ¬ c.recordsOn k) :
    ingests k (calls ++ [c]) = ingests k calls := by
  simpa [ingests, ResolveCall.recordsOn] using hc

/-! ### One call -/

/-- A settling call does not touch what was recorded. -/
theorem RecordedBy.settleRow {f : KnowledgeFact} {a b : ResolveArgs} (h : RecordedBy f b)
    (newId : FactId) : RecordedBy (settleRow fns newId a f) b := by
  unfold Brain.settleRow
  split
  · exact ⟨h.key, h.object, h.objectMeta, h.confidence, h.validFrom, h.source, h.embedding⟩
  · exact h

theorem entry_supersedeRow (newId : FactId) (validFrom : Time) (f : KnowledgeFact) :
    (supersedeRow newId validFrom f f).entry = ⟨f.span.close validFrom, false⟩ := by
  simp [KnowledgeFact.entry, KnowledgeFact.span, KnowledgeFact.isActive, supersedeRow, Span.close]

/-- The facts on `k` after a call that settles. -/
theorem factsOn_settledFacts (env : DbEnv) (a : ResolveArgs) (c : Confidence) (s : Store) :
    ({ s with facts := settledFacts fns env a c s.facts } : Store).factsOn k
      = (s.factsOn k).map (fun q => (q.1, settleRow fns s.facts.next a q.2))
        ++ if a.key = k then [(s.facts.next, a.newRow env c)] else [] := by
  rw [Store.factsOn, settledFacts, KeyedTable.select_insert, KeyedTable.select_modify]
  · congr 1
    have hkey : (a.newRow env c).key = a.key := rfl
    simp [hkey]
  · exact fun i f => rfl

/-- On the call's own key the timeline takes an arrival; the live entry is the
one that competes. -/
theorem entries_settledFacts {env : DbEnv} {a : ResolveArgs} {c : Confidence}
    (hsem : a.semantics = .single_active) (hk : a.key = k) :
    (({ s with facts := settledFacts fns env a c s.facts } : Store).factsOn k).map
        (fun q => q.2.entry)
      = arrive ((s.factsOn k).map (fun q => q.2.entry)) a.span := by
  rw [factsOn_settledFacts, if_pos hk, List.map_append, List.map_map, arrive, List.map_map]
  congr 1
  apply List.map_congr_left
  intro q hq
  have hqk : q.2.key = k := by simpa using (KeyedTable.mem_select.mp hq).2
  have hcomp : a.competes fns q.2 = q.2.isActive := by
    rw [ResolveArgs.competes_single hsem, ResolveArgs.isCandidate, hqk, hk]
    simp
  have hlive : q.2.entry.live = q.2.isActive := rfl
  simp only [Function.comp_apply, settleRow, hcomp, hlive]
  split
  · exact entry_supersedeRow _ _ _
  · rfl

/-- A call on another key leaves the facts on `k` as they are. -/
theorem factsOn_settledFacts_of_ne {env : DbEnv} {a : ResolveArgs} {c : Confidence}
    (hk : a.key ≠ k) :
    ({ s with facts := settledFacts fns env a c s.facts } : Store).factsOn k = s.factsOn k := by
  rw [factsOn_settledFacts, if_neg hk, List.append_nil]
  conv_rhs => rw [← List.map_id (s.factsOn k)]
  apply List.map_congr_left
  intro q hq
  have hqk : q.2.key = k := by simpa using (KeyedTable.mem_select.mp hq).2
  have hcomp : a.competes fns q.2 = false := by
    simp [ResolveArgs.competes, ResolveArgs.isCandidate, hqk, Ne.symm hk]
  simp [settleRow, hcomp]

theorem confidence_of_assertConfidence {c : ℚ} {conf : Confidence}
    (h : assertConfidence c = some conf) : conf.1 = c := by
  unfold assertConfidence at h
  split at h
  · cases h
    rfl
  · cases h

/-- A settling call keeps every row unretracted and uncompacted. -/
theorem kept_settledFacts {env : DbEnv} {a : ResolveArgs} {c : Confidence}
    (hkept : ∀ i f, s.facts.get? i = some f → f.retractedAt = none ∧ f.status ≠ .compacted)
    (i : FactId) (f : KnowledgeFact)
    (hf : (settledFacts fns env a c s.facts).get? i = some f) :
    f.retractedAt = none ∧ f.status ≠ .compacted := by
  rcases settledFacts_cases hf with ⟨_, rfl⟩ | ⟨g, hg, _, rfl⟩ | ⟨hf₀, _⟩
  · exact ⟨rfl, by simp [ResolveArgs.newRow]⟩
  · exact ⟨(hkept i g hg).1, by simp [supersedeRow]⟩
  · exact hkept i f hf₀

/-- One call keeps the refinement. -/
theorem Sequenced.step (hseq : Sequenced k calls s) {c : ResolveCall}
    (hsem : c.args.semantics = .single_active) :
    Sequenced k (calls ++ [c]) (afterResolve fns c.env s c.args) := by
  cases hconf : assertConfidence c.args.confidence with
  | none =>
      -- the call throws, and is no arrival either
      have hfacts : (afterResolve fns c.env s c.args).facts = s.facts := by
        rw [facts_afterResolve_single hsem, hconf]
      have hnot : ¬ c.recordsOn k := by simp [ResolveCall.recordsOn, hconf]
      refine ⟨?_, ?_, ?_⟩
      · rw [arrivals, ingests_append_neg hnot, Store.factsOn, hfacts]
        exact hseq.entries
      · rw [ingests_append_neg hnot, Store.factsOn, hfacts]
        exact hseq.recorded
      · rw [hfacts]
        exact hseq.kept
  | some conf =>
      have hfacts : (afterResolve fns c.env s c.args).facts
          = settledFacts fns c.env c.args conf s.facts := by
        rw [facts_afterResolve_single hsem, hconf]
      have hon : (afterResolve fns c.env s c.args).factsOn k
          = ({ s with facts := settledFacts fns c.env c.args conf s.facts } : Store).factsOn k := by
        rw [Store.factsOn, Store.factsOn, hfacts]
      have hkept : ∀ i f, (afterResolve fns c.env s c.args).facts.get? i = some f →
          f.retractedAt = none ∧ f.status ≠ .compacted := by
        rw [hfacts]
        exact kept_settledFacts hseq.kept
      by_cases hk : c.args.key = k
      · -- the call is an arrival on `k`
        have hrec : c.recordsOn k := ⟨hk, by rw [hconf]; rfl⟩
        refine ⟨?_, ?_, hkept⟩
        · rw [hon, entries_settledFacts hsem hk, hseq.entries, arrivals, arrivals,
            ingests_append_pos hrec, List.map_append, List.map_cons, List.map_nil, timeline_append]
        · rw [hon, factsOn_settledFacts, if_pos hk, ingests_append_pos hrec]
          apply List.rel_append
          · rw [List.forall₂_map_left_iff]
            exact hseq.recorded.imp (fun q b h => h.settleRow _)
          · refine List.Forall₂.cons ?_ List.Forall₂.nil
            exact ⟨rfl, rfl, rfl, confidence_of_assertConfidence hconf, rfl, rfl, rfl⟩
      · have hnot : ¬ c.recordsOn k := fun h => hk h.1
        refine ⟨?_, ?_, hkept⟩
        · rw [hon, factsOn_settledFacts_of_ne hk, arrivals, ingests_append_neg hnot]
          exact hseq.entries
        · rw [hon, factsOn_settledFacts_of_ne hk, ingests_append_neg hnot]
          exact hseq.recorded

/-- **The refinement.** After any run of `single_active` calls from the empty
store, the facts on `k` are the timeline of what the calls asked for. -/
theorem sequenced_ingestAll (fns : SurrealFns) (k : FactKey) (calls : List ResolveCall)
    (hsem : ∀ c ∈ calls, c.args.semantics = .single_active) :
    Sequenced k calls (ingestAll fns .empty calls) := by
  induction calls using List.reverseRecOn with
  | nil => exact ⟨rfl, List.Forall₂.nil, by intro i f hf; cases hf⟩
  | append_singleton calls c ih =>
      have hseq := ih (fun d hd => hsem d (List.mem_append_left _ hd))
      rw [ingestAll_append]
      exact hseq.step (hsem c (by simp))

/-! ### What a search sees -/

/-- A point-in-time search sees the facts whose interval covers its instant. -/
theorem Sequenced.searchAsOf_eq (hseq : Sequenced k calls s) (t : Time) :
    searchAsOf s t k = (s.factsOn k).filter (fun q => q.2.span.holds t) := by
  rw [searchAsOf, ← KeyedTable.filter_select s.facts _ (fun _ f => visibleAsOf t f), Store.factsOn]
  apply List.filter_congr
  intro q hq
  have hkept := hseq.kept q.1 q.2 (KeyedTable.mem_select.mp hq).1
  rw [Bool.eq_iff_iff, visibleAsOf_iff]
  exact ⟨fun h => h.1, fun h => ⟨h, hkept⟩⟩

theorem Sequenced.length_searchAsOf (hseq : Sequenced k calls s) (t : Time) :
    (searchAsOf s t k).length
      = ((timeline (arrivals k calls)).filter (fun e => e.span.holds t)).length := by
  rw [hseq.searchAsOf_eq, ← hseq.entries, List.filter_map, List.length_map]
  rfl

/-- **Any order of dates.** At most one fact of `k` is visible at every instant
exactly when the intervals that the calls ask for sweep no stretch of time twice;
for a last call without an end that is: the dates fall first and rise afterwards. -/
theorem searchAsOf_unique_iff (fns : SurrealFns) (calls : List ResolveCall)
    (hsem : ∀ c ∈ calls, c.args.semantics = .single_active) (k : FactKey) :
    ((∀ t, (searchAsOf (ingestAll fns .empty calls) t k).length ≤ 1) ↔
        SingleSweep (arrivals k calls)) ∧
    ((∀ a ∈ (ingests k calls).getLast?, a.validUntil = none) →
      ((∀ t, (searchAsOf (ingestAll fns .empty calls) t k).length ≤ 1) ↔
        Valley (arrivals k calls))) := by
  have hseq := sequenced_ingestAll fns k calls hsem
  have hiff : (∀ t, (searchAsOf (ingestAll fns .empty calls) t k).length ≤ 1) ↔
      SingleSweep (arrivals k calls) := by
    simp only [hseq.length_searchAsOf]
    exact timeline_unique_iff _
  refine ⟨hiff, fun hopen => ?_⟩
  rw [hiff]
  apply singleSweep_iff_valley
  intro b hb
  rw [arrivals, List.getLast?_map, Option.mem_def, Option.map_eq_some_iff] at hb
  obtain ⟨a, ha, rfl⟩ := hb
  exact hopen a ha

/-- The `i`-th fact on `k` covers the leg of the `i`-th arrival. -/
theorem Sequenced.getElem?_factsOn (hseq : Sequenced k calls s) {i : ℕ}
    {q : FactId × KnowledgeFact} (hq : (s.factsOn k)[i]? = some q) :
    ∃ a, (arrivals k calls)[i]? = some a ∧ a.start = q.2.validFrom ∧
      q.2.span = ⟨a.start, legStop (arrivals k calls) i⟩ := by
  have h := getElem?_timeline (arrivals k calls) i
  rw [← hseq.entries, List.getElem?_map, hq] at h
  obtain ⟨a, ha, he⟩ := Option.map_eq_some_iff.mp h.symm
  have hspan : q.2.span = ⟨a.start, legStop (arrivals k calls) i⟩ :=
    (congrArg TimelineEntry.span he).symm
  exact ⟨a, ha, (congrArg Span.start hspan).symm, hspan⟩

/-- No later call moves the start of a fact. -/
theorem Sequenced.starts (hseq : Sequenced k calls s) :
    (s.factsOn k).map (fun q => q.2.validFrom) = (ingests k calls).map ResolveArgs.validFrom := by
  rw [← List.forall₂_eq_eq_eq, List.forall₂_map_left_iff, List.forall₂_map_right_iff]
  exact hseq.recorded.imp (fun q a h => h.validFrom)

/-- With dates in order, a search sees the last of the facts that start by its
instant. -/
theorem Sequenced.searchAsOf_eq_last (hseq : Sequenced k calls s)
    (hopen : ∀ a ∈ ingests k calls, a.validUntil = none)
    (hmono : (ingests k calls).Pairwise (fun a b => a.validFrom ≤ b.validFrom)) (t : Time) :
    searchAsOf s t k
      = (((s.factsOn k).filter (fun q => decide (q.2.validFrom ≤ t))).getLast?).toList := by
  have hstarts : (arrivals k calls).Pairwise (fun a b => a.start ≤ b.start) :=
    List.pairwise_map.mpr hmono
  have hends : ∀ b ∈ arrivals k calls, b.stop = none := by
    intro b hb
    obtain ⟨a, ha, rfl⟩ := List.mem_map.mp hb
    exact hopen a ha
  have hlen : (s.factsOn k).length = (arrivals k calls).length := by
    rw [arrivals, List.length_map]
    exact hseq.recorded.length_eq
  rw [hseq.searchAsOf_eq]
  apply filter_eq_getLast?_filter
  intro i q hq
  obtain ⟨a, ha, hstart, hspan⟩ := hseq.getElem?_factsOn hq
  rw [hspan, holds_timeline_iff_last hstarts hends ha, hstart, decide_eq_true_eq]
  -- positions among the facts are positions among the arrivals
  refine and_congr_right (fun _ => ⟨fun h j p hp hpt => ?_, fun h j b hb hbt => ?_⟩)
  · obtain ⟨b, hb, hbs, _⟩ := hseq.getElem?_factsOn hp
    exact h j b hb (by rw [hbs]; exact of_decide_eq_true hpt)
  · have hj : j < (s.factsOn k).length := by
      rw [hlen]
      exact (List.getElem?_eq_some_iff.mp hb).1
    obtain ⟨b', hb', hbs, _⟩ := hseq.getElem?_factsOn (List.getElem?_eq_getElem hj)
    rw [hb] at hb'
    cases hb'
    exact h j _ (List.getElem?_eq_getElem hj) (by rw [← hbs]; exact decide_eq_true hbt)

/-- Two addresses in order: the instant at which one gives way to the other has
one of them. -/
theorem searchAsOf_unique_forward :
    (searchAsOf (ingestAll .atRecording .empty [addressFrom 0, addressFrom 10]) 10
      (1, "address")).length ≤ 1 := by
  refine ((searchAsOf_unique_iff .atRecording [addressFrom 0, addressFrom 10] (by decide)
    (1, "address")).2 (by decide +kernel)).mpr ?_ 10
  intro i j a b c d hij _ _ _ hd _
  have hj := (List.getElem?_eq_some_iff.mp hd).1
  have hlen : (arrivals (1, "address") [addressFrom 0, addressFrom 10]).length = 2 := by
    decide +kernel
  omega

/-- A third address from a date between the two: the first one was closed against
the second, so from the third one's date on both are seen. -/
theorem searchAsOf_twice :
    ¬ ∀ (fns : SurrealFns) (calls : List ResolveCall),
      (∀ c ∈ calls, c.args.semantics = .single_active) →
        ∀ (k : FactKey) (t : Time), (searchAsOf (ingestAll fns .empty calls) t k).length ≤ 1 := by
  intro h
  have htwo : (searchAsOf (ingestAll .atRecording .empty
      [addressFrom 0, addressFrom 10, addressFrom 5]) 7 (1, "address")).length = 2 := by
    decide +kernel
  have hone := h .atRecording [addressFrom 0, addressFrom 10, addressFrom 5] (by decide)
    (1, "address") 7
  omega

/-- **Dates in order.** The facts on `k` are what the calls recorded, in their
order; a search sees exactly the last of those that start by its instant, which is
one fact from the first start on and none before it. -/
theorem searchAsOf_in_order (fns : SurrealFns) (calls : List ResolveCall)
    (hsem : ∀ c ∈ calls, c.args.semantics = .single_active) (k : FactKey)
    (hopen : ∀ a ∈ ingests k calls, a.validUntil = none)
    (hmono : (ingests k calls).Pairwise (fun a b => a.validFrom ≤ b.validFrom)) (t : Time) :
    List.Forall₂ (fun q a => RecordedBy q.2 a) ((ingestAll fns .empty calls).factsOn k)
      (ingests k calls) ∧
    searchAsOf (ingestAll fns .empty calls) t k
      = ((((ingestAll fns .empty calls).factsOn k).filter
          (fun q => decide (q.2.validFrom ≤ t))).getLast?).toList ∧
    ((∃ a ∈ ingests k calls, a.validFrom ≤ t) →
      ∃ q, searchAsOf (ingestAll fns .empty calls) t k = [q]) ∧
    ((∀ a ∈ ingests k calls, t < a.validFrom) →
      searchAsOf (ingestAll fns .empty calls) t k = []) := by
  have hseq := sequenced_ingestAll fns k calls hsem
  have hlast := hseq.searchAsOf_eq_last hopen hmono t
  -- no fact starts by `t` exactly when no call does
  have hnil : ((ingestAll fns .empty calls).factsOn k).filter
      (fun q => decide (q.2.validFrom ≤ t)) = [] ↔ ∀ a ∈ ingests k calls, t < a.validFrom := by
    rw [← List.forall_mem_map (f := ResolveArgs.validFrom) (P := fun v => t < v), ← hseq.starts,
      List.forall_mem_map, List.filter_eq_nil_iff]
    simp only [decide_eq_true_eq, not_le]
  refine ⟨hseq.recorded, hlast, fun hex => ?_, fun hall => ?_⟩
  · have hne : ((ingestAll fns .empty calls).factsOn k).filter
        (fun q => decide (q.2.validFrom ≤ t)) ≠ [] := by
      intro h
      obtain ⟨a, ha, hat⟩ := hex
      exact absurd hat (not_le.mpr (hnil.mp h a ha))
    rw [hlast, List.getLast?_eq_some_getLast hne]
    exact ⟨_, rfl⟩
  · rw [hlast, hnil.mpr hall]
    rfl

/-- Two addresses from the same date on: the second one leaves the first an empty
interval, and one fact is seen. -/
theorem searchAsOf_in_order_tie :
    (∃ q, searchAsOf (ingestAll .atRecording .empty [addressFrom 0, addressFrom 10, addressFrom 10])
      12 (1, "address") = [q]) :=
  (searchAsOf_in_order .atRecording [addressFrom 0, addressFrom 10, addressFrom 10] (by decide)
    (1, "address") (by decide +kernel) (by decide +kernel) 12).2.2.1 (by decide +kernel)

end Run

end Brain
