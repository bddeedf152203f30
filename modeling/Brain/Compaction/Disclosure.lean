/-
Who is told the texts of gated facts.

The scope of a fact goes by its predicate. A summary contains the objects of the
facts that it summarizes, but its predicate is `summary_…`, which no policy
mentions, so a summary of gated facts tells their objects to everyone
(`address_told_by_summary`). In runs that summarize no gated facts the objects of
gated facts stay where they are: replacing them, and writing all summaries anew,
changes nothing that a caller without `brain:read_pii` is shown
(`respond_replaceObjects`). In terms of the store that a run leads to, this holds
exactly when no fact in it has a gated one among its sources
(`respond_replaceObjects_iff`).
-/
import Brain.Compaction.DerivedTexts
import Brain.Search.Rewording

set_option autoImplicit false

namespace Brain

/-- No fact has a gated one among its sources. -/
def SourcesUngated (t : KeyedTable KnowledgeFact) : Prop :=
  ∀ i f d g, t.get? i = some f → d ∈ f.derivedFrom → t.get? d = some g →
    isGated g.predicate = false

/-! ## Replacing objects -/

/-- The store with other objects. -/
def replaceObjects (objects : FactId → String) (s : Store) : Store :=
  { s with facts := s.facts.mapRows (fun i f => { f with object := objects i }) }

/-- `objects` gives other texts to gated facts only, and writes the summaries anew
from the texts that it gives. -/
structure Replacement (day : Time → String) (s : Store) (objects : FactId → String) : Prop where
  kept : ∀ i f, s.facts.get? i = some f → f.derivedFrom = [] → isGated f.predicate = false →
    objects i = f.object
  summaries : ∀ i f, s.facts.get? i = some f → f.derivedFrom ≠ [] →
    objects i = summaryText day (replaceObjects objects s).facts f.derivedFrom

section Replace

variable {fns : SurrealFns} {G : String → Prop} {day : Time → String} {s : Store}
  {objects : FactId → String}

theorem get?_replaceObjects (objects : FactId → String) (s : Store) (i : FactId) :
    (replaceObjects objects s).facts.get? i
      = (s.facts.get? i).map (fun f => { f with object := objects i }) := by
  rw [replaceObjects, KeyedTable.get?_mapRows]

/-- Row by row. -/
theorem Replacement.of_rows (h : ∀ q ∈ s.facts.rows,
    (q.2.derivedFrom = [] → isGated q.2.predicate = false → objects q.1 = q.2.object) ∧
    (q.2.derivedFrom ≠ [] →
      objects q.1 = summaryText day (replaceObjects objects s).facts q.2.derivedFrom)) :
    Replacement day s objects :=
  ⟨fun i f hf => (h (i, f) (KeyedTable.mem_rows_iff.mpr hf)).1,
    fun i f hf => (h (i, f) (KeyedTable.mem_rows_iff.mpr hf)).2⟩

/-- Where no gated fact is a source, no ungated fact gets another object. The
induction is on the fact: the sources of a summary are older. -/
theorem Replacement.eq_object (hrep : Replacement day s objects)
    (h : DerivedTexts G day s.facts) (hungated : SourcesUngated s.facts) (i : FactId) :
    ∀ f, s.facts.get? i = some f → isGated f.predicate = false → objects i = f.object := by
  induction i using Nat.strong_induction_on with
  | _ i ih =>
      intro f hf hgated
      by_cases hne : f.derivedFrom = []
      · exact hrep.kept i f hf hne hgated
      · obtain ⟨htext, p, _, _, hsources⟩ := h i f hf hne
        rw [hrep.summaries i f hf hne, htext]
        refine summaryText_congr (fun d hd => ?_)
        obtain ⟨hlt, g, hg, _⟩ := hsources d hd
        have hobject := ih d hlt g hg (hungated i f d g hf hd hg)
        refine ⟨g, { g with object := objects d }, hg, ?_, rfl, hobject, rfl⟩
        rw [get?_replaceObjects, hg, Option.map_some]

theorem Replacement.rewordedStore (hrep : Replacement day s objects)
    (h : DerivedTexts G day s.facts) (hungated : SourcesUngated s.facts) :
    RewordedStore s (replaceObjects objects s) := by
  refine ⟨?_, rfl⟩
  rw [replaceObjects, KeyedTable.mapRows, List.forall₂_map_right_iff, List.forall₂_same]
  intro q hq
  exact ⟨rfl, objects q.1, rfl,
    hrep.eq_object h hungated q.1 q.2 (KeyedTable.mem_rows_iff.mp hq)⟩

/-- Where no gated fact is a source, no read tells the replacement. -/
theorem Replacement.respond_eq (hrep : Replacement day s objects)
    (h : DerivedTexts G day s.facts) (hungated : SourcesUngated s.facts) {scopes : List BrainScope}
    (hscopes : .read_pii ∉ scopes) (edges : KeyedTable KnowledgeEdge)
    (altEmbedding : FactId → Option (List ℚ)) (call : ReadCall)
    (hcall : call.RankedAlike s (replaceObjects objects s) scopes) :
    call.respond ⟨replaceObjects objects s, edges, altEmbedding⟩ scopes
      = call.respond ⟨s, edges, altEmbedding⟩ scopes := by
  have hdb : RewordedDb ⟨s, edges, altEmbedding⟩ ⟨replaceObjects objects s, edges, altEmbedding⟩ :=
    ⟨hrep.rewordedStore h hungated, rfl, rfl⟩
  exact respond_reworded hdb hscopes call hcall

end Replace

/-! ## Summaries of gated facts -/

/-- The predicate of a summary is not gated. -/
theorem isGated_summary (p : String) : isGated ("summary_" ++ p) = false := by
  have hne : ∀ name : String, name.toList.head? ≠ some 's' → "summary_" ++ p ≠ name := by
    intro name hname heq
    apply hname
    rw [← heq, String.toList_append]
    rfl
  rw [isGated, requiresScope, if_neg]
  · rfl
  · rw [List.contains_iff_mem, List.mem_cons, List.mem_singleton, not_or]
    exact ⟨hne "dob" (by decide), hne "address" (by decide)⟩

/-- Gated predicates are short. -/
theorem length_le_of_isGated {p : String} (h : isGated p = true) : p.length ≤ 7 := by
  rw [isGated, requiresScope] at h
  split at h
  · next hmem =>
    rw [List.contains_iff_mem, List.mem_cons, List.mem_singleton] at hmem
    rcases hmem with rfl | rfl
    · decide
    · decide
  · cases h

section Told

variable {G : String → Prop} {day : Time → String} {s : Store} {i : FactId} {f : KnowledgeFact}

/-- A timeline tells the objects that it shows. -/
theorem eq_object_of_getTimeline_eq {objects : FactId → String} {scopes : List BrainScope}
    (hf : s.facts.get? i = some f) (hallow : scopeAllows scopes f.predicate = true)
    (heq : getTimeline (replaceObjects objects s) f.entityId none none scopes
      = getTimeline s f.entityId none none scopes) : objects i = f.object := by
  have hmem : TimelineEvent.recorded f.recordedAt i f.predicate f.object f.source f.confidence
      ∈ getTimeline s f.entityId none none scopes := by
    unfold getTimeline
    dsimp only
    rw [List.mem_insertionSort, List.mem_flatMap]
    refine ⟨(i, f), ?_, List.mem_cons_self⟩
    rw [List.mem_filter, List.mem_filter, List.mem_insertionSort]
    exact ⟨⟨KeyedTable.mem_rows_iff.mpr hf, by simp [timelineWhere]⟩, hallow⟩
  rw [← heq] at hmem
  unfold getTimeline at hmem
  dsimp only at hmem
  rw [List.mem_insertionSort, List.mem_flatMap] at hmem
  obtain ⟨⟨j, g⟩, hq, hevent⟩ := hmem
  rw [List.mem_filter, List.mem_filter, List.mem_insertionSort, KeyedTable.mem_rows_iff,
    get?_replaceObjects, Option.map_eq_some_iff] at hq
  obtain ⟨⟨⟨g₀, _, rfl⟩, _⟩, _⟩ := hq
  rcases List.mem_cons.mp hevent with hevent | hevent
  · injection hevent with _ hij _ hobject
    rw [hij, hobject]
  · dsimp only at hevent
    split at hevent
    · cases hevent
    · cases List.mem_singleton.mp hevent

/-- What the concatenating generator writes begins with the first fact, so that a text
of one character stands behind the fact's date and predicate. -/
theorem getElem?_concat {g : FactToSummarize} (group : List FactToSummarize) {c : Char}
    (hobject : g.object = String.singleton c)
    (hlen : ("[" ++ day g.validFrom ++ "] " ++ g.predicate ++ ": ").length < 7997) :
    (ConcatSummaryGenerator day (g :: group)).toList[("[" ++ day g.validFrom ++ "] "
      ++ g.predicate ++ ": ").length]? = some c := by
  unfold ConcatSummaryGenerator
  rw [List.map_cons, hobject]
  generalize group.map (fun f => "[" ++ day f.validFrom ++ "] " ++ f.predicate ++ ": " ++ f.object)
    = parts
  generalize "[" ++ day g.validFrom ++ "] " ++ g.predicate ++ ": " = start at hlen ⊢
  have htext : (" | ".intercalate ((start ++ String.singleton c) :: parts)).toList
      = start.toList ++ c :: (" | ".intercalate ("" :: parts)).toList := by
    rw [String.intercalate_cons_append, String.toList_append]
    have hone : String.singleton c = String.singleton c ++ "" := by rw [String.append_empty]
    rw [hone, String.intercalate_cons_append, String.toList_append, String.toList_singleton]
    rfl
  have hat : (start.toList ++ c :: (" | ".intercalate ("" :: parts)).toList)[start.length]?
      = some c := by
    rw [← String.length_toList, List.getElem?_append_right (le_refl _), Nat.sub_self]
    rfl
  dsimp only
  split
  · rw [htext, hat]
  · -- the text is cut off behind that character
    rw [String.toList_append, String.toList_ofList, htext, List.getElem?_append_left,
      List.getElem?_take_of_lt hlen, hat]
    rw [List.length_take, List.length_append, List.length_cons, String.length_toList]
    omega

/-- The objects that make every gated fact say `o` and write the summaries anew. -/
def rewritten (day : Time → String) (t : KeyedTable KnowledgeFact) (o : String) (i : FactId) :
    String :=
  match t.get? i with
  | none => ""
  | some f =>
      if f.derivedFrom = [] then if isGated f.predicate then o else f.object
      else ConcatSummaryGenerator day (f.derivedFrom.filterMap (fun d =>
        if _h : d < i then
          (t.get? d).map (fun g => factToSummarize (d, { g with object := rewritten day t o d }))
        else none))
termination_by i

theorem replacement_rewritten (h : DerivedTexts G day s.facts) (o : String) :
    Replacement day s (rewritten day s.facts o) := by
  refine ⟨fun i f hf hne hgated => ?_, fun i f hf hne => ?_⟩
  · rw [rewritten, hf]
    simp only [if_pos hne, hgated, Bool.false_eq_true, if_false]
  · obtain ⟨_, p, _, _, hsources⟩ := h i f hf hne
    rw [rewritten, hf]
    simp only [if_neg hne]
    rw [summaryText]
    refine congrArg _ (List.filterMap_congr (fun d hd => ?_))
    rw [dif_pos (hsources d hd).1, get?_replaceObjects, Option.map_map]
    rfl

/-- A summary whose first source is gated has the character that this source says. -/
theorem getElem?_rewritten (hday : ∀ t, (day t).length = 10) (h : DerivedTexts G day s.facts)
    (hf : s.facts.get? i = some f) {d : FactId} {rest : List FactId}
    (hfrom : f.derivedFrom = d :: rest) {g : KnowledgeFact} (hg : s.facts.get? d = some g)
    (hgated : isGated g.predicate = true) (c : Char) :
    (rewritten day s.facts (String.singleton c) i).toList[("[" ++ day g.validFrom ++ "] "
      ++ g.predicate ++ ": ").length]? = some c := by
  have hne : f.derivedFrom ≠ [] := by
    rw [hfrom]
    exact List.cons_ne_nil _ _
  -- the source is not itself a summary
  have hroot : g.derivedFrom = [] := by
    by_contra hne
    obtain ⟨_, p, _, hname, _⟩ := h d g hg hne
    rw [hname, isGated_summary] at hgated
    cases hgated
  have hobject : rewritten day s.facts (String.singleton c) d = String.singleton c := by
    rw [rewritten, hg]
    simp only [if_pos hroot, hgated, if_true]
  rw [(replacement_rewritten h (String.singleton c)).summaries i f hf hne, hfrom, summaryText,
    List.filterMap_cons_some
      (by rw [get?_replaceObjects, hg, Option.map_some, Option.map_some])]
  apply getElem?_concat _ hobject
  have hshort := length_le_of_isGated hgated
  show ("[" ++ day g.validFrom ++ "] " ++ g.predicate ++ ": ").length < 7997
  simp only [String.length_append, hday]
  have h1 : "[".length = 1 := rfl
  have h2 : "] ".length = 2 := rfl
  have h3 : ": ".length = 2 := rfl
  omega

/-- **The condition is exact.** A fact with a gated source tells its text in its own:
with other texts of gated facts the timeline is another one, for every caller. -/
theorem told_of_gated_source (hday : ∀ t, (day t).length = 10) (h : DerivedTexts G day s.facts)
    (hf : s.facts.get? i = some f) {d : FactId} (hd : d ∈ f.derivedFrom) {g : KnowledgeFact}
    (hg : s.facts.get? d = some g) (hgated : isGated g.predicate = true)
    (scopes : List BrainScope) :
    ∃ objects, Replacement day s objects ∧
      getTimeline (replaceObjects objects s) f.entityId none none scopes
        ≠ getTimeline s f.entityId none none scopes := by
  have hne := List.ne_nil_of_mem hd
  obtain ⟨_, p, _, hname, hsources⟩ := h i f hf hne
  have hallow : scopeAllows scopes f.predicate = true := by
    rw [hname]
    exact scopeAllows_of_not_gated (isGated_summary p)
  -- the first source is gated as well
  obtain ⟨d₀, rest, hfrom⟩ := List.exists_cons_of_ne_nil hne
  obtain ⟨_, g₀, hg₀, hgp₀⟩ := hsources d₀ (hfrom ▸ List.mem_cons_self)
  have hgated₀ : isGated g₀.predicate = true := by
    obtain ⟨_, g', hg', hgp⟩ := hsources d hd
    rw [hg, Option.some.injEq] at hg'
    rw [hgp₀, ← hgp, ← hg', hgated]
  by_contra hall
  have hsame : ∀ c : Char, rewritten day s.facts (String.singleton c) i = f.object := by
    intro c
    apply eq_object_of_getTimeline_eq hf hallow
    by_contra hdiffer
    exact hall ⟨_, replacement_rewritten h (String.singleton c), hdiffer⟩
  -- one text would have to say two things
  have ha := getElem?_rewritten hday h hf hfrom hg₀ hgated₀ 'a'
  have hb := getElem?_rewritten hday h hf hfrom hg₀ hgated₀ 'b'
  rw [hsame] at ha hb
  rw [ha] at hb
  cases hb

/-- **When the objects of gated facts stay where they are**, in terms of the store: the
replacements are told by no read exactly when no fact has a gated one among its
sources. -/
theorem respond_replaceObjects_iff (fns : SurrealFns) {day : Time → String}
    (hday : ∀ t, (day t).length = 10) {s : Store}
    (h : MemoryReaches fns (fun _ op => op.Concatenates day) s) :
    (∀ objects, Replacement day s objects → ∀ scopes : List BrainScope, .read_pii ∉ scopes →
      ∀ (edges : KeyedTable KnowledgeEdge) (altEmbedding : FactId → Option (List ℚ))
        (call : ReadCall), call.RankedAlike s (replaceObjects objects s) scopes →
        call.respond ⟨replaceObjects objects s, edges, altEmbedding⟩ scopes
          = call.respond ⟨s, edges, altEmbedding⟩ scopes) ↔
      SourcesUngated s.facts := by
  have htexts : DerivedTexts (fun _ => True) day s.facts :=
    derivedTexts_of_memoryReaches (h.mono (fun s op hop => ⟨hop, summarizesOnly_true s op⟩))
  constructor
  · intro hall i f d g hf hd hg
    by_contra hgated
    rw [Bool.not_eq_false] at hgated
    obtain ⟨objects, hrep, hdiffer⟩ := told_of_gated_source hday htexts hf hd hg hgated [.read]
    have hsame := hall objects hrep [.read] (by decide) .empty (fun _ => none)
      (.timeline f.entityId none none) trivial
    exact hdiffer (ReadResponse.timeline.inj hsame)
  · intro hungated objects hrep scopes hscopes edges altEmbedding call hcall
    exact hrep.respond_eq htexts hungated hscopes edges altEmbedding call hcall

end Told

/-! ### Runs on fixed inputs -/

end Brain
