/-
Diffs over consecutive windows.

The windows are half open, so an event lies in one of two consecutive ones, and what is
listed for both together is what is listed for the first and then for the second
(`createdRows_append`, `retractedRows_append`). The created facts are the exception: the
service drops those that are replaced in the same window, and a fact that is created in
one window and replaced in the other is dropped from the sum only
(`createdFacts_append`).
-/
import Brain.Diff.MemoryDiff
import Brain.Lib.Listing
import Brain.Lib.StableSort

set_option autoImplicit false

namespace Brain

variable {entityClause : EntityClause} {db : TenantDb} {t : KeyedTable KnowledgeFact}
  {args : MemoryDiffArgs} {a b c : Time}

/-! ## Rows -/

theorem inWindow_iff {time : Time} : inWindow a b time = true ↔ a ≤ time ∧ time < b := by
  rw [inWindow, Bool.and_eq_true, decide_eq_true_eq, decide_eq_true_eq]

/-- An event is in one of two consecutive windows, if it is in both together. -/
theorem inWindow_append (hab : a ≤ b) (hbc : b ≤ c) (time : Time) :
    inWindow a c time = (inWindow a b time || inWindow b c time) := by
  rw [Bool.eq_iff_iff, Bool.or_eq_true, inWindow_iff, inWindow_iff, inWindow_iff]
  constructor
  · rintro ⟨hle, hlt⟩
    rcases lt_or_ge time b with h | h
    · exact Or.inl ⟨hle, h⟩
    · exact Or.inr ⟨h, hlt⟩
  · rintro (⟨hle, hlt⟩ | ⟨hle, hlt⟩)
    · exact ⟨hle, lt_of_lt_of_le hlt hbc⟩
    · exact ⟨le_trans hab hle, hlt⟩

/-- What is not after an event of the second window is not in the first one. -/
theorem inWindow_eq_false {time time' : Time} (hle : time ≤ time')
    (h : inWindow b c time = true) : inWindow a b time' = false := by
  rw [Bool.eq_false_iff, Ne, inWindow_iff]
  rintro ⟨_, hlt⟩
  exact absurd (le_trans (inWindow_iff.mp h).1 hle) (not_le.mpr hlt)

theorem pairwise_oldestFirst (l : List (FactId × KnowledgeFact)) :
    (l.insertionSort oldestFirst).Pairwise oldestFirst :=
  StableSort.pairwise_leastFirst (fun p : FactId × KnowledgeFact => p.2.recordedAt) l

theorem pairwise_byRetraction (l : List (FactId × KnowledgeFact)) :
    (l.insertionSort byRetraction).Pairwise byRetraction :=
  StableSort.pairwise_leastFirst (fun p : FactId × KnowledgeFact => p.2.retractedAt.getD 0) l

/-- **The created rows of two windows**, one after the other. -/
theorem createdRows_append (hab : a ≤ b) (hbc : b ≤ c) :
    createdRows entityClause t args a c
      = createdRows entityClause t args a b ++ createdRows entityClause t args b c := by
  have hor : ∀ q : FactId × KnowledgeFact, createdWhere entityClause args a c q.2
      = (createdWhere entityClause args a b q.2 || createdWhere entityClause args b c q.2) := by
    intro q
    rw [createdWhere, inWindow_append hab hbc, Bool.and_or_distrib_right]
    rfl
  -- what is created no later than a row of the second window is not in the first one
  have hlater : ∀ p q : FactId × KnowledgeFact, oldestFirst p q →
      createdWhere entityClause args b c p.2 = true →
        createdWhere entityClause args a b q.2 = false := by
    intro p q hpq hp
    rw [createdWhere, Bool.and_eq_true] at hp
    rw [createdWhere, inWindow_eq_false hpq hp.1, Bool.false_and]
  simp only [createdRows, hor]
  apply Listing.filter_or_eq_append
  · intro q _ hq
    by_contra hne
    have hnot := hlater q q (le_refl q.2.recordedAt) (by simpa using hne)
    rw [hq] at hnot
    cases hnot
  · exact (pairwise_oldestFirst t.rows).imp (fun {p q} => hlater p q)

/-- **The retracted rows of two windows**, one after the other. -/
theorem retractedRows_append (hab : a ≤ b) (hbc : b ≤ c) :
    retractedRows entityClause t args a c
      = retractedRows entityClause t args a b ++ retractedRows entityClause t args b c := by
  have hor : ∀ q : FactId × KnowledgeFact, retractedWhere entityClause args a c q.2
      = (retractedWhere entityClause args a b q.2 || retractedWhere entityClause args b c q.2) := by
    intro q
    simp only [retractedWhere]
    cases q.2.retractedAt with
    | none => rfl
    | some time => simp only [Option.any_some, inWindow_append hab hbc, Bool.and_or_distrib_right]
  have hlater : ∀ p q : FactId × KnowledgeFact, byRetraction p q →
      retractedWhere entityClause args b c p.2 = true →
      retractedWhere entityClause args a b q.2 = false := by
    intro p q hpq hp
    rw [retractedWhere, Bool.and_eq_true] at hp
    rw [retractedWhere]
    rw [byRetraction] at hpq
    cases hq : q.2.retractedAt with
    | none => rfl
    | some time' =>
        cases hpat : p.2.retractedAt with
        | none =>
            rw [hpat] at hp
            cases hp.1
        | some time =>
            rw [hpat, hq, Option.getD_some, Option.getD_some] at hpq
            rw [hpat] at hp
            rw [Option.any_some, inWindow_eq_false hpq hp.1, Bool.false_and]
  simp only [retractedRows, hor]
  apply Listing.filter_or_eq_append
  · intro q _ hq
    by_contra hne
    have hnot := hlater q q (le_refl (q.2.retractedAt.getD 0)) (by simpa using hne)
    rw [hq] at hnot
    cases hnot
  · exact (pairwise_byRetraction t.rows).imp (fun {p q} => hlater p q)

/-! ## The three lists -/

/-- The facts that are replaced in a window. -/
def MemoryDiffResult.replaced (r : MemoryDiffResult) : List FactId :=
  r.changedFacts.map ChangedFact.factId

/-- The facts that end in a window: what is retracted there, and what is replaced. -/
def MemoryDiffResult.ended (r : MemoryDiffResult) : List FactId :=
  r.retractedFacts.map FactRef.factId ++ r.replaced

theorem retractedFacts_append (hab : a ≤ b) (hbc : b ≤ c) :
    (diffWindow entityClause db args a c).retractedFacts
      = (diffWindow entityClause db args a b).retractedFacts
        ++ (diffWindow entityClause db args b c).retractedFacts := by
  simp only [diffWindow, retractedRows_append hab hbc, List.filter_append, List.map_append]

theorem changedFacts_append (hab : a ≤ b) (hbc : b ≤ c) :
    (diffWindow entityClause db args a c).changedFacts
      = (diffWindow entityClause db args a b).changedFacts
        ++ (diffWindow entityClause db args b c).changedFacts := by
  simp only [diffWindow, retractedRows_append hab hbc, List.filterMap_append]

/-- Of the created facts those that are replaced in the other window are dropped. -/
theorem createdFacts_append (hab : a ≤ b) (hbc : b ≤ c) :
    (diffWindow entityClause db args a c).createdFacts
      = (diffWindow entityClause db args a b).createdFacts.filter
          (fun x => !(diffWindow entityClause db args b c).replaced.contains x.factId)
        ++ (diffWindow entityClause db args b c).createdFacts.filter
          (fun x => !(diffWindow entityClause db args a b).replaced.contains x.factId) := by
  have hreplaced : (diffWindow entityClause db args a c).replaced
      = (diffWindow entityClause db args a b).replaced
        ++ (diffWindow entityClause db args b c).replaced := by
    rw [MemoryDiffResult.replaced, changedFacts_append hab hbc, List.map_append]
    rfl
  have hcreated : ∀ from_ to_, (diffWindow entityClause db args from_ to_).createdFacts
      = ((createdRows entityClause db.facts args from_ to_).map rowToFactRef).filter
        (fun x => !(diffWindow entityClause db args from_ to_).replaced.contains x.factId) :=
    fun _ _ => rfl
  have hcontains : ∀ (l l' : List FactId) (i : FactId),
      (l ++ l').contains i = (l.contains i || l'.contains i) :=
    fun _ _ _ => List.contains_append
  rw [hcreated a c, hreplaced, createdRows_append hab hbc, List.map_append, List.filter_append,
    hcreated a b, hcreated b c, List.filter_filter, List.filter_filter]
  simp only [hcontains, Bool.not_or]
  congr 1
  exact List.filter_congr (fun x _ => Bool.and_comm _ _)

/-- What ends in a window is a fact with its retraction there. -/
theorem retractedWhere_of_mem_ended {i : FactId}
    (h : i ∈ (diffWindow entityClause db args a b).ended) :
    ∃ f, db.facts.get? i = some f ∧ retractedWhere entityClause args a b f = true := by
  rcases List.mem_append.mp h with h | h
  · obtain ⟨x, hx, rfl⟩ := List.mem_map.mp h
    obtain ⟨q, hq, rfl⟩ := List.mem_map.mp hx
    exact ⟨q.2, mem_retractedRows.mp (List.mem_filter.mp hq).1⟩
  · obtain ⟨x, hx, rfl⟩ := List.mem_map.mp h
    obtain ⟨q, hq, hchanged⟩ := List.mem_filterMap.mp hx
    obtain ⟨w, _, rfl⟩ := Option.map_eq_some_iff.mp hchanged
    exact ⟨q.2, mem_retractedRows.mp hq⟩

/-- **No fact ends twice.** -/
theorem disjoint_ended (entityClause : EntityClause) (db : TenantDb) (args : MemoryDiffArgs)
    (a b c : Time) : (diffWindow entityClause db args a b).ended.Disjoint
      (diffWindow entityClause db args b c).ended := by
  intro i hi hi'
  obtain ⟨f, hf, hfirst⟩ := retractedWhere_of_mem_ended hi
  obtain ⟨g, hg, hsecond⟩ := retractedWhere_of_mem_ended hi'
  obtain rfl := Option.some.inj (hf.symm.trans hg)
  simp only [retractedWhere, Bool.and_eq_true] at hfirst hsecond
  cases hat : f.retractedAt with
  | none =>
      rw [hat] at hfirst
      cases hfirst.1
  | some time =>
      rw [hat] at hfirst hsecond
      have hno := inWindow_eq_false (a := a) (le_refl time) hsecond.1
      cases hno.symm.trans hfirst.1

/-- **Diffs add up.** What is retracted and what is replaced from `a` to `c` is what is from
`a` to `b`, and then from `b` to `c`, and no fact is in both; created is what one of them
has created and the other one has not replaced. -/
theorem memoryDiff_add (entityClause : EntityClause) (db : TenantDb) (args : MemoryDiffArgs)
    (hab : a < b) (hbc : b < c) :
    ∃ first second both,
      memoryDiff entityClause db { args with from_ := some a, to_ := some b } = .ok first ∧
      memoryDiff entityClause db { args with from_ := some b, to_ := some c } = .ok second ∧
      memoryDiff entityClause db { args with from_ := some a, to_ := some c } = .ok both ∧
      both.retractedFacts = first.retractedFacts ++ second.retractedFacts ∧
      both.changedFacts = first.changedFacts ++ second.changedFacts ∧
      first.ended.Disjoint second.ended ∧
      ∀ x, x ∈ both.createdFacts ↔
        (x ∈ first.createdFacts ∧ x.factId ∉ second.replaced) ∨
          (x ∈ second.createdFacts ∧ x.factId ∉ first.replaced) := by
  have hok : ∀ from_ to_, from_ < to_ →
      memoryDiff entityClause db { args with from_ := some from_, to_ := some to_ }
        = .ok (diffWindow entityClause db args from_ to_) := by
    intro from_ to_ hlt
    simp only [memoryDiff, if_neg (not_le.mpr hlt)]
    rfl
  have hab' := le_of_lt hab
  have hbc' := le_of_lt hbc
  refine ⟨_, _, _, hok a b hab, hok b c hbc, hok a c (lt_trans hab hbc),
    retractedFacts_append hab' hbc', changedFacts_append hab' hbc',
    disjoint_ended entityClause db args a b c, fun x => ?_⟩
  rw [createdFacts_append hab' hbc', List.mem_append, List.mem_filter, List.mem_filter]
  simp only [Bool.not_eq_true', List.contains_eq_mem, decide_eq_false_iff_not]

/-- A database with an address that was recorded at 5 and replaced at 15. -/
def movedOnce : TenantDb where
  facts := (KeyedTable.empty.insert
    { entityId := 1, predicate := "address", object := "Berlin", confidence := .full, validFrom := 0,
      recordedAt := 5, retractedAt := some 15, supersededBy := some 1, source := {},
      status := .retracted }).insert
    { entityId := 1, predicate := "address", object := "Paris", confidence := .full, validFrom := 10,
      recordedAt := 15, source := {} }

/-- The first address is created before 10 and replaced after it. -/
theorem memoryDiff_add_movedOnce :
    ∃ first second both,
      memoryDiff (fun _ _ => true) movedOnce ⟨some 0, some 10, [], []⟩ = .ok first ∧
      memoryDiff (fun _ _ => true) movedOnce ⟨some 10, some 20, [], []⟩ = .ok second ∧
      memoryDiff (fun _ _ => true) movedOnce ⟨some 0, some 20, [], []⟩ = .ok both ∧
      both.changedFacts = first.changedFacts ++ second.changedFacts ∧
      first.ended.Disjoint second.ended := by
  obtain ⟨first, second, both, hfirst, hsecond, hboth, _, hchanged, hdisjoint, _⟩ :=
    memoryDiff_add (a := 0) (b := 10) (c := 20) (fun _ _ => true) movedOnce
      ⟨none, none, [], []⟩ (by decide) (by decide)
  exact ⟨first, second, both, hfirst, hsecond, hboth, hchanged, hdisjoint⟩

/-- In both windows together it counts as replaced only. -/
example : ((memoryDiff (fun _ _ => true) movedOnce ⟨some 0, some 20, [], []⟩).toOption.map
    (fun r => (r.createdFacts.map FactRef.factId, r.replaced))) = some ([1], [0]) := by
  decide +kernel

end Brain
