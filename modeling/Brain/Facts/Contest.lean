/-
Contests: the facts of a key that an ingest left competing, and the facts that it
would have made compete.

An ingest puts a whole group into `competing` at once. Every later operation
looks at single rows: candidates are active rows only, a retract hides its root,
and a dreams run ends at its first write. So the last member of a contest stays
`competing` for good once its opponent is retracted. Runs that retract no fact of
a contest of two leave nobody behind (`noOrphan_of_reaches`), and the first such
retract does (`orphan_of_retract_pair`).

On the other side, no two facts that an ingest leaves active contradict each
other: a run of `bitemporal` ingests keeps the active facts of a key free of
conflicts (`conflictFree_ingestAll`).
-/
import Brain.Facts.Lifecycle

set_option autoImplicit false

namespace Brain

/-! ## No contest of one -/

/-- Every unretracted competing fact has another one on its key. -/
def NoOrphan (t : KeyedTable KnowledgeFact) : Prop :=
  ∀ i f, t.get? i = some f → f.isCompeting = true →
    ∃ j g, j ≠ i ∧ t.get? j = some g ∧ g.key = f.key ∧ g.isCompeting = true

/-- The unretracted competing facts of one `(entityId, predicate)`. -/
def Store.competingOn (s : Store) (k : FactKey) : List (FactId × KnowledgeFact) :=
  s.facts.select (fun _ f => decide (f.key = k) && f.isCompeting)

/-- The operation does not carry out a retract of one of exactly two competitors. -/
def SparesPairs (s : Store) : Op → Prop
  | .retract _ root _ callerScopes => CarriesOut s root callerScopes →
      ∀ r, s.facts.get? root = some r → r.isCompeting = true → (s.competingOn r.key).length ≠ 2
  | _ => True

section Orphan

variable {fns : SurrealFns} {env : DbEnv} {a : ResolveArgs} {s : Store} {i j : FactId}
  {f g : KnowledgeFact}

theorem Store.mem_competingOn {k : FactKey} {q : FactId × KnowledgeFact} :
    q ∈ s.competingOn k ↔ s.facts.get? q.1 = some q.2 ∧ q.2.key = k ∧ q.2.isCompeting = true := by
  simp [competingOn]

/-- A contest with two given members has exactly two, or a third one. -/
theorem exists_third_competing {k : FactKey} (hne : j ≠ i) (hf : s.facts.get? i = some f)
    (hfk : f.key = k) (hfc : f.isCompeting = true) (hg : s.facts.get? j = some g)
    (hgk : g.key = k) (hgc : g.isCompeting = true) (hlen : (s.competingOn k).length ≠ 2) :
    ∃ m h, m ≠ i ∧ m ≠ j ∧ s.facts.get? m = some h ∧ h.key = k ∧ h.isCompeting = true := by
  have hi : i ∈ (s.competingOn k).map Prod.fst :=
    List.mem_map.mpr ⟨(i, f), Store.mem_competingOn.mpr ⟨hf, hfk, hfc⟩, rfl⟩
  have hj : j ∈ (s.competingOn k).map Prod.fst :=
    List.mem_map.mpr ⟨(j, g), Store.mem_competingOn.mpr ⟨hg, hgk, hgc⟩, rfl⟩
  have hnd : ((s.competingOn k).map Prod.fst).Nodup := KeyedTable.nodup_select _ _
  by_contra hno
  have hsub : (s.competingOn k).map Prod.fst ⊆ [j, i] := by
    intro m hm
    obtain ⟨⟨m', h⟩, hmem, rfl⟩ := List.mem_map.mp hm
    obtain ⟨hh, hhk, hhc⟩ := Store.mem_competingOn.mp hmem
    by_contra hout
    simp only [List.mem_cons, List.not_mem_nil, or_false, not_or] at hout
    exact hno ⟨m', h, hout.2, hout.1, hh, hhk, hhc⟩
  have hle := (List.subperm_of_subset hnd hsub).length_le
  -- nothing but the two, and both of them: the contest would have exactly two members
  have hsub' : [j, i] ⊆ (s.competingOn k).map Prod.fst := by
    intro m hm
    simp only [List.mem_cons, List.not_mem_nil, or_false] at hm
    rcases hm with rfl | rfl
    · exact hj
    · exact hi
  have hge := (List.subperm_of_subset (by simpa using hne) hsub').length_le
  simp only [List.length_map, List.length_cons, List.length_nil] at hle hge
  omega

/-- Facts of a contest are no candidates: a call leaves them alone. -/
theorem competes_of_isCompeting (hg : g.isCompeting = true) : ¬ a.competes fns g = true := by
  have hst := (KnowledgeFact.isCompeting_iff.mp hg).1
  simp [ResolveArgs.competes, ResolveArgs.isCandidate, KnowledgeFact.isActive, hst]

theorem settleRow_of_isCompeting (hg : g.isCompeting = true) (newId : FactId) :
    settleRow fns newId a g = g := by
  rw [settleRow, if_neg (competes_of_isCompeting hg)]

theorem contestRow_of_isCompeting (hg : g.isCompeting = true) : contestRow fns a g = g := by
  rw [contestRow, if_neg (competes_of_isCompeting hg)]

theorem isCompeting_competeRow (h : f.isActive = true) : (competeRow f).isCompeting = true :=
  KnowledgeFact.isCompeting_iff.mpr ⟨rfl, (KnowledgeFact.isActive_iff.mp h).2⟩

/-- An ingest leaves nobody behind: it adds to a contest the new fact and at least
one opponent, or nothing. -/
theorem NoOrphan.ingest (h : NoOrphan s.facts) :
    NoOrphan (afterResolve fns env s a).facts := by
  rcases afterResolve_cases fns env s a with
    ⟨hfacts, _⟩ | ⟨c, _, hfacts, _⟩ | ⟨c, _, _, hfacts, _, hne⟩
  · rw [hfacts]
    exact h
  · -- settled: the contests are the ones there were
    rw [hfacts]
    intro i f' hf hfc
    rcases settledFacts_cases hf with ⟨_, rfl⟩ | ⟨f, _, _, rfl⟩ | ⟨hf₀, _⟩
    · simp [KnowledgeFact.isCompeting, ResolveArgs.newRow] at hfc
    · simp [KnowledgeFact.isCompeting, supersedeRow] at hfc
    · obtain ⟨j, g, hj, hg, hgk, hgc⟩ := h i f' hf₀ hfc
      refine ⟨j, g, hj, ?_, hgk, hgc⟩
      rw [get?_settledFacts_of_get? hg, settleRow_of_isCompeting hgc]
  · rw [hfacts]
    have hnew : (contestedFacts fns env a c s.facts).get? s.facts.next
        = some (competeRow (a.newRow env c)) := by
      rw [get?_contestedFacts, if_pos rfl]
    have hnewc : (competeRow (a.newRow env c)).isCompeting = true := isCompeting_competeRow rfl
    intro i f' hf hfc
    rcases contestedFacts_cases hf with ⟨rfl, rfl⟩ | ⟨f, hf₀, hc, rfl⟩ | ⟨hf₀, _⟩
    · -- the new fact: one of its opponents is there
      obtain ⟨q, hq⟩ := List.exists_mem_of_ne_nil _ hne
      rw [resolveCompeting_eq, KeyedTable.mem_select] at hq
      obtain ⟨hkey, hact⟩ := ResolveArgs.isCandidate_iff.mp
        (ResolveArgs.isCandidate_of_competes hq.2)
      have hlt := Nat.ne_of_lt (KeyedTable.get?_lt_next hq.1)
      refine ⟨q.1, competeRow q.2, hlt, ?_, hkey, isCompeting_competeRow hact⟩
      rw [get?_contestedFacts_of_get? hq.1, contestRow, if_pos hq.2]
    · -- a fact that competes with the new one
      have hkey := (ResolveArgs.isCandidate_iff.mp (ResolveArgs.isCandidate_of_competes hc)).1
      have hi := Nat.ne_of_gt (KeyedTable.get?_lt_next hf₀)
      exact ⟨s.facts.next, _, hi, hnew, hkey.symm, hnewc⟩
    · -- a fact of an older contest, whose opponent is untouched as well
      obtain ⟨j, g, hj, hg, hgk, hgc⟩ := h i f' hf₀ hfc
      refine ⟨j, g, hj, ?_, hgk, hgc⟩
      rw [get?_contestedFacts_of_get? hg, contestRow_of_isCompeting hgc]

variable {now : Time} {root : FactId} {dto : RetractFactDto}
  {callerScopes : Option (List BrainScope)}

/-- A retract leaves every competing fact but its root as it is. -/
theorem get?_retract_of_isCompeting (hbook : Bookkeeping s.facts)
    (hc : CarriesOut s root callerScopes) (hi : i ≠ root) (hf : s.facts.get? i = some f)
    (hfc : f.isCompeting = true) :
    (afterRetract s now root dto callerScopes).facts.get? i = some f := by
  have hrev : isRevivable root f = false := by
    simp [isRevivable, (KnowledgeFact.isCompeting_iff.mp hfc).1]
  rw [hbook.get?_retract hc, hf]
  simp [retractEffect, hi, hrev]

/-- Where a competing fact after a carried-out retract comes from: it was one before,
and is not the root. -/
theorem isCompeting_of_retract (hbook : Bookkeeping s.facts)
    (hc : CarriesOut s root callerScopes)
    (hf : (afterRetract s now root dto callerScopes).facts.get? i = some f)
    (hfc : f.isCompeting = true) : i ≠ root ∧ s.facts.get? i = some f := by
  obtain ⟨f₀, hf₀, ⟨_, rfl⟩ | ⟨_, _, rfl⟩ | ⟨hi, _, rfl⟩⟩ := hbook.retract_row_cases hc hf
  · simp [KnowledgeFact.isCompeting, retractRow] at hfc
  · simp [KnowledgeFact.isCompeting, reviveRow] at hfc
  · exact ⟨hi, hf₀⟩

/-- A retract that spares contests of two leaves nobody behind. -/
theorem NoOrphan.retract (h : NoOrphan s.facts) (hbook : Bookkeeping s.facts)
    (hspare : SparesPairs s (.retract now root dto callerScopes)) :
    NoOrphan (afterRetract s now root dto callerScopes).facts := by
  by_cases hc : CarriesOut s root callerScopes
  · intro i f hf hfc
    obtain ⟨hi, hf₀⟩ := isCompeting_of_retract hbook hc hf hfc
    obtain ⟨j, g, hj, hg, hgk, hgc⟩ := h i f hf₀ hfc
    by_cases hjr : j = root
    · -- its opponent is retracted, but the contest had a third member
      subst hjr
      obtain ⟨m, r, hmi, hmj, hm, hmk, hmc⟩ := exists_third_competing hj hf₀ hgk.symm hfc hg rfl
        hgc (hspare hc g hg hgc)
      exact ⟨m, r, hmi, get?_retract_of_isCompeting hbook hc hmj hm hmc, hmk.trans hgk, hmc⟩
    · exact ⟨j, g, hj, get?_retract_of_isCompeting hbook hc hjr hg hgc, hgk, hgc⟩
  · rw [afterRetract_of_not_carriesOut hc]
    exact h

/-- **No orphaned contest.** In every run that carries out no retract of one of
exactly two competitors, every unretracted competing fact of every store has an
opponent. -/
theorem noOrphan_of_reaches (fns : SurrealFns) {s : Store} (h : Reaches fns SparesPairs s) :
    NoOrphan s.facts := by
  refine h.invariant_of (I := fun s => Bookkeeping s.facts) (P := fun s => NoOrphan s.facts)
    (fun _ hs => bookkeeping_of_reaches hs) (fun i f hf => by cases hf) ?_
  intro s op hbook hs hspare
  cases op with
  | ingest env a => exact hs.ingest
  | retract now root dto callerScopes => exact hs.retract hbook hspare
  | dreams judge cfg now =>
      rw [execOp_dreams]
      exact hs

/-- Two statuses compete and a third one is active; the third one is retracted. -/
theorem noOrphan_after_retract_active :
    NoOrphan (afterRetract (ingestAll .atRecording .empty
      [statusFrom 0, statusFrom 0, statusFrom 0]) 5 2
      { reason := "typo", retractedBy := .human } none).facts := by
  apply noOrphan_of_reaches .atRecording
  refine Runs.Reached.next (Op.retract 5 2 { reason := "typo", retractedBy := .human } none)
    (reaches_ingestAll [statusFrom 0, statusFrom 0, statusFrom 0] (fun _ _ _ => trivial)) ?_
  intro _ r hr hrc
  have hnot : ((ingestAll .atRecording .empty [statusFrom 0, statusFrom 0, statusFrom 0]).facts.get?
      2).map KnowledgeFact.isCompeting = some false := by decide +kernel
  rw [hr] at hnot
  simp [hrc] at hnot

/-- **The condition is exact.** A carried-out retract of one of exactly two
competitors leaves the other one competing alone. -/
theorem orphan_of_retract_pair (hbook : Bookkeeping s.facts)
    (hc : CarriesOut s root callerScopes) {r : KnowledgeFact} (hr : s.facts.get? root = some r)
    (hrc : r.isCompeting = true) (htwo : (s.competingOn r.key).length = 2) :
    ¬ NoOrphan (afterRetract s now root dto callerScopes).facts := by
  intro hno
  have hnd : ((s.competingOn r.key).map Prod.fst).Nodup := KeyedTable.nodup_select _ _
  have hroot : (root, r) ∈ s.competingOn r.key := Store.mem_competingOn.mpr ⟨hr, rfl, hrc⟩
  -- the other member
  obtain ⟨q, hq, hqr⟩ : ∃ q ∈ s.competingOn r.key, q.1 ≠ root := by
    by_contra hall
    push Not at hall
    have hsub : (s.competingOn r.key).map Prod.fst ⊆ [root] := by
      intro m hm
      obtain ⟨q, hq, rfl⟩ := List.mem_map.mp hm
      simp [hall q hq]
    have hle := (List.subperm_of_subset hnd hsub).length_le
    simp only [List.length_map, List.length_cons, List.length_nil] at hle
    omega
  obtain ⟨hqf, hqk, hqc⟩ := Store.mem_competingOn.mp hq
  obtain ⟨j, g, hj, hg, hgk, hgc⟩ := hno q.1 q.2
    (get?_retract_of_isCompeting hbook hc hqr hqf hqc) hqc
  obtain ⟨hjr, hg₀⟩ := isCompeting_of_retract hbook hc hg hgc
  -- an opponent that is left makes three
  have hthree : [root, q.1, j] ⊆ (s.competingOn r.key).map Prod.fst := by
    intro m hm
    simp only [List.mem_cons, List.not_mem_nil, or_false] at hm
    rcases hm with rfl | rfl | rfl
    · exact List.mem_map.mpr ⟨_, hroot, rfl⟩
    · exact List.mem_map.mpr ⟨_, hq, rfl⟩
    · exact List.mem_map.mpr
        ⟨(m, g), Store.mem_competingOn.mpr ⟨hg₀, hgk.trans hqk, hgc⟩, rfl⟩
  have hnd3 : [root, q.1, j].Nodup := by
    simp [Ne.symm hqr, Ne.symm hjr, Ne.symm hj]
  have hge := (List.subperm_of_subset hnd3 hthree).length_le
  simp only [List.length_map, List.length_cons, List.length_nil] at hge
  omega

/-- Two statuses compete, and one of them is retracted: the other one stays
competing, with nothing to compete with. -/
theorem orphan_after_retract :
    ¬ ∀ (fns : SurrealFns) (s : Store), Reaches fns (fun _ _ => True) s → NoOrphan s.facts := by
  intro h
  have hrun : Reaches .atRecording (fun _ _ => True)
      (ingestAll .atRecording .empty [statusFrom 0, statusFrom 0]) :=
    reaches_ingestAll [statusFrom 0, statusFrom 0] (fun _ _ _ => trivial)
  have hrow : ((ingestAll .atRecording .empty [statusFrom 0, statusFrom 0]).facts.get? 0).map
      (fun r => (r.isCompeting, r.retractedAt, r.key)) = some (true, none, (1, "status")) := by
    decide +kernel
  obtain ⟨r, hr, hrow⟩ := Option.map_eq_some_iff.mp hrow
  obtain ⟨hrc, hrat, hrk⟩ : r.isCompeting = true ∧ r.retractedAt = none ∧ r.key = (1, "status") := by
    simpa using hrow
  refine orphan_of_retract_pair (bookkeeping_of_reaches hrun) ⟨r, hr, rfl, hrat⟩ hr hrc ?_
    (h .atRecording _ (Runs.Reached.next
      (Op.retract 5 0 { reason := "wrong", retractedBy := .human } none) hrun trivial))
  rw [hrk]
  decide +kernel

end Orphan

/-! ## No conflict among the active facts -/

/-- Whether both facts have embeddings and these are similar. -/
def Similar (fns : SurrealFns) (θ : ℚ) (f g : KnowledgeFact) : Prop :=
  ∃ u v, f.embedding = some u ∧ g.embedding = some v ∧ θ ≤ fns.cosine u v

/-- No two distinct active facts of `k` overlap in valid time and are similar. -/
def ConflictFree (fns : SurrealFns) (θ : ℚ) (k : FactKey) (t : KeyedTable KnowledgeFact) : Prop :=
  ∀ i f j g, t.get? i = some f → t.get? j = some g → i ≠ j → f.key = k → g.key = k →
    f.isActive = true → g.isActive = true →
    ¬ (Fn.intervalsOverlap f.validFrom f.validUntil g.validFrom g.validUntil = true ∧
      Similar fns θ f g)

section Conflicts

variable {fns : SurrealFns} {env : DbEnv} {a : ResolveArgs} {s : Store} {k : FactKey} {θ : ℚ}

/-- A candidate that overlaps the call and is similar to it competes. -/
theorem competes_of_conflict (hsem : a.semantics = .bitemporal)
    (hθ : a.similarityThreshold = θ) {c : Confidence} {f : KnowledgeFact} (hk : f.key = a.key)
    (hact : f.isActive = true)
    (hover : Fn.intervalsOverlap f.validFrom f.validUntil a.validFrom a.validUntil = true)
    (hsim : Similar fns θ f (a.newRow env c)) : a.competes fns f = true := by
  obtain ⟨u, v, hu, hv, hle⟩ := hsim
  cases hv
  simp [ResolveArgs.competes, ResolveArgs.isCandidate, ResolveArgs.contests, hk, hact, hsem, hover,
    hu, hθ, hle]

/-- Similarity is symmetric where the database's function is. -/
theorem Similar.symm {f g : KnowledgeFact} (hsymm : ∀ u v, fns.cosine u v = fns.cosine v u)
    (h : Similar fns θ f g) : Similar fns θ g f := by
  obtain ⟨u, v, hu, hv, hle⟩ := h
  exact ⟨v, u, hv, hu, by rwa [hsymm v u]⟩

/-- One call keeps the active facts of `k` free of conflicts: the rows that stay
active are rows that were, less what competed with the new one. -/
theorem ConflictFree.ingest (h : ConflictFree fns θ k s.facts)
    (hsymm : ∀ u v, fns.cosine u v = fns.cosine v u)
    (hcall : a.key = k → a.semantics = .bitemporal ∧ a.similarityThreshold = θ) :
    ConflictFree fns θ k (afterResolve fns env s a).facts := by
  by_cases hk : a.key = k
  · obtain ⟨hsem, hθ⟩ := hcall hk
    subst hk
    rcases afterResolve_cases fns env s a with
      ⟨hfacts, _⟩ | ⟨c, _, hfacts, _⟩ | ⟨c, _, _, hfacts, _, _⟩
    · rw [hfacts]
      exact h
    · rw [hfacts]
      -- what is active afterwards is the new row, or was active and does not compete
      have hcases : ∀ i f', (settledFacts fns env a c s.facts).get? i = some f' →
          f'.isActive = true → (i = s.facts.next ∧ f' = a.newRow env c) ∨
            (s.facts.get? i = some f' ∧ a.competes fns f' = false) := by
        intro i f' hf hfa
        rcases settledFacts_cases hf with hnew | ⟨f, _, _, rfl⟩ | hold
        · exact Or.inl hnew
        · simp [KnowledgeFact.isActive, supersedeRow] at hfa
        · exact Or.inr hold
      intro i f j g hf hg hij hfk hgk hfa hga hconf
      obtain ⟨hover, hsim⟩ := hconf
      rcases hcases i f hf hfa with ⟨hi, rfl⟩ | ⟨hf₀, hfn⟩
      · rcases hcases j g hg hga with ⟨hj, rfl⟩ | ⟨hg₀, hgn⟩
        · exact hij (hi.trans hj.symm)
        · -- the new row would have competed with the old one, and similarity is symmetric
          have hover' : Fn.intervalsOverlap g.validFrom g.validUntil a.validFrom a.validUntil
              = true := (Span.overlaps_comm _ _).trans hover
          rw [competes_of_conflict hsem hθ hgk hga hover' (hsim.symm hsymm)] at hgn
          cases hgn
      · rcases hcases j g hg hga with ⟨hj, rfl⟩ | ⟨hg₀, _⟩
        · rw [competes_of_conflict hsem hθ hfk hfa hover hsim] at hfn
          cases hfn
        · exact h i f j g hf₀ hg₀ hij hfk hgk hfa hga ⟨hover, hsim⟩
    · rw [hfacts]
      -- a contest leaves active only what was, and did not compete
      have hcases : ∀ i f', (contestedFacts fns env a c s.facts).get? i = some f' →
          f'.isActive = true → s.facts.get? i = some f' := by
        intro i f' hf hfa
        rcases contestedFacts_cases hf with ⟨_, rfl⟩ | ⟨f, _, _, rfl⟩ | ⟨hf₀, _⟩
        · simp [KnowledgeFact.isActive, competeRow] at hfa
        · simp [KnowledgeFact.isActive, competeRow] at hfa
        · exact hf₀
      intro i f j g hf hg hij hfk hgk hfa hga
      exact h i f j g (hcases i f hf hfa) (hcases j g hg hga) hij hfk hgk hfa hga
  · intro i f j g hf hg hij hfk hgk
    exact h i f j g (get?_of_ingest_other hk hf hfk) (get?_of_ingest_other hk hg hgk) hij hfk hgk

/-- **Conflict-freedom of the active facts.** After any sequence of calls that are
`bitemporal` on `k` with one similarity threshold, no two distinct active facts of
`k` overlap in valid time and are similar. -/
theorem conflictFree_ingestAll (fns : SurrealFns)
    (hsymm : ∀ u v, fns.cosine u v = fns.cosine v u) (θ : ℚ) (k : FactKey)
    (calls : List ResolveCall)
    (hcalls : ∀ c ∈ calls, c.args.key = k →
      c.args.semantics = .bitemporal ∧ c.args.similarityThreshold = θ) :
    ConflictFree fns θ k (ingestAll fns .empty calls).facts := by
  induction calls using List.reverseRecOn with
  | nil =>
      intro i f j g hf
      cases hf
  | append_singleton calls c ih =>
      rw [ingestAll_append]
      exact (ih (fun d hd => hcalls d (List.mem_append_left _ hd))).ingest hsymm
        (hcalls c (by simp))

/-- Two statuses that overlap, resolved in whatever way. -/
theorem conflictFree_two_statuses :
    ConflictFree .atRecording (85 / 100) (1, "status")
      (ingestAll .atRecording .empty [statusFrom 0, statusFrom 5]).facts := by
  refine conflictFree_ingestAll .atRecording ?_ (85 / 100) (1, "status")
    [statusFrom 0, statusFrom 5] (by decide +kernel)
  intro u v
  simp only [SurrealFns.atRecording, eq_comm]

end Conflicts

end Brain
