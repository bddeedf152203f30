/-
Single-active uniqueness over whole runs: how many active facts a key can have
when ingests and retracts follow each other.

An ingest restores uniqueness by itself. A retract revives what its root had
superseded, without looking at what superseded the root in the meantime; so the
facts of a key form a chain of supersedes in which only the end, or a fact that
revives nothing, can be retracted without a second active fact appearing. Both
directions are here: runs that never retract in the middle of a chain keep at most
one active fact (`activeOn_le_one_of_reaches`), and the first retract that does
leaves two (`two_active_of_midChain`).
-/
import Brain.Facts.Lifecycle

set_option autoImplicit false

namespace Brain

/-- Fact `g` is in the middle of a chain: it is superseded itself, and some fact is
still superseded by it. -/
def MidChain (t : KeyedTable KnowledgeFact) (g : FactId) : Prop :=
  ∃ f, t.get? g = some f ∧ f.status = .superseded ∧
    ∃ i h, t.get? i = some h ∧ isRevivable g h = true

/-- The ingests on `k` are `single_active`. -/
def SingleActiveOn (k : FactKey) : Op → Prop
  | .ingest _ a => a.key = k → a.semantics = .single_active
  | _ => True

/-- The operation carries out a retract of a fact on `k`. -/
def RetractsOn (k : FactKey) (s : Store) (g : FactId) (callerScopes : Option (List BrainScope)) :
    Prop :=
  CarriesOut s g callerScopes ∧ ∀ f, s.facts.get? g = some f → f.key = k

/-- The operation does not retract in the middle of a chain on `k`. -/
def SparesChain (k : FactKey) (s : Store) : Op → Prop
  | .retract _ g _ callerScopes => RetractsOn k s g callerScopes → ¬ MidChain s.facts g
  | _ => True

/-- The chain of supersedes on `k`. -/
structure Chain (k : FactKey) (t : KeyedTable KnowledgeFact) : Prop where
  /-- One active fact at most. -/
  active : ∀ i f j g, t.get? i = some f → t.get? j = some g → f.key = k → g.key = k →
    f.isActive = true → g.isActive = true → i = j
  /-- No fact has superseded two others. -/
  pointers : ∀ i f j g x, t.get? i = some f → t.get? j = some g → f.key = k → g.key = k →
    f.status = .superseded → g.status = .superseded → f.supersededBy = some x →
    g.supersededBy = some x → i = j
  uncontested : ∀ i f, t.get? i = some f → f.key = k → f.status ≠ .competing
  /-- What a superseded fact points at has not been retracted. -/
  followed : ∀ i f g h, t.get? i = some f → f.key = k → f.status = .superseded →
    f.supersededBy = some g → t.get? g = some h → h.status ≠ .retracted

section Step

variable {fns : SurrealFns} {env : DbEnv} {a : ResolveArgs} {k : FactKey} {s : Store}

/-- A settling call on `k` itself extends the chain. -/
theorem Chain.settle (h : Chain k s.facts) (hbook : Bookkeeping s.facts)
    (hsem : a.semantics = .single_active) (hk : a.key = k) (c : Confidence) :
    Chain k (settledFacts fns env a c s.facts) := by
  subst hk
  refine ⟨?_, ?_, ?_, ?_⟩
  · intro i f' j g' hf hg hfk hgk hfa hga
    rw [eq_next_of_settled_active hsem hf hfk hfa, eq_next_of_settled_active hsem hg hgk hga]
  · intro i f' j g' x hf hg hfk hgk hfs hgs hfx hgx
    rcases settled_row_cases hsem hf hfk with ⟨_, rfl⟩ | ⟨f, hf₀, hk₁, hfa, rfl⟩ | ⟨hf₀, _⟩
    · cases hfs
    · -- superseded just now: the new fact has superseded the one active fact only
      rcases settled_row_cases hsem hg hgk with ⟨_, rfl⟩ | ⟨g, hg₀, hk₂, hga, rfl⟩ | ⟨hg₀, _⟩
      · cases hgs
      · exact h.active i f j g hf₀ hg₀ hk₁ hk₂ hfa hga
      · cases hfx
        exact absurd hgx (hbook.supersededBy_ne_next hg₀ hgs)
    · rcases settled_row_cases hsem hg hgk with ⟨_, rfl⟩ | ⟨g, _, _, _, rfl⟩ | ⟨hg₀, _⟩
      · cases hgs
      · cases hgx
        exact absurd hfx (hbook.supersededBy_ne_next hf₀ hfs)
      · exact h.pointers i f' j g' x hf₀ hg₀ hfk hgk hfs hgs hfx hgx
  · intro i f' hf hfk
    rcases settled_row_cases hsem hf hfk with ⟨_, rfl⟩ | ⟨f, _, _, _, rfl⟩ | ⟨hf₀, _⟩
    · simp [ResolveArgs.newRow]
    · simp [supersedeRow]
    · exact h.uncontested i f' hf₀ hfk
  · intro i f' g h' hf hfk hfs hfg hh
    rcases settledFacts_cases hh with ⟨_, rfl⟩ | ⟨r, _, _, rfl⟩ | ⟨hr, _⟩
    · simp [ResolveArgs.newRow]
    · simp [supersedeRow]
    · -- what is pointed at was there before, so the pointer is an old one
      rcases settled_row_cases hsem hf hfk with ⟨_, rfl⟩ | ⟨f, _, _, _, rfl⟩ | ⟨hf₀, _⟩
      · cases hfs
      · cases hfg
        rw [KeyedTable.get?_next] at hr
        cases hr
      · exact h.followed i f' g h' hf₀ hfk hfs hfg hr

/-- An ingest keeps the chain. -/
theorem Chain.ingest (h : Chain k s.facts) (hbook : Bookkeeping s.facts)
    (hsem : a.key = k → a.semantics = .single_active) :
    Chain k (afterResolve fns env s a).facts := by
  by_cases hk : a.key = k
  · rw [facts_afterResolve_single (hsem hk)]
    split
    · exact h
    · exact h.settle hbook (hsem hk) hk _
  · have hback : ∀ i f, (afterResolve fns env s a).facts.get? i = some f → f.key = k →
        s.facts.get? i = some f := fun i f hf hfk => get?_of_ingest_other hk hf hfk
    refine ⟨?_, ?_, ?_, ?_⟩
    · intro i f j g hf hg hfk hgk
      exact h.active i f j g (hback i f hf hfk) (hback j g hg hgk) hfk hgk
    · intro i f j g x hf hg hfk hgk
      exact h.pointers i f j g x (hback i f hf hfk) (hback j g hg hgk) hfk hgk
    · intro i f hf hfk
      exact h.uncontested i f (hback i f hf hfk) hfk
    · intro i f g r hf hfk hfs hfg hr
      have hf₀ := hback i f hf hfk
      obtain ⟨_, r', hr', hkey⟩ := hbook.get?_of_supersededBy hf₀ hfs hfg
      obtain ⟨r'', hr'', hkey'⟩ : ∃ r'', (afterResolve fns env s a).facts.get? g = some r'' ∧
          r''.key = r'.key := get?_afterResolve hr'
      rw [hr] at hr''
      cases hr''
      have hrk : r.key = k := by rw [hkey', hkey, hfk]
      exact h.followed i f g r hf₀ hfk hfs hfg (hback g r hr hrk)

variable {now : Time} {root : FactId} {dto : RetractFactDto}
  {callerScopes : Option (List BrainScope)}

/-- A fact on `k` that a retract revives had been superseded by a fact on `k`. -/
theorem Bookkeeping.key_of_isRevivable (hbook : Bookkeeping s.facts) {i : FactId}
    {f r : KnowledgeFact} (hf : s.facts.get? i = some f) (hrev : isRevivable root f = true)
    (hr : s.facts.get? root = some r) : i < root ∧ r.key = f.key := by
  obtain ⟨hptr, hst, _⟩ := isRevivable_iff.mp hrev
  obtain ⟨hlt, r', hr', hkey⟩ := hbook.get?_of_supersededBy hf hst hptr
  rw [hr] at hr'
  rw [Option.some.inj hr']
  exact ⟨hlt, hkey⟩

/-- Outside the middle of a chain, what something waits for is active: it was not
superseded itself. -/
theorem Chain.isActive_root (h : Chain k s.facts) (hbook : Bookkeeping s.facts)
    (hspare : RetractsOn k s root callerScopes → ¬ MidChain s.facts root)
    (hc : CarriesOut s root callerScopes) {r : KnowledgeFact} (hr : s.facts.get? root = some r)
    (hrk : r.key = k) {i : FactId} {f : KnowledgeFact} (hf : s.facts.get? i = some f)
    (hrev : isRevivable root f = true) : r.isActive = true := by
  obtain ⟨r', hr', _, hat⟩ := id hc
  rw [hr, Option.some.injEq] at hr'
  rw [← hr'] at hat
  have hnot : ¬ MidChain s.facts root := by
    apply hspare
    refine ⟨hc, fun r' hr' => ?_⟩
    rw [hr, Option.some.injEq] at hr'
    rw [← hr', hrk]
  rw [KnowledgeFact.isActive_iff]
  refine ⟨?_, hat⟩
  cases hst : r.status with
  | active => rfl
  | competing => exact absurd hst (h.uncontested root r hr hrk)
  | retracted => exact absurd hat ((hbook root r hr).retracted hst)
  | superseded => exact absurd ⟨r, hr, hst, i, f, hf, hrev⟩ hnot
  | compacted => exact absurd hst (hbook root r hr).uncompacted

/-- Next to a fact that the retract revives, no other fact than the root is active. -/
theorem Chain.not_isActive_of_isRevivable (h : Chain k s.facts) (hbook : Bookkeeping s.facts)
    (hspare : RetractsOn k s root callerScopes → ¬ MidChain s.facts root)
    (hc : CarriesOut s root callerScopes) {i j : FactId} {f g : KnowledgeFact}
    (hf : s.facts.get? i = some f) (hfk : f.key = k) (hrev : isRevivable root f = true)
    (hj : j ≠ root) (hg : s.facts.get? j = some g) (hgk : g.key = k) : ¬ g.isActive = true := by
  obtain ⟨r, hr, _⟩ := id hc
  have hrk : r.key = k := (hbook.key_of_isRevivable hf hrev hr).2.trans hfk
  intro hga
  exact hj (h.active j g root r hg hr hgk hrk hga
    (h.isActive_root hbook hspare hc hr hrk hf hrev))

/-- What is superseded after a retract was so before, and did not wait for the root. -/
theorem Bookkeeping.superseded_of_retract (hbook : Bookkeeping s.facts)
    (hc : CarriesOut s root callerScopes) {i : FactId} {f : KnowledgeFact}
    (hf : (afterRetract s now root dto callerScopes).facts.get? i = some f)
    (hst : f.status = .superseded) :
    s.facts.get? i = some f ∧ isRevivable root f = false := by
  obtain ⟨f₀, hf₀, ⟨_, rfl⟩ | ⟨_, _, rfl⟩ | ⟨_, hnr, rfl⟩⟩ := hbook.retract_row_cases hc hf
  · cases hst
  · cases hst
  · exact ⟨hf₀, hnr⟩

/-- A retract that spares the middle of the chain keeps the chain. The one case
with an argument is a revived fact next to one that stays active: then the root
was active itself, since it was not superseded, and the other one was the root. -/
theorem Chain.retract (h : Chain k s.facts) (hbook : Bookkeeping s.facts)
    (hspare : RetractsOn k s root callerScopes → ¬ MidChain s.facts root) :
    Chain k (afterRetract s now root dto callerScopes).facts := by
  by_cases hc : CarriesOut s root callerScopes
  · have hcases : ∀ i f', (afterRetract s now root dto callerScopes).facts.get? i = some f' → _ :=
      fun i f' hf' => hbook.retract_row_cases hc hf'
    refine ⟨?_, ?_, ?_, ?_⟩
    · intro i f' j g' hf hg hfk hgk hfa hga
      obtain ⟨f, hf₀, ⟨_, rfl⟩ | ⟨hi, hfr, rfl⟩ | ⟨hi, _, rfl⟩⟩ := hcases i f' hf
      · simp [KnowledgeFact.isActive, retractRow] at hfa
      · obtain ⟨g, hg₀, ⟨_, rfl⟩ | ⟨_, hgr, rfl⟩ | ⟨hj, _, rfl⟩⟩ := hcases j g' hg
        · simp [KnowledgeFact.isActive, retractRow] at hga
        · -- both revived: both pointed at the root
          obtain ⟨hfp, hfs, _⟩ := isRevivable_iff.mp hfr
          obtain ⟨hgp, hgs, _⟩ := isRevivable_iff.mp hgr
          exact h.pointers i f j g root hf₀ hg₀ hfk hgk hfs hgs hfp hgp
        · exact absurd hga (h.not_isActive_of_isRevivable hbook hspare hc hf₀ hfk hfr hj hg₀ hgk)
      · obtain ⟨g, hg₀, ⟨_, rfl⟩ | ⟨_, hgr, rfl⟩ | ⟨_, _, rfl⟩⟩ := hcases j g' hg
        · simp [KnowledgeFact.isActive, retractRow] at hga
        · exact absurd hfa (h.not_isActive_of_isRevivable hbook hspare hc hg₀ hgk hgr hi hf₀ hfk)
        · exact h.active i f' j g' hf₀ hg₀ hfk hgk hfa hga
    · intro i f j g x hf hg hfk hgk hfs hgs hfx hgx
      have hf₀ := (hbook.superseded_of_retract hc hf hfs).1
      have hg₀ := (hbook.superseded_of_retract hc hg hgs).1
      exact h.pointers i f j g x hf₀ hg₀ hfk hgk hfs hgs hfx hgx
    · intro i f' hf hfk
      obtain ⟨f, hf₀, ⟨_, rfl⟩ | ⟨_, _, rfl⟩ | ⟨_, _, rfl⟩⟩ := hcases i f' hf
      · simp [retractRow]
      · simp [reviveRow]
      · exact h.uncontested i f' hf₀ hfk
    · intro i f g g' hf hfk hfs hfg hg
      obtain ⟨hf₀, hnr⟩ := hbook.superseded_of_retract hc hf hfs
      obtain ⟨g₀, hg₀, ⟨rfl, _⟩ | ⟨_, _, rfl⟩ | ⟨_, _, rfl⟩⟩ := hcases g g' hg
      · -- it pointed at the root, so it would have been revived
        have hrev := isRevivable_iff.mpr ⟨hfg, hfs, ((hbook i f hf₀).superseded hfs).2.1⟩
        rw [hrev] at hnr
        cases hnr
      · simp [reviveRow]
      · exact h.followed i f g g' hf₀ hfk hfs hfg hg₀
  · rw [afterRetract_of_not_carriesOut hc]
    exact h

/-- Every operation that keeps to `single_active` on `k` and spares the middle of
its chain keeps the chain. -/
theorem Chain.execOp (h : Chain k s.facts) (hbook : Bookkeeping s.facts) {op : Op}
    (hsem : SingleActiveOn k op) (hspare : SparesChain k s op) :
    Chain k (execOp fns s op).facts := by
  cases op with
  | ingest env a => exact h.ingest hbook hsem
  | retract now root dto callerScopes => exact h.retract hbook hspare
  | dreams judge cfg now =>
      rw [execOp_dreams]
      exact h

end Step

section Runs

variable {fns : SurrealFns} {k : FactKey} {s : Store}

theorem chain_empty (k : FactKey) : Chain k (KeyedTable.empty : KeyedTable KnowledgeFact) := by
  refine ⟨?_, ?_, ?_, ?_⟩
  · intro i f j g hf
    cases hf
  · intro i f j g x hf
    cases hf
  · intro i f hf
    cases hf
  · intro i f g r hf
    cases hf

/-- The chain is there in every store that is reached. -/
theorem chain_of_reaches
    (h : Reaches fns (fun s op => SingleActiveOn k op ∧ SparesChain k s op) s) :
    Chain k s.facts :=
  h.invariant_of (I := fun s => Bookkeeping s.facts) (P := fun s => Chain k s.facts)
    (fun _ hs => bookkeeping_of_reaches hs) (chain_empty k)
    (fun _ _ hbook hs hC => hs.execOp hbook hC.1 hC.2)

/-- **Uniqueness.** In every run whose ingests on `k` are `single_active` and which
never carries out a retract in the middle of a chain on `k`, no store has two
active facts on `k`. -/
theorem activeOn_le_one_of_reaches (fns : SurrealFns) (k : FactKey) {s : Store}
    (h : Reaches fns (fun s op => SingleActiveOn k op ∧ SparesChain k s op) s) :
    (s.activeOn k).length ≤ 1 := by
  have hchain := chain_of_reaches h
  rw [Store.length_activeOn_le_one_iff]
  exact hchain.active

/-- The latest of two addresses is retracted: the first one is back, alone. -/
theorem activeOn_le_one_after_retract_last :
    ((afterRetract (ingestAll .atRecording .empty [addressFrom 0, addressFrom 10]) 30 1
      { reason := "typo", retractedBy := .human } none).activeOn (1, "address")).length ≤ 1 := by
  apply activeOn_le_one_of_reaches .atRecording (1, "address")
  refine Runs.Reached.next (Op.retract 30 1 { reason := "typo", retractedBy := .human } none)
    (reaches_ingestAll [addressFrom 0, addressFrom 10] ?_) ⟨trivial, ?_⟩
  · intro _ c hc
    refine ⟨fun _ => ?_, trivial⟩
    revert c
    decide
  · rintro _ ⟨f, hf, hs, _⟩
    have hst : ((ingestAll .atRecording .empty [addressFrom 0, addressFrom 10]).facts.get? 1).map
        KnowledgeFact.status = some .active := by decide +kernel
    rw [hf] at hst
    simp [hs] at hst

/-- The second of three addresses is retracted: the first one comes back, although
the third one has replaced the second. -/
theorem activeOn_two_after_retract_middle :
    ¬ ∀ (fns : SurrealFns) (k : FactKey) (s : Store),
      Reaches fns (fun _ op => SingleActiveOn k op) s → (s.activeOn k).length ≤ 1 := by
  intro h
  have hrun : Reaches .atRecording (fun _ op => SingleActiveOn (1, "address") op)
      (afterRetract (ingestAll .atRecording .empty
          [addressFrom 0, addressFrom 10, addressFrom 20]) 30 1
        { reason := "typo", retractedBy := .human } none) := by
    refine Runs.Reached.next (Op.retract 30 1 { reason := "typo", retractedBy := .human } none)
      (reaches_ingestAll [addressFrom 0, addressFrom 10, addressFrom 20] ?_) trivial
    intro _ c hc _
    revert c
    decide
  have htwo : ((afterRetract (ingestAll .atRecording .empty
      [addressFrom 0, addressFrom 10, addressFrom 20]) 30 1
      { reason := "typo", retractedBy := .human } none).activeOn (1, "address")).length = 2 := by
    decide +kernel
  have hone := h _ _ _ hrun
  omega

/-- Above a superseded fact of the chain there is an active one. The chain climbs
in the identifiers, which are bounded. -/
theorem Chain.exists_active_above (h : Chain k s.facts) (hbook : Bookkeeping s.facts) :
    ∀ n i f, s.facts.next - i = n → s.facts.get? i = some f → f.key = k →
      f.status = .superseded →
      ∃ j r, i < j ∧ s.facts.get? j = some r ∧ r.key = k ∧ r.isActive = true := by
  intro n
  induction n using Nat.strong_induction_on with
  | _ n ih =>
      intro i f hn hf hfk hfs
      -- the fact that superseded it is active, or superseded in turn and further up
      obtain ⟨_, _, g, r, hg, hlt, hr, hkey⟩ := (hbook i f hf).superseded hfs
      have hrk : r.key = k := hkey.trans hfk
      have hglt := KeyedTable.get?_lt_next hr
      cases hst : r.status with
      | active =>
          exact ⟨g, r, hlt, hr, hrk, KnowledgeFact.isActive_iff.mpr
            ⟨hst, ((hbook g r hr).fresh (Or.inl hst)).1⟩⟩
      | competing => exact absurd hst (h.uncontested g r hr hrk)
      | retracted => exact absurd hst (h.followed i f g r hf hfk hfs hg hr)
      | compacted => exact absurd hst (hbook g r hr).uncompacted
      | superseded =>
          have hless : s.facts.next - g < n := hn ▸ Nat.sub_lt_sub_left (Nat.lt_trans hlt hglt) hlt
          obtain ⟨j, r', hj, hr'⟩ := ih _ hless g r rfl hr hrk hst
          exact ⟨j, r', Nat.lt_trans hlt hj, hr'⟩

/-- **The condition is exact.** In a store that such a run reaches, a retract that
is carried out in the middle of a chain on `k` leaves two active facts. -/
theorem two_active_of_midChain
    (h : Reaches fns (fun s op => SingleActiveOn k op ∧ SparesChain k s op) s) {root : FactId}
    {callerScopes : Option (List BrainScope)} (hon : RetractsOn k s root callerScopes)
    (hmid : MidChain s.facts root) (now : Time) (dto : RetractFactDto) :
    ¬ ((afterRetract s now root dto callerScopes).activeOn k).length ≤ 1 := by
  have hbook := bookkeeping_of_reaches h
  have hchain := chain_of_reaches h
  obtain ⟨hc, hkey⟩ := hon
  obtain ⟨r, hr, hrs, i, f, hf, hrev⟩ := hmid
  obtain ⟨hir, hrf⟩ := hbook.key_of_isRevivable hf hrev hr
  obtain ⟨j, g, hrj, hg, hgk, hga⟩ :=
    hchain.exists_active_above hbook _ root r rfl hr (hkey r hr) hrs
  have hgnot : isRevivable root g = false := by
    simp [isRevivable, (KnowledgeFact.isActive_iff.mp hga).1]
  -- the predecessor comes back, and the end of the chain stays
  have hi : (afterRetract s now root dto callerScopes).facts.get? i = some (reviveRow f f) := by
    rw [hbook.get?_retract hc, hf]
    simp [retractEffect, Nat.ne_of_lt hir, hrev]
  have hj : (afterRetract s now root dto callerScopes).facts.get? j = some g := by
    rw [hbook.get?_retract hc, hg]
    simp [retractEffect, Nat.ne_of_gt hrj, hgnot]
  rw [Store.length_activeOn_le_one_iff]
  intro hone
  have hfk : (reviveRow f f).key = k := hrf.symm.trans (hkey r hr)
  have hfa : (reviveRow f f).isActive = true := KnowledgeFact.isActive_iff.mpr ⟨rfl, rfl⟩
  have heq := hone i (reviveRow f f) j g hi hj hfk hgk hfa hga
  exact absurd heq (Nat.ne_of_lt (Nat.lt_trans hir hrj))

end Runs

end Brain
