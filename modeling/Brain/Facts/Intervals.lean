/-
What the writers of `validUntil` do to a fact's interval.

A supersede closes its losers at the start of the new fact, and a retract closes
its root and what derives from it at the time of the call; neither compares that
instant with the interval that is there (`retract` means to keep an end that is
set, but reads a column that it has not selected). So closing can invert an
interval, when the instant is before the fact's start, and it can extend one,
when the instant is after the fact's end. Both are settled here for every store:
no interval is inverted exactly when everything is closed in order
(`ordered_of_reaches`, `closesInOrder_of_ordered`), and closing shrinks exactly
when the instant fits (`closing_shrinks_iff`).
-/
import Brain.Facts.Lifecycle

set_option autoImplicit false

namespace Brain

/-- The interval that a call asks for is ordered. -/
def OrderedInput : Op → Prop
  | .ingest _ a => a.span.Ordered
  | _ => True

/-- Whatever the operation closes starts no later than the instant it is closed at. -/
def ClosesInOrder (fns : SurrealFns) (s : Store) : Op → Prop
  | .ingest env a => ∀ p ∈ losers fns env s a, p.2.validFrom ≤ a.validFrom
  | .retract now root _ callerScopes => CarriesOut s root callerScopes →
      ∀ i f, s.facts.get? i = some f → i = root ∨ Derives s.facts root i → f.validFrom ≤ now
  | .dreams _ _ _ => True

/-- Closing a fact at `c` takes nothing in that was outside: `c` is not after the
fact's end, or not after its start. -/
def Fits (c : Time) (f : KnowledgeFact) : Prop :=
  c ≤ f.validFrom ∨ ∀ u ∈ f.validUntil, c ≤ u

/-- Whatever the operation closes fits the instant it is closed at. -/
def ClosesWithin (fns : SurrealFns) (s : Store) : Op → Prop
  | .ingest env a => ∀ p ∈ losers fns env s a, Fits a.validFrom p.2
  | .retract now root _ callerScopes => CarriesOut s root callerScopes →
      ∀ i f, s.facts.get? i = some f → i = root ∨ Derives s.facts root i → Fits now f
  | .dreams _ _ _ => True

/-- Facts that are superseded or retracted in `s'` cover nothing that they did not
cover in `s`. -/
def ShrinksClosed (s s' : Store) : Prop :=
  ∀ i f f', s.facts.get? i = some f → s'.facts.get? i = some f' →
    f'.status = .superseded ∨ f'.status = .retracted → f'.span.Within f.span

section Writers

variable {fns : SurrealFns} {env : DbEnv} {a : ResolveArgs} {s : Store} {now : Time}
  {root i : FactId} {dto : RetractFactDto} {callerScopes : Option (List BrainScope)}
  {f f' : KnowledgeFact}

/-! ### The three writers -/

theorem span_supersedeRow (newId : FactId) (validFrom : Time) (f : KnowledgeFact) :
    (supersedeRow newId validFrom f f).span = f.span.close validFrom := rfl

theorem span_retractRow (now : Time) (dto : RetractFactDto) (existing : ExistingRow)
    (f : KnowledgeFact) : (retractRow now dto existing f).span = f.span.close now := rfl

theorem span_cascadeRow (now : Time) (reason : String) (f : KnowledgeFact) :
    (cascadeRow now reason f).span = f.span.close now := rfl

/-- Where a row after a call comes from, as far as its interval goes: it is new, it
lost, or its interval is the one it had. -/
theorem ingest_span_cases (hf' : (afterResolve fns env s a).facts.get? i = some f') :
    (i = s.facts.next ∧ f'.span = a.span) ∨
    (∃ f, (i, f) ∈ losers fns env s a ∧ f' = supersedeRow s.facts.next a.validFrom f f) ∨
    (∃ f, s.facts.get? i = some f ∧ f'.span = f.span) := by
  rcases afterResolve_cases fns env s a with
    ⟨hfacts, _⟩ | ⟨c, _, hfacts, hlos⟩ | ⟨c, _, _, hfacts, _, _⟩
  · rw [hfacts] at hf'
    exact Or.inr (Or.inr ⟨f', hf', rfl⟩)
  · rw [hfacts] at hf'
    rcases settledFacts_cases hf' with ⟨hi, rfl⟩ | ⟨f, hf, hc, rfl⟩ | ⟨hf, _⟩
    · exact Or.inl ⟨hi, rfl⟩
    · refine Or.inr (Or.inl ⟨f, ?_, rfl⟩)
      rw [hlos, resolveCompeting_eq, KeyedTable.mem_select]
      exact ⟨hf, hc⟩
    · exact Or.inr (Or.inr ⟨f', hf, rfl⟩)
  · -- a contest changes the status of rows, never their interval
    rw [hfacts] at hf'
    rcases contestedFacts_cases hf' with ⟨hi, rfl⟩ | ⟨f, hf, _, rfl⟩ | ⟨hf, _⟩
    · exact Or.inl ⟨hi, rfl⟩
    · exact Or.inr (Or.inr ⟨f, hf, rfl⟩)
    · exact Or.inr (Or.inr ⟨f', hf, rfl⟩)

/-- A loser after the call. -/
theorem get?_of_mem_losers {p : FactId × KnowledgeFact} (hp : p ∈ losers fns env s a) :
    (afterResolve fns env s a).facts.get? p.1
      = some (supersedeRow s.facts.next a.validFrom p.2 p.2) := by
  obtain ⟨hf, hc⟩ := competes_of_mem_losers hp
  rcases afterResolve_cases fns env s a with
    ⟨_, hnil⟩ | ⟨c, _, hfacts, _⟩ | ⟨c, _, _, _, hnil, _⟩
  · rw [hnil] at hp
    cases hp
  · rw [hfacts, get?_settledFacts_of_get? hf, settleRow, if_pos hc]
  · rw [hnil] at hp
    cases hp

/-- What a carried-out retract closes, it closes at the time of the call. -/
theorem get?_of_closed_by_retract (now : Time) (dto : RetractFactDto)
    (hc : CarriesOut s root callerScopes) (hf : s.facts.get? i = some f)
    (hi : i = root ∨ Derives s.facts root i) :
    ∃ f', (afterRetract s now root dto callerScopes).facts.get? i = some f' ∧
      f'.span = f.span.close now ∧ f'.status = .retracted := by
  rw [get?_retract _ _ hc, hf, Option.map_some]
  refine ⟨_, rfl, ?_⟩
  unfold retractEffect
  by_cases hir : i = root
  · rw [if_pos hir]
    exact ⟨span_retractRow _ _ _ _, rfl⟩
  · have hmem := (mem_cascadeRetract_iff s.facts now dto.reason).mpr (hi.resolve_left hir)
    rw [if_neg hir, if_pos hmem]
    exact ⟨span_cascadeRow _ _ _, rfl⟩

/-! ### Inverted intervals -/

/-- The interval of the row is ordered, and so is the one that a revive would give
back. -/
def OrderedRow (f : KnowledgeFact) : Prop :=
  f.span.Ordered ∧ (f.status = .superseded → Span.Ordered ⟨f.validFrom, f.priorValidUntil⟩)

/-- An operation that closes in order keeps the rows ordered. -/
theorem orderedRows_execOp (hbook : Bookkeeping s.facts) {op : Op}
    (h : ∀ i f, s.facts.get? i = some f → OrderedRow f) (hin : OrderedInput op)
    (hclose : ClosesInOrder fns s op) (i : FactId) (f : KnowledgeFact)
    (hf : (execOp fns s op).facts.get? i = some f) : OrderedRow f := by
  cases op with
  | ingest env a =>
      refine afterResolve_rows (P := fun _ f => OrderedRow f) h ?_ ?_ ?_ i f hf
      · intro c _
        exact ⟨⟨hin, by simp [ResolveArgs.newRow]⟩, fun _ => ⟨hin, by simp [competeRow]⟩⟩
      · -- a loser is closed in order, and its old interval goes to `priorValidUntil`
        intro i f hmem hrow
        refine ⟨?_, fun _ => hrow.1⟩
        rw [span_supersedeRow, Span.ordered_close_iff]
        exact hclose _ hmem
      · exact fun i f _ _ hrow => ⟨hrow.1, by simp [competeRow]⟩
  | retract now root dto callerScopes =>
      by_cases hc : CarriesOut s root callerScopes
      · obtain ⟨g, hg, ⟨rfl, rfl⟩ | ⟨_, hrev, rfl⟩ | ⟨_, _, rfl⟩⟩ := hbook.retract_row_cases hc hf
        · refine ⟨?_, by simp [retractRow]⟩
          rw [span_retractRow, Span.ordered_close_iff]
          exact hclose hc _ g hg (Or.inl rfl)
        · -- a revived fact gets back the interval that was set aside
          have hst := (isRevivable_iff.mp hrev).2.1
          exact ⟨(h i g hg).2 hst, by simp [reviveRow]⟩
        · exact h i f hg
      · have hsame : (execOp fns s (.retract now root dto callerScopes)) = s :=
          afterRetract_of_not_carriesOut hc
        rw [hsame] at hf
        exact h i f hf
  | dreams judge cfg now =>
      rw [execOp_dreams] at hf
      exact h i f hf

/-- **Intervals do not invert** in runs that are given ordered intervals and close
everything in order. -/
theorem ordered_of_reaches (fns : SurrealFns) {s : Store}
    (h : Reaches fns (fun s op => OrderedInput op ∧ ClosesInOrder fns s op) s) :
    ∀ i f, s.facts.get? i = some f → ∀ u, f.validUntil = some u → f.validFrom ≤ u := by
  have hrows : ∀ i f, s.facts.get? i = some f → OrderedRow f :=
    h.invariant_of (I := fun s => Bookkeeping s.facts)
      (P := fun s => ∀ i f, s.facts.get? i = some f → OrderedRow f)
      (fun _ hs => bookkeeping_of_reaches hs) (fun i f hf => by cases hf)
      (fun _ _ hbook hs hC => orderedRows_execOp hbook hs hC.1 hC.2)
  exact fun i f hf u hu => (hrows i f hf).1 u hu

/-- A second address that starts after the first one: it closes the first one at a
date after its start. -/
theorem ordered_two_addresses :
    ∃ f, (ingestAll .atRecording .empty [addressFrom 0, addressFrom 10]).facts.get? 0 = some f ∧
      f.validUntil = some 10 ∧ f.validFrom ≤ 10 := by
  have hopen : ∀ v, OrderedInput (.ingest (addressFrom v).env (addressFrom v).args) := by
    intro v u hu
    cases hu
  have hnone : ∀ p ∈ losers .atRecording (addressFrom 0).env Store.empty (addressFrom 0).args,
      p.2.validFrom ≤ 0 := by decide +kernel
  have hone : ∀ p ∈ losers .atRecording (addressFrom 10).env
      (ingestAll .atRecording .empty [addressFrom 0]) (addressFrom 10).args,
      p.2.validFrom ≤ 10 := by decide +kernel
  have hfirst : Reaches .atRecording
      (fun s op => OrderedInput op ∧ ClosesInOrder .atRecording s op)
      (ingestAll .atRecording .empty [addressFrom 0]) :=
    Runs.Reached.next (Op.ingest (addressFrom 0).env (addressFrom 0).args) Runs.Reached.start
      ⟨hopen 0, hnone⟩
  have hboth : Reaches .atRecording
      (fun s op => OrderedInput op ∧ ClosesInOrder .atRecording s op)
      (ingestAll .atRecording .empty [addressFrom 0, addressFrom 10]) :=
    hfirst.next (Op.ingest (addressFrom 10).env (addressFrom 10).args) ⟨hopen 10, hone⟩
  have hrow : ((ingestAll .atRecording .empty [addressFrom 0, addressFrom 10]).facts.get? 0).map
      KnowledgeFact.validUntil = some (some 10) := by decide +kernel
  obtain ⟨f, hf, hu⟩ := Option.map_eq_some_iff.mp hrow
  exact ⟨f, hf, hu, ordered_of_reaches .atRecording hboth 0 f hf 10 hu⟩

/-- A second address that starts before the first one: it closes the first one
before its start. -/
theorem inverted_by_backdated_address :
    ¬ ∀ (fns : SurrealFns) (s : Store), Reaches fns (fun _ op => OrderedInput op) s →
      ∀ i f, s.facts.get? i = some f → ∀ u, f.validUntil = some u → f.validFrom ≤ u := by
  intro h
  have hrun : Reaches .atRecording (fun _ op => OrderedInput op)
      (ingestAll .atRecording .empty [addressFrom 10, addressFrom 5]) := by
    apply reaches_ingestAll
    intro _ c hc u hu
    have hnone : ∀ c ∈ [addressFrom 10, addressFrom 5], c.args.validUntil = none := by decide
    have hstop : c.args.validUntil = some u := hu
    rw [hnone c hc] at hstop
    cases hstop
  have hrow : ((ingestAll .atRecording .empty [addressFrom 10, addressFrom 5]).facts.get? 0).map
      (fun f => (f.validFrom, f.validUntil)) = some (10, some 5) := by decide +kernel
  obtain ⟨f, hf, hdates⟩ := Option.map_eq_some_iff.mp hrow
  simp only [Prod.mk.injEq] at hdates
  have hle := h _ _ hrun 0 f hf 5 hdates.2
  rw [hdates.1] at hle
  exact absurd hle (by decide)

/-- **The condition is exact.** An operation that closes something out of order
inverts it, whatever the store. -/
theorem closesInOrder_of_ordered {op : Op}
    (h : ∀ i f, (execOp fns s op).facts.get? i = some f → f.span.Ordered) :
    ClosesInOrder fns s op := by
  cases op with
  | ingest env a =>
      intro p hp
      have hord := h p.1 _ (get?_of_mem_losers hp)
      rwa [span_supersedeRow, Span.ordered_close_iff] at hord
  | retract now root dto callerScopes =>
      intro hc i f hf hi
      obtain ⟨f', hf', hspan, _⟩ := get?_of_closed_by_retract now dto hc hf hi
      have hord := h i f' hf'
      rwa [hspan, Span.ordered_close_iff] at hord
  | dreams judge cfg now => trivial

/-! ### Extended intervals -/

/-- An operation after which no closed fact covers more than before has closed only
what fits. -/
theorem closesWithin_of_shrinks {op : Op} (h : ShrinksClosed s (execOp fns s op)) :
    ClosesWithin fns s op := by
  cases op with
  | ingest env a =>
      intro p hp
      have hin := h p.1 p.2 _ (competes_of_mem_losers hp).1 (get?_of_mem_losers hp) (Or.inl rfl)
      rwa [span_supersedeRow, Span.close_within_iff] at hin
  | retract now root dto callerScopes =>
      intro hc i f hf hi
      obtain ⟨f', hf', hspan, hst⟩ := get?_of_closed_by_retract now dto hc hf hi
      have hin := h i f f' hf hf' (Or.inr hst)
      rwa [hspan, Span.close_within_iff] at hin
  | dreams judge cfg now => trivial

/-- **Closing shrinks exactly where it fits**, for every store and every operation. -/
theorem closing_shrinks_iff (fns : SurrealFns) (s : Store) (op : Op) :
    ShrinksClosed s (execOp fns s op) ↔ ClosesWithin fns s op := by
  refine ⟨closesWithin_of_shrinks, fun h => ?_⟩
  intro i f f' hf hf' hclosed
  cases op with
  | ingest env a =>
      rcases ingest_span_cases hf' with ⟨hi, _⟩ | ⟨g, hmem, rfl⟩ | ⟨g, hg, hspan⟩
      · -- the new fact was not there before
        exact absurd hi (Nat.ne_of_lt (KeyedTable.get?_lt_next hf))
      · have hg := (competes_of_mem_losers hmem).1
        rw [hf] at hg
        cases hg
        rw [span_supersedeRow, Span.close_within_iff]
        exact h _ hmem
      · rw [hf] at hg
        cases hg
        rw [hspan]
  | retract now root dto callerScopes =>
      by_cases hc : CarriesOut s root callerScopes
      · by_cases hi : i = root ∨ Derives s.facts root i
        · obtain ⟨g, hg, hspan, _⟩ := get?_of_closed_by_retract now dto hc hf hi
          have hg' : (execOp fns s (.retract now root dto callerScopes)).facts.get? i = some g := hg
          rw [hf'] at hg'
          cases hg'
          rw [hspan, Span.close_within_iff]
          exact h hc i f hf hi
        · -- neither root nor cascaded: revived, and then open again, or untouched
          have hnot : i ∉ (cascadeRetract s.facts root now dto.reason).2 :=
            fun hmem => hi (Or.inr ((mem_cascadeRetract_iff _ _ _).mp hmem))
          have hrow : (afterRetract s now root dto callerScopes).facts.get? i = some f' := hf'
          rw [get?_retract _ _ hc, hf, Option.map_some, retractEffect,
            if_neg (fun hir => hi (Or.inl hir)), if_neg hnot] at hrow
          split at hrow
          · cases hrow
            simp [reviveRow] at hclosed
          · cases hrow
            exact Span.within_refl _
      · have hsame : execOp fns s (.retract now root dto callerScopes) = s :=
          afterRetract_of_not_carriesOut hc
        rw [hsame, hf] at hf'
        cases hf'
        exact Span.within_refl _
  | dreams judge cfg now =>
      rw [execOp_dreams, hf] at hf'
      cases hf'
      exact Span.within_refl _

/-- An address that has ended at 10 is replaced by one from 20 on: it then covers the
instants from 10 to 20 as well. -/
theorem extended_by_later_address :
    ¬ ∀ (fns : SurrealFns) (s : Store) (op : Op), Reaches fns (fun _ _ => True) s →
      ShrinksClosed s (execOp fns s op) := by
  intro h
  have hrun : Reaches .atRecording (fun _ _ => True) (ingestAll .atRecording .empty
      [⟨(addressFrom 0).env, { (addressFrom 0).args with validUntil := some 10 }⟩]) :=
    reaches_ingestAll _ (fun _ _ _ => trivial)
  have hwithin := closesWithin_of_shrinks
    (h _ _ (Op.ingest (addressFrom 20).env (addressFrom 20).args) hrun)
  have hnot : ¬ ∀ p ∈ losers .atRecording (addressFrom 20).env (ingestAll .atRecording .empty
      [⟨(addressFrom 0).env, { (addressFrom 0).args with validUntil := some 10 }⟩])
      (addressFrom 20).args, Fits (addressFrom 20).args.validFrom p.2 := by
    unfold Fits
    decide +kernel
  exact hnot hwithin

/-- What a `bitemporal` call supersedes overlaps it, and so fits. -/
theorem fits_of_bitemporal (hsem : a.semantics = .bitemporal) {p : FactId × KnowledgeFact}
    (hp : p ∈ losers fns env s a) : Fits a.validFrom p.2 := by
  -- to overlap is to start before the other one ends
  have hover : Fn.intervalsOverlap p.2.validFrom p.2.validUntil a.validFrom a.validUntil = true := by
    have hc := (competes_of_mem_losers hp).2
    simp only [ResolveArgs.competes, ResolveArgs.contests, hsem, Bool.and_eq_true] at hc
    exact hc.2.2
  right
  intro u hu
  rw [Option.mem_def] at hu
  simp only [Fn.intervalsOverlap, Span.overlaps, hu, Bool.and_eq_true, decide_eq_true_eq] at hover
  exact le_of_lt hover.2

end Writers

end Brain
