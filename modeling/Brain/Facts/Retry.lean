/-
Calling `retract` again after it has failed.

A call guards its work with what it finds in the database: it stops at once when
the root is retracted, and the cascade walks through unretracted facts only. Its
own earlier attempt has set both of these marks. So an attempt that failed may have
cut the next one off from work that is still to be done, and a retry completes the
retract exactly when that has not happened (`retry_eq_uninterrupted_iff`). For a
single attempt this is a matter of the write at which it failed
(`withinReach_interruptedRetract_iff`).
-/
import Brain.Facts.TenantLife

set_option autoImplicit false

namespace Brain

/-- The store that a sequence of failing calls leaves: the time of each, and the
number of its writes. -/
def failedRetracts (s : Store) (root : FactId) (dto : RetractFactDto)
    (callerScopes : Option (List BrainScope)) (attempts : List (Time × ℕ)) : Store :=
  attempts.foldl (fun s a => interruptedRetract s a.1 root dto callerScopes a.2) s

/-- A row without the times at which it was retracted. -/
def KnowledgeFact.timeless (f : KnowledgeFact) : KnowledgeFact :=
  if f.retractedAt.isSome then
    { f with retractedAt := some 0, validUntil := f.validUntil.map (fun _ => 0) }
  else f

/-- A store up to the times of its retracts. -/
def Store.timeless (s : Store) : Store :=
  { s with facts := s.facts.modify (fun _ _ => true) KnowledgeFact.timeless }

/-- What is left to do of a retract of `root` is within reach of the next call: the
facts that derived from the root in `s` and still stand in `u` hang on the root
there, and the root is not retracted while something waits for it. -/
def WithinReach (s u : Store) (root : FactId) (callerScopes : Option (List BrainScope)) : Prop :=
  (∀ j f, Derives s.facts root j → u.facts.get? j = some f → f.retractedAt = none →
    CarriesOut u root callerScopes ∧ Derives u.facts root j) ∧
  (∀ i f, u.facts.get? i = some f → isRevivable root f = true → CarriesOut u root callerScopes)

section Timeless

variable {f g : KnowledgeFact} {s s' : Store}

@[simp] theorem timeless_status (f : KnowledgeFact) : f.timeless.status = f.status := by
  unfold KnowledgeFact.timeless
  split <;> rfl

@[simp] theorem timeless_retractedAt_isSome (f : KnowledgeFact) :
    f.timeless.retractedAt.isSome = f.retractedAt.isSome := by
  unfold KnowledgeFact.timeless
  split
  · next h => rw [h]; rfl
  · rfl

/-- A row that is revived twice was revived once. -/
theorem isRevivable_reviveRow (root : FactId) (c f : KnowledgeFact) :
    isRevivable root (reviveRow c f) = false := by
  simp [isRevivable, reviveRow]

/-- After the call nothing waits for its root. -/
theorem isRevivable_retractEffect (cascaded : List FactId) (now : Time) (root : FactId)
    (dto : RetractFactDto) (i : FactId) (f : KnowledgeFact) :
    isRevivable root (retractEffect cascaded now root dto i f) = false := by
  unfold retractEffect
  split
  · simp [isRevivable, retractRow]
  · split
    · simp [isRevivable, cascadeRow]
    · split
      · exact isRevivable_reviveRow root f f
      · next hrev => simpa using hrev

theorem get?_timeless (s : Store) (i : FactId) :
    s.timeless.facts.get? i = (s.facts.get? i).map KnowledgeFact.timeless := by
  rw [Store.timeless, KeyedTable.get?_modify]
  simp

/-- Stores that differ in their facts only are the same up to times when their rows
are. -/
theorem timeless_eq_iff {t t' : KeyedTable KnowledgeFact} (hnext : t.next = t'.next) :
    ({ s with facts := t } : Store).timeless = ({ s with facts := t' } : Store).timeless ↔
      ∀ i, (t.get? i).map KnowledgeFact.timeless = (t'.get? i).map KnowledgeFact.timeless := by
  constructor
  · intro h i
    have hi := congrArg (fun u : Store => u.facts.get? i) h
    simpa only [get?_timeless] using hi
  · intro h
    have hfacts : t.modify (fun _ _ => true) KnowledgeFact.timeless
        = t'.modify (fun _ _ => true) KnowledgeFact.timeless := by
      refine KeyedTable.ext_get? (fun i => ?_) hnext
      rw [KeyedTable.get?_modify, KeyedTable.get?_modify]
      simpa using h i
    simp only [Store.timeless, hfacts]

end Timeless

/-! ## Between two attempts -/

/-- What store `u` is while a retract of `root` that began in `s` is under way. -/
structure Underway (s u : Store) (root : FactId) (dto : RetractFactDto) : Prop where
  facts_only : u = { s with facts := u.facts }
  next : u.facts.next = s.facts.next
  absent : ∀ i, s.facts.get? i = none → u.facts.get? i = none
  rows : ∀ i f, s.facts.get? i = some f →
    u.facts.get? i = some f ∨
    (Derives s.facts root i ∧ ∃ now, u.facts.get? i = some (cascadeRow now dto.reason f)) ∨
    (i = root ∧ ∃ now, u.facts.get? i = some (retractRow now dto f.existingRow f)) ∨
    (isRevivable root f = true ∧ u.facts.get? i = some (reviveRow f f) ∧
      ∃ r, u.facts.get? root = some r ∧ r.retractedAt ≠ none)

section Steps

variable {s u : Store} {root : FactId} {dto : RetractFactDto}
  {callerScopes : Option (List BrainScope)}

theorem Underway.start (s : Store) (root : FactId) (dto : RetractFactDto) :
    Underway s s root dto :=
  ⟨rfl, rfl, fun _ h => h, fun _ _ h => Or.inl h⟩

theorem Underway.exists_row (h : Underway s u root dto) {i : FactId} {g : KnowledgeFact}
    (hg : u.facts.get? i = some g) : ∃ f, s.facts.get? i = some f := by
  cases hf : s.facts.get? i with
  | none =>
      rw [h.absent i hf] at hg
      cases hg
  | some f => exact ⟨f, rfl⟩

/-- While the root stands, an unretracted row is as it was. -/
theorem Underway.get?_of_unretracted (h : Underway s u root dto)
    (hc : CarriesOut u root callerScopes) {i : FactId} {g : KnowledgeFact}
    (hg : u.facts.get? i = some g) (hat : g.retractedAt = none) : s.facts.get? i = some g := by
  obtain ⟨f, hf⟩ := h.exists_row hg
  obtain ⟨r, hr, _, hrat⟩ := hc
  rcases h.rows i f hf with h' | ⟨_, now, h'⟩ | ⟨_, now, h'⟩ | ⟨_, _, r', hr', hrat'⟩
  · rw [hg] at h'
    rw [hf, h']
  · rw [hg, Option.some.injEq] at h'
    rw [h'] at hat
    cases hat
  · rw [hg, Option.some.injEq] at h'
    rw [h'] at hat
    cases hat
  · rw [hr, Option.some.injEq] at hr'
    exact absurd (hr' ▸ hrat) hrat'

/-- While the root stands, the cascade of the next call stays inside the first one's. -/
theorem Underway.derives (h : Underway s u root dto) (hc : CarriesOut u root callerScopes)
    {j : FactId} (hd : Derives u.facts root j) : Derives s.facts root j := by
  refine Relation.TransGen.mono ?_ _ _ hd
  rintro c i ⟨g, hg, hder⟩
  have hat : g.retractedAt = none := by
    rw [derivesFrom, Bool.and_eq_true, Option.isNone_iff_eq_none] at hder
    exact hder.2
  exact ⟨g, h.get?_of_unretracted hc hg hat, hder⟩

/-- A fact that is retracted is out of the cascade's reach. -/
theorem not_derives_of_retracted {t : KeyedTable KnowledgeFact} {i j : FactId}
    {g : KnowledgeFact} (hg : t.get? j = some g) (hat : g.retractedAt ≠ none) :
    ¬ Derives t i j := by
  intro hd
  obtain ⟨c, _, g', hg', hder⟩ := Relation.TransGen.tail'_iff.mp hd
  rw [hg, Option.some.injEq] at hg'
  rw [derivesFrom, Bool.and_eq_true, Option.isNone_iff_eq_none, ← hg'] at hder
  exact hat hder.2

theorem retractedAt_of_derives {t : KeyedTable KnowledgeFact} {i j : FactId} {g : KnowledgeFact}
    (hg : t.get? j = some g) (hd : Derives t i j) : g.retractedAt = none := by
  by_contra hat
  exact not_derives_of_retracted hg hat hd

/-- One more failing attempt. -/
theorem Underway.step (h : Underway s u root dto) (hbook' : Books u.facts) (now : Time)
    (n : ℕ) :
    Underway s (interruptedRetract u now root dto callerScopes n) root dto := by
  by_cases hc : CarriesOut u root callerScopes
  · refine ⟨?_, ?_, ?_, ?_⟩
    · have honly := h.facts_only
      rw [interruptedRetract]
      dsimp only
      rw [honly]
    · rw [next_interruptedRetract, h.next]
    · intro i hi
      cases hg : (interruptedRetract u now root dto callerScopes n).facts.get? i with
      | none => rfl
      | some g =>
          obtain ⟨g', hg'⟩ := get?_of_interruptedRetract hg
          rw [h.absent i hi] at hg'
          cases hg'
    · intro i f hf
      obtain ⟨g, hg⟩ : ∃ g, u.facts.get? i = some g := by
        rcases h.rows i f hf with h' | ⟨_, _, h'⟩ | ⟨_, _, h'⟩ | ⟨_, h', _⟩
        · exact ⟨_, h'⟩
        · exact ⟨_, h'⟩
        · exact ⟨_, h'⟩
        · exact ⟨_, h'⟩
      have hcases := interruptedRetract_row_cases now dto callerScopes
        (hbook'.not_derives_self root) n hg
      by_cases hat : g.retractedAt = none
      · -- the row is as it was, and this attempt does to it what it does
        have hfg := h.get?_of_unretracted hc hg hat
        rw [hf, Option.some.injEq] at hfg
        subst hfg
        rcases hcases with h' | ⟨hd, h'⟩ | ⟨hi, h'⟩ | ⟨hrev, h', r, _, hr⟩
        · exact Or.inl h'
        · exact Or.inr (Or.inl ⟨h.derives hc hd, now, h'⟩)
        · exact Or.inr (Or.inr (Or.inl ⟨hi, now, h'⟩))
        · exact Or.inr (Or.inr (Or.inr ⟨hrev, h', _, hr, by simp [retractRow]⟩))
      · -- a row that an earlier attempt has cascaded is left alone
        have hsame : (interruptedRetract u now root dto callerScopes n).facts.get? i = some g := by
          rcases hcases with h' | ⟨hd, _⟩ | ⟨hi, _⟩ | ⟨hrev, _⟩
          · exact h'
          · exact absurd hd (not_derives_of_retracted hg hat)
          · obtain ⟨r, hr, _, hrat⟩ := hc
            rw [← hi, hg, Option.some.injEq] at hr
            exact absurd (hr ▸ hrat) hat
          · exact absurd ((hbook' i g hg).superseded (isRevivable_iff.mp hrev).2.1).1 hat
        rw [hsame, ← hg]
        rcases h.rows i f hf with h' | h' | h' | ⟨_, h', _⟩
        · exact Or.inl h'
        · exact Or.inr (Or.inl h')
        · exact Or.inr (Or.inr (Or.inl h'))
        · rw [hg, Option.some.injEq] at h'
          rw [h'] at hat
          exact absurd rfl hat
  · rw [interruptedRetract_of_not_carriesOut hc]
    exact h

/-- However often the call has failed, the retract is under way. -/
theorem underway_failedRetracts (root : FactId) (dto : RetractFactDto)
    (callerScopes : Option (List BrainScope)) (hbook : Books s.facts) (attempts : List (Time × ℕ)) :
    Books (failedRetracts s root dto callerScopes attempts).facts ∧
      Underway s (failedRetracts s root dto callerScopes attempts) root dto := by
  induction attempts using List.reverseRecOn with
  | nil => exact ⟨hbook, Underway.start s root dto⟩
  | append_singleton attempts a ih =>
      rw [failedRetracts, List.foldl_append]
      exact ⟨ih.1.interruptedRetract a.1 root dto callerScopes a.2,
        ih.2.step ih.1 a.1 a.2⟩

/-- The columns that decide whether a call is turned away never change. -/
theorem Underway.carriesOut_iff (h : Underway s u root dto)
    (hc : CarriesOut s root callerScopes) :
    CarriesOut u root callerScopes ↔ ∀ r, u.facts.get? root = some r → r.retractedAt = none := by
  constructor
  · rintro ⟨r, hr, _, hat⟩ r' hr'
    rw [hr, Option.some.injEq] at hr'
    exact hr' ▸ hat
  · intro hall
    obtain ⟨row, hrow, hforb, hat⟩ := hc
    rcases h.rows root row hrow with h' | ⟨_, now, h'⟩ | ⟨_, now, h'⟩ | ⟨_, _, r, hr, hrat⟩
    · exact ⟨row, h', hforb, hat⟩
    · cases hall _ h'
    · cases hall _ h'
    · exact absurd (hall r hr) hrat

/-- No call writes a new row. -/
theorem Underway.same_of_absent (h : Underway s u root dto) (hc : CarriesOut s root callerScopes)
    (last now : Time) {i : FactId} (hf : s.facts.get? i = none) :
    ((afterRetract u last root dto callerScopes).facts.get? i).map KnowledgeFact.timeless
      = ((afterRetract s now root dto callerScopes).facts.get? i).map KnowledgeFact.timeless := by
  have hu := h.absent i hf
  have hs : (afterRetract s now root dto callerScopes).facts.get? i = none := by
    rw [get?_retract _ _ hc, hf]
    rfl
  rw [hs]
  by_cases hcu : CarriesOut u root callerScopes
  · rw [get?_retract _ _ hcu, hu]
    rfl
  · rw [afterRetract_of_not_carriesOut hcu, hu]

/-- While the root stands, an unretracted row is as it was, and the call treats it
alike. -/
theorem Underway.same_of_standing (h : Underway s u root dto) (hbook : Books s.facts)
    (hc : CarriesOut s root callerScopes) (hw : WithinReach s u root callerScopes)
    (hcu : CarriesOut u root callerScopes) (last now : Time) {i : FactId} {f : KnowledgeFact}
    (hf : s.facts.get? i = some f) :
    ((afterRetract u last root dto callerScopes).facts.get? i).map KnowledgeFact.timeless
      = ((afterRetract s now root dto callerScopes).facts.get? i).map KnowledgeFact.timeless := by
  obtain ⟨hsroot, hscas, hsrev, hssame⟩ := get?_afterRetract_of_get? dto hc now hf
  rcases h.rows i f hf with h' | ⟨hd, t, h'⟩ | ⟨hi, t, h'⟩ | ⟨_, _, r, hr, hrat⟩
  · obtain ⟨huroot, hucas, hurev, husame⟩ := get?_afterRetract_of_get? dto hcu last h'
    by_cases hi : i = root
    · rw [huroot hi, hsroot hi]
      rfl
    · by_cases hd : Derives s.facts root i
      · rw [hucas hi (hw.1 i f hd h' (retractedAt_of_derives hf hd)).2, hscas hi hd]
        rfl
      · have hdu : ¬ Derives u.facts root i := fun hdu => hd (h.derives hcu hdu)
        cases hrev : isRevivable root f with
        | true => rw [hurev hi hdu hrev, hsrev hi hd hrev]
        | false => rw [husame hi hdu hrev, hssame hi hd hrev]
  · obtain ⟨_, _, _, husame⟩ := get?_afterRetract_of_get? dto hcu last h'
    have hi : i ≠ root := fun hi => hbook.not_derives_self root (hi ▸ hd)
    rw [husame hi (not_derives_of_retracted h' (by simp [cascadeRow]))
      (by simp [isRevivable, cascadeRow]), hscas hi hd]
    rfl
  · rw [hi] at h'
    have hat := (h.carriesOut_iff hc).mp hcu _ h'
    cases hat
  · exact absurd ((h.carriesOut_iff hc).mp hcu r hr) hrat

/-- Once the root is retracted the call does nothing, and nothing is left to do. -/
theorem Underway.same_of_retracted (h : Underway s u root dto) (hbook : Books s.facts)
    (hc : CarriesOut s root callerScopes) (hw : WithinReach s u root callerScopes)
    (hcu : ¬ CarriesOut u root callerScopes) (last now : Time) {i : FactId} {f : KnowledgeFact}
    (hf : s.facts.get? i = some f) :
    ((afterRetract u last root dto callerScopes).facts.get? i).map KnowledgeFact.timeless
      = ((afterRetract s now root dto callerScopes).facts.get? i).map KnowledgeFact.timeless := by
  obtain ⟨hsroot, hscas, hsrev, hssame⟩ := get?_afterRetract_of_get? dto hc now hf
  rw [afterRetract_of_not_carriesOut hcu]
  rcases h.rows i f hf with h' | ⟨hd, t, h'⟩ | ⟨hi, t, h'⟩ | ⟨hrev, h', _⟩
  · have hi : i ≠ root := by
      rintro rfl
      apply hcu
      rw [h.carriesOut_iff hc]
      intro r hr
      obtain ⟨row, hrow, _, hat⟩ := hc
      rw [h', Option.some.injEq] at hr
      rw [hf, Option.some.injEq] at hrow
      rw [← hr, hrow]
      exact hat
    have hd : ¬ Derives s.facts root i := fun hd =>
      hcu (hw.1 i f hd h' (retractedAt_of_derives hf hd)).1
    have hrev : isRevivable root f = false := by
      by_contra hrev
      exact hcu (hw.2 i f h' (by simpa using hrev))
    rw [h', hssame hi hd hrev]
  · rw [h', hscas (fun hi => hbook.not_derives_self root (hi ▸ hd)) hd]
    rfl
  · rw [h', hsroot hi]
    rfl
  · have hlt := hbook.lt_of_isRevivable hf hrev
    rw [h', hsrev (Nat.ne_of_lt hlt)
      (fun hd => Nat.lt_asymm hlt (hbook.lt_of_derives hd)) hrev]

/-- Where what is left to do is within reach, one more call does it. -/
theorem Underway.same_of_withinReach (h : Underway s u root dto) (hbook : Books s.facts)
    (hc : CarriesOut s root callerScopes) (hw : WithinReach s u root callerScopes)
    (last now : Time) (i : FactId) :
    ((afterRetract u last root dto callerScopes).facts.get? i).map KnowledgeFact.timeless
      = ((afterRetract s now root dto callerScopes).facts.get? i).map KnowledgeFact.timeless := by
  cases hf : s.facts.get? i with
  | none => exact h.same_of_absent hc last now hf
  | some f =>
      by_cases hcu : CarriesOut u root callerScopes
      · exact h.same_of_standing hbook hc hw hcu last now hf
      · exact h.same_of_retracted hbook hc hw hcu last now hf

/-- Where it is not, the next call leaves it undone. -/
theorem Underway.withinReach_of_same (h : Underway s u root dto) (hbook : Books s.facts)
    (hc : CarriesOut s root callerScopes) {last now : Time}
    (hsame : ∀ i, ((afterRetract u last root dto callerScopes).facts.get? i).map
        KnowledgeFact.timeless
      = ((afterRetract s now root dto callerScopes).facts.get? i).map KnowledgeFact.timeless) :
    WithinReach s u root callerScopes := by
  constructor
  · intro j g hd hg hat
    have hlt := hbook.lt_of_derives hd
    obtain ⟨f, hf⟩ := h.exists_row hg
    have hs := (get?_afterRetract_of_get? dto hc now hf).2.1 (Nat.ne_of_gt hlt) hd
    -- the uninterrupted call has retracted `j`, so the last call has as well
    have hret : ∀ r, (afterRetract u last root dto callerScopes).facts.get? j = some r →
        r.retractedAt ≠ none := by
      intro r hr
      have hj := hsame j
      rw [hr, hs, Option.map_some, Option.map_some, Option.some.injEq] at hj
      have hsome := congrArg (fun f => f.retractedAt.isSome) hj
      simp only [timeless_retractedAt_isSome] at hsome
      intro hnone
      rw [hnone] at hsome
      simp [cascadeRow] at hsome
    by_cases hcu : CarriesOut u root callerScopes
    · refine ⟨hcu, ?_⟩
      by_contra hdu
      obtain ⟨_, _, hurev, husame⟩ := get?_afterRetract_of_get? dto hcu last hg
      cases hrev : isRevivable root g with
      | true => exact hret _ (hurev (Nat.ne_of_gt hlt) hdu hrev) rfl
      | false => exact hret _ (husame (Nat.ne_of_gt hlt) hdu hrev) hat
    · rw [afterRetract_of_not_carriesOut hcu] at hret
      exact absurd hat (hret g hg)
  · intro i g hg hrev
    by_contra hcu
    -- `i` still waits for the root in the end, and the uninterrupted call has revived it
    obtain ⟨f, hf⟩ := h.exists_row hg
    have hgf : g = f := by
      rcases h.rows i f hf with h' | ⟨_, _, h'⟩ | ⟨_, _, h'⟩ | ⟨_, h', _⟩
      · rw [hg, Option.some.injEq] at h'
        exact h'
      · rw [hg, Option.some.injEq] at h'
        rw [h'] at hrev
        simp [isRevivable, cascadeRow] at hrev
      · rw [hg, Option.some.injEq] at h'
        rw [h'] at hrev
        simp [isRevivable, retractRow] at hrev
      · rw [hg, Option.some.injEq] at h'
        rw [h', isRevivable_reviveRow] at hrev
        cases hrev
    subst hgf
    have hlt := hbook.lt_of_isRevivable hf hrev
    have hs := (get?_afterRetract_of_get? dto hc now hf).2.2.1 (Nat.ne_of_lt hlt)
      (fun hd => Nat.lt_asymm hlt (hbook.lt_of_derives hd)) hrev
    have hi := hsame i
    rw [afterRetract_of_not_carriesOut hcu, hg, hs, Option.map_some, Option.map_some,
      Option.some.injEq] at hi
    have hst := congrArg KnowledgeFact.status hi
    rw [timeless_status, timeless_status, (isRevivable_iff.mp hrev).2.1] at hst
    simp [reviveRow] at hst

end Steps

/-! ## One failed attempt -/

section Once

variable {s : Store} {root : FactId} {dto : RetractFactDto}
  {callerScopes : Option (List BrainScope)} {now : Time} {n : ℕ}

/-- What a call that fails inside its cascade leaves. -/
theorem get?_interruptedRetract_of_le_cascade (hbook : Books s.facts)
    (hc : CarriesOut s root callerScopes)
    (hn : n ≤ (cascadeRetract s.facts root now dto.reason).2.length) (i : FactId) :
    (interruptedRetract s now root dto callerScopes n).facts.get? i
      = (s.facts.get? i).map (fun f =>
          if i ∈ (cascadeRetract s.facts root now dto.reason).2.take n then
            cascadeRow now dto.reason f
          else f) := by
  obtain ⟨row, hrow, hforb, hat⟩ := id hc
  have htake : (retractUpdates s now root dto callerScopes).take n
      = ((cascadeRetract s.facts root now dto.reason).2.take n).map
          (fun j => (j, cascadeRow now dto.reason)) := by
    rw [retractUpdates_of_carriesOut now dto hrow hforb hat,
      List.take_append_of_le_length (by rw [List.length_map]; exact hn), List.map_take]
  have hnd := (nodup_retractUpdates now dto callerScopes (hbook.not_derives_self root)).sublist
    ((List.take_sublist n _).map Prod.fst)
  rw [interruptedRetract]
  rw [htake] at hnd
  dsimp only
  rw [htake]
  by_cases hi : i ∈ (cascadeRetract s.facts root now dto.reason).2.take n
  · simp only [if_pos hi]
    exact KeyedTable.get?_execAll_updates_of_mem hnd
      (List.mem_map.mpr ⟨i, hi, rfl⟩ : (i, cascadeRow now dto.reason) ∈ _) s.facts
  · have hnot : i ∉ (((cascadeRetract s.facts root now dto.reason).2.take n).map
        (fun j => (j, cascadeRow now dto.reason))).map Prod.fst := by
      rw [List.map_map]
      rintro hmem
      obtain ⟨j, hj, rfl⟩ := List.mem_map.mp hmem
      exact hi hj
    simp only [if_neg hi]
    rw [KeyedTable.get?_execAll_updates_of_not_mem hnot, Option.map_id']

/-- Inside the cascade, the next call reaches what still hangs on the root past the
facts that have been cascaded. -/
theorem derives_interruptedRetract_iff (hbook : Books s.facts) (hc : CarriesOut s root callerScopes)
    (hn : n ≤ (cascadeRetract s.facts root now dto.reason).2.length) {j : FactId} :
    Derives (interruptedRetract s now root dto callerScopes n).facts root j ↔
      Relation.TransGen (fun c i => s.facts.Hangs derivesFrom c i ∧
        i ∉ (cascadeRetract s.facts root now dto.reason).2.take n) root j := by
  have hhangs : (interruptedRetract s now root dto callerScopes n).facts.Hangs derivesFrom
      = fun c i => s.facts.Hangs derivesFrom c i ∧
          i ∉ (cascadeRetract s.facts root now dto.reason).2.take n := by
    funext c i
    simp only [KeyedTable.Hangs, get?_interruptedRetract_of_le_cascade hbook hc hn]
    by_cases hi : i ∈ (cascadeRetract s.facts root now dto.reason).2.take n
    · simp [hi, derivesFrom_cascadeRow]
    · simp [hi]
  rw [Derives, hhangs]

/-- A call that fails inside its cascade leaves the rest within reach unless a fact
that it has cascaded stands between the root and one that it has not. -/
theorem withinReach_iff_of_le_cascade (hbook : Books s.facts) (hc : CarriesOut s root callerScopes)
    (hn : n ≤ (cascadeRetract s.facts root now dto.reason).2.length) :
    WithinReach s (interruptedRetract s now root dto callerScopes n) root callerScopes ↔
      ∀ j ∈ (cascadeRetract s.facts root now dto.reason).2.drop n,
        Relation.TransGen (fun c i => s.facts.Hangs derivesFrom c i ∧
          i ∉ (cascadeRetract s.facts root now dto.reason).2.take n) root j := by
  have hget := get?_interruptedRetract_of_le_cascade hbook hc hn
  have hcu : CarriesOut (interruptedRetract s now root dto callerScopes n) root callerScopes := by
    obtain ⟨row, hrow, hforb, hat⟩ := hc
    have hroot : root ∉ (cascadeRetract s.facts root now dto.reason).2.take n := fun hmem =>
      hbook.not_derives_self root ((mem_cascadeRetract_iff _ _ _).mp (List.mem_of_mem_take hmem))
    refine ⟨row, ?_, hforb, hat⟩
    rw [hget, hrow, Option.map_some, if_neg hroot]
  have hnd : (cascadeRetract s.facts root now dto.reason).2.Nodup :=
    KeyedTable.nodup_sweep (fun c f => derivesFrom_cascadeRow c now dto.reason f) _ _
  constructor
  · intro hw j hj
    have hd := (mem_cascadeRetract_iff s.facts now dto.reason).mp (List.mem_of_mem_drop hj)
    obtain ⟨c, _, f, hf, _⟩ := Relation.TransGen.tail'_iff.mp hd
    have hnot : j ∉ (cascadeRetract s.facts root now dto.reason).2.take n := fun hmem =>
      List.disjoint_take_drop hnd (le_refl n) hmem hj
    have hfu : (interruptedRetract s now root dto callerScopes n).facts.get? j = some f := by
      rw [hget, hf, Option.map_some, if_neg hnot]
    exact (derives_interruptedRetract_iff hbook hc hn).mp
      (hw.1 j f hd hfu (retractedAt_of_derives hf hd)).2
  · intro hall
    refine ⟨fun j f hd hf hat => ⟨hcu, ?_⟩, fun _ _ _ _ => hcu⟩
    rw [derives_interruptedRetract_iff hbook hc hn]
    apply hall
    have hmem := (mem_cascadeRetract_iff s.facts now dto.reason).mpr hd
    rw [← List.take_append_drop n (cascadeRetract s.facts root now dto.reason).2,
      List.mem_append] at hmem
    rcases hmem with hmem | hmem
    · -- it has been cascaded, and is retracted
      rw [hget, Option.map_eq_some_iff] at hf
      obtain ⟨g, _, rfl⟩ := hf
      rw [if_pos hmem] at hat
      cases hat
    · exact hmem

/-- A call that fails after its cascade has retracted its root. -/
theorem mem_take_retractUpdates {row : KnowledgeFact} (hrow : s.facts.get? root = some row)
    (hforb : retractForbidden row.existingRow callerScopes = false) (hat : row.retractedAt = none)
    (hn : (cascadeRetract s.facts root now dto.reason).2.length < n) :
    (∀ j ∈ (cascadeRetract s.facts root now dto.reason).2,
      (j, cascadeRow now dto.reason) ∈ (retractUpdates s now root dto callerScopes).take n) ∧
    (root, retractRow now dto row.existingRow)
      ∈ (retractUpdates s now root dto callerScopes).take n := by
  obtain ⟨k, hk⟩ : ∃ k, n - (cascadeRetract s.facts root now dto.reason).2.length = k + 1 :=
    ⟨n - (cascadeRetract s.facts root now dto.reason).2.length - 1, by omega⟩
  rw [retractUpdates_of_carriesOut now dto hrow hforb hat, List.take_append, List.length_map, hk,
    List.take_of_length_le (by rw [List.length_map]; omega), List.take_succ_cons]
  exact ⟨fun j hj => List.mem_append_left _ (List.mem_map.mpr ⟨j, hj, rfl⟩),
    List.mem_append_right _ List.mem_cons_self⟩

/-- From there on nothing is within reach, so the call must have made its last write. -/
theorem withinReach_iff_of_cascade_lt (hbook : Books s.facts) (hc : CarriesOut s root callerScopes)
    (hn : (cascadeRetract s.facts root now dto.reason).2.length < n) :
    WithinReach s (interruptedRetract s now root dto callerScopes n) root callerScopes ↔
      (retractUpdates s now root dto callerScopes).length ≤ n := by
  obtain ⟨row, hrow, hforb, hat⟩ := id hc
  obtain ⟨hcas, hroot⟩ := mem_take_retractUpdates hrow hforb hat hn
  have hnd := nodup_retractUpdates now dto callerScopes (hbook.not_derives_self root)
  have hget : ∀ u ∈ (retractUpdates s now root dto callerScopes).take n,
      (interruptedRetract s now root dto callerScopes n).facts.get? u.1
        = (s.facts.get? u.1).map u.2 :=
    fun u hu => KeyedTable.get?_execAll_updates_of_mem
      (hnd.sublist ((List.take_sublist n _).map Prod.fst)) hu s.facts
  have hcu : ¬ CarriesOut (interruptedRetract s now root dto callerScopes n) root
      callerScopes := by
    rintro ⟨r, hr, _, hrat⟩
    rw [hget _ hroot, hrow, Option.map_some, Option.some.injEq] at hr
    rw [← hr] at hrat
    cases hrat
  constructor
  · intro hw
    by_contra hlt
    rw [not_le] at hlt
    -- the next write would have revived a fact, which still waits
    have hmem := List.getElem_mem hlt
    have hlate : (retractUpdates s now root dto callerScopes)[n].1
        ∉ ((retractUpdates s now root dto callerScopes).take n).map Prod.fst := by
      rw [List.map_take]
      intro hearly
      refine List.disjoint_take_drop hnd (le_refl n) hearly ?_
      rw [← List.map_drop, List.drop_eq_getElem_cons hlt]
      exact List.mem_cons_self
    generalize (retractUpdates s now root dto callerScopes)[n] = w at hmem hlate
    rw [retractUpdates_of_carriesOut now dto hrow hforb hat, List.mem_append, List.mem_cons,
      List.mem_map, List.mem_map] at hmem
    rcases hmem with ⟨j, hj, rfl⟩ | rfl | ⟨c, hcmem, rfl⟩
    · exact hlate (List.mem_map_of_mem (hcas j hj))
    · exact hlate (List.mem_map_of_mem hroot)
    · obtain ⟨_, _, hcf, hrev⟩ := mem_revivedBy.mp hcmem
      apply hcu
      apply hw.2 c.1 c.2 ?_ hrev
      rw [interruptedRetract, KeyedTable.get?_execAll_updates_of_not_mem hlate, hcf]
  · intro hle
    constructor
    · intro j g hd hg hgat
      rw [hget _ (hcas j ((mem_cascadeRetract_iff _ _ _).mpr hd)), Option.map_eq_some_iff] at hg
      obtain ⟨f, _, rfl⟩ := hg
      cases hgat
    · intro i g hg hrev
      rw [interruptedRetract_of_length_le hle, get?_retract now dto hc, Option.map_eq_some_iff]
        at hg
      obtain ⟨f, _, rfl⟩ := hg
      rw [isRevivable_retractEffect] at hrev
      cases hrev

/-- **Where a call may fail**, for the next one to complete it: in its cascade, as
long as no fact that it has cascaded stands between the root and one that it has not,
or after its last write. -/
theorem withinReach_interruptedRetract_iff (hbook : Books s.facts)
    (hc : CarriesOut s root callerScopes) (now : Time) (dto : RetractFactDto) (n : ℕ) :
    WithinReach s (interruptedRetract s now root dto callerScopes n) root callerScopes ↔
      (n ≤ (cascadeRetract s.facts root now dto.reason).2.length ∧
        ∀ j ∈ (cascadeRetract s.facts root now dto.reason).2.drop n,
          Relation.TransGen (fun c i => s.facts.Hangs derivesFrom c i ∧
            i ∉ (cascadeRetract s.facts root now dto.reason).2.take n) root j) ∨
      (retractUpdates s now root dto callerScopes).length ≤ n := by
  obtain ⟨row, hrow, hforb, hat⟩ := id hc
  have hlen : (cascadeRetract s.facts root now dto.reason).2.length
      < (retractUpdates s now root dto callerScopes).length := by
    rw [retractUpdates_of_carriesOut now dto hrow hforb hat, List.length_append, List.length_map,
      List.length_cons]
    omega
  rcases Nat.lt_or_ge (cascadeRetract s.facts root now dto.reason).2.length n with hn | hn
  · rw [withinReach_iff_of_cascade_lt hbook hc hn]
    constructor
    · exact Or.inr
    · rintro (⟨hle, _⟩ | hle)
      · omega
      · exact hle
  · rw [withinReach_iff_of_le_cascade hbook hc hn]
    constructor
    · exact fun hall => Or.inl ⟨hn, hall⟩
    · rintro (⟨_, hall⟩ | hle)
      · exact hall
      · omega

end Once

/-! ## A retry -/

section Retry

theorem failedRetracts_of_not_carriesOut {s : Store} {root : FactId} {dto : RetractFactDto}
    {callerScopes : Option (List BrainScope)} (hc : ¬ CarriesOut s root callerScopes)
    (attempts : List (Time × ℕ)) : failedRetracts s root dto callerScopes attempts = s := by
  induction attempts with
  | nil => rfl
  | cons a attempts ih =>
      rw [failedRetracts, List.foldl_cons, interruptedRetract_of_not_carriesOut hc]
      exact ih

/-- **When a retry completes the retract.** After any sequence of calls that have
failed at any point, the call that succeeds leaves the store that one uninterrupted
call would have left, up to the times of retracts, exactly when what the failed
calls have left to do is still within its reach. -/
theorem retry_eq_uninterrupted_iff (fns : SurrealFns) {s : Store}
    (h : TenantReaches fns (fun _ _ => True) s) (root : FactId) (dto : RetractFactDto)
    (callerScopes : Option (List BrainScope)) (attempts : List (Time × ℕ)) (last now : Time) :
    (afterRetract (failedRetracts s root dto callerScopes attempts) last root dto
        callerScopes).timeless = (afterRetract s now root dto callerScopes).timeless ↔
      (CarriesOut s root callerScopes →
        WithinReach s (failedRetracts s root dto callerScopes attempts) root callerScopes) := by
  have hbook := books_of_tenantReaches h
  obtain ⟨hbook', hunder⟩ := underway_failedRetracts root dto callerScopes hbook attempts
  by_cases hc : CarriesOut s root callerScopes
  · have honly : afterRetract (failedRetracts s root dto callerScopes attempts) last root dto
        callerScopes = { s with facts := (afterRetract (failedRetracts s root dto callerScopes
          attempts) last root dto callerScopes).facts } := by
      rw [afterRetract_eq_execAll]
      dsimp only
      rw [hunder.facts_only]
    have honly' : afterRetract s now root dto callerScopes
        = { s with facts := (afterRetract s now root dto callerScopes).facts } := by
      rw [afterRetract_eq_execAll]
    rw [honly, honly', timeless_eq_iff]
    · exact ⟨fun hsame _ => hunder.withinReach_of_same hbook hc hsame,
        fun hw => hunder.same_of_withinReach hbook hc (hw hc) last now⟩
    · rw [afterRetract_eq_interrupted, next_interruptedRetract, hunder.next,
        afterRetract_eq_interrupted, next_interruptedRetract]
  · -- no call does anything
    rw [failedRetracts_of_not_carriesOut hc, afterRetract_of_not_carriesOut hc,
      afterRetract_of_not_carriesOut hc]
    exact ⟨fun _ h => absurd h hc, fun _ => rfl⟩

/-- A call that fails before its first write costs nothing. -/
theorem retry_after_no_write :
    (afterRetract (failedRetracts (ingestAll .atRecording .empty [addressFrom 0, addressFrom 10]) 1
        { reason := "typo", retractedBy := .human } none [(20, 0)]) 21 1
        { reason := "typo", retractedBy := .human } none).timeless
      = (afterRetract (ingestAll .atRecording .empty [addressFrom 0, addressFrom 10]) 20 1
        { reason := "typo", retractedBy := .human } none).timeless := by
  have hrun : TenantReaches .atRecording (fun _ _ => True)
      (ingestAll .atRecording .empty [addressFrom 0, addressFrom 10]) :=
    tenantReaches_ingestAll [addressFrom 0, addressFrom 10] (fun _ _ => trivial)
  refine (retry_eq_uninterrupted_iff .atRecording hrun 1
    { reason := "typo", retractedBy := .human } none [(20, 0)] 21 20).mpr ?_
  intro hc
  exact ⟨fun j f hd _ _ => ⟨hc, hd⟩, fun i f _ _ => hc⟩

/-- The second of two addresses is taken back, and the call fails after it has
retracted the fact itself: the first address never comes back. -/
theorem retry_loses_revival :
    ¬ ∀ (fns : SurrealFns) (s : Store) (root : FactId) (dto : RetractFactDto)
      (callerScopes : Option (List BrainScope)) (attempts : List (Time × ℕ)) (last now : Time),
      TenantReaches fns (fun _ _ => True) s →
        (afterRetract (failedRetracts s root dto callerScopes attempts) last root dto
            callerScopes).timeless = (afterRetract s now root dto callerScopes).timeless := by
  intro h
  have hrun : TenantReaches .atRecording (fun _ _ => True)
      (ingestAll .atRecording .empty [addressFrom 0, addressFrom 10]) :=
    tenantReaches_ingestAll [addressFrom 0, addressFrom 10] (fun _ _ => trivial)
  have hsame := h .atRecording _ 1 { reason := "typo", retractedBy := .human } none [(20, 1)] 21 20
    hrun
  have hstatus := congrArg (fun s : Store => (s.facts.get? 0).map KnowledgeFact.status) hsame
  revert hstatus
  decide +kernel

end Retry

end Brain
