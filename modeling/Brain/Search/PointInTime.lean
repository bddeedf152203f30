/-
Reading the past after a retract.

`buildBaseWhere`, `getProfile` and `listCompeting` each have an `asOf` branch that
admits a fact retracted later than `asOf`. This module says what a retract does to
these three reads of an instant before it, row by row of what it closes (the fact
itself and what derives from it): each read stays as it was exactly when the rows
that are closed do not pass a gate of their own (`search_stable_iff`,
`profile_stable_iff`, `listCompeting_stable_iff`).

The fact that is retracted is to have superseded nothing: a revive reopens a row
and changes the past on purpose.
-/
import Brain.Entities.EntitiesService
import Brain.Facts.RetractStatements
import Brain.Facts.TenantLife
import Brain.Lib.Listing
import Brain.Search.WhereBuilder

set_option autoImplicit false

namespace Brain

/-- The fact is closed by the call: it is the retracted one, or derives from it. -/
def Closes (s : Store) (root : FactId) (callerScopes : Option (List BrainScope)) (i : FactId) :
    Prop :=
  CarriesOut s root callerScopes ∧ (i = root ∨ Derives s.facts root i)

/-- The ids of the facts in a profile. -/
def profileIds (s : Store) (entityId : EntityId) (asOf : Option Time) (scopes : List BrainScope) :
    Except HttpError (List FactId) :=
  (getProfile s entityId asOf scopes).map (fun p => p.facts.map (fun f => f.factId))

/-! ## What is closed, row by row -/

section Rows

variable {s : Store} {r t : Time} {root : FactId} {dto : RetractFactDto}
  {callerScopes : Option (List BrainScope)}

/-- A call that is carried out rewrites every row in place. -/
theorem facts_afterRetract (hc : CarriesOut s root callerScopes) (r : Time)
    (dto : RetractFactDto) :
    (afterRetract s r root dto callerScopes).facts = s.facts.mapRows
      (retractEffect (cascadeRetract s.facts root r dto.reason).2 r root dto) := by
  refine KeyedTable.ext_get? (fun i => ?_) ?_
  · rw [get?_retract _ _ hc, KeyedTable.get?_mapRows]
  · rw [afterRetract_eq_execAll]
    exact KeyedTable.next_execAll_updates _ _

theorem entities_afterRetract :
    (afterRetract s r root dto callerScopes).entities = s.entities := by
  rw [afterRetract_eq_execAll]

/-- What a call makes of a row it closes: retracted, and over at the time of the
call. What the fact is about, and since when it is known, is left alone. -/
def closedRow (r : Time) (by_ : Option AssertedBy) (reason : Option String) (f : KnowledgeFact) :
    KnowledgeFact :=
  { f with
    status := .retracted
    retractedAt := some r
    retractedBy := by_
    retractionReason := reason
    validUntil := some r }

theorem retractEffect_of_closed (r : Time) (dto : RetractFactDto) {i : FactId}
    (h : i = root ∨ Derives s.facts root i) (f : KnowledgeFact) :
    ∃ by_ reason, retractEffect (cascadeRetract s.facts root r dto.reason).2 r root dto i f
      = closedRow r by_ reason f := by
  unfold retractEffect
  split
  · exact ⟨_, _, rfl⟩
  · next hi =>
      rw [if_pos ((mem_cascadeRetract_iff _ _ _).mpr (h.resolve_left hi))]
      exact ⟨_, _, rfl⟩

/-- Any other row stays as it is, if there is nothing to revive. -/
theorem retractEffect_of_not_closed {i : FactId} (h : ¬ (i = root ∨ Derives s.facts root i))
    {f : KnowledgeFact} (hf : f.supersededBy ≠ some root) :
    retractEffect (cascadeRetract s.facts root r dto.reason).2 r root dto i f = f := by
  rw [not_or] at h
  have hrev : isRevivable root f = false := by simp [isRevivable, hf]
  rw [retractEffect, if_neg h.1, if_neg (fun hm => h.2 ((mem_cascadeRetract_iff _ _ _).mp hm)),
    hrev, if_neg Bool.false_ne_true]

/-- What is closed was not retracted before. -/
theorem retractedAt_of_closes (hc : CarriesOut s root callerScopes) {i : FactId}
    (h : i = root ∨ Derives s.facts root i) {f : KnowledgeFact} (hf : s.facts.get? i = some f) :
    f.retractedAt = none := by
  rcases h with rfl | hd
  · obtain ⟨row, hrow, _, hat⟩ := hc
    rw [hf, Option.some.injEq] at hrow
    exact hrow ▸ hat
  · obtain ⟨j, g, hg, hder⟩ : ∃ j, s.facts.Hangs derivesFrom j i := by
      cases hd with
      | single he => exact ⟨_, he⟩
      | tail _ he => exact ⟨_, he⟩
    rw [hf, Option.some.injEq] at hg
    rw [← hg, derivesFrom, Bool.and_eq_true, Option.isNone_iff_eq_none] at hder
    exact hder.2

end Rows

/-! ## The search -/

section Reads

variable {s : Store} {r t : Time} {root : FactId} {dto : RetractFactDto}
  {callerScopes : Option (List BrainScope)}

/-- Whatever else is asked for, a search as of `t` returns only what is visible as
of `t`. -/
theorem visibleAsOf_of_admits {now : Time} {q : SearchDto} {lang : Option String}
    {f : KnowledgeFact} (h : admits (buildBaseWhere now q (some t) false true lang) f = true) :
    visibleAsOf t f = true := by
  have hmem : ∀ c ∈ [notRetractedClause, asOfClause t], c f = true := by
    intro c hc
    refine List.all_eq_true.mp h c ?_
    rcases List.mem_cons.mp hc with rfl | hc
    · simp [buildBaseWhere]
    · rw [List.mem_singleton] at hc
      simp [buildBaseWhere, hc]
  simpa [visibleAsOf, admits, buildBaseWhere] using hmem

/-- A query that passes over closed rows lists the same facts exactly when it
passed over them before. -/
theorem keys_select_afterRetract_iff
    (hnone : ∀ i f, s.facts.get? i = some f → f.supersededBy ≠ some root)
    {p : KnowledgeFact → Bool} (hclosed : ∀ by_ reason f, p (closedRow r by_ reason f) = false) :
    ((afterRetract s r root dto callerScopes).facts.select (fun _ f => p f)).map Prod.fst
        = (s.facts.select (fun _ f => p f)).map Prod.fst ↔
      ∀ i f, s.facts.get? i = some f → Closes s root callerScopes i → p f = false := by
  by_cases hc : CarriesOut s root callerScopes
  · rw [facts_afterRetract hc, KeyedTable.keys_select_mapRows, KeyedTable.select,
      Listing.map_filter_eq_iff s.facts.nodup_keys]
    constructor
    · intro h i f hf hcl
      obtain ⟨by_, reason, heff⟩ := retractEffect_of_closed r dto hcl.2 f
      have hsame := h (i, f) (KeyedTable.mem_rows_iff.mpr hf)
      dsimp only at hsame
      rw [← hsame, heff, hclosed]
    · rintro h ⟨i, f⟩ hf
      rw [KeyedTable.mem_rows_iff] at hf
      dsimp only
      by_cases hcl : i = root ∨ Derives s.facts root i
      · obtain ⟨by_, reason, heff⟩ := retractEffect_of_closed r dto hcl f
        rw [heff, hclosed, h i f hf ⟨hc, hcl⟩]
      · rw [retractEffect_of_not_closed hcl (hnone i f hf)]
  · rw [afterRetract_of_not_carriesOut hc]
    exact ⟨fun _ _ _ _ hcl => absurd hcl.1 hc, fun _ => rfl⟩

/-- **The search as of an instant before the retract** is the same, whatever its
other filters, exactly when nothing is closed that was visible then. -/
theorem search_stable_iff
    (hnone : ∀ i f, s.facts.get? i = some f → f.supersededBy ≠ some root) :
    (∀ (now : Time) (q : SearchDto) (lang : Option String),
      ((afterRetract s r root dto callerScopes).facts.select (fun _ f =>
          admits (buildBaseWhere now q (some t) false true lang) f)).map Prod.fst
        = (s.facts.select (fun _ f =>
            admits (buildBaseWhere now q (some t) false true lang) f)).map Prod.fst) ↔
      ∀ i f, s.facts.get? i = some f → Closes s root callerScopes i → visibleAsOf t f = false := by
  have hclosed : ∀ (now : Time) (q : SearchDto) (lang : Option String) by_ reason f,
      admits (buildBaseWhere now q (some t) false true lang) (closedRow r by_ reason f) = false := by
    intro now q lang by_ reason f
    simp [admits, buildBaseWhere, notRetractedClause, closedRow]
  constructor
  · intro h
    exact (keys_select_afterRetract_iff hnone (hclosed 0 {} none)).mp (h 0 {} none)
  · intro h now q lang
    refine (keys_select_afterRetract_iff hnone (hclosed now q lang)).mpr (fun i f hf hcl => ?_)
    rw [Bool.eq_false_iff]
    intro hadm
    have hvis := h i f hf hcl
    rw [visibleAsOf_of_admits hadm] at hvis
    cases hvis

/-! ## The profile -/

/-- A rewritten row keeps its place in every listing. -/
theorem retractEffect_place (cascaded : List FactId) (r : Time) (root : FactId)
    (dto : RetractFactDto) (i : FactId) (f : KnowledgeFact) :
    (retractEffect cascaded r root dto i f).recordedAt = f.recordedAt ∧
      (retractEffect cascaded r root dto i f).predicate = f.predicate := by
  unfold retractEffect
  split
  · exact ⟨rfl, rfl⟩
  · split
    · exact ⟨rfl, rfl⟩
    · split
      · exact ⟨rfl, rfl⟩
      · exact ⟨rfl, rfl⟩

/-- The facts newest first. -/
def Store.newest (s : Store) : List (FactId × KnowledgeFact) :=
  s.facts.rows.insertionSort newestFirst

theorem Store.mem_newest {q : FactId × KnowledgeFact} :
    q ∈ s.newest ↔ s.facts.get? q.1 = some q.2 := by
  rw [Store.newest, List.mem_insertionSort, ← KeyedTable.mem_rows_iff]

theorem Store.nodup_newest (s : Store) : (s.newest.map Prod.fst).Nodup :=
  ((List.perm_insertionSort newestFirst s.facts.rows).map Prod.fst).nodup_iff.mpr
    s.facts.nodup_keys

theorem newest_afterRetract (hc : CarriesOut s root callerScopes) :
    (afterRetract s r root dto callerScopes).newest
      = s.newest.map (fun q => (q.1,
          retractEffect (cascadeRetract s.facts root r dto.reason).2 r root dto q.1 q.2)) := by
  rw [Store.newest, facts_afterRetract hc]
  refine (List.map_insertionSort newestFirst newestFirst _ _ (fun p _ q _ => ?_)).symm
  rw [newestFirst, newestFirst, (retractEffect_place _ r root dto p.1 p.2).1,
    (retractEffect_place _ r root dto q.1 q.2).1]

/-- The profile shows of the first hundred facts those that the caller may see. -/
theorem profileIds_eq (s : Store) (entityId : EntityId) (asOf : Option Time)
    (scopes : List BrainScope) :
    profileIds s entityId asOf scopes = match s.entities.get? entityId with
      | none => .error (.notFound ("Entity " ++ toString entityId ++ " not found"))
      | some _ => .ok (((((s.newest.filter (fun q => profileWhere entityId asOf q.2)).take 100).map
          (fun q => (q.1, q.2.predicate))).filter (fun k => scopeAllows scopes k.2)).map
            Prod.fst) := by
  unfold profileIds getProfile
  cases s.entities.get? entityId with
  | none => rfl
  | some entity =>
      simp only [Except.map, List.map_map, List.filter_map]
      rfl

/-- The scope opens everything. -/
theorem scopeAllows_read_pii (predicate : String) : scopeAllows [.read_pii] predicate = true := by
  unfold scopeAllows requiresScope
  split
  · rfl
  · next scope h =>
      split at h
      · cases h
        rfl
      · cases h

/-- The fact would come into the profile as of `t` if it had not ended by then: it
was known and had started, and fewer than a hundred facts of the profile are
newer. -/
def Resurfaces (s : Store) (t : Time) (q : FactId × KnowledgeFact) : Prop :=
  s.entities.get? q.2.entityId ≠ none ∧ q.2.recordedAt ≤ t ∧ q.2.validFrom ≤ t ∧
    (∃ u, q.2.validUntil = some u ∧ u ≤ t) ∧
    Listing.ahead (fun p => profileWhere q.2.entityId (some t) p.2) s.newest q < 100

/-- As of an instant before the call, a closed row counts as long as it had started. -/
theorem profileWhere_closedRow (hlt : t < r) {entityId : EntityId} {by_ : Option AssertedBy}
    {reason : Option String} {f : KnowledgeFact} :
    profileWhere entityId (some t) (closedRow r by_ reason f) = true ↔
      f.entityId = entityId ∧ f.recordedAt ≤ t ∧ f.validFrom ≤ t := by
  simp only [profileWhere, Bool.and_eq_true, beq_iff_eq, decide_eq_true_eq]
  simp [closedRow, hlt]

/-- A row that is not retracted is missing only if it had ended. -/
theorem profileWhere_eq_false_iff {f : KnowledgeFact} (hat : f.retractedAt = none)
    (hrec : f.recordedAt ≤ t) (hfrom : f.validFrom ≤ t) :
    profileWhere f.entityId (some t) f = false ↔ ∃ u, f.validUntil = some u ∧ u ≤ t := by
  cases hu : f.validUntil with
  | none => simp [profileWhere, hat, hrec, hfrom, hu]
  | some u => simp [profileWhere, hat, hrec, hfrom, hu]

/-- What the call brings into the profile of an entity as of `t`. -/
theorem profileWhere_added_iff (dto : RetractFactDto) (hlt : t < r) (hc : CarriesOut s root callerScopes)
    (hnone : ∀ i f, s.facts.get? i = some f → f.supersededBy ≠ some root) {entityId : EntityId}
    {i : FactId} {f : KnowledgeFact} (hf : s.facts.get? i = some f) :
    profileWhere entityId (some t)
          (retractEffect (cascadeRetract s.facts root r dto.reason).2 r root dto i f) = true ∧
        profileWhere entityId (some t) f = false ↔
      Closes s root callerScopes i ∧ f.entityId = entityId ∧ f.recordedAt ≤ t ∧
        f.validFrom ≤ t ∧ ∃ u, f.validUntil = some u ∧ u ≤ t := by
  by_cases hcl : i = root ∨ Derives s.facts root i
  · obtain ⟨by_, reason, heff⟩ := retractEffect_of_closed r dto hcl f
    have hat := retractedAt_of_closes hc hcl hf
    rw [heff, profileWhere_closedRow hlt]
    constructor
    · rintro ⟨⟨rfl, hrec, hfrom⟩, hout⟩
      exact ⟨⟨hc, hcl⟩, rfl, hrec, hfrom, (profileWhere_eq_false_iff hat hrec hfrom).mp hout⟩
    · rintro ⟨_, rfl, hrec, hfrom, hend⟩
      exact ⟨⟨rfl, hrec, hfrom⟩, (profileWhere_eq_false_iff hat hrec hfrom).mpr hend⟩
  · rw [retractEffect_of_not_closed hcl (hnone i f hf)]
    constructor
    · rintro ⟨hin, hout⟩
      rw [hin] at hout
      cases hout
    · rintro ⟨hcloses, _⟩
      exact absurd hcloses.2 hcl

/-- Nothing drops out of it. -/
theorem profileWhere_wider (hlt : t < r)
    (hnone : ∀ i f, s.facts.get? i = some f → f.supersededBy ≠ some root) {entityId : EntityId}
    {i : FactId} {f : KnowledgeFact} (hf : s.facts.get? i = some f)
    (h : profileWhere entityId (some t) f = true) :
    profileWhere entityId (some t)
      (retractEffect (cascadeRetract s.facts root r dto.reason).2 r root dto i f) = true := by
  by_cases hcl : i = root ∨ Derives s.facts root i
  · obtain ⟨by_, reason, heff⟩ := retractEffect_of_closed r dto hcl f
    rw [heff, profileWhere_closedRow hlt]
    simp only [profileWhere, Bool.and_eq_true, beq_iff_eq, decide_eq_true_eq] at h
    exact ⟨h.1, h.2.1.1.1, h.2.1.2⟩
  · rwa [retractEffect_of_not_closed hcl (hnone i f hf)]

/-- The listing of an entity's profile stays as it was, by any key that tells the
facts apart, exactly when no fact of the entity resurfaces. -/
theorem profile_keys_stable_iff (dto : RetractFactDto) {κ : Type*} {key : FactId × KnowledgeFact → κ}
    (hkey : (s.newest.map key).Nodup) (hlt : t < r) (hc : CarriesOut s root callerScopes)
    (hnone : ∀ i f, s.facts.get? i = some f → f.supersededBy ≠ some root) {entityId : EntityId}
    (hentity : s.entities.get? entityId ≠ none) :
    ((s.newest.filter (fun q => profileWhere entityId (some t)
          (retractEffect (cascadeRetract s.facts root r dto.reason).2 r root dto q.1 q.2))).take
            100).map key
        = ((s.newest.filter (fun q => profileWhere entityId (some t) q.2)).take 100).map key ↔
      ∀ i f, s.facts.get? i = some f → Closes s root callerScopes i → f.entityId = entityId →
        ¬ Resurfaces s t (i, f) := by
  rw [Listing.map_take_filter_eq_iff hkey (fun q hq =>
    profileWhere_wider hlt hnone (Store.mem_newest.mp hq))]
  constructor
  · rintro h i f hf hcl rfl ⟨_, hrec, hfrom, hend, hfew⟩
    obtain ⟨hin, hout⟩ := (profileWhere_added_iff dto hlt hc hnone hf).mpr
      ⟨hcl, rfl, hrec, hfrom, hend⟩
    exact Nat.not_lt_of_le (h (i, f) (Store.mem_newest.mpr hf) hin hout) hfew
  · rintro h ⟨i, f⟩ hq hin hout
    rw [Store.mem_newest] at hq
    obtain ⟨hcl, rfl, hrec, hfrom, hend⟩ :=
      (profileWhere_added_iff dto hlt hc hnone hq).mp ⟨hin, hout⟩
    by_contra hfew
    exact h i f hq hcl rfl ⟨hentity, hrec, hfrom, hend, Nat.lt_of_not_le hfew⟩

/-- **The profile as of an instant before the retract** is the same, for every
caller, exactly when the end that the retract writes brings no fact into it. -/
theorem profile_stable_iff (hlt : t < r)
    (hnone : ∀ i f, s.facts.get? i = some f → f.supersededBy ≠ some root) :
    (∀ entityId scopes,
      profileIds (afterRetract s r root dto callerScopes) entityId (some t) scopes
        = profileIds s entityId (some t) scopes) ↔
      ∀ i f, s.facts.get? i = some f → Closes s root callerScopes i →
        ¬ Resurfaces s t (i, f) := by
  by_cases hc : CarriesOut s root callerScopes
  · have hafter : ∀ entityId,
        (((afterRetract s r root dto callerScopes).newest.filter
            (fun q => profileWhere entityId (some t) q.2)).take 100).map
              (fun q => (q.1, q.2.predicate))
          = ((s.newest.filter (fun q => profileWhere entityId (some t)
              (retractEffect (cascadeRetract s.facts root r dto.reason).2 r root dto q.1 q.2))).take
                100).map (fun q => (q.1, q.2.predicate)) := by
      intro entityId
      rw [newest_afterRetract hc, List.filter_map, ← List.map_take, List.map_map]
      refine List.map_congr_left (fun q _ => ?_)
      simp only [Function.comp_apply, (retractEffect_place _ r root dto q.1 q.2).2]
    constructor
    · intro h i f hf hcl hres
      have hentity := hres.1
      -- a caller with the scope sees the whole listing
      have hsame := h f.entityId [.read_pii]
      rw [profileIds_eq, profileIds_eq, entities_afterRetract, hafter] at hsame
      cases he : s.entities.get? f.entityId with
      | none => exact hentity he
      | some entity =>
          rw [he] at hsame
          simp only [scopeAllows_read_pii, List.filter_true, List.map_map, Except.ok.injEq] at hsame
          exact (profile_keys_stable_iff dto s.nodup_newest hlt hc hnone hentity).mp hsame i f hf hcl
            rfl hres
    · intro h entityId scopes
      rw [profileIds_eq, profileIds_eq, entities_afterRetract, hafter]
      cases he : s.entities.get? entityId with
      | none => rfl
      | some entity =>
          have hkey : (s.newest.map (fun q => (q.1, q.2.predicate))).Nodup :=
            List.Nodup.of_map Prod.fst (by rw [List.map_map]; exact s.nodup_newest)
          have hentity : s.entities.get? entityId ≠ none := by simp [he]
          have hsame := (profile_keys_stable_iff dto hkey hlt hc hnone hentity).mpr
            (fun i f hf hcl _ => h i f hf hcl)
          rw [hsame]
  · rw [afterRetract_of_not_carriesOut hc]
    exact ⟨fun _ _ _ _ hcl => absurd hcl.1 hc, fun _ _ _ => rfl⟩

/-! ## What competes -/

/-- A record is in some group of the answer when its row is listed. -/
theorem mem_listCompeting_iff {entityId : EntityId} {predicate : Option String}
    {asOf : Option Time} {c : CompetingFactRecord} :
    (∃ g ∈ (listCompeting s entityId predicate asOf).groups, c ∈ g.facts) ↔
      ∃ q ∈ competingRows s.facts entityId predicate asOf, toCompetingFactRecord q = c := by
  rw [← List.mem_map]
  constructor
  · rintro ⟨g, hg, hcg⟩
    obtain ⟨facts, hfacts, rfl⟩ := List.mem_map.mp hg
    exact Grouping.mem_of_mem_groups hfacts hcg
  · intro hc
    obtain ⟨facts, hfacts, hmem⟩ := Grouping.exists_mem_groups
      (fun r : CompetingFactRecord => (r.entityId, r.predicate)) hc
    exact ⟨_, List.mem_map.mpr ⟨facts, hfacts, rfl⟩, hmem⟩

theorem mem_competingRows {entityId : EntityId} {predicate : Option String} {asOf : Option Time}
    {q : FactId × KnowledgeFact} :
    q ∈ competingRows s.facts entityId predicate asOf ↔
      s.facts.get? q.1 = some q.2 ∧ competingWhere entityId predicate asOf q.2 = true := by
  rw [competingRows, List.mem_filter, List.mem_insertionSort, ← KeyedTable.mem_rows_iff]

theorem competingWhere_closedRow (entityId : EntityId) (predicate : Option String)
    (asOf : Option Time) (r : Time) (by_ : Option AssertedBy) (reason : Option String)
    (f : KnowledgeFact) :
    competingWhere entityId predicate asOf (closedRow r by_ reason f) = false := by
  simp [competingWhere, closedRow]

theorem competingRows_afterRetract (hc : CarriesOut s root callerScopes) (entityId : EntityId)
    (predicate : Option String) (asOf : Option Time) :
    competingRows (afterRetract s r root dto callerScopes).facts entityId predicate asOf
      = ((s.facts.rows.insertionSort byPredicate).filter (fun q =>
          competingWhere entityId predicate asOf
            (retractEffect (cascadeRetract s.facts root r dto.reason).2 r root dto q.1 q.2))).map
        (fun q => (q.1,
          retractEffect (cascadeRetract s.facts root r dto.reason).2 r root dto q.1 q.2)) := by
  have hsort : ((afterRetract s r root dto callerScopes).facts.rows.insertionSort byPredicate)
      = (s.facts.rows.insertionSort byPredicate).map (fun q => (q.1,
          retractEffect (cascadeRetract s.facts root r dto.reason).2 r root dto q.1 q.2)) := by
    rw [facts_afterRetract hc]
    refine (List.map_insertionSort byPredicate byPredicate _ _ (fun p _ q _ => ?_)).symm
    obtain ⟨hrec, hpred⟩ := retractEffect_place
      (cascadeRetract s.facts root r dto.reason).2 r root dto p.1 p.2
    obtain ⟨hrec', hpred'⟩ := retractEffect_place
      (cascadeRetract s.facts root r dto.reason).2 r root dto q.1 q.2
    rw [byPredicate, byPredicate, hrec, hpred, hrec', hpred']
  rw [competingRows, hsort, List.filter_map]
  rfl

/-- What was not competing and known then may be closed without changing the list. -/
theorem competingRows_stable (hc : CarriesOut s root callerScopes)
    (hnone : ∀ i f, s.facts.get? i = some f → f.supersededBy ≠ some root)
    (h : ∀ i f, s.facts.get? i = some f → Closes s root callerScopes i →
      ¬ (f.status = .competing ∧ f.recordedAt ≤ t))
    (entityId : EntityId) (predicate : Option String) :
    competingRows (afterRetract s r root dto callerScopes).facts entityId predicate (some t)
      = competingRows s.facts entityId predicate (some t) := by
  -- a row that is listed is not closed
  have hout : ∀ q ∈ s.facts.rows.insertionSort byPredicate,
      (q.1 = root ∨ Derives s.facts root q.1) →
        competingWhere entityId predicate (some t) q.2 = false := by
    intro q hq hcl
    rw [List.mem_insertionSort] at hq
    have hno := h q.1 q.2 (KeyedTable.mem_rows_iff.mp hq) ⟨hc, hcl⟩
    rw [Bool.eq_false_iff]
    intro hw
    simp only [competingWhere, Bool.and_eq_true, beq_iff_eq, decide_eq_true_eq] at hw
    exact hno ⟨hw.1.1.2, hw.2.1⟩
  have hrest : ∀ q ∈ s.facts.rows.insertionSort byPredicate,
      ¬ (q.1 = root ∨ Derives s.facts root q.1) →
        retractEffect (cascadeRetract s.facts root r dto.reason).2 r root dto q.1 q.2 = q.2 := by
    intro q hq hcl
    rw [List.mem_insertionSort] at hq
    exact retractEffect_of_not_closed hcl (hnone _ _ (KeyedTable.mem_rows_iff.mp hq))
  have hfilter : (s.facts.rows.insertionSort byPredicate).filter (fun q =>
      competingWhere entityId predicate (some t)
        (retractEffect (cascadeRetract s.facts root r dto.reason).2 r root dto q.1 q.2))
      = competingRows s.facts entityId predicate (some t) := by
    refine List.filter_congr (fun q hq => ?_)
    by_cases hcl : q.1 = root ∨ Derives s.facts root q.1
    · obtain ⟨by_, reason, heff⟩ := retractEffect_of_closed r dto hcl q.2
      rw [heff, competingWhere_closedRow, hout q hq hcl]
    · rw [hrest q hq hcl]
  have hid : ∀ q ∈ competingRows s.facts entityId predicate (some t),
      (q.1, retractEffect (cascadeRetract s.facts root r dto.reason).2 r root dto q.1 q.2)
        = id q := by
    intro q hq
    obtain ⟨hq, hw⟩ := List.mem_filter.mp hq
    have hcl : ¬ (q.1 = root ∨ Derives s.facts root q.1) := by
      intro hcl
      rw [hout q hq hcl] at hw
      cases hw
    rw [hrest q hq hcl]
    rfl
  rw [competingRows_afterRetract hc, hfilter, List.map_congr_left hid, List.map_id]

/-- **What competed at an instant before the retract** is still listed exactly when
nothing is closed that was competing and known then. -/
theorem listCompeting_stable_iff
    (hnone : ∀ i f, s.facts.get? i = some f → f.supersededBy ≠ some root) :
    (∀ entityId predicate,
      listCompeting (afterRetract s r root dto callerScopes) entityId predicate (some t)
        = listCompeting s entityId predicate (some t)) ↔
      ∀ i f, s.facts.get? i = some f → Closes s root callerScopes i →
        ¬ (f.status = .competing ∧ f.recordedAt ≤ t) := by
  by_cases hc : CarriesOut s root callerScopes
  · constructor
    · rintro h i f hf hcl ⟨hst, hrec⟩
      have hat := retractedAt_of_closes hc hcl.2 hf
      have hlisted : (i, f) ∈ competingRows s.facts f.entityId none (some t) :=
        mem_competingRows.mpr ⟨hf, by simp [competingWhere, hst, hat, hrec]⟩
      have hgroup := mem_listCompeting_iff.mpr ⟨_, hlisted, rfl⟩
      rw [← h f.entityId none] at hgroup
      -- the row that would have to be listed is closed by now
      obtain ⟨q, hq, hqi⟩ := mem_listCompeting_iff.mp hgroup
      obtain ⟨hqf, hqw⟩ := mem_competingRows.mp hq
      have hi : q.1 = i := congrArg CompetingFactRecord.factId hqi
      obtain ⟨by_, reason, heff⟩ := retractEffect_of_closed r dto hcl.2 f
      rw [facts_afterRetract hc, KeyedTable.get?_mapRows, hi, hf, Option.map_some, heff,
        Option.some.injEq] at hqf
      rw [← hqf, competingWhere_closedRow] at hqw
      cases hqw
    · intro h entityId predicate
      rw [listCompeting, listCompeting, competingRows_stable hc hnone h]
  · rw [afterRetract_of_not_carriesOut hc]
    exact ⟨fun _ _ _ _ hcl => absurd hcl.1 hc, fun _ _ _ => rfl⟩

end Reads

/-! ## The three reads together -/

/-- Every read as of `t` lists the same facts in both stores. -/
structure SamePast (t : Time) (s s' : Store) : Prop where
  search : ∀ (now : Time) (q : SearchDto) (lang : Option String),
    (s'.facts.select (fun _ f =>
        admits (buildBaseWhere now q (some t) false true lang) f)).map Prod.fst
      = (s.facts.select (fun _ f =>
          admits (buildBaseWhere now q (some t) false true lang) f)).map Prod.fst
  profile : ∀ entityId scopes,
    profileIds s' entityId (some t) scopes = profileIds s entityId (some t) scopes
  competing : ∀ entityId predicate,
    listCompeting s' entityId predicate (some t) = listCompeting s entityId predicate (some t)

/-- Closing the fact changes what some read as of `t` lists. -/
def Noticed (s : Store) (t : Time) (i : FactId) (f : KnowledgeFact) : Prop :=
  visibleAsOf t f = true ∨ Resurfaces s t (i, f) ∨ (f.status = .competing ∧ f.recordedAt ≤ t)

/-- **The past after a retract.** A retract of a fact that superseded nothing leaves
the reads of every earlier instant as they were exactly when it closes no fact
that one of them notices. -/
theorem samePast_afterRetract_iff (s : Store) {t r : Time} (hlt : t < r) (root : FactId)
    (dto : RetractFactDto) (callerScopes : Option (List BrainScope))
    (hnone : ∀ i f, s.facts.get? i = some f → f.supersededBy ≠ some root) :
    SamePast t s (afterRetract s r root dto callerScopes) ↔
      ∀ i f, s.facts.get? i = some f → Closes s root callerScopes i → ¬ Noticed s t i f := by
  constructor
  · rintro ⟨hsearch, hprofile, hcompeting⟩ i f hf hcl hnoticed
    rcases hnoticed with hvis | hres | hcomp
    · rw [(search_stable_iff hnone).mp hsearch i f hf hcl] at hvis
      cases hvis
    · exact (profile_stable_iff hlt hnone).mp hprofile i f hf hcl hres
    · exact (listCompeting_stable_iff hnone).mp hcompeting i f hf hcl hcomp
  · intro h
    refine ⟨(search_stable_iff hnone).mpr (fun i f hf hcl => ?_),
      (profile_stable_iff hlt hnone).mpr (fun i f hf hcl hres => ?_),
      (listCompeting_stable_iff hnone).mpr (fun i f hf hcl hcomp => ?_)⟩
    · exact Bool.eq_false_iff.mpr (fun hvis => h i f hf hcl (Or.inl hvis))
    · exact h i f hf hcl (Or.inr (Or.inl hres))
    · exact h i f hf hcl (Or.inr (Or.inr hcomp))

/-- An address that starts later is no part of the past. -/
theorem samePast_future_address :
    SamePast 5 (ingestAll .atRecording .empty [addressFrom 20])
      (afterRetract (ingestAll .atRecording .empty [addressFrom 20]) 30 0
        { reason := "typo", retractedBy := .human } none) := by
  have hrows : ∀ q ∈ (ingestAll .atRecording .empty [addressFrom 20]).facts.rows,
      q.2.supersededBy ≠ some 0 ∧ q.2.validFrom = 20 ∧ q.2.status ≠ .competing := by
    decide +kernel
  refine (samePast_afterRetract_iff _ (by decide) 0 _ none (fun i f hf =>
    (hrows (i, f) (KeyedTable.mem_rows_iff.mpr hf)).1)).mpr (fun i f hf _ => ?_)
  obtain ⟨_, hfrom, hst⟩ := hrows (i, f) (KeyedTable.mem_rows_iff.mpr hf)
  dsimp only at hfrom hst
  rintro (hvis | ⟨_, _, hle, _⟩ | ⟨hcomp, _⟩)
  · have hle := (Span.holds_iff.mp (visibleAsOf_iff.mp hvis).1).1
    rw [KnowledgeFact.span, hfrom] at hle
    exact absurd hle (by simp)
  · dsimp only at hle
    rw [hfrom] at hle
    exact absurd hle (by decide)
  · exact hst hcomp

/-- One of two contested statuses is retracted at 5; it was competing at 1, and is
not listed as of then any more. -/
theorem competing_past_lost :
    ¬ ∀ (fns : SurrealFns) (s : Store), TenantReaches fns (fun _ _ => True) s →
      ∀ t r : Time, t < r → ∀ root dto callerScopes,
        (∀ i f, s.facts.get? i = some f → f.supersededBy ≠ some root) →
          SamePast t s (afterRetract s r root dto callerScopes) := by
  intro h
  have hreach : TenantReaches .atRecording (fun _ _ => True)
      (ingestAll .atRecording .empty [statusFrom 0, statusFrom 0]) :=
    tenantReaches_ingestAll _ (fun _ _ => trivial)
  have hrows : ∀ q ∈ (ingestAll .atRecording .empty [statusFrom 0, statusFrom 0]).facts.rows,
      q.2.supersededBy ≠ some 0 := by decide +kernel
  have hsame := (h .atRecording _ hreach 1 5 (by decide) 0
    { reason := "wrong", retractedBy := .human } none
    (fun i f hf => hrows (i, f) (KeyedTable.mem_rows_iff.mpr hf))).competing 1 none
  have hlen := congrArg (fun l => (l.groups.map (fun g => g.facts.length))) hsame
  revert hlen
  decide +kernel

end Brain
