/-
What is shown as current. A search without an instant keeps the facts that are not retracted,
hold now and are not compacted; an artifact and a profile keep the facts that are not
retracted, and a profile at most a hundred of them. A supersede closes a fact and does not
retract it, so the two show it on.

They show what the search admits if and only if every fact of the entity that is not retracted
holds now and is not compacted, and the profile has room for them (`presentsCurrent_iff`).
-/
import Brain.Artifacts.ArtifactsService
import Brain.Facts.TenantLife
import Brain.Search.WhereBuilder

set_option autoImplicit false

namespace Brain

/-! ## 1. The gate -/

/-- The default gate of a search at `now`: no filter of the request's own, contested facts
included. -/
def admittedNow (now : Time) (f : KnowledgeFact) : Bool :=
  admits (buildBaseWhere now {} none false true none) f

/-- **The gate** in terms of the interval. -/
theorem admittedNow_iff {now : Time} {f : KnowledgeFact} :
    admittedNow now f = true ↔ f.retractedAt = none ∧ f.span.holds now = true ∧
      f.status ≠ .compacted ∧ (f.status = .superseded → f.validUntil ≠ none) := by
  rw [Span.holds_iff]
  cases hu : f.validUntil with
  | none =>
      simp [admittedNow, admits, buildBaseWhere, notRetractedClause, currentClause,
        KnowledgeFact.span, hu, and_assoc]
  | some u =>
      by_cases hlt : now < u <;>
        simp [admittedNow, admits, buildBaseWhere, notRetractedClause, currentClause,
          KnowledgeFact.span, hu, hlt]

/-- In a tenant a superseded fact is closed, so its interval decides. -/
theorem Books.admittedNow_iff {t : KeyedTable KnowledgeFact} (h : Books t) {i : FactId}
    {f : KnowledgeFact} (hf : t.get? i = some f) {now : Time} :
    admittedNow now f = true ↔
      f.retractedAt = none ∧ f.span.holds now = true ∧ f.status ≠ .compacted := by
  rw [Brain.admittedNow_iff]
  constructor
  · rintro ⟨hat, hholds, hne, _⟩
    exact ⟨hat, hholds, hne⟩
  · rintro ⟨hat, hholds, hne⟩
    exact ⟨hat, hholds, hne, fun hs => ((h i f hf).superseded hs).2.2.1⟩

/-! ## 2. What the readers show -/

/-- The facts of an entity that are not retracted, the newest first. -/
def standingFacts (t : KeyedTable KnowledgeFact) (e : EntityId) : List (FactId × KnowledgeFact) :=
  (t.rows.insertionSort newestFirst).filter (fun q => q.2.entityId == e && q.2.retractedAt.isNone)

/-- What the gate admits of an entity, for the eyes of a caller. -/
def currentFacts (t : KeyedTable KnowledgeFact) (e : EntityId) (scopes : List BrainScope)
    (now : Time) : List (FactId × KnowledgeFact) :=
  t.select (fun _ f => f.entityId == e && admittedNow now f && scopeAllows scopes f.predicate)

/-- The artifacts and the profile of an entity show what the gate admits at `now`. -/
structure PresentsCurrent (db : TenantDb) (e : EntityId) (scopes : List BrainScope) (now : Time) :
    Prop where
  artifact : ∀ q, q ∈ fetchActiveFacts db e scopes ↔ q ∈ currentFacts db.facts e scopes now
  profile : ∀ profile, getProfile db.toStore e none scopes = .ok profile → ∀ i,
    i ∈ profile.facts.map ProfileFact.factId ↔ i ∈ (currentFacts db.facts e scopes now).map Prod.fst

section Readers

variable {db : TenantDb} {t : KeyedTable KnowledgeFact} {e : EntityId} {scopes : List BrainScope}
  {now : Time} {q : FactId × KnowledgeFact}

theorem mem_standingFacts : q ∈ standingFacts t e ↔
    t.get? q.1 = some q.2 ∧ q.2.entityId = e ∧ q.2.retractedAt = none := by
  rw [standingFacts, List.mem_filter, List.mem_insertionSort, ← KeyedTable.mem_rows_iff]
  simp

theorem mem_currentFacts : q ∈ currentFacts t e scopes now ↔
    t.get? q.1 = some q.2 ∧ q.2.entityId = e ∧ admittedNow now q.2 = true ∧
      scopeAllows scopes q.2.predicate = true := by
  simp [currentFacts, and_assoc]

/-- An artifact is compiled from the facts that are not retracted. -/
theorem mem_fetchActiveFacts : q ∈ fetchActiveFacts db e scopes ↔
    q ∈ standingFacts db.facts e ∧ scopeAllows scopes q.2.predicate = true := by
  rw [fetchActiveFacts, List.mem_filter, List.mem_insertionSort, KeyedTable.mem_select,
    mem_standingFacts]
  simp

theorem profileRows_none : profileRows t e none = (standingFacts t e).take 100 := rfl

/-- The facts of a profile, of an entity that there is. -/
theorem factIds_getProfile {s : Store} {profile : EntityProfile}
    (h : getProfile s e none scopes = .ok profile) : profile.facts.map ProfileFact.factId =
      (((standingFacts s.facts e).take 100).filter
        (fun q => scopeAllows scopes q.2.predicate)).map Prod.fst := by
  unfold getProfile at h
  cases hentity : s.entities.get? e with
  | none =>
      rw [hentity] at h
      cases h
  | some entity =>
      rw [hentity, profileRows_none] at h
      rw [← Except.ok.inj h, List.map_map]
      rfl

theorem getProfile_ok_iff {s : Store} :
    (∃ profile, getProfile s e none scopes = .ok profile) ↔ s.HasEntity e := by
  unfold getProfile Store.HasEntity
  cases s.entities.get? e with
  | none => simp
  | some entity => simp

/-- Two rows under one identifier are one. -/
theorem eq_of_get? {q' : FactId × KnowledgeFact} (hq : t.get? q.1 = some q.2)
    (hq' : t.get? q'.1 = some q'.2) (hid : q.1 = q'.1) : q = q' := by
  rw [hid, hq', Option.some.injEq] at hq
  exact Prod.ext hid hq.symm

end Readers

/-! ## 3. When they agree -/

/-- The facts of an entity that a caller sees and that are not retracted are current, and a
profile has room for them. -/
structure AllCurrent (db : TenantDb) (e : EntityId) (scopes : List BrainScope) (now : Time) :
    Prop where
  holds : ∀ q ∈ standingFacts db.facts e, scopeAllows scopes q.2.predicate = true →
    q.2.span.holds now = true ∧ q.2.status ≠ .compacted
  room : db.HasEntity e → ∀ q ∈ standingFacts db.facts e,
    scopeAllows scopes q.2.predicate = true → q ∈ (standingFacts db.facts e).take 100

section Agreement

variable {db : TenantDb} {e : EntityId} {scopes : List BrainScope} {now : Time}

/-- The artifacts show what the gate admits if and only if what stands is current. -/
theorem artifact_current_iff (hbook : Books db.facts) :
    (∀ q, q ∈ fetchActiveFacts db e scopes ↔ q ∈ currentFacts db.facts e scopes now) ↔
      ∀ q ∈ standingFacts db.facts e, scopeAllows scopes q.2.predicate = true →
        q.2.span.holds now = true ∧ q.2.status ≠ .compacted := by
  constructor
  · intro hsame q hq hscope
    have hcurrent := (hsame q).mp (mem_fetchActiveFacts.mpr ⟨hq, hscope⟩)
    obtain ⟨hget, _, hadmitted, _⟩ := mem_currentFacts.mp hcurrent
    exact ((hbook.admittedNow_iff hget).mp hadmitted).2
  · intro hall q
    rw [mem_fetchActiveFacts, mem_currentFacts]
    constructor
    · rintro ⟨hq, hscope⟩
      obtain ⟨hget, he, hat⟩ := mem_standingFacts.mp hq
      exact ⟨hget, he, (hbook.admittedNow_iff hget).mpr ⟨hat, hall q hq hscope⟩, hscope⟩
    · rintro ⟨hget, he, hadmitted, hscope⟩
      have hat := ((hbook.admittedNow_iff hget).mp hadmitted).1
      exact ⟨mem_standingFacts.mpr ⟨hget, he, hat⟩, hscope⟩

/-- Where what stands is current, a profile shows what the gate admits if and only if it has
room for it. -/
theorem profile_current_iff {profile : EntityProfile}
    (hprofile : getProfile db.toStore e none scopes = .ok profile)
    (hartifact : ∀ q, q ∈ fetchActiveFacts db e scopes ↔ q ∈ currentFacts db.facts e scopes now) :
    (∀ i, i ∈ profile.facts.map ProfileFact.factId ↔
        i ∈ (currentFacts db.facts e scopes now).map Prod.fst) ↔
      ∀ q ∈ standingFacts db.facts e, scopeAllows scopes q.2.predicate = true →
        q ∈ (standingFacts db.facts e).take 100 := by
  rw [factIds_getProfile hprofile]
  constructor
  · intro hsame q hq hscope
    have hcurrent := (hartifact q).mp (mem_fetchActiveFacts.mpr ⟨hq, hscope⟩)
    obtain ⟨q', hq', hid⟩ := List.mem_map.mp
      ((hsame q.1).mpr (List.mem_map_of_mem hcurrent))
    have hmem := (List.mem_filter.mp hq').1
    have hget' := (mem_standingFacts.mp (List.mem_of_mem_take hmem)).1
    rw [eq_of_get? (mem_standingFacts.mp hq).1 hget' hid.symm]
    exact hmem
  · intro hroom i
    constructor
    · intro hi
      obtain ⟨q, hq, rfl⟩ := List.mem_map.mp hi
      obtain ⟨hmem, hscope⟩ := List.mem_filter.mp hq
      refine List.mem_map_of_mem ((hartifact q).mp ?_)
      exact mem_fetchActiveFacts.mpr ⟨List.mem_of_mem_take hmem, hscope⟩
    · intro hi
      obtain ⟨q, hq, rfl⟩ := List.mem_map.mp hi
      obtain ⟨hmem, hscope⟩ := mem_fetchActiveFacts.mp ((hartifact q).mpr hq)
      exact List.mem_map_of_mem (List.mem_filter.mpr ⟨hroom q hmem hscope, hscope⟩)

end Agreement

/-- **When artifacts and profiles present only current facts**, and all of them. -/
theorem presentsCurrent_iff (fns : SurrealFns) (s : Store)
    (h : TenantReaches fns (fun _ _ => True) s) (db : TenantDb) (hdb : db.facts = s.facts)
    (e : EntityId) (scopes : List BrainScope) (now : Time) :
    PresentsCurrent db e scopes now ↔ AllCurrent db e scopes now := by
  have hbook : Books db.facts := by
    rw [hdb]
    exact books_of_tenantReaches h
  constructor
  · rintro ⟨hartifact, hprofile⟩
    refine ⟨(artifact_current_iff hbook).mp hartifact, ?_⟩
    intro hentity
    obtain ⟨profile, hok⟩ := getProfile_ok_iff.mpr hentity
    exact (profile_current_iff hok hartifact).mp (hprofile profile hok)
  · rintro ⟨hholds, hroom⟩
    have hartifact := (artifact_current_iff hbook).mpr hholds
    refine ⟨hartifact, ?_⟩
    intro profile hok
    have hentity := getProfile_ok_iff.mp ⟨profile, hok⟩
    exact (profile_current_iff hok hartifact).mpr (hroom hentity)

/-- A person of the given name. -/
def personNamed (name : String) : KnowledgeEntity where
  type := "person"
  canonicalName := name

/-- A tenant with two people and the facts of a store. -/
def tenantWith (s : Store) : TenantDb where
  facts := s.facts
  entities := (KeyedTable.empty.insert (personNamed "A")).insert (personNamed "B")

theorem presentsCurrent_one_status :
    PresentsCurrent (tenantWith (ingestAll .atRecording .empty [statusFrom 0])) 1 [.read] 5 := by
  have hrun : TenantReaches .atRecording (fun _ _ => True)
      (ingestAll .atRecording .empty [statusFrom 0]) :=
    tenantReaches_ingestAll [statusFrom 0] (fun _ _ => trivial)
  refine (presentsCurrent_iff .atRecording _ hrun _ rfl 1 [.read] 5).mpr ⟨?_, fun _ => ?_⟩
  · decide +kernel
  · decide +kernel

/-- An address that another one has superseded is still in the artifacts of its entity. -/
theorem superseded_address_presented :
    ¬ ∀ (fns : SurrealFns) (s : Store) (db : TenantDb) (e : EntityId) (scopes : List BrainScope)
      (now : Time), TenantReaches fns (fun _ _ => True) s → db.facts = s.facts →
      PresentsCurrent db e scopes now := by
  intro hall
  have hrun : TenantReaches .atRecording (fun _ _ => True)
      (ingestAll .atRecording .empty [addressFrom 0, addressFrom 10]) :=
    tenantReaches_ingestAll [addressFrom 0, addressFrom 10] (fun _ _ => trivial)
  have hartifact := (hall .atRecording _
    (tenantWith (ingestAll .atRecording .empty [addressFrom 0, addressFrom 10])) 1 [.read_pii] 20
    hrun rfl).artifact
  have hshown : ((fetchActiveFacts
      (tenantWith (ingestAll .atRecording .empty [addressFrom 0, addressFrom 10])) 1
      [.read_pii]).map Prod.fst) = [0, 1] := by decide +kernel
  have hgate : ((currentFacts
      (tenantWith (ingestAll .atRecording .empty [addressFrom 0, addressFrom 10])).facts 1
      [.read_pii] 20).map Prod.fst) = [1] := by decide +kernel
  have hzero : 0 ∈ (fetchActiveFacts
      (tenantWith (ingestAll .atRecording .empty [addressFrom 0, addressFrom 10])) 1
      [.read_pii]).map Prod.fst := by
    rw [hshown]
    decide
  obtain ⟨q, hq, hid⟩ := List.mem_map.mp hzero
  have hmem := List.mem_map_of_mem (f := Prod.fst) ((hartifact q).mp hq)
  rw [hgate, hid] at hmem
  revert hmem
  decide

end Brain
