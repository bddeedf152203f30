/-
`src/src/artifacts/artifacts.service.ts`: the statements of `getArtifact`, which serves
the compiled artifact of an entity, and compiles it anew where there is none, or where it
is dirty or stale.

The templates are a parameter: a template makes a payload and a list of cited facts out
of the facts of an entity. Whether a row is still fresh is a matter of the clock.
-/
import Brain.Entities.EntitiesService
import Brain.Entities.Forget

set_option autoImplicit false

namespace Brain

/-- `CompiledArtifact`, its payload with the citations. -/
structure CompiledArtifact where
  payload : String
  sourceFactIds : List FactId

/-- `TEMPLATES`. -/
abbrev Templates := String → Option (List (FactId × KnowledgeFact) → CompiledArtifact)

/-- The row of an entity and a type; the index on the two is UNIQUE. -/
def TenantDb.artifactOf (db : TenantDb) (entityId : EntityId) (artifactType : String) :
    Option KnowledgeArtifact :=
  db.artifacts.find? (fun a => a.entityId == entityId && a.artifactType == artifactType)

/-- `fetchActiveFacts`: `fn::active_facts_for` without an instant, for the caller's eyes. -/
def fetchActiveFacts (db : TenantDb) (entityId : EntityId) (scopes : List BrainScope) :
    List (FactId × KnowledgeFact) :=
  ((db.facts.select (fun _ f => f.entityId == entityId && f.retractedAt.isNone)).insertionSort
    newestFirst).filter (fun q => scopeAllows scopes q.2.predicate)

/-- `compile`, which throws on a type without a template. -/
def compileArtifact (templates : Templates) (artifactType : String)
    (facts : List (FactId × KnowledgeFact)) : Option CompiledArtifact :=
  (templates artifactType).map (fun template =>
    let out := template facts
    { out with sourceFactIds := out.sourceFactIds.eraseDups })

/-- The SET of `upsertArtifact`: the mark is taken back if it is the one that was seen
before the facts were read. -/
def recompiledRow (compiled : CompiledArtifact) (expectedDirty : Bool) (row : KnowledgeArtifact) :
    KnowledgeArtifact :=
  { row with
    payload := compiled.payload
    sourceFactIds := compiled.sourceFactIds
    dirty := if row.dirty = expectedDirty then false else row.dirty }

/-- The UPDATE of `upsertArtifact`. -/
def updateArtifact (entityId : EntityId) (artifactType : String) (compiled : CompiledArtifact)
    (expectedDirty : Bool) (db : TenantDb) : TenantDb :=
  { db with artifacts := db.artifacts.map (fun a =>
      if a.entityId = entityId ∧ a.artifactType = artifactType then
        recompiledRow compiled expectedDirty a
      else a) }

/-- The CREATE of `upsertArtifact`. -/
def createArtifact (entityId : EntityId) (artifactType : String) (compiled : CompiledArtifact)
    (db : TenantDb) : TenantDb :=
  { db with artifacts := db.artifacts ++ [
      { entityId := entityId, artifactType := artifactType, payload := compiled.payload,
        sourceFactIds := compiled.sourceFactIds }] }

/-- The event `knowledge_artifact_invalidate` of migration 0004, on a change of a fact of
the entity. -/
def invalidateArtifacts (entityId : EntityId) (db : TenantDb) : TenantDb :=
  { db with artifacts := db.artifacts.map (fun a =>
      if a.entityId = entityId then { a with dirty := true } else a) }

/-! ## Where a call of `getArtifact` stands -/

/-- The statement that comes next. -/
inductive ArtifactStage where
  | checking
  | fetchingCached
  | readingFacts (expectedDirty : Bool)
  | updating (compiled : CompiledArtifact) (expectedDirty : Bool) (attempt : ℕ)
  | creating (compiled : CompiledArtifact) (expectedDirty : Bool) (attempt : ℕ)

/-- A call of `getArtifact`. -/
structure ArtifactRun where
  entityId : EntityId
  artifactType : String
  scopes : List BrainScope
  stage : ArtifactStage

/-- `attempts` of `retryOnUniqueViolation`. -/
def RETRY_ATTEMPTS : ℕ := 7

/-- The next statement of a call, with what is left of the call. `fresh` says that a row
is younger than its `staleAfterMs`. -/
def ArtifactRun.next (templates : Templates) (fresh : Bool) (run : ArtifactRun) (db : TenantDb) :
    TenantDb × Option ArtifactRun :=
  match run.stage with
  | .checking =>
      if db.HasEntity run.entityId then (db, some { run with stage := .fetchingCached })
      else (db, none)
  | .fetchingCached =>
      match db.artifactOf run.entityId run.artifactType with
      | some cached =>
          if !cached.dirty && fresh then (db, none)
          else (db, some { run with stage := .readingFacts cached.dirty })
      | none => (db, some { run with stage := .readingFacts false })
  | .readingFacts expectedDirty =>
      match compileArtifact templates run.artifactType
          (fetchActiveFacts db run.entityId run.scopes) with
      | some compiled => (db, some { run with stage := .updating compiled expectedDirty 0 })
      | none => (db, none)
  | .updating compiled expectedDirty attempt =>
      if (db.artifactOf run.entityId run.artifactType).isSome then
        (updateArtifact run.entityId run.artifactType compiled expectedDirty db, none)
      else (db, some { run with stage := .creating compiled expectedDirty attempt })
  | .creating compiled expectedDirty attempt =>
      if (db.artifactOf run.entityId run.artifactType).isSome then
        -- UNIQUE: another call has created the row
        if attempt + 1 < RETRY_ATTEMPTS then
          (db, some { run with stage := .updating compiled expectedDirty (attempt + 1) })
        else (db, none)
      else (createArtifact run.entityId run.artifactType compiled db, none)

/-- The call has found its entity, and may write its artifact. -/
def ArtifactRun.Holds (run : ArtifactRun) (e : EntityId) : Prop :=
  run.entityId = e ∧ run.stage ≠ .checking

/-! ## What a statement does -/

section Spec

variable {templates : Templates} {fresh : Bool} {run run' : ArtifactRun} {db : TenantDb}
  {a : KnowledgeArtifact}

/-- Artifacts are rewritten for the same entity. -/
theorem exists_of_mem_map {g : KnowledgeArtifact → KnowledgeArtifact}
    (hg : ∀ b, (g b).entityId = b.entityId) (ha : a ∈ db.artifacts.map g) :
    ∃ b ∈ db.artifacts, b.entityId = a.entityId := by
  obtain ⟨b, hb, rfl⟩ := List.mem_map.mp ha
  exact ⟨b, hb, (hg b).symm⟩

theorem exists_of_mem_invalidate {e : EntityId} (ha : a ∈ (invalidateArtifacts e db).artifacts) :
    ∃ b ∈ db.artifacts, b.entityId = a.entityId := by
  refine exists_of_mem_map (fun b => ?_) ha
  split <;> rfl

/-- The stage that a call is at after a statement that stores nothing, if it goes on. -/
inductive ArtifactRun.Advances (templates : Templates) (run : ArtifactRun) (db : TenantDb) :
    ArtifactStage → Prop
  | checked (stage : run.stage = .checking) (found : db.HasEntity run.entityId) :
      run.Advances templates db .fetchingCached
  | fetched (stage : run.stage = .fetchingCached) (expectedDirty : Bool) :
      run.Advances templates db (.readingFacts expectedDirty)
  | compiled (expectedDirty : Bool) (stage : run.stage = .readingFacts expectedDirty)
      (compiled : CompiledArtifact) (compiles : compileArtifact templates run.artifactType
        (fetchActiveFacts db run.entityId run.scopes) = some compiled) :
      run.Advances templates db (.updating compiled expectedDirty 0)
  | missed (compiled : CompiledArtifact) (expectedDirty : Bool) (attempt : ℕ)
      (stage : run.stage = .updating compiled expectedDirty attempt) :
      run.Advances templates db (.creating compiled expectedDirty attempt)
  | retried (compiled : CompiledArtifact) (expectedDirty : Bool) (attempt : ℕ)
      (stage : run.stage = .creating compiled expectedDirty attempt) :
      run.Advances templates db (.updating compiled expectedDirty (attempt + 1))

/-- The next statement stores what the call has compiled. -/
inductive ArtifactRun.Writes (run : ArtifactRun) (db : TenantDb) : Prop
  | update (compiled : CompiledArtifact) (expectedDirty : Bool) (attempt : ℕ)
      (stage : run.stage = .updating compiled expectedDirty attempt)
      (present : (db.artifactOf run.entityId run.artifactType).isSome = true)
  | create (compiled : CompiledArtifact) (expectedDirty : Bool) (attempt : ℕ)
      (stage : run.stage = .creating compiled expectedDirty attempt)
      (absent : db.artifactOf run.entityId run.artifactType = none)

theorem ArtifactRun.next_update {compiled : CompiledArtifact} {expectedDirty : Bool} {attempt : ℕ}
    (hstage : run.stage = .updating compiled expectedDirty attempt)
    (hpresent : (db.artifactOf run.entityId run.artifactType).isSome = true) :
    run.next templates fresh db
      = (updateArtifact run.entityId run.artifactType compiled expectedDirty db, none) := by
  rw [ArtifactRun.next, hstage]
  exact if_pos hpresent

theorem ArtifactRun.next_create {compiled : CompiledArtifact} {expectedDirty : Bool} {attempt : ℕ}
    (hstage : run.stage = .creating compiled expectedDirty attempt)
    (habsent : db.artifactOf run.entityId run.artifactType = none) :
    run.next templates fresh db
      = (createArtifact run.entityId run.artifactType compiled db, none) := by
  rw [ArtifactRun.next, hstage]
  exact if_neg (by rw [habsent]; exact Bool.false_ne_true)

/-- **What a statement does**: it stores and ends the call, or leaves the database as it is and
ends the call or advances it. -/
theorem ArtifactRun.next_cases (templates : Templates) (fresh : Bool) (run : ArtifactRun)
    (db : TenantDb) :
    run.Writes db ∨ run.next templates fresh db = (db, none) ∨
      ∃ stage, run.Advances templates db stage ∧
        run.next templates fresh db = (db, some { run with stage := stage }) := by
  unfold ArtifactRun.next
  cases hstage : run.stage with
  | checking =>
      dsimp only
      split
      · next hex => exact Or.inr (Or.inr ⟨_, .checked hstage hex, rfl⟩)
      · exact Or.inr (Or.inl rfl)
  | fetchingCached =>
      dsimp only
      split
      · split
        · exact Or.inr (Or.inl rfl)
        · exact Or.inr (Or.inr ⟨_, .fetched hstage _, rfl⟩)
      · exact Or.inr (Or.inr ⟨_, .fetched hstage _, rfl⟩)
  | readingFacts expectedDirty =>
      dsimp only
      split
      · next compiled hcompiled =>
          exact Or.inr (Or.inr ⟨_, .compiled expectedDirty hstage compiled hcompiled, rfl⟩)
      · exact Or.inr (Or.inl rfl)
  | updating compiled expectedDirty attempt =>
      dsimp only
      split
      · next hpresent => exact Or.inl (.update compiled expectedDirty attempt hstage hpresent)
      · exact Or.inr (Or.inr ⟨_, .missed compiled expectedDirty attempt hstage, rfl⟩)
  | creating compiled expectedDirty attempt =>
      dsimp only
      split
      · split
        · exact Or.inr (Or.inr ⟨_, .retried compiled expectedDirty attempt hstage, rfl⟩)
        · exact Or.inr (Or.inl rfl)
      · next habsent =>
          rw [Bool.not_eq_true, Option.isSome_eq_false_iff, Option.isNone_iff_eq_none] at habsent
          exact Or.inl (.create compiled expectedDirty attempt hstage habsent)

/-- **Artifacts are of entities that had one**, or of the entity of the call. -/
theorem ArtifactRun.mem_artifacts_next (ha : a ∈ (run.next templates fresh db).1.artifacts) :
    (∃ b ∈ db.artifacts, b.entityId = a.entityId) ∨ run.Holds a.entityId := by
  rcases run.next_cases templates fresh db with hwrites | hends | ⟨stage, _, hnext⟩
  · cases hwrites with
    | update compiled expectedDirty attempt hstage hpresent =>
        rw [ArtifactRun.next_update hstage hpresent] at ha
        refine Or.inl (exists_of_mem_map (fun b => ?_) ha)
        split <;> rfl
    | create compiled expectedDirty attempt hstage habsent =>
        rw [ArtifactRun.next_create hstage habsent] at ha
        rcases List.mem_append.mp ha with ha | ha
        · exact Or.inl ⟨a, ha, rfl⟩
        · right
          rw [List.mem_singleton.mp ha]
          exact ⟨rfl, by rw [hstage]; simp⟩
  · rw [hends] at ha
    exact Or.inl ⟨a, ha, rfl⟩
  · rw [hnext] at ha
    exact Or.inl ⟨a, ha, rfl⟩

/-- Nothing else is written. -/
theorem ArtifactRun.next_db : (run.next templates fresh db).1
    = { db with artifacts := (run.next templates fresh db).1.artifacts } := by
  rcases run.next_cases templates fresh db with hwrites | hends | ⟨stage, _, hnext⟩
  · cases hwrites with
    | update compiled expectedDirty attempt hstage hpresent =>
        rw [ArtifactRun.next_update hstage hpresent]
        rfl
    | create compiled expectedDirty attempt hstage habsent =>
        rw [ArtifactRun.next_create hstage habsent]
        rfl
  · rw [hends]
  · rw [hnext]

/-- A call that goes on has stored nothing, and only its stage is another one. -/
theorem ArtifactRun.next_some (hrun : (run.next templates fresh db).2 = some run') :
    ∃ stage, run.Advances templates db stage ∧ run' = { run with stage := stage } := by
  rcases run.next_cases templates fresh db with hwrites | hends | ⟨stage, hadvances, hnext⟩
  · exfalso
    cases hwrites with
    | update compiled expectedDirty attempt hstage hpresent =>
        rw [ArtifactRun.next_update hstage hpresent] at hrun
        cases hrun
    | create compiled expectedDirty attempt hstage habsent =>
        rw [ArtifactRun.next_create hstage habsent] at hrun
        cases hrun
  · rw [hends] at hrun
    cases hrun
  · rw [hnext] at hrun
    exact ⟨stage, hadvances, (Option.some.inj hrun).symm⟩

/-- What a call holds after a statement it held before, or it has just found it. -/
theorem ArtifactRun.holds_next {e : EntityId}
    (hrun : (run.next templates fresh db).2 = some run') (he : run'.Holds e) :
    run.Holds e ∨ run.stage = .checking ∧ run.entityId = e ∧ db.HasEntity e := by
  obtain ⟨stage, hadvances, rfl⟩ := ArtifactRun.next_some hrun
  have heq : run.entityId = e := he.1
  by_cases hstage : run.stage = .checking
  · refine Or.inr ⟨hstage, heq, ?_⟩
    cases hadvances with
    | checked _ hfound => exact heq ▸ hfound
    | fetched hother _ => exact absurd (hstage.symm.trans hother) (by simp)
    | compiled _ hother _ _ => exact absurd (hstage.symm.trans hother) (by simp)
    | missed _ _ _ hother => exact absurd (hstage.symm.trans hother) (by simp)
    | retried _ _ _ hother => exact absurd (hstage.symm.trans hother) (by simp)
  · exact Or.inl ⟨heq, hstage⟩

end Spec

end Brain
