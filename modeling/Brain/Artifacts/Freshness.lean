/-
Whether a clean artifact is up to date. Calls of `getArtifact` and `recompileArtifact` for one
entity and type run side by side with writes to the facts of the entity, each of which marks
the artifacts of the entity. The UPDATE takes the mark back if it is the one that was seen
before the facts were read; but a mark that was there then is not told from one that a later
write has put on it, and the CREATE looks at none.

A run keeps the clean artifact up to date if and only if every statement that stores a payload
meets `Stores`: no write came after the facts were read, or the row is marked now and was not
then (`clean_upToDate_iff`). `recompileArtifact` is `getArtifact` with a row that is not fresh.
-/
import Brain.Artifacts.ArtifactsService
import Brain.Lib.Runs

set_option autoImplicit false

namespace Brain

/-! ## 1. The row of an entity and a type -/

section Rows

variable {db : TenantDb} {e : EntityId} {ty : String} {compiled : CompiledArtifact}
  {expectedDirty : Bool}

/-- Rows that keep their entity and type are found where they were. -/
theorem artifactOf_map {g : KnowledgeArtifact → KnowledgeArtifact}
    (hg : ∀ a, (g a).entityId = a.entityId ∧ (g a).artifactType = a.artifactType) :
    ({ db with artifacts := db.artifacts.map g } : TenantDb).artifactOf e ty
      = (db.artifactOf e ty).map g := by
  have hkey : ((fun a : KnowledgeArtifact => a.entityId == e && a.artifactType == ty) ∘ g)
      = fun a => a.entityId == e && a.artifactType == ty := by
    funext a
    rw [Function.comp_apply, (hg a).1, (hg a).2]
  rw [TenantDb.artifactOf, TenantDb.artifactOf, List.find?_map, hkey]

theorem of_artifactOf {a : KnowledgeArtifact} (h : db.artifactOf e ty = some a) :
    a.entityId = e ∧ a.artifactType = ty := by
  have ha := List.find?_some h
  rwa [Bool.and_eq_true, beq_iff_eq, beq_iff_eq] at ha

theorem artifactOf_update : (updateArtifact e ty compiled expectedDirty db).artifactOf e ty
    = (db.artifactOf e ty).map (recompiledRow compiled expectedDirty) := by
  rw [updateArtifact, artifactOf_map (fun a => by split <;> exact ⟨rfl, rfl⟩)]
  refine Option.map_congr (fun a ha => ?_)
  exact if_pos (of_artifactOf ha)

theorem artifactOf_create (h : db.artifactOf e ty = none) :
    (createArtifact e ty compiled db).artifactOf e ty = some
      { entityId := e, artifactType := ty, payload := compiled.payload,
        sourceFactIds := compiled.sourceFactIds } := by
  unfold TenantDb.artifactOf at h
  rw [TenantDb.artifactOf, createArtifact, List.find?_append, h, Option.none_or,
    List.find?_singleton, if_pos (by simp)]

/-- An event marks the row. -/
theorem artifactOf_invalidateArtifacts : (invalidateArtifacts e db).artifactOf e ty
    = (db.artifactOf e ty).map (fun a => { a with dirty := true }) := by
  rw [invalidateArtifacts, artifactOf_map (fun a => by split <;> exact ⟨rfl, rfl⟩)]
  refine Option.map_congr (fun a ha => ?_)
  exact if_pos (of_artifactOf ha).1

end Rows

/-! ## 2. Calls and writes -/

/-- A call, and how many writes were in the facts that it has read. -/
structure ArtifactCall where
  run : ArtifactRun
  seen : ℕ := 0

/-- The database, the calls that run, the facts before each write so far, and how many writes
are in the facts from which the stored payload was compiled. -/
structure ArtifactWorld where
  db : TenantDb
  calls : List ArtifactCall := []
  history : List (KeyedTable KnowledgeFact) := []
  included : ℕ := 0

/-- How many writes there were. -/
def ArtifactWorld.writes (w : ArtifactWorld) : ℕ := w.history.length

/-- What happens. -/
inductive ArtifactEvent where
  /-- A write to the facts of the entity, after which the table is this one. -/
  | write (facts : KeyedTable KnowledgeFact)
  | call (scopes : List BrainScope)
  /-- Call number `k` executes its next statement. -/
  | step (k : ℕ) (fresh : Bool)

/-- The next statement of a call stores its payload. -/
def ArtifactRun.storesNow (run : ArtifactRun) (db : TenantDb) : Bool :=
  match run.stage with
  | .updating .. => (db.artifactOf run.entityId run.artifactType).isSome
  | .creating .. => (db.artifactOf run.entityId run.artifactType).isNone
  | _ => false

/-- The next statement of a call reads the facts. -/
def ArtifactRun.readsNow (run : ArtifactRun) : Bool :=
  match run.stage with
  | .readingFacts _ => true
  | _ => false

/-- The world after the next statement of call number `k`. -/
def ArtifactWorld.afterStatement (templates : Templates) (w : ArtifactWorld) (k : ℕ) (fresh : Bool)
    (call : ArtifactCall) : ArtifactWorld :=
  let result := call.run.next templates fresh w.db
  { db := result.1
    calls := match result.2 with
      | some run => w.calls.set k ⟨run, if call.run.readsNow then w.writes else call.seen⟩
      | none => w.calls.eraseIdx k
    history := w.history
    included := if call.run.storesNow w.db then call.seen else w.included }

/-- One statement of a call, if there is such a call. -/
def ArtifactWorld.advance (templates : Templates) (w : ArtifactWorld) (k : ℕ) (fresh : Bool) :
    ArtifactWorld :=
  match w.calls[k]? with
  | none => w
  | some call => w.afterStatement templates k fresh call

/-- The world after an event. -/
def execArtifact (templates : Templates) (e : EntityId) (ty : String) (w : ArtifactWorld) :
    ArtifactEvent → ArtifactWorld
  | .write facts =>
      { w with db := invalidateArtifacts e { w.db with facts := facts }
               history := w.history ++ [w.db.facts] }
  | .call scopes =>
      { w with calls := w.calls ++ [
          { run := { entityId := e, artifactType := ty, scopes := scopes, stage := .checking } }] }
  | .step k fresh => w.advance templates k fresh

/-- **A clean artifact is up to date.** -/
def CleanUpToDate (e : EntityId) (ty : String) (w : ArtifactWorld) : Prop :=
  ∀ a, w.db.artifactOf e ty = some a → a.dirty = false → w.included = w.writes

/-- Every call is for the entity and the type. -/
def AllFor (e : EntityId) (ty : String) (w : ArtifactWorld) : Prop :=
  ∀ call ∈ w.calls, call.run.entityId = e ∧ call.run.artifactType = ty

/-- What a statement that stores a payload has to meet: no write has come after the call has
read the facts, or an UPDATE finds a mark that was not there when the call looked. -/
def ArtifactCall.Stores (call : ArtifactCall) (w : ArtifactWorld) : Prop :=
  call.seen = w.writes ∨
    ∃ compiled attempt a, call.run.stage = .updating compiled false attempt ∧
      w.db.artifactOf call.run.entityId call.run.artifactType = some a ∧ a.dirty = true

/-- The condition on an event. -/
def StoresInTime (w : ArtifactWorld) : ArtifactEvent → Prop
  | .step k _ => ∀ call, w.calls[k]? = some call → call.run.storesNow w.db = true → call.Stores w
  | _ => True

section Step

variable {templates : Templates} {fresh : Bool} {run run' : ArtifactRun} {db : TenantDb}
  {w : ArtifactWorld} {e : EntityId} {ty : String} {k : ℕ} {call : ArtifactCall}

theorem exec_step_of_none (h : w.calls[k]? = none) :
    execArtifact templates e ty w (.step k fresh) = w := by
  rw [execArtifact, ArtifactWorld.advance, h]

theorem exec_step_of_some (h : w.calls[k]? = some call) :
    execArtifact templates e ty w (.step k fresh) = w.afterStatement templates k fresh call := by
  rw [execArtifact, ArtifactWorld.advance, h]

theorem ArtifactRun.storesNow_iff : run.storesNow db = true ↔ run.Writes db := by
  unfold ArtifactRun.storesNow
  constructor
  · intro h
    cases hstage : run.stage with
    | checking => simp [hstage] at h
    | fetchingCached => simp [hstage] at h
    | readingFacts expectedDirty => simp [hstage] at h
    | updating compiled expectedDirty attempt =>
        rw [hstage] at h
        exact .update compiled expectedDirty attempt hstage h
    | creating compiled expectedDirty attempt =>
        rw [hstage] at h
        exact .create compiled expectedDirty attempt hstage (Option.isNone_iff_eq_none.mp h)
  · intro h
    cases h with
    | update compiled expectedDirty attempt hstage hpresent =>
        rw [hstage]
        exact hpresent
    | create compiled expectedDirty attempt hstage habsent =>
        rw [hstage]
        exact Option.isNone_iff_eq_none.mpr habsent

/-- A statement that stores nothing leaves the artifacts. -/
theorem ArtifactRun.next_of_not_stores (h : run.storesNow db = false) :
    (run.next templates fresh db).1 = db := by
  rcases run.next_cases templates fresh db with hwrites | hends | ⟨stage, _, hnext⟩
  · rw [ArtifactRun.storesNow_iff.mpr hwrites] at h
    cases h
  · rw [hends]
  · rw [hnext]

/-- The call that goes on is for the same entity and type. -/
theorem ArtifactRun.next_for (h : (run.next templates fresh db).2 = some run') :
    run'.entityId = run.entityId ∧ run'.artifactType = run.artifactType ∧
      run'.scopes = run.scopes := by
  obtain ⟨stage, _, rfl⟩ := ArtifactRun.next_some h
  exact ⟨rfl, rfl, rfl⟩

/-- What a statement that stores leaves of the row: it is marked if an UPDATE has found a mark
that the call has not seen. -/
theorem ArtifactRun.next_of_stores (templates : Templates) (fresh : Bool)
    (h : run.storesNow db = true) :
    ∃ a, (run.next templates fresh db).1.artifactOf run.entityId run.artifactType = some a ∧
      (a.dirty = true ↔ ∃ compiled attempt row, run.stage = .updating compiled false attempt ∧
        db.artifactOf run.entityId run.artifactType = some row ∧ row.dirty = true) := by
  cases ArtifactRun.storesNow_iff.mp h with
  | update compiled expectedDirty attempt hstage hpresent =>
      obtain ⟨row, hrow⟩ := Option.isSome_iff_exists.mp hpresent
      rw [ArtifactRun.next_update hstage hpresent, artifactOf_update, hrow, hstage]
      refine ⟨recompiledRow compiled expectedDirty row, rfl, ?_⟩
      have hdirty : (recompiledRow compiled expectedDirty row).dirty
          = if row.dirty = expectedDirty then false else row.dirty := rfl
      rw [hdirty]
      cases hd : row.dirty <;> cases expectedDirty <;> simp [hd]
  | create compiled expectedDirty attempt hstage habsent =>
      rw [ArtifactRun.next_create hstage habsent, artifactOf_create habsent, hstage]
      exact ⟨_, rfl, by simp⟩

/-- **A statement** keeps the clean row up to date exactly if what it stores is in time. -/
theorem cleanUpToDate_afterStatement_iff (hfor : AllFor e ty w) (h : CleanUpToDate e ty w)
    (hcall : call ∈ w.calls) :
    CleanUpToDate e ty (w.afterStatement templates k fresh call) ↔
      (call.run.storesNow w.db = true → call.Stores w) := by
  obtain ⟨he, hty⟩ := hfor call hcall
  unfold CleanUpToDate ArtifactWorld.afterStatement
  dsimp only
  by_cases hstores : call.run.storesNow w.db = true
  · obtain ⟨a, ha, hmark⟩ := ArtifactRun.next_of_stores templates fresh hstores
    rw [he, hty] at ha
    rw [ha, if_pos hstores]
    constructor
    · intro hclean _
      by_cases hd : a.dirty = true
      · exact Or.inr (hmark.mp hd)
      · exact Or.inl (hclean a rfl (Bool.eq_false_of_not_eq_true hd))
    · intro hcond b hb hclean
      rcases hcond hstores with hseen | hmarked
      · exact hseen
      · rw [← Option.some_inj.mp hb, hmark.mpr hmarked] at hclean
        cases hclean
  · rw [ArtifactRun.next_of_not_stores (Bool.eq_false_of_not_eq_true hstores), if_neg hstores]
    exact iff_of_true h (fun hyes => absurd hyes hstores)

/-- **One event.** -/
theorem cleanUpToDate_exec_iff (hfor : AllFor e ty w) (h : CleanUpToDate e ty w)
    (event : ArtifactEvent) :
    CleanUpToDate e ty (execArtifact templates e ty w event) ↔ StoresInTime w event := by
  cases event with
  | write facts =>
      refine iff_of_true ?_ trivial
      intro a ha hclean
      -- the event has marked the row
      have hmarked : (invalidateArtifacts e { w.db with facts := facts }).artifactOf e ty
          = some a := ha
      rw [artifactOf_invalidateArtifacts] at hmarked
      obtain ⟨b, _, rfl⟩ := Option.map_eq_some_iff.mp hmarked
      cases hclean
  | call scopes => exact iff_of_true h trivial
  | step k fresh =>
      cases hcall : w.calls[k]? with
      | none =>
          rw [exec_step_of_none hcall]
          refine iff_of_true h ?_
          intro call hcall'
          rw [hcall] at hcall'
          cases hcall'
      | some call =>
          rw [exec_step_of_some hcall,
            cleanUpToDate_afterStatement_iff hfor h (List.mem_of_getElem? hcall)]
          constructor
          · intro hone call' hcall'
            rw [hcall, Option.some_inj] at hcall'
            exact hcall' ▸ hone
          · exact fun hall => hall call hcall

/-- The calls after a statement: the others, and the one that has executed it, if it goes on. -/
theorem mem_calls_afterStatement {call' : ArtifactCall}
    (h : call' ∈ (w.afterStatement templates k fresh call).calls) :
    call' ∈ w.calls ∨ ∃ run, (call.run.next templates fresh w.db).2 = some run ∧
      call' = ⟨run, if call.run.readsNow then w.writes else call.seen⟩ := by
  unfold ArtifactWorld.afterStatement at h
  dsimp only at h
  cases hnext : (call.run.next templates fresh w.db).2 with
  | none =>
      rw [hnext] at h
      exact Or.inl (List.mem_of_mem_eraseIdx h)
  | some run =>
      rw [hnext] at h
      exact (List.mem_or_eq_of_mem_set h).imp_right (fun hnew => ⟨run, rfl, hnew⟩)

/-- Events keep the calls to the entity and the type. -/
theorem AllFor.exec (hfor : AllFor e ty w) (event : ArtifactEvent) :
    AllFor e ty (execArtifact templates e ty w event) := by
  cases event with
  | write facts => exact hfor
  | call scopes =>
      intro call hcall
      rcases List.mem_append.mp hcall with hcall | hcall
      · exact hfor call hcall
      · rw [List.mem_singleton.mp hcall]
        exact ⟨rfl, rfl⟩
  | step k fresh =>
      cases hget : w.calls[k]? with
      | none =>
          rw [exec_step_of_none hget]
          exact hfor
      | some call =>
          rw [exec_step_of_some hget]
          intro call' hcall'
          rcases mem_calls_afterStatement hcall' with hold | ⟨run, hnext, rfl⟩
          · exact hfor call' hold
          · obtain ⟨he, hty, _⟩ := ArtifactRun.next_for hnext
            obtain ⟨he', hty'⟩ := hfor call (List.mem_of_getElem? hget)
            exact ⟨he.trans he', hty.trans hty'⟩

end Step

/-! ## 3. What the payload was compiled from -/

/-- What a call has compiled. -/
def ArtifactRun.compiled? (run : ArtifactRun) : Option CompiledArtifact :=
  match run.stage with
  | .updating compiled _ _ => some compiled
  | .creating compiled _ _ => some compiled
  | _ => none

/-- The facts after the first `n` writes. -/
def ArtifactWorld.factsAfter (w : ArtifactWorld) (n : ℕ) : Option (KeyedTable KnowledgeFact) :=
  (w.history ++ [w.db.facts])[n]?

/-- What is compiled from a table of facts for a caller. -/
def compiledFrom (templates : Templates) (e : EntityId) (ty : String) (scopes : List BrainScope)
    (facts : KeyedTable KnowledgeFact) : Option CompiledArtifact :=
  compileArtifact templates ty (fetchActiveFacts { facts := facts } e scopes)

/-- The counts are right: what a call has compiled, it has compiled from the facts that it has
seen, and the row from those that are included. -/
structure Tracks (templates : Templates) (e : EntityId) (ty : String) (w : ArtifactWorld) :
    Prop where
  call : ∀ call ∈ w.calls, ∀ compiled, call.run.compiled? = some compiled →
    ∃ facts ∈ w.factsAfter call.seen,
      compiledFrom templates e ty call.run.scopes facts = some compiled
  row : ∀ a, w.db.artifactOf e ty = some a → ∃ facts ∈ w.factsAfter w.included, ∃ scopes compiled,
    compiledFrom templates e ty scopes facts = some compiled ∧ a.payload = compiled.payload ∧
      a.sourceFactIds = compiled.sourceFactIds

section Tracks

variable {templates : Templates} {fresh : Bool} {run run' : ArtifactRun} {db : TenantDb}
  {w : ArtifactWorld} {e : EntityId} {ty : String} {compiled : CompiledArtifact}

theorem factsAfter_writes (w : ArtifactWorld) : w.factsAfter w.writes = some w.db.facts := by
  rw [ArtifactWorld.factsAfter, ArtifactWorld.writes, List.getElem?_append_right (le_refl _),
    Nat.sub_self]
  rfl

/-- What a call has compiled after a statement it had compiled before, or compiles it now. -/
theorem ArtifactRun.compiled_next (h : (run.next templates fresh db).2 = some run')
    (hcompiled : run'.compiled? = some compiled) :
    (run.readsNow = false ∧ run.compiled? = some compiled) ∨
      (run.readsNow = true ∧
        compiledFrom templates run.entityId run.artifactType run.scopes db.facts = some compiled) := by
  obtain ⟨stage, hadvances, rfl⟩ := ArtifactRun.next_some h
  rw [ArtifactRun.readsNow, ArtifactRun.compiled?]
  cases hadvances with
  | checked hstage _ => cases hcompiled
  | fetched hstage expectedDirty => cases hcompiled
  | compiled expectedDirty hstage c hc =>
      cases hcompiled
      rw [hstage]
      exact Or.inr ⟨rfl, hc⟩
  | missed c expectedDirty attempt hstage =>
      rw [hstage]
      exact Or.inl ⟨rfl, hcompiled⟩
  | retried c expectedDirty attempt hstage =>
      rw [hstage]
      exact Or.inl ⟨rfl, hcompiled⟩

/-- A statement that stores, stores what its call has compiled. -/
theorem ArtifactRun.payload_of_stores {a : KnowledgeArtifact} (h : run.storesNow db = true)
    (ha : (run.next templates fresh db).1.artifactOf run.entityId run.artifactType = some a) :
    ∃ compiled, run.compiled? = some compiled ∧ a.payload = compiled.payload ∧
      a.sourceFactIds = compiled.sourceFactIds := by
  rw [ArtifactRun.compiled?]
  cases ArtifactRun.storesNow_iff.mp h with
  | update compiled expectedDirty attempt hstage hpresent =>
      rw [ArtifactRun.next_update hstage hpresent, artifactOf_update] at ha
      obtain ⟨row, _, rfl⟩ := Option.map_eq_some_iff.mp ha
      rw [hstage]
      exact ⟨compiled, rfl, rfl, rfl⟩
  | create compiled expectedDirty attempt hstage habsent =>
      rw [ArtifactRun.next_create hstage habsent, artifactOf_create habsent,
        Option.some_inj] at ha
      rw [hstage, ← ha]
      exact ⟨compiled, rfl, rfl, rfl⟩

/-- A write appends to the history, and what has been seen stays where it is. -/
theorem mem_factsAfter_write {n : ℕ} {facts new : KeyedTable KnowledgeFact}
    (h : facts ∈ w.factsAfter n) :
    facts ∈ (execArtifact templates e ty w (.write new)).factsAfter n := by
  have hlt : n < (w.history ++ [w.db.facts]).length := (List.getElem?_eq_some_iff.mp h).1
  show ((w.history ++ [w.db.facts]) ++ [_])[n]? = some facts
  rw [List.getElem?_append_left hlt]
  exact h

theorem factsAfter_afterStatement (w : ArtifactWorld) (k : ℕ) (call : ArtifactCall) (n : ℕ) :
    (w.afterStatement templates k fresh call).factsAfter n = w.factsAfter n := by
  unfold ArtifactWorld.factsAfter ArtifactWorld.afterStatement
  dsimp only
  rw [ArtifactRun.next_db]

/-- A write keeps the counts right. -/
theorem Tracks.write (h : Tracks templates e ty w) (new : KeyedTable KnowledgeFact) :
    Tracks templates e ty (execArtifact templates e ty w (.write new)) where
  call := by
    intro call hcall compiled hcompiled
    obtain ⟨facts, hfacts, hc⟩ := h.call call hcall compiled hcompiled
    exact ⟨facts, mem_factsAfter_write hfacts, hc⟩
  row := by
    intro a ha
    have hmarked : (invalidateArtifacts e { w.db with facts := new }).artifactOf e ty
        = some a := ha
    rw [artifactOf_invalidateArtifacts] at hmarked
    obtain ⟨b, hb, rfl⟩ := Option.map_eq_some_iff.mp hmarked
    obtain ⟨facts, hfacts, hrow⟩ := h.row b hb
    exact ⟨facts, mem_factsAfter_write hfacts, hrow⟩

/-- A statement keeps the counts right: what it compiles is from the facts as they are, and
what it stores is what its call has compiled. -/
theorem Tracks.statement {k : ℕ} {call : ArtifactCall} (hfor : AllFor e ty w)
    (h : Tracks templates e ty w) (hcall : call ∈ w.calls) :
    Tracks templates e ty (w.afterStatement templates k fresh call) where
  call := by
    intro call' hcall' compiled hcompiled
    rw [factsAfter_afterStatement]
    rcases mem_calls_afterStatement hcall' with hold | ⟨run, hnext, rfl⟩
    · exact h.call call' hold compiled hcompiled
    · obtain ⟨_, _, hscopes⟩ := ArtifactRun.next_for hnext
      dsimp only at hcompiled ⊢
      rw [hscopes]
      rcases ArtifactRun.compiled_next hnext hcompiled with ⟨hreads, hc⟩ | ⟨hreads, hc⟩
      · rw [hreads, if_neg Bool.false_ne_true]
        exact h.call call hcall compiled hc
      · rw [hreads, if_pos rfl, factsAfter_writes]
        rw [(hfor call hcall).1, (hfor call hcall).2] at hc
        exact ⟨w.db.facts, rfl, hc⟩
  row := by
    intro a ha
    rw [factsAfter_afterStatement]
    unfold ArtifactWorld.afterStatement at ha ⊢
    dsimp only at ha ⊢
    by_cases hstores : call.run.storesNow w.db = true
    · rw [if_pos hstores]
      rw [← (hfor call hcall).1, ← (hfor call hcall).2] at ha
      obtain ⟨compiled, hc, hpayload⟩ := ArtifactRun.payload_of_stores hstores ha
      obtain ⟨facts, hfacts, hfrom⟩ := h.call call hcall compiled hc
      exact ⟨facts, hfacts, call.run.scopes, compiled, hfrom, hpayload⟩
    · rw [if_neg hstores]
      rw [ArtifactRun.next_of_not_stores (Bool.eq_false_of_not_eq_true hstores)] at ha
      exact h.row a ha

/-- Events keep the counts right. -/
theorem Tracks.exec (hfor : AllFor e ty w) (h : Tracks templates e ty w) (event : ArtifactEvent) :
    Tracks templates e ty (execArtifact templates e ty w event) := by
  cases event with
  | write new => exact h.write new
  | call scopes =>
      refine ⟨?_, h.row⟩
      intro call hcall compiled hcompiled
      rcases List.mem_append.mp hcall with hcall | hcall
      · exact h.call call hcall compiled hcompiled
      · rw [List.mem_singleton.mp hcall] at hcompiled
        cases hcompiled
  | step k fresh =>
      cases hget : w.calls[k]? with
      | none =>
          rw [exec_step_of_none hget]
          exact h
      | some call =>
          rw [exec_step_of_some hget]
          exact h.statement hfor (List.mem_of_getElem? hget)

/-- **What up to date means**: the payload of a clean row is what some caller would get compiled
from the facts as they are. -/
theorem compiledFrom_of_clean (h : Tracks templates e ty w) (hclean : CleanUpToDate e ty w)
    {a : KnowledgeArtifact} (ha : w.db.artifactOf e ty = some a) (hdirty : a.dirty = false) :
    ∃ scopes compiled, compiledFrom templates e ty scopes w.db.facts = some compiled ∧
      a.payload = compiled.payload ∧ a.sourceFactIds = compiled.sourceFactIds := by
  obtain ⟨facts, hfacts, hrow⟩ := h.row a ha
  rw [hclean a ha hdirty, factsAfter_writes, Option.mem_some_iff] at hfacts
  rw [hfacts]
  exact hrow

end Tracks

/-! ## 4. Whole runs -/

/-- The world before the first call, on a database that has no such artifact. -/
def coldWorld (db : TenantDb) : ArtifactWorld where
  db := db

/-- **When a clean artifact is up to date all along**: every statement that stores a payload is
in time. -/
theorem clean_upToDate_iff (templates : Templates) (e : EntityId) (ty : String) (db : TenantDb)
    (hnew : db.artifactOf e ty = none) (events : List ArtifactEvent) :
    (∀ done, done <+: events →
        CleanUpToDate e ty (done.foldl (execArtifact templates e ty) (coldWorld db))) ↔
      ∀ done event, done ++ [event] <+: events →
        StoresInTime (done.foldl (execArtifact templates e ty) (coldWorld db)) event := by
  have hstart : CleanUpToDate e ty (coldWorld db) := by
    intro a ha
    rw [coldWorld, hnew] at ha
    cases ha
  exact Runs.prefixes_iff (I := AllFor e ty) (fun _ h => by cases h) (fun _ _ h => h.exec _) hstart
    (fun _ event hfor h => cleanUpToDate_exec_iff hfor h event) events

/-- A template that lists the objects of the facts. -/
def objectsTemplate : Templates := fun _ => some (fun facts =>
  { payload := ",".intercalate (facts.map (fun q => q.2.object))
    sourceFactIds := facts.map Prod.fst })

/-- A cold call, alone. -/
def coldCall : List ArtifactEvent := .call [.read] :: List.replicate 5 (.step 0 true)

/-- An entity without facts. -/
def emptyTenant : TenantDb where
  entities := KeyedTable.empty.insert { type := "person", canonicalName := "A" }

theorem clean_upToDate_cold_call :
    (∀ done, done <+: coldCall →
        CleanUpToDate 0 "t"
          (done.foldl (execArtifact objectsTemplate 0 "t") (coldWorld emptyTenant))) ↔
      ∀ done event, done ++ [event] <+: coldCall →
        StoresInTime (done.foldl (execArtifact objectsTemplate 0 "t") (coldWorld emptyTenant))
          event :=
  clean_upToDate_iff objectsTemplate 0 "t" emptyTenant (by decide) coldCall

/-- The artifact is marked by one write, a call reads the facts, a second write sets the mark
again, and the call takes it back. -/
theorem second_write_unmarked :
    ¬ ∀ (templates : Templates) (e : EntityId) (ty : String) (db : TenantDb)
      (events : List ArtifactEvent), db.artifactOf e ty = none →
      CleanUpToDate e ty (events.foldl (execArtifact templates e ty) (coldWorld db)) := by
  intro hall
  let events : List ArtifactEvent := coldCall ++ [.write .empty, .call [.read], .step 0 true,
    .step 0 true, .step 0 true, .write .empty, .step 0 true]
  let w := events.foldl (execArtifact objectsTemplate 0 "t") (coldWorld emptyTenant)
  have hclean := hall objectsTemplate 0 "t" emptyTenant events (by decide)
  have hrow : ((w.db.artifactOf 0 "t").map KnowledgeArtifact.dirty) = some false := by
    decide +kernel
  obtain ⟨a, ha, hdirty⟩ := Option.map_eq_some_iff.mp hrow
  have hsame := hclean a ha hdirty
  revert hsame
  decide +kernel

/-- What a run leaves in a clean row, when every store was in time. -/
theorem clean_payload_current (templates : Templates) (e : EntityId) (ty : String) (db : TenantDb)
    (hnew : db.artifactOf e ty = none) {w : ArtifactWorld}
    (h : Runs.Reached (execArtifact templates e ty) StoresInTime (coldWorld db) w)
    {a : KnowledgeArtifact} (ha : w.db.artifactOf e ty = some a) (hdirty : a.dirty = false) :
    ∃ scopes compiled, compiledFrom templates e ty scopes w.db.facts = some compiled ∧
      a.payload = compiled.payload ∧ a.sourceFactIds = compiled.sourceFactIds := by
  have hall : AllFor e ty w ∧ Tracks templates e ty w ∧ CleanUpToDate e ty w := by
    have hnorow : ∀ a, (coldWorld db).db.artifactOf e ty ≠ some a := by
      intro a ha
      rw [coldWorld, hnew] at ha
      cases ha
    have hnocall : ∀ call, call ∉ (coldWorld db).calls := fun _ => List.not_mem_nil
    refine h.invariant (P := fun w => AllFor e ty w ∧ Tracks templates e ty w ∧
      CleanUpToDate e ty w) ⟨?_, ⟨?_, ?_⟩, ?_⟩ ?_
    · exact fun call hcall => absurd hcall (hnocall call)
    · exact fun call hcall => absurd hcall (hnocall call)
    · exact fun a ha => absurd ha (hnorow a)
    · exact fun a ha => absurd ha (hnorow a)
    · rintro w event ⟨hfor, htracks, hclean⟩ hcond
      exact ⟨hfor.exec event, htracks.exec hfor event,
        (cleanUpToDate_exec_iff hfor hclean event).mpr hcond⟩
  exact compiledFrom_of_clean hall.2.1 hall.2.2 ha hdirty

end Brain
