/-
Erasure while other calls are under way.

Calls of `ingestFact`, `ingestMention`, `ingestLink`, `getArtifact` and `forget` on one
tenant, in any interleaving of their statements; any of them may fail at any point.
Between the statement that finds an entity and the one that writes to it there are other
calls, and an entity that is named by its id is not looked for at all. `forget` deletes the
facts and the edges before the entity, and the artifacts after it.

So facts can outlive their entity (`repopulated`). They do not (`refsOk_of_ordered`) if
calls take up an entity only while it is there and not being erased, a `forget` begins to
delete only when no call holds the entity, and comes to delete it only when it has no
artifacts.
-/
import Brain.Entities.ForgetRun
import Brain.Entities.References

set_option autoImplicit false

namespace Brain

/-! ## The system -/

/-- A call that is under way. -/
inductive TenantCall where
  | ingest (run : IngestRun)
  | artifact (run : ArtifactRun)
  | forget (run : ForgetRun)

/-- The entities that a call has found and may write to. -/
def TenantCall.Holds (e : EntityId) : TenantCall → Prop
  | .ingest run => run.Holds e
  | .artifact run => run.Holds e
  | .forget _ => False

structure Services where
  ingest : IngestServices
  templates : Templates
  hmac : String → String

/-- A tenant with the calls on it. -/
structure TenantSystem where
  db : Tenant := {}
  calls : ℕ → Option TenantCall := fun _ => none

inductive TenantStep where
  | ingestFact (id : ℕ) (dto : IngestFactDto)
  | ingestMention (id : ℕ) (dto : IngestMentionDto) (extraction : ExtractionResult)
  | ingestLink (id : ℕ) (dto : IngestLinkDto)
  | getArtifact (id : ℕ) (entityId : EntityId) (artifactType : String) (scopes : List BrainScope)
  | forget (id : ℕ) (call : ForgetCall)
  /-- The next statement of a call. -/
  | next (id : ℕ) (x : Outside)
  /-- It fails, or the process of the call stops. -/
  | fails (id : ℕ)

namespace TenantSystem

def setCall (s : TenantSystem) (id : ℕ) (call : Option TenantCall) : TenantSystem :=
  { s with calls := Function.update s.calls id call }

/-- A new call, if the number is free. -/
def start (s : TenantSystem) (id : ℕ) (call : Option TenantCall) : TenantSystem :=
  match s.calls id with
  | some _ => s
  | none => s.setCall id call

def step (services : Services) (s : TenantSystem) : TenantStep → TenantSystem
  | .ingestFact id dto =>
      -- an interval without an instant is turned away before anything else
      s.start id (if dto.validUntil.any (fun u => decide (u ≤ dto.validFrom)) then none
        else some (.ingest (ingestFactRun services.ingest dto)))
  | .ingestMention id dto extraction =>
      s.start id (if extraction.entities.isEmpty then none
        else some (.ingest (ingestMentionRun services.ingest dto extraction)))
  | .ingestLink id dto => s.start id (some (.ingest (ingestLinkRun dto)))
  | .getArtifact id entityId artifactType scopes =>
      s.start id (some (.artifact ⟨entityId, artifactType, scopes, .checking⟩))
  | .forget id call => s.start id (some (.forget { call := call }))
  | .next id x =>
      match s.calls id with
      | none => s
      | some (.ingest run) =>
          let after := run.next services.ingest x s.db
          { s with db := after.1 }.setCall id (after.2.map .ingest)
      | some (.artifact run) =>
          let after := run.next services.templates x.fresh s.db.toTenantDb
          { s with db := { s.db with toTenantDb := after.1 } }.setCall id (after.2.map .artifact)
      | some (.forget run) =>
          let after := run.next services.hmac s.db.toTenantDb
          { s with db := { s.db with toTenantDb := after.1 } }.setCall id (after.2.map .forget)
  | .fails id =>
      match s.calls id with
      | some (.ingest run) => s.setCall id (run.fail.map .ingest)
      | _ => s.setCall id none

/-- Some call has found the entity and may write to it. -/
def Holds (s : TenantSystem) (e : EntityId) : Prop :=
  ∃ id call, s.calls id = some call ∧ call.Holds e

/-- Some call of `forget` has deleted facts of the entity, and is yet to delete it. -/
def Erasing (s : TenantSystem) (e : EntityId) : Prop :=
  ∃ id run, s.calls id = some (.forget run) ∧ run.call.entityId = e ∧ run.Erasing

/-- The states that some interleaving leads to. -/
def Reachable (services : Services) (s : TenantSystem) : Prop :=
  Runs.Reached (step services) (fun _ _ => True) {} s

end TenantSystem

/-- The step does not let a call and an erasure meet. -/
structure Ordered (services : Services) (s : TenantSystem) (op : TenantStep) : Prop where
  /-- An ingest takes up an entity only while it is there, and not being erased. -/
  finds : ∀ id x run e, op = .next id x → s.calls id = some (.ingest run) →
    run.Finds services.ingest x s.db e → s.db.HasEntity e ∧ ¬ s.Erasing e
  /-- `getArtifact`, which looks for the entity, takes up none that is being erased. -/
  checks : ∀ id x run, op = .next id x → s.calls id = some (.artifact run) →
    run.stage = .checking → ¬ s.Erasing run.entityId
  /-- `forget` begins to delete when no call holds the entity. -/
  begins : ∀ id x run, op = .next id x → s.calls id = some (.forget run) →
    run.AtDelete .facts → ¬ s.Holds run.call.entityId
  /-- It deletes the entity when that has no artifacts. -/
  ends : ∀ id x run, op = .next id x → s.calls id = some (.forget run) →
    run.AtDelete .entity → ¬ s.db.ArtifactOf run.call.entityId

/-! ## What the statements of `forget` do to references -/

section Deletes

variable {holds : EntityId → Prop} {call : ForgetCall} {db : TenantDb} {e : EntityId}

/-- All the deletes but that of the entity only take references away. -/
theorem within_exec {delete : Delete} (ids : List String) (hdelete : delete ≠ .entity) :
    Within holds db (delete.exec call ids db) := by
  cases delete with
  | entity => exact absurd rfl hdelete
  | facts =>
      refine ⟨fun e he => Or.inl ?_, fun e he => Or.inl he, fun e he => Or.inl ?_, fun e he => he,
        Nat.le_refl _⟩
      · obtain ⟨i, f, hf, rfl⟩ := he
        exact ⟨i, f, (KeyedTable.get?_deleteWhere_eq_some.mp hf).1, rfl⟩
      · obtain ⟨a, ha, rfl⟩ := he
        simp only [Delete.exec, deleteFacts] at ha
        split at ha
        · exact ⟨a, ha, rfl⟩
        · refine exists_of_mem_map (fun b => ?_) ha
          split <;> rfl
  | edges =>
      refine ⟨fun e he => Or.inl he, fun e he => Or.inl ?_, fun e he => Or.inl he, fun e he => he,
        Nat.le_refl _⟩
      obtain ⟨j, x, hx, hend⟩ := he
      exact ⟨j, x, (KeyedTable.get?_deleteWhere_eq_some.mp hx).1, hend⟩
  | artifacts =>
      refine Within.of_eq rfl rfl (fun e he => ?_) rfl
      obtain ⟨a, ha, rfl⟩ := he
      exact ⟨a, List.mem_of_mem_filter ha, rfl⟩
  | auditEvents => exact Within.of_eq rfl rfl (fun _ he => he) rfl
  | dreamEmits => exact Within.of_eq rfl rfl (fun _ he => he) rfl
  | debugTraces => exact Within.of_eq rfl rfl (fun _ he => he) rfl
  | deadLetters => exact Within.of_eq rfl rfl (fun _ he => he) rfl
  | externalRefs => exact Within.of_eq rfl rfl (fun _ he => he) rfl

theorem within_bury {hmac : String → String} {n m k : ℕ} :
    Within holds db (bury hmac call n m k db) := by
  unfold bury
  dsimp only
  split
  · exact Within.refl
  · exact Within.of_eq rfl rfl (fun _ he => he) rfl

theorem not_factOf_deleteFacts : ¬ (deleteFacts e db).FactOf e := by
  rintro ⟨i, f, hf, hent⟩
  have hkept := (KeyedTable.get?_deleteWhere_eq_some.mp hf).2
  simp [hent] at hkept

theorem not_edgeOf_deleteEdges : ¬ (deleteEdges e db).EdgeOf e := by
  rintro ⟨j, x, hx, hend⟩
  have hkept := (KeyedTable.get?_deleteWhere_eq_some.mp hx).2
  rcases hend with hend | hend <;> simp [hend] at hkept

theorem hasEntity_deleteEntity_of_ne {e' : EntityId} (he : db.HasEntity e') (hne : e' ≠ e) :
    (deleteEntity e db).HasEntity e' := by
  have hget : (deleteEntity e db).entities.get? e' = db.entities.get? e' := by
    rw [deleteEntity, KeyedTable.get?_deleteWhere]
    cases db.entities.get? e' <;> simp [hne]
  rw [Store.HasEntity, hget]
  exact he

/-- The entity can go when nothing refers to it. -/
theorem refsOk_deleteEntity (h : db.RefsOk) (hfacts : ¬ db.FactOf e)
    (hedges : ¬ db.EdgeOf e) (hartifacts : ¬ db.ArtifactOf e) : (deleteEntity e db).RefsOk := by
  refine ⟨fun e' he => ?_, fun e' he => ?_, fun e' he => ?_⟩
  · refine hasEntity_deleteEntity_of_ne (h.facts e' he) ?_
    rintro rfl
    exact hfacts he
  · refine hasEntity_deleteEntity_of_ne (h.edges e' he) ?_
    rintro rfl
    exact hedges he
  · refine hasEntity_deleteEntity_of_ne (h.artifacts e' he) ?_
    rintro rfl
    exact hartifacts he

end Deletes

/-! ## The invariant of ordered runs -/

/-- What a call of `forget` can count on. -/
structure ForgetOk (db : TenantDb) (holds : EntityId → Prop) (run : ForgetRun) : Prop where
  /-- The entity has been there, so that no new entity gets its id. -/
  known : run.stage ≠ .checking → run.call.entityId < db.entities.next
  /-- Once the facts are deleted nobody can write to the entity. -/
  free : run.Erasing → ¬ holds run.call.entityId
  facts : run.Erasing → ¬ db.FactOf run.call.entityId
  edges : run.done = 2 → ¬ db.EdgeOf run.call.entityId

/-- **The invariant**: references are to entities that exist, and so is what calls hold. -/
structure Sound (s : TenantSystem) : Prop where
  refs : s.db.RefsOk
  held : ∀ e, s.Holds e → s.db.HasEntity e
  forgets : ∀ id run, s.calls id = some (.forget run) → ForgetOk s.db.toTenantDb s.Holds run

section Invariant

variable {services : Services} {s : TenantSystem} {id : ℕ} {call : Option TenantCall} {db' : Tenant}
  {e : EntityId}

theorem sound_init : Sound {} := by
  refine ⟨⟨?_, ?_, ?_⟩, ?_, ?_⟩
  · rintro e ⟨i, f, hf, _⟩
    exact absurd hf (by simp [KeyedTable.get?_empty])
  · rintro e ⟨j, x, hx, _⟩
    exact absurd hx (by simp [KeyedTable.get?_empty])
  · rintro e ⟨a, ha, _⟩
    exact absurd ha (by simp)
  · rintro e ⟨id, call, hcall, _⟩
    exact absurd hcall (by simp)
  · intro id run hrun
    exact absurd hrun (by simp)

/-- The number of the call, or another one. -/
theorem calls_setCall {id' : ℕ} {c : TenantCall}
    (h : ({ s with db := db' }.setCall id call).calls id' = some c) :
    (id' = id ∧ call = some c) ∨ s.calls id' = some c := by
  rw [TenantSystem.setCall] at h
  dsimp only at h
  rw [Function.update_apply] at h
  split at h
  · next hid => exact Or.inl ⟨hid, h⟩
  · exact Or.inr h

theorem holds_setCall (h : ({ s with db := db' }.setCall id call).Holds e) :
    (∃ c, call = some c ∧ c.Holds e) ∨ s.Holds e := by
  obtain ⟨id', c, hcall, hc⟩ := h
  rcases calls_setCall hcall with ⟨_, hcall⟩ | hcall
  · exact Or.inl ⟨c, hcall, hc⟩
  · exact Or.inr ⟨id', c, hcall, hc⟩

/-- Outside the erasure there is nothing more to keep. -/
theorem ForgetOk.of_not_erasing {db : TenantDb} {holds : EntityId → Prop} {run : ForgetRun}
    (hnot : ¬ run.Erasing) (hknown : run.stage ≠ .checking → run.call.entityId < db.entities.next) :
    ForgetOk db holds run :=
  ⟨hknown, fun he => absurd he hnot, fun he => absurd he hnot,
    fun hdone => absurd (Or.inr hdone) hnot⟩

theorem Sound.lt_next (h : Sound s) (he : s.Erasing e) : e < s.db.entities.next := by
  obtain ⟨id, run, hrun, rfl, herasing⟩ := he
  exact (h.forgets id run hrun).known herasing.ne_checking

/-- **A statement keeps the invariant** if it refers only to what is held, and its call
takes up only what is there and not being erased. -/
theorem Sound.within (h : Sound s) (hwithin : Within s.Holds s.db.toTenantDb db'.toTenantDb)
    (hholds : ∀ c e, call = some c → c.Holds e → s.Holds e ∨ db'.HasEntity e ∧ ¬ s.Erasing e)
    (hforget : ∀ run, call = some (.forget run) → ForgetOk db'.toTenantDb s.Holds run) :
    Sound ({ s with db := db' }.setCall id call) := by
  have hheld : ∀ e, ({ s with db := db' }.setCall id call).Holds e →
      s.Holds e ∨ db'.HasEntity e ∧ ¬ s.Erasing e := by
    intro e he
    rcases holds_setCall he with ⟨c, hcall, hc⟩ | he
    · exact hholds c e hcall hc
    · exact Or.inl he
  refine ⟨h.refs.within hwithin h.held, fun e he => ?_, fun id' run hrun => ?_⟩
  · rcases hheld e he with he | ⟨hex, _⟩
    · exact hwithin.entities e (h.held e he)
    · exact hex
  · rcases calls_setCall hrun with ⟨_, hcall⟩ | hold
    · have hok := hforget run hcall
      refine ⟨hok.known, fun herasing he => hok.free herasing ?_, hok.facts, hok.edges⟩
      -- a `forget` holds nothing itself
      rcases holds_setCall he with ⟨c, hc, hholdsc⟩ | he
      · obtain rfl := Option.some.inj (hcall.symm.trans hc)
        exact hholdsc.elim
      · exact he
    · have hok := h.forgets id' run hold
      refine ⟨fun hstage => ?_, fun herasing he => ?_, fun herasing he => ?_, fun hdone he => ?_⟩
      · exact Nat.lt_of_lt_of_le (hok.known hstage) hwithin.next
      · rcases hheld _ he with he | ⟨_, hnot⟩
        · exact hok.free herasing he
        · exact hnot ⟨id', run, hold, rfl, herasing⟩
      · rcases hwithin.facts _ he with he | he
        · exact hok.facts herasing he
        · exact hok.free herasing he
      · rcases hwithin.edges _ he with he | he
        · exact hok.edges hdone he
        · exact hok.free (Or.inr hdone) he

/-- A call that is given up, or turned away, changes nothing. -/
theorem Sound.setCall (h : Sound s) (hholds : ∀ c e, call = some c → c.Holds e → s.Holds e)
    (hforget : ∀ run, call = some (.forget run) → ForgetOk s.db.toTenantDb s.Holds run) :
    Sound (s.setCall id call) := by
  have hwithin : Within s.Holds s.db.toTenantDb s.db.toTenantDb := Within.refl
  exact h.within hwithin (fun c e hcall hc => Or.inl (hholds c e hcall hc)) hforget

/-- A call begins with nothing in hand. -/
theorem Sound.start (h : Sound s) (hholds : ∀ c e, call = some c → ¬ c.Holds e)
    (hforget : ∀ run, call = some (.forget run) → run.stage = .checking) :
    Sound (s.start id call) := by
  unfold TenantSystem.start
  split
  · exact h
  · refine h.setCall (fun c e hcall hc => absurd hc (hholds c e hcall)) (fun run hcall => ?_)
    have hstage := hforget run hcall
    exact ForgetOk.of_not_erasing (fun herasing => herasing.ne_checking hstage)
      (fun hnot => absurd hstage hnot)

theorem Sound.next_ingest (h : Sound s) {x : Outside} {run : IngestRun}
    (hcall : s.calls id = some (.ingest run))
    (hop : ∀ e, run.Finds services.ingest x s.db e → s.db.HasEntity e ∧ ¬ s.Erasing e) :
    Sound ({ s with db := (run.next services.ingest x s.db).1 }.setCall id
      ((run.next services.ingest x s.db).2.map .ingest)) := by
  have hwithin : Within s.Holds s.db.toTenantDb (run.next services.ingest x s.db).1.toTenantDb :=
    within_next.mono (fun e he => ⟨id, .ingest run, hcall, he⟩)
  refine h.within hwithin ?_ ?_
  · intro c e hc he
    obtain ⟨run', hrun', rfl⟩ := Option.map_eq_some_iff.mp hc
    rcases IngestRun.holds_next hrun' he with he | hfinds | ⟨rfl, hex⟩
    · exact Or.inl ⟨id, .ingest run, hcall, he⟩
    · obtain ⟨hex, hnot⟩ := hop e hfinds
      exact Or.inr ⟨hwithin.entities e hex, hnot⟩
    · -- an id that is new is not being erased
      exact Or.inr ⟨hex, fun herasing => Nat.lt_irrefl _ (h.lt_next herasing)⟩
  · intro run' hc
    obtain ⟨_, _, hne⟩ := Option.map_eq_some_iff.mp hc
    cases hne

theorem Sound.next_artifact (h : Sound s) {fresh : Bool} {run : ArtifactRun}
    (hcall : s.calls id = some (.artifact run))
    (hop : run.stage = .checking → ¬ s.Erasing run.entityId) :
    Sound ({ s with db := { s.db with
        toTenantDb := (run.next services.templates fresh s.db.toTenantDb).1 } }.setCall id
      ((run.next services.templates fresh s.db.toTenantDb).2.map .artifact)) := by
  have hwithin : Within s.Holds s.db.toTenantDb
      (run.next services.templates fresh s.db.toTenantDb).1 :=
    within_artifact.mono (fun e he => ⟨id, .artifact run, hcall, he⟩)
  refine h.within hwithin ?_ ?_
  · intro c e hc he
    obtain ⟨run', hrun', rfl⟩ := Option.map_eq_some_iff.mp hc
    rcases ArtifactRun.holds_next hrun' he with he | ⟨hstage, rfl, hex⟩
    · exact Or.inl ⟨id, .artifact run, hcall, he⟩
    · exact Or.inr ⟨hwithin.entities _ hex, hop hstage⟩
  · intro run' hc
    obtain ⟨_, _, hne⟩ := Option.map_eq_some_iff.mp hc
    cases hne

/-- The delete of the entity: its facts and edges are gone, and nobody holds it. -/
theorem Sound.next_entity (h : Sound s) {run run' : ForgetRun}
    (hcall : s.calls id = some (.forget run)) (hdone : run.done = 2)
    (hartifacts : ¬ s.db.ArtifactOf run.call.entityId) (hrun' : run'.call = run.call)
    (hdone' : run'.done = 3) :
    Sound ({ s with db := { s.db with
        toTenantDb := deleteEntity run.call.entityId s.db.toTenantDb } }.setCall id
      (some (.forget run'))) := by
  have hok := h.forgets id run hcall
  have herasing : run.Erasing := Or.inr hdone
  have hheld : ∀ e, ({ s with db := { s.db with
      toTenantDb := deleteEntity run.call.entityId s.db.toTenantDb } }.setCall id
        (some (.forget run'))).Holds e → s.Holds e := by
    intro e he
    rcases holds_setCall he with ⟨c, hc, hholds⟩ | he
    · obtain rfl := Option.some.inj hc
      exact hholds.elim
    · exact he
  refine ⟨refsOk_deleteEntity h.refs (hok.facts herasing) (hok.edges hdone) hartifacts,
    fun e he => ?_, fun id' r hr => ?_⟩
  · refine hasEntity_deleteEntity_of_ne (h.held e (hheld e he)) ?_
    rintro rfl
    exact hok.free herasing (hheld _ he)
  · have hold : ForgetOk s.db.toTenantDb s.Holds r := by
      rcases calls_setCall hr with ⟨_, hc⟩ | hr
      · obtain rfl : run' = r := by simpa using hc
        have hnot : ¬ run'.Erasing := by
          rw [ForgetRun.Erasing, hdone']
          omega
        refine ForgetOk.of_not_erasing hnot (fun _ => ?_)
        rw [hrun']
        exact hok.known herasing.ne_checking
      · exact h.forgets id' r hr
    exact ⟨hold.known, fun he hholds => hold.free he (hheld _ hholds), hold.facts, hold.edges⟩

/-- The other statements of `forget`. -/
theorem Sound.forget_within (h : Sound s) {db₁ : TenantDb} {after : Option ForgetRun}
    (hwithin : Within s.Holds s.db.toTenantDb db₁)
    (hafter : ∀ run, after = some run → ForgetOk db₁ s.Holds run) :
    Sound ({ s with db := { s.db with toTenantDb := db₁ } }.setCall id (after.map .forget)) := by
  refine h.within hwithin (fun c e hc he => ?_) (fun run hc => ?_)
  · obtain ⟨_, _, rfl⟩ := Option.map_eq_some_iff.mp hc
    exact he.elim
  · obtain ⟨run', hrun', heq⟩ := Option.map_eq_some_iff.mp hc
    obtain rfl := TenantCall.forget.inj heq
    exact hafter run' hrun'

theorem Sound.next_forget (h : Sound s) {run : ForgetRun} (hcall : s.calls id = some (.forget run))
    (hbegins : run.AtDelete .facts → ¬ s.Holds run.call.entityId)
    (hends : run.AtDelete .entity → ¬ s.db.ArtifactOf run.call.entityId) :
    Sound ({ s with db := { s.db with
        toTenantDb := (run.next services.hmac s.db.toTenantDb).1 } }.setCall id
      ((run.next services.hmac s.db.toTenantDb).2.map .forget)) := by
  have hok := h.forgets id run hcall
  by_cases hreads : ∀ factIds edgeIds n done, run.stage ≠ .deleting factIds edgeIds n done
  · obtain ⟨hdb, hnext⟩ := ForgetRun.next_reads services.hmac s.db.toTenantDb hreads
    rw [hdb]
    refine h.forget_within Within.refl (fun run' hrun' => ?_)
    obtain ⟨hsame, hdone, hexists⟩ := hnext run' hrun'
    refine ForgetOk.of_not_erasing ?_ (fun _ => ?_)
    · rw [ForgetRun.Erasing, hdone]
      omega
    · rw [hsame]
      by_cases hstage : run.stage = .checking
      · obtain ⟨r, hr⟩ := Option.isSome_iff_exists.mp (hexists hstage)
        exact KeyedTable.get?_lt_next hr
      · exact hok.known hstage
  · obtain ⟨factIds, edgeIds, n, done, hstage⟩ : ∃ factIds edgeIds n done,
        run.stage = .deleting factIds edgeIds n done := by
      simpa using hreads
    have hdone : run.done = done := by simp [ForgetRun.done, hstage]
    have hknown := hok.known (by simp [hstage])
    cases hdelete : Delete.order[done]? with
    | none =>
        have hnext : run.next services.hmac s.db.toTenantDb = (bury services.hmac run.call
            factIds.length edgeIds.length n s.db.toTenantDb, none) := by
          simp [ForgetRun.next, hstage, hdelete]
        rw [hnext]
        exact h.forget_within within_bury (fun run' hrun' => by cases hrun')
    | some delete =>
        obtain ⟨ids, n', hnext⟩ : ∃ ids n', run.next services.hmac s.db.toTenantDb
            = (delete.exec run.call ids s.db.toTenantDb,
              some ⟨run.call, .deleting factIds edgeIds n' (done + 1)⟩) :=
          ⟨_, _, ForgetRun.next_delete hstage hdelete⟩
        rw [hnext]
        have hat : run.AtDelete delete := ⟨factIds, edgeIds, n, done, hstage, hdelete⟩
        rcases done_of_order hdelete with
          ⟨rfl, rfl⟩ | ⟨rfl, rfl⟩ | ⟨rfl, rfl⟩ | ⟨hthree, hne⟩
        · have hne : Delete.facts ≠ .entity := by decide
          refine h.forget_within (within_exec ids hne) (fun run' hrun' => ?_)
          obtain rfl := Option.some.inj hrun'
          exact ⟨fun _ => hknown, fun _ => hbegins hat, fun _ => not_factOf_deleteFacts,
            fun hdone' => absurd hdone' (by simp [ForgetRun.done])⟩
        · have herasing : run.Erasing := Or.inl hdone
          have hne : Delete.edges ≠ .entity := by decide
          refine h.forget_within (within_exec ids hne) (fun run' hrun' => ?_)
          obtain rfl := Option.some.inj hrun'
          exact ⟨fun _ => hknown, fun _ => hok.free herasing, fun _ => hok.facts herasing,
            fun _ => not_edgeOf_deleteEdges⟩
        · exact h.next_entity hcall hdone (hends hat) rfl rfl
        · have hwithin : Within s.Holds s.db.toTenantDb (delete.exec run.call ids s.db.toTenantDb) :=
            within_exec ids hne
          refine h.forget_within hwithin (fun run' hrun' => ?_)
          obtain rfl := Option.some.inj hrun'
          refine ForgetOk.of_not_erasing ?_ (fun _ => Nat.lt_of_lt_of_le hknown hwithin.next)
          simp only [ForgetRun.Erasing, ForgetRun.done]
          omega

/-- **One step.** -/
theorem Sound.step (h : Sound s) {op : TenantStep} (hop : Ordered services s op) :
    Sound (TenantSystem.step services s op) := by
  -- a call that is let in holds nothing, and is no `forget` at work
  have hingest : ∀ (turnedAway : Bool) (run : IngestRun) (id : ℕ), run.resolved = [] →
      Sound (s.start id (if turnedAway then none else some (.ingest run))) := by
    intro turnedAway run id hresolved
    refine h.start (fun c e hc he => ?_) (fun run' hc => ?_)
    · split at hc
      · cases hc
      · obtain rfl := Option.some.inj hc
        rw [TenantCall.Holds, IngestRun.Holds, hresolved] at he
        exact List.not_mem_nil he
    · split at hc
      · cases hc
      · cases Option.some.inj hc
  cases op with
  | ingestFact id dto => exact hingest _ _ id rfl
  | ingestMention id dto extraction => exact hingest _ _ id rfl
  | ingestLink id dto => exact hingest false _ id rfl
  | getArtifact id entityId artifactType scopes =>
      refine h.start (fun c e hc he => ?_) (fun run hc => ?_)
      · obtain rfl := Option.some.inj hc
        exact he.2 rfl
      · cases Option.some.inj hc
  | forget id call =>
      refine h.start (fun c e hc he => ?_) (fun run hc => ?_)
      · obtain rfl := Option.some.inj hc
        exact he
      · cases Option.some.inj hc
        rfl
  | next id x =>
      cases hcall : s.calls id with
      | none =>
          simp only [TenantSystem.step, hcall]
          exact h
      | some c =>
          cases c with
          | ingest run =>
              simp only [TenantSystem.step, hcall]
              exact h.next_ingest hcall (fun e => hop.finds id x run e rfl hcall)
          | artifact run =>
              simp only [TenantSystem.step, hcall]
              exact h.next_artifact hcall (hop.checks id x run rfl hcall)
          | forget run =>
              simp only [TenantSystem.step, hcall]
              exact h.next_forget hcall (hop.begins id x run rfl hcall)
                (hop.ends id x run rfl hcall)
  | fails id =>
      have hgone : Sound (s.setCall id none) :=
        h.setCall (fun c e hc => by cases hc) (fun run hc => by cases hc)
      cases hcall : s.calls id with
      | none =>
          simp only [TenantSystem.step, hcall]
          exact hgone
      | some c =>
          cases c with
          | ingest run =>
              simp only [TenantSystem.step, hcall]
              refine h.setCall (fun c e hc he => ?_) (fun run' hc => ?_)
              · obtain ⟨run', hrun', rfl⟩ := Option.map_eq_some_iff.mp hc
                refine ⟨id, .ingest run, hcall, ?_⟩
                rw [TenantCall.Holds, IngestRun.Holds, ← resolved_fail hrun']
                exact he
              · obtain ⟨_, _, hne⟩ := Option.map_eq_some_iff.mp hc
                cases hne
          | artifact run =>
              simp only [TenantSystem.step, hcall]
              exact hgone
          | forget run =>
              simp only [TenantSystem.step, hcall]
              exact hgone

theorem sound_of_ordered (h : Runs.Reached (TenantSystem.step services) (Ordered services) {} s) :
    Sound s :=
  h.invariant sound_init (fun _ _ hs hop => hs.step hop)

theorem ordered_of_ne_next {op : TenantStep} (h : ∀ id x, op ≠ .next id x) :
    Ordered services s op :=
  ⟨fun id x _ _ hop => absurd hop (h id x), fun id x _ hop => absurd hop (h id x),
    fun id x _ hop => absurd hop (h id x), fun id x _ hop => absurd hop (h id x)⟩

theorem ordered_ingest {x : Outside} {run : IngestRun} (hcall : s.calls id = some (.ingest run))
    (hfinds : ∀ e, run.Finds services.ingest x s.db e → s.db.HasEntity e ∧ ¬ s.Erasing e) :
    Ordered services s (.next id x) := by
  refine ⟨fun id' x' run' e hop hcall' hfound => ?_, fun id' x' run' hop hcall' => ?_,
    fun id' x' run' hop hcall' => ?_, fun id' x' run' hop hcall' => ?_⟩
  all_goals
    cases hop
    cases hcall.symm.trans hcall'
  exact hfinds e hfound

end Invariant

/-! ## Customers -/

/-- Services for the examples: every predicate is bitemporal, nothing is compiled. -/
def crmServices : Services where
  ingest := { ingest := .uniform .bitemporal, modelId := "m", toLowerCase := id, lowercase := id }
  templates := fun _ => none
  hmac := id

/-- A request about a customer. -/
def tierOf (ref : EntityRef) : IngestFactDto where
  entityRef := ref
  predicate := "tier"
  object := "gold"
  validFrom := 0

def today : Outside where
  env := { now := 0, sourceTrust := [] }
  now := 0

/-- The tenant after some steps. -/
def TenantSystem.after (steps : List TenantStep) : TenantSystem :=
  steps.foldl (TenantSystem.step crmServices) {}

/-- All these steps are ordered. -/
def OrderedAfter (steps : List TenantStep) : Prop :=
  Runs.Reached (TenantSystem.step crmServices) (Ordered crmServices) {} (TenantSystem.after steps)

theorem OrderedAfter.concat {steps : List TenantStep} (h : OrderedAfter steps) (op : TenantStep)
    (hop : Ordered crmServices (TenantSystem.after steps) op) : OrderedAfter (steps ++ [op]) := by
  unfold OrderedAfter TenantSystem.after
  rw [List.foldl_append]
  exact Runs.Reached.next op h hop

/-- A customer is created, with a fact. -/
def customerCreated : List TenantStep :=
  [.ingestFact 0 (tierOf (.external "crm" "ann")), .next 0 today, .next 0 today, .next 0 today]

/-- That request returns, and the customer is erased. -/
def customerErased : List TenantStep :=
  .next 0 today :: .forget 1 forgetAnn :: List.replicate 13 (.next 1 today)

/-- **Facts do not outlive their entity where calls and erasures keep apart.** -/
theorem refsOk_of_ordered {services : Services} {s : TenantSystem}
    (h : Runs.Reached (TenantSystem.step services) (Ordered services) {} s) : s.db.RefsOk :=
  (sound_of_ordered h).refs

/-- A fact of a customer, and the customer. -/
theorem customerCreated_refsOk : (TenantSystem.after customerCreated).db.RefsOk := by
  have hstart : OrderedAfter [.ingestFact 0 (tierOf (.external "crm" "ann"))] := by
    have hempty : OrderedAfter [] := .start
    refine hempty.concat _ (ordered_of_ne_next ?_)
    simp
  have hlookup := hstart.concat (.next 0 today) (by
    refine ordered_ingest rfl ?_
    -- nothing has the key
    rintro e ⟨attempt, lookup, rest, hstage, hlookups, hfind⟩
    cases hlookups
    cases hfind)
  have hcreate := hlookup.concat (.next 0 today) (by
    refine ordered_ingest rfl ?_
    rintro e ⟨attempt, lookup, rest, hstage, hlookups, hfind⟩
    cases hstage)
  have hwrite := hcreate.concat (.next 0 today) (by
    refine ordered_ingest rfl ?_
    rintro e ⟨attempt, lookup, rest, hstage, hlookups, hfind⟩
    cases hlookups)
  exact refsOk_of_ordered hwrite

/-! ## What is written to an erased entity -/

theorem factOf_of_map {db : TenantDb} {i : FactId} {e : EntityId}
    (h : (db.facts.get? i).map KnowledgeFact.entityId = some e) : db.FactOf e := by
  obtain ⟨f, hf, hent⟩ := Option.map_eq_some_iff.mp h
  exact ⟨i, f, hf, hent⟩

/-- A second request has found the customer before the erasure, and writes after it. -/
def resolvedBefore : List TenantStep :=
  customerCreated ++ [.ingestFact 2 (tierOf (.external "crm" "ann")), .next 2 today] ++
    customerErased ++ [.next 2 today]

/-- A request names the customer by its id, after the erasure. -/
def namedAfter : List TenantStep :=
  customerCreated ++ customerErased ++
    [.ingestFact 2 (tierOf (.entity 0)), .next 2 today, .next 2 today]

/-- **Facts outlive their entity**, and an erased subject gets new ones. -/
theorem repopulated :
    ((TenantSystem.after resolvedBefore).Reachable crmServices ∧
        ¬ (TenantSystem.after resolvedBefore).db.RefsOk) ∧
      (TenantSystem.after namedAfter).Reachable crmServices ∧
        ¬ (TenantSystem.after namedAfter).db.RefsOk := by
  refine ⟨⟨Runs.reached_foldl .start _, fun h => ?_⟩, Runs.reached_foldl .start _, fun h => ?_⟩
  · have hfact : (TenantSystem.after resolvedBefore).db.FactOf 0 :=
      factOf_of_map (i := 1) (by decide +kernel)
    exact absurd (h.facts 0 hfact) (by decide +kernel)
  · have hfact : (TenantSystem.after namedAfter).db.FactOf 0 :=
      factOf_of_map (i := 1) (by decide +kernel)
    exact absurd (h.facts 0 hfact) (by decide +kernel)

end Brain
