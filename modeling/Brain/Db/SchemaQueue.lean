/-
The schema step of `src/src/db/surreal.service.ts`, for one tenant: a call of `withCompany` or
`withScopedCompany` asks whether the database is known, and otherwise waits in the queue in
which the migrations of `src/src/db/migrator.service.ts` are applied. `dropCompanyDatabase`
goes through no queue: it removes the database, and then takes it from the known ones.

Every statement is a step of its own, and so is what the service does between two of them. A
statement on a database that is not there creates it. The waits of other tenants in the queue
only take time, and are left out; so are the passwords and the pools.

If every REMOVE comes at an idle moment (`RemovesIdle`), every callback starts on a database
with all migrations, and the known databases have them (`sound_of_reached`).
-/
import Brain.Lib.Runs

set_option autoImplicit false

namespace Brain.SchemaQueue

/-! ## 1. The service -/

/-- The migrations by their identifiers; `loadManifest` throws if there are none. -/
structure Manifest where
  ids : List String
  nonempty : ids ≠ []

/-- What a database has of the schema: the migrations it has executed, and the rows of
`schema_migrations`. -/
structure Schema where
  executed : List String := []
  recorded : List String := []
deriving DecidableEq

/-- Where `ensureSchema` stands in the queue. -/
inductive MigratorStage where
  /-- `knownDatabases.has`, once more. -/
  | rechecking
  /-- `SCHEMA_MIGRATIONS_DDL`. -/
  | bootstrapping
  /-- `fetchAppliedIds`. -/
  | listing
  | applying (id : String) (pending : List String)
  | recording (id : String) (pending : List String)
  /-- `knownDatabases.add`. -/
  | adding
  | finishing
deriving DecidableEq

/-- A call that waits in the queue. -/
structure Waiting where
  isScoped : Bool
  stage : MigratorStage
deriving DecidableEq

/-- Where a call stands that does not wait. -/
inductive CallStage where
  | use
  /-- `knownDatabases.has`. -/
  | checking
  /-- The schema step has returned. -/
  | returned
  /-- The scopes are bound, on a scoped connection. -/
  | bound
deriving DecidableEq

/-- A call of `withCompany`, or of `withScopedCompany`. -/
structure Call where
  isScoped : Bool
  stage : CallStage
deriving DecidableEq

/-- Where a call of `dropCompanyDatabase` stands. -/
inductive DropStage where
  | use
  | removing
  /-- `knownDatabases.delete`. -/
  | deleting
deriving DecidableEq

/-- The database of the tenant, and the service. -/
structure World where
  database : Option Schema := none
  /-- `knownDatabases` has the database. -/
  known : Bool := false
  calls : List Call := []
  /-- `schemaQueue`; the first one is executing. -/
  queue : List Waiting := []
  drops : List DropStage := []
  /-- For each callback that has started, whether the database had all migrations. -/
  starts : List Bool := []

/-- The database exists with every migration applied. -/
def Migrated (m : Manifest) : Option Schema → Prop
  | none => False
  | some s => ∀ id ∈ m.ids, id ∈ s.executed

instance (m : Manifest) : (db : Option Schema) → Decidable (Migrated m db)
  | none => inferInstanceAs (Decidable False)
  | some s => inferInstanceAs (Decidable (∀ id ∈ m.ids, id ∈ s.executed))

/-- What happens. -/
inductive Event where
  | enter (isScoped : Bool)
  /-- Call number `k` takes its next step. -/
  | call (k : ℕ)
  /-- The first one in the queue takes its next step, or throws. -/
  | migrate (ok : Bool)
  | enterDrop
  | drop (k : ℕ)
  /-- The process starts again. -/
  | restart

/-- The loop of `migrate`, at its head. -/
def nextPending : List String → MigratorStage
  | [] => .adding
  | id :: pending => .applying id pending

/-- The callback of a call starts. -/
def World.start (m : Manifest) (w : World) (k : ℕ) : World :=
  { w with calls := w.calls.eraseIdx k
           starts := w.starts ++ [decide (Migrated m w.database)] }

/-- The next step of a call. -/
def World.stepCall (m : Manifest) (w : World) (k : ℕ) (call : Call) : World :=
  match call.stage with
  | .use => { w with calls := w.calls.set k { call with stage := .checking } }
  | .checking =>
      if w.known then { w with calls := w.calls.set k { call with stage := .returned } }
      else
        { w with calls := w.calls.eraseIdx k
                 queue := w.queue ++ [⟨call.isScoped, .rechecking⟩] }
  | .returned =>
      if call.isScoped then { w with calls := w.calls.set k { call with stage := .bound } }
      else w.start m k
  | .bound => w.start m k

/-- The next step of the first one in the queue, the others being `rest`. -/
def World.stepQueue (m : Manifest) (w : World) (head : Waiting) (rest : List Waiting) : World :=
  let returns : World :=
    { w with queue := rest, calls := w.calls ++ [⟨head.isScoped, .returned⟩] }
  match head.stage with
  | .rechecking =>
      if w.known then returns else { w with queue := ⟨head.isScoped, .bootstrapping⟩ :: rest }
  | .bootstrapping =>
      { w with database := some (w.database.getD {})
               queue := ⟨head.isScoped, .listing⟩ :: rest }
  | .listing =>
      let pending := m.ids.filter (fun id => !(w.database.getD {}).recorded.contains id)
      { w with queue := ⟨head.isScoped, nextPending pending⟩ :: rest }
  | .applying id pending =>
      let s := w.database.getD {}
      { w with database := some { s with executed := s.executed ++ [id] }
               queue := ⟨head.isScoped, .recording id pending⟩ :: rest }
  | .recording id pending =>
      let s := w.database.getD {}
      { w with database := some { s with recorded := s.recorded ++ [id] }
               queue := ⟨head.isScoped, nextPending pending⟩ :: rest }
  | .adding => { w with known := true, queue := ⟨head.isScoped, .finishing⟩ :: rest }
  | .finishing => returns

/-- The next step of a drop; `REMOVE DATABASE` throws if there is none. -/
def World.stepDrop (w : World) (k : ℕ) (stage : DropStage) : World :=
  match stage with
  | .use => { w with drops := w.drops.set k .removing }
  | .removing =>
      match w.database with
      | none => { w with drops := w.drops.eraseIdx k }
      | some _ => { w with database := none, drops := w.drops.set k .deleting }
  | .deleting => { w with known := false, drops := w.drops.eraseIdx k }

/-- The world after an event. -/
def exec (m : Manifest) (w : World) : Event → World
  | .enter isScoped => { w with calls := w.calls ++ [⟨isScoped, .use⟩] }
  | .call k =>
      match w.calls[k]? with
      | none => w
      | some call => w.stepCall m k call
  | .migrate ok =>
      match w.queue with
      | [] => w
      | head :: rest => if ok then w.stepQueue m head rest else { w with queue := rest }
  | .enterDrop => { w with drops := w.drops ++ [.use] }
  | .drop k =>
      match w.drops[k]? with
      | none => w
      | some stage => w.stepDrop k stage
  | .restart => { database := w.database, starts := w.starts }

/-- **Callbacks start on migrated databases**, and the known databases are migrated. -/
structure Sound (m : Manifest) (w : World) : Prop where
  starts : ∀ b ∈ w.starts, b = true
  known : w.known = true → Migrated m w.database

/-! ## 2. Idle moments -/

/-- A migration that will execute everything from here on. -/
def MigratorStage.Restarts (m : Manifest) : MigratorStage → Prop
  | .rechecking => True
  | .bootstrapping => True
  | .listing => True
  | .applying id pending => ∀ x ∈ m.ids, x ∈ id :: pending
  | .recording _ _ => False
  | .adding => False
  | .finishing => False

/-- The schema step of the call is behind it. -/
def CallStage.PastSchema : CallStage → Prop
  | .use => False
  | .checking => False
  | .returned => True
  | .bound => True

/-- The database is not known, no migration relies on what another one has executed, and no
call is between its schema step and its callback. -/
structure Idle (m : Manifest) (w : World) : Prop where
  unknown : w.known = false
  queue : ∀ x ∈ w.queue, x.stage.Restarts m
  calls : ∀ call ∈ w.calls, ¬ call.stage.PastSchema

/-- A database is removed at idle moments only. -/
def RemovesIdle (m : Manifest) (w : World) : Event → Prop
  | .drop k => w.drops[k]? = some .removing → w.database.isSome = true → Idle m w
  | _ => True

/-! ## 3. The invariant -/

/-- What a database has executed. -/
def executedIn (db : Option Schema) : List String := (db.getD {}).executed

/-- What a stage relies on. -/
def MigratorStage.Relies (m : Manifest) (db : Option Schema) : MigratorStage → Prop
  | .rechecking => True
  | .bootstrapping => True
  | .listing => True
  | .applying id pending => ∀ x ∈ m.ids, x ∈ id :: pending ∨ x ∈ executedIn db
  | .recording id pending => id ∈ executedIn db ∧ ∀ x ∈ m.ids, x ∈ pending ∨ x ∈ executedIn db
  | .adding => Migrated m db
  | .finishing => Migrated m db

/-- What holds of the service at all times. -/
structure SchemaInv (m : Manifest) (w : World) : Prop where
  /-- What is recorded has been executed. -/
  honest : ∀ id ∈ (w.database.getD {}).recorded, id ∈ executedIn w.database
  known : w.known = true → Migrated m w.database
  queue : ∀ x ∈ w.queue, x.stage.Relies m w.database
  calls : ∀ call ∈ w.calls, call.stage.PastSchema → Migrated m w.database
  starts : ∀ b ∈ w.starts, b = true

section Invariant

variable {m : Manifest} {w : World} {db db' : Option Schema} {stage : MigratorStage}
  {head : Waiting} {rest : List Waiting}

/-- There is a migration, so a database that has executed them all exists. -/
theorem migrated_iff : Migrated m db ↔ ∀ id ∈ m.ids, id ∈ executedIn db := by
  cases db with
  | none =>
      obtain ⟨id, hid⟩ := List.exists_mem_of_ne_nil m.ids m.nonempty
      exact iff_of_false (fun h => h) (fun h => List.not_mem_nil (h id hid))
  | some s => exact Iff.rfl

/-- More has been executed. -/
def Grows (db db' : Option Schema) : Prop := ∀ id ∈ executedIn db, id ∈ executedIn db'

theorem Migrated.mono (h : Migrated m db) (hgrows : Grows db db') : Migrated m db' :=
  migrated_iff.mpr (fun id hid => hgrows id (migrated_iff.mp h id hid))

theorem MigratorStage.Relies.mono (h : stage.Relies m db) (hgrows : Grows db db') :
    stage.Relies m db' := by
  cases stage with
  | rechecking => trivial
  | bootstrapping => trivial
  | listing => trivial
  | applying id pending => exact fun x hx => (h x hx).imp_right (hgrows x)
  | recording id pending => exact ⟨hgrows id h.1, fun x hx => (h.2 x hx).imp_right (hgrows x)⟩
  | adding => exact Migrated.mono h hgrows
  | finishing => exact Migrated.mono h hgrows

/-- A migration that starts over relies on nothing. -/
theorem MigratorStage.Restarts.relies (h : stage.Restarts m) : stage.Relies m db := by
  cases stage with
  | rechecking => trivial
  | bootstrapping => trivial
  | listing => trivial
  | applying id pending => exact fun x hx => Or.inl (h x hx)
  | recording id pending => exact h.elim
  | adding => exact h.elim
  | finishing => exact h.elim

/-- The head of the loop relies on what is not pending. -/
theorem relies_nextPending {pending : List String}
    (h : ∀ x ∈ m.ids, x ∈ pending ∨ x ∈ executedIn db) :
    (nextPending pending).Relies m db := by
  cases pending with
  | nil => exact migrated_iff.mpr (fun x hx => (h x hx).resolve_left List.not_mem_nil)
  | cons id pending => exact h

theorem inv_start (h : SchemaInv m w) {k : ℕ} {call : Call} (hcall : call ∈ w.calls)
    (hpast : call.stage.PastSchema) : SchemaInv m (w.start m k) := by
  refine ⟨h.honest, h.known, h.queue, ?_, ?_⟩
  · exact fun c hc => h.calls c (List.mem_of_mem_eraseIdx hc)
  · intro b hb
    rcases List.mem_append.mp hb with hb | hb
    · exact h.starts b hb
    · rw [List.mem_singleton.mp hb]
      exact decide_eq_true (h.calls call hcall hpast)

/-- A call at another stage. -/
theorem inv_setCall (h : SchemaInv m w) (k : ℕ) {call : Call}
    (hpast : call.stage.PastSchema → Migrated m w.database) :
    SchemaInv m { w with calls := w.calls.set k call } := by
  refine ⟨h.honest, h.known, h.queue, ?_, h.starts⟩
  intro c hc
  rcases List.mem_or_eq_of_mem_set hc with hc | rfl
  · exact h.calls c hc
  · exact hpast

/-- A step of a call keeps the invariant. -/
theorem inv_stepCall (h : SchemaInv m w) {k : ℕ} {call : Call} (hcall : call ∈ w.calls) :
    SchemaInv m (w.stepCall m k call) := by
  have hpast := h.calls call hcall
  unfold World.stepCall
  cases hstage : call.stage with
  | use => exact inv_setCall h k False.elim
  | checking =>
      dsimp only
      by_cases hknown : w.known = true
      · rw [if_pos hknown]
        exact inv_setCall h k (fun _ => h.known hknown)
      · rw [if_neg hknown]
        refine ⟨h.honest, h.known, ?_, ?_, h.starts⟩
        · intro x hx
          rcases List.mem_append.mp hx with hx | hx
          · exact h.queue x hx
          · rw [List.mem_singleton.mp hx]
            trivial
        · exact fun c hc => h.calls c (List.mem_of_mem_eraseIdx hc)
  | returned =>
      have hreturned : call.stage.PastSchema := by
        rw [hstage]
        trivial
      dsimp only
      by_cases hscoped : call.isScoped = true
      · rw [if_pos hscoped]
        exact inv_setCall h k (fun _ => hpast hreturned)
      · rw [if_neg hscoped]
        exact inv_start h hcall hreturned
  | bound =>
      have hbound : call.stage.PastSchema := by
        rw [hstage]
        trivial
      exact inv_start h hcall hbound

/-- A statement of the migrator after which the first one in the queue is at another stage. -/
theorem inv_setHead (h : SchemaInv m w) (hqueue : w.queue = head :: rest)
    (hgrows : Grows w.database db')
    (hhonest : ∀ id ∈ (db'.getD {}).recorded, id ∈ executedIn db') {isScoped : Bool}
    (hstage : stage.Relies m db') :
    SchemaInv m { w with database := db', queue := ⟨isScoped, stage⟩ :: rest } := by
  refine ⟨hhonest, fun hk => (h.known hk).mono hgrows, ?_, ?_, h.starts⟩
  · intro x hx
    rcases List.mem_cons.mp hx with rfl | hx
    · exact hstage
    · refine (h.queue x ?_).mono hgrows
      rw [hqueue]
      exact List.mem_cons_of_mem _ hx
  · exact fun c hc hpast => (h.calls c hc hpast).mono hgrows

/-- The first one in the queue leaves it, and its schema step has returned. -/
theorem inv_returns (h : SchemaInv m w) (hqueue : w.queue = head :: rest) {isScoped : Bool}
    (hmigrated : Migrated m w.database) :
    SchemaInv m { w with queue := rest, calls := w.calls ++ [⟨isScoped, .returned⟩] } := by
  refine ⟨h.honest, h.known, ?_, ?_, h.starts⟩
  · intro x hx
    refine h.queue x ?_
    rw [hqueue]
    exact List.mem_cons_of_mem _ hx
  · intro c hc hpast
    rcases List.mem_append.mp hc with hc | _
    · exact h.calls c hc hpast
    · exact hmigrated

/-- A step of the queue keeps the invariant. -/
theorem inv_stepQueue (h : SchemaInv m w) (hqueue : w.queue = head :: rest) :
    SchemaInv m (w.stepQueue m head rest) := by
  have hhead : head.stage.Relies m w.database := by
    refine h.queue head ?_
    rw [hqueue]
    exact List.mem_cons_self
  have hsame : Grows w.database w.database := fun _ hid => hid
  unfold World.stepQueue
  cases hstage : head.stage with
  | rechecking =>
      dsimp only
      by_cases hknown : w.known = true
      · rw [if_pos hknown]
        exact inv_returns h hqueue (h.known hknown)
      · rw [if_neg hknown]
        exact inv_setHead h hqueue hsame h.honest trivial
  | bootstrapping =>
      refine inv_setHead h hqueue ?_ ?_ trivial
      · exact fun id hid => hid
      · exact h.honest
  | listing =>
      refine inv_setHead h hqueue hsame h.honest (relies_nextPending ?_)
      intro x hx
      by_cases hrecorded : x ∈ (w.database.getD {}).recorded
      · exact Or.inr (h.honest x hrecorded)
      · refine Or.inl (List.mem_filter.mpr ⟨hx, ?_⟩)
        simpa using hrecorded
  | applying id pending =>
      rw [hstage] at hhead
      refine inv_setHead h hqueue ?_ ?_ ⟨?_, ?_⟩
      · exact fun x hx => List.mem_append_left _ hx
      · exact fun x hx => List.mem_append_left _ (h.honest x hx)
      · exact List.mem_append_right _ (List.mem_singleton.mpr rfl)
      · intro x hx
        rcases hhead x hx with hpending | hexecuted
        · rcases List.mem_cons.mp hpending with rfl | hpending
          · exact Or.inr (List.mem_append_right _ (List.mem_singleton.mpr rfl))
          · exact Or.inl hpending
        · exact Or.inr (List.mem_append_left _ hexecuted)
  | recording id pending =>
      rw [hstage] at hhead
      refine inv_setHead h hqueue ?_ ?_ (relies_nextPending ?_)
      · exact fun x hx => hx
      · intro x hx
        rcases List.mem_append.mp hx with hx | hx
        · exact h.honest x hx
        · rw [List.mem_singleton.mp hx]
          exact hhead.1
      · exact hhead.2
  | adding =>
      rw [hstage] at hhead
      have hset : SchemaInv m { w with queue := ⟨head.isScoped, .finishing⟩ :: rest } :=
        inv_setHead h hqueue hsame h.honest hhead
      exact ⟨hset.honest, fun _ => hhead, hset.queue, hset.calls, hset.starts⟩
  | finishing =>
      rw [hstage] at hhead
      exact inv_returns h hqueue hhead

/-- A step of a drop keeps the invariant, if it removes a database at an idle moment only. -/
theorem inv_stepDrop (h : SchemaInv m w) {k : ℕ} {stage : DropStage}
    (hidle : stage = .removing → w.database.isSome = true → Idle m w) :
    SchemaInv m (w.stepDrop k stage) := by
  unfold World.stepDrop
  cases stage with
  | use => exact ⟨h.honest, h.known, h.queue, h.calls, h.starts⟩
  | removing =>
      cases hdb : w.database with
      | none =>
          dsimp only
          rw [← hdb]
          exact ⟨h.honest, h.known, h.queue, h.calls, h.starts⟩
      | some s =>
          obtain ⟨hunknown, hqueue, hcalls⟩ := hidle rfl (by rw [hdb]; rfl)
          refine ⟨fun id hid => hid, ?_, ?_, ?_, h.starts⟩
          · intro hknown
            rw [show w.known = true from hknown] at hunknown
            cases hunknown
          · exact fun x hx => (hqueue x hx).relies
          · exact fun c hc hpast => absurd hpast (hcalls c hc)
  | deleting =>
      exact ⟨h.honest, fun hk => absurd hk Bool.false_ne_true, h.queue, h.calls, h.starts⟩

/-- **Every event keeps the invariant**, if databases are removed at idle moments only. -/
theorem inv_exec (h : SchemaInv m w) (event : Event) (hidle : RemovesIdle m w event) :
    SchemaInv m (exec m w event) := by
  cases event with
  | enter isScoped =>
      refine ⟨h.honest, h.known, h.queue, ?_, h.starts⟩
      intro c hc hpast
      rcases List.mem_append.mp hc with hc | hc
      · exact h.calls c hc hpast
      · rw [List.mem_singleton.mp hc] at hpast
        exact hpast.elim
  | call k =>
      cases hcall : w.calls[k]? with
      | none =>
          rw [exec, hcall]
          exact h
      | some call =>
          rw [exec, hcall]
          exact inv_stepCall h (List.mem_of_getElem? hcall)
  | migrate ok =>
      cases hqueue : w.queue with
      | nil =>
          rw [exec, hqueue]
          exact h
      | cons head rest =>
          rw [exec, hqueue]
          cases ok with
          | true => exact inv_stepQueue h hqueue
          | false =>
              refine ⟨h.honest, h.known, ?_, h.calls, h.starts⟩
              intro x hx
              refine h.queue x ?_
              rw [hqueue]
              exact List.mem_cons_of_mem _ hx
  | enterDrop => exact ⟨h.honest, h.known, h.queue, h.calls, h.starts⟩
  | drop k =>
      cases hdrop : w.drops[k]? with
      | none =>
          rw [exec, hdrop]
          exact h
      | some stage =>
          rw [exec, hdrop]
          refine inv_stepDrop h ?_
          intro hstage hsome
          exact hidle (by rw [hdrop, hstage]) hsome
  | restart =>
      refine ⟨h.honest, fun hk => absurd hk Bool.false_ne_true, ?_, ?_, h.starts⟩
      · exact fun x hx => absurd hx List.not_mem_nil
      · exact fun c hc => absurd hc List.not_mem_nil

/-- A tenant that has no database yet. -/
def coldWorld : World where

/-- **If databases are removed at idle moments only**, every callback starts on a database with
all migrations, and the known databases have them all along. -/
theorem sound_of_reached (m : Manifest) (w : World)
    (h : Runs.Reached (exec m) (RemovesIdle m) coldWorld w) : Sound m w := by
  have hinv : SchemaInv m w := by
    refine h.invariant (P := SchemaInv m) ?_ (fun _ event hw hidle => inv_exec hw event hidle)
    refine ⟨fun id hid => hid, fun hk => absurd hk Bool.false_ne_true, ?_, ?_, ?_⟩
    · exact fun x hx => absurd hx List.not_mem_nil
    · exact fun c hc => absurd hc List.not_mem_nil
    · exact fun b hb => absurd hb List.not_mem_nil
  exact ⟨hinv.starts, hinv.known⟩

end Invariant

/-! ## 4. A drop that does not wait -/

/-- Two migrations. -/
def twoMigrations : Manifest where
  ids := ["0001", "0002"]
  nonempty := by decide

/-- A call that creates the database, alone. -/
def firstCall : List Event :=
  .enter false :: List.replicate 2 (.call 0) ++ List.replicate 9 (.migrate true) ++ [.call 0]

/-- A second call is through its schema step, the database is removed, and the callback
starts. -/
def lateDrop : List Event :=
  firstCall ++ [.enter false, .call 0, .call 0, .enterDrop, .drop 0, .drop 0, .call 0]

/-- Where nothing is dropped there is no moment to wait for. -/
theorem reached_of_no_drop {m : Manifest} {events : List Event}
    (hevents : ∀ event ∈ events, ∀ k, event ≠ .drop k) :
    ∀ {w : World}, Runs.Reached (exec m) (RemovesIdle m) coldWorld w →
      Runs.Reached (exec m) (RemovesIdle m) coldWorld (events.foldl (exec m) w) := by
  induction events with
  | nil => exact fun h => h
  | cons event events ih =>
      intro w h
      refine ih (fun e he => hevents e (List.mem_cons_of_mem _ he)) (.next event h ?_)
      have hne := hevents event List.mem_cons_self
      cases event with
      | drop k => exact absurd rfl (hne k)
      | enter isScoped => trivial
      | call k => trivial
      | migrate ok => trivial
      | enterDrop => trivial
      | restart => trivial

/-- The service starts again after the first call, and a drop comes in. -/
def restartedDrop : List Event := firstCall ++ [.restart, .enterDrop]

/-- The database of a service that has started again is removed before anyone asks for it. -/
theorem sound_after_idle_drop :
    Sound twoMigrations (exec twoMigrations (exec twoMigrations
      (restartedDrop.foldl (exec twoMigrations) coldWorld) (.drop 0)) (.drop 0)) := by
  have hopened : Runs.Reached (exec twoMigrations) (RemovesIdle twoMigrations) coldWorld
      (restartedDrop.foldl (exec twoMigrations) coldWorld) := by
    refine reached_of_no_drop ?_ .start
    intro event hevent k hdrop
    rw [hdrop] at hevent
    simp [restartedDrop, firstCall] at hevent
  have hidle : Idle twoMigrations (exec twoMigrations
      (restartedDrop.foldl (exec twoMigrations) coldWorld) (.drop 0)) := by
    refine ⟨rfl, ?_, ?_⟩
    · exact fun x hx => absurd hx List.not_mem_nil
    · exact fun c hc => absurd hc List.not_mem_nil
  refine sound_of_reached twoMigrations _ (.next (.drop 0) (.next (.drop 0) hopened ?_) ?_)
  · exact fun h => by cases h
  · exact fun _ _ => hidle

/-- The callback of a call that is through its schema step starts on no database. -/
theorem callback_on_removed_database :
    ¬ ∀ (m : Manifest) (events : List Event), Sound m (events.foldl (exec m) coldWorld) := by
  intro hall
  have hsound := hall twoMigrations lateDrop
  have hstarts : (lateDrop.foldl (exec twoMigrations) coldWorld).starts = [true, false] := by
    decide +kernel
  have hlast := hsound.starts false (by rw [hstarts]; decide)
  cases hlast

end Brain.SchemaQueue
