/-
`src/src/db/migrator.service.ts`: the migrations of one tenant database, over all the runs of
`migrate` that it ever sees.

The statements of a query are not one transaction, and the row of a migration is created by
another query. So a run can stop at any point: with some statements of a migration executed and
others not, or with all of them executed and no row. What brings the database back on course is
that a migration can be executed once more after any part of it (`Retryable`). Then, whatever
has happened, the migrations that have no row lead to the schema of a new database
(`migrate_converges`).

`loadManifest` checks the numbers of the files only after it has stored what it read, so that
the second call returns the files that the first one rejected (`loadManifest_spec`).
-/
import Brain.Lib.Runs
import Mathlib.Data.List.Sort

set_option autoImplicit false

namespace Brain.Migrator

/-! ## 1. The manifest -/

/-- A string: its UTF-16 units. -/
abbrev Text := List UInt16

def units (s : String) : Text := s.toList.map (fun c => UInt16.ofNat c.toNat)

structure Migration (Stmt : Type) where
  id : Text
  name : Text
  sql : List Stmt

/-- `\d`. -/
def isDigit (u : UInt16) : Bool := decide (48 ≤ u) && decide (u ≤ 57)

/-- What `.` does not match. -/
def isLineEnd (u : UInt16) : Bool := [0x0A, 0x0D, 0x2028, 0x2029].contains u

/-- `.surql`. -/
def suffix : Text := units ".surql"

/-- `FILE_NAME`; the four digits, if the name matches. -/
def matchFileName : Text → Option Text
  | a :: b :: c :: d :: 95 :: rest =>
      if [a, b, c, d].all isDigit && suffix.isSuffixOf rest && decide (suffix.length < rest.length)
          && (rest.take (rest.length - suffix.length)).all (fun u => !isLineEnd u)
      then some [a, b, c, d] else none
  | _ => none

inductive LoadError where
  | noFiles
  | duplicateId (id : Text)
deriving DecidableEq

/-- The messages of `loadManifest`. -/
def LoadError.message (migrationsDir : Text) : LoadError → Text
  | .noFiles => units "No migration files found in " ++ migrationsDir ++
      units ". Expected NNNN_description.surql"
  | .duplicateId id => units "Duplicate migration id " ++ id ++ units " in " ++ migrationsDir

section Load

variable {Stmt : Type}

/-- `readdir` and `readFile`: the names of the directory, each one once. -/
structure Directory (Stmt : Type) where
  files : List (Text × List Stmt)
  distinct : (files.map Prod.fst).Nodup

/-- `sort`, on the names. -/
def byName (p q : Text × List Stmt) : Prop := p.1 ≤ q.1

instance : DecidableRel (@byName Stmt) := fun p q =>
  inferInstanceAs (Decidable (p.1 ≤ q.1))

/-- The file as a migration. -/
def toMigration (file : Text × List Stmt) : Option (Migration Stmt) :=
  (matchFileName file.1).map (fun id => ⟨id, file.1, file.2⟩)

/-- The files that are migrations, by name. -/
def eligible (dir : Directory Stmt) : List (Migration Stmt) :=
  ((dir.files.filter (fun f => (matchFileName f.1).isSome)).insertionSort byName).filterMap
    toMigration

/-- The first number that has been seen before. -/
def firstDuplicate : List Text → List Text → Option Text
  | _, [] => none
  | ids, id :: rest => if ids.contains id then some id else firstDuplicate (id :: ids) rest

/-- `loadManifest`; what it answers, and `cached` after it. -/
def loadManifest (dir : Directory Stmt) (cached : Option (List (Migration Stmt))) :
    Except LoadError (List (Migration Stmt)) × Option (List (Migration Stmt)) :=
  match cached with
  | some ms => (.ok ms, cached)
  | none =>
      if (eligible dir).isEmpty then (.error .noFiles, none)
      else
        match firstDuplicate [] ((eligible dir).map Migration.id) with
        | some id => (.error (.duplicateId id), some (eligible dir))
        | none => (.ok (eligible dir), some (eligible dir))

/-- The number that the digits stand for. -/
def number (id : Text) : ℕ := id.foldl (fun n u => 10 * n + (u.toNat - 48)) 0

theorem matchFileName_eq_some {name id : Text} (h : matchFileName name = some id) :
    ∃ a b c d rest, name = a :: b :: c :: d :: 95 :: rest ∧ id = [a, b, c, d] ∧
      ∀ u ∈ id, 48 ≤ u.toNat ∧ u.toNat ≤ 57 := by
  unfold matchFileName at h
  split at h
  · next a b c d rest =>
      split at h
      · next hcond =>
          simp only [Bool.and_eq_true] at hcond
          have hdigits := List.all_eq_true.mp hcond.1.1.1
          obtain rfl := Option.some.inj h
          refine ⟨a, b, c, d, rest, rfl, rfl, fun u hu => ?_⟩
          have hu := hdigits u hu
          rw [isDigit, Bool.and_eq_true, decide_eq_true_eq, decide_eq_true_eq,
            UInt16.le_iff_toNat_le, UInt16.le_iff_toNat_le] at hu
          exact hu
      · cases h
  · cases h

/-- The names are in the order of their numbers. -/
theorem number_le_of_le {x y i j : Text} (hx : matchFileName x = some i)
    (hy : matchFileName y = some j) (hle : x ≤ y) : number i ≤ number j := by
  obtain ⟨a, b, c, d, rest, rfl, rfl, hi⟩ := matchFileName_eq_some hx
  obtain ⟨a', b', c', d', rest', rfl, rfl, hj⟩ := matchFileName_eq_some hy
  simp only [List.mem_cons, List.not_mem_nil, or_false, forall_eq_or_imp, forall_eq] at hi hj
  by_contra hlt
  refine absurd hle (List.not_le.mpr ?_)
  simp only [List.cons_lt_cons_iff, UInt16.lt_iff_toNat_lt, ← UInt16.toNat_inj]
  simp only [number, List.foldl_cons, List.foldl_nil] at hlt
  omega

/-- Names with one number have the same digits. -/
theorem eq_of_number_eq {x y i j : Text} (hx : matchFileName x = some i)
    (hy : matchFileName y = some j) (heq : number i = number j) : i = j := by
  obtain ⟨a, b, c, d, _, _, rfl, hi⟩ := matchFileName_eq_some hx
  obtain ⟨a', b', c', d', _, _, rfl, hj⟩ := matchFileName_eq_some hy
  simp only [List.mem_cons, List.not_mem_nil, or_false, forall_eq_or_imp, forall_eq] at hi hj
  simp only [number, List.foldl_cons, List.foldl_nil] at heq
  simp only [List.cons.injEq, and_true, ← UInt16.toNat_inj]
  omega

theorem firstDuplicate_eq_none_iff (ids : List Text) : ∀ seen : List Text,
    firstDuplicate seen ids = none ↔ ids.Nodup ∧ ∀ id ∈ ids, id ∉ seen := by
  induction ids with
  | nil => simp [firstDuplicate]
  | cons id ids ih =>
      intro seen
      rw [firstDuplicate, List.nodup_cons, List.forall_mem_cons]
      cases hseen : seen.contains id with
      | true =>
          rw [List.contains_iff_mem] at hseen
          simp [hseen]
      | false =>
          rw [Bool.eq_false_iff, ne_eq, List.contains_iff_mem] at hseen
          rw [if_neg Bool.false_ne_true, ih]
          constructor
          · rintro ⟨hnodup, hnot⟩
            exact ⟨⟨fun hid => hnot id hid List.mem_cons_self, hnodup⟩, hseen,
              fun id' hid' hmem => hnot id' hid' (List.mem_cons_of_mem id hmem)⟩
          · rintro ⟨⟨hid, hnodup⟩, _, hnot⟩
            refine ⟨hnodup, fun id' hid' hmem => ?_⟩
            rcases List.mem_cons.mp hmem with rfl | hmem
            · exact hid hid'
            · exact hnot id' hid' hmem

theorem mem_eligible_iff {dir : Directory Stmt} {m : Migration Stmt} :
    m ∈ eligible dir ↔ ∃ f ∈ dir.files, toMigration f = some m := by
  rw [eligible, List.mem_filterMap]
  refine exists_congr (fun f => and_congr_left (fun hf => ?_))
  rw [List.mem_insertionSort, List.mem_filter]
  have hmatch : (matchFileName f.1).isSome = true := by
    rw [toMigration, Option.map_eq_some_iff] at hf
    obtain ⟨id, hid, _⟩ := hf
    rw [hid]
    rfl
  exact and_iff_left hmatch

theorem matchFileName_of_mem_eligible {dir : Directory Stmt} {m : Migration Stmt}
    (h : m ∈ eligible dir) : matchFileName m.name = some m.id := by
  obtain ⟨f, _, hf⟩ := mem_eligible_iff.mp h
  obtain ⟨id, hid, rfl⟩ := Option.map_eq_some_iff.mp hf
  exact hid

/-- The numbers of the files do not fall. -/
theorem pairwise_eligible (dir : Directory Stmt) :
    (eligible dir).Pairwise (fun m m' => number m.id ≤ number m'.id) := by
  have hsorted : ((dir.files.filter (fun f => (matchFileName f.1).isSome)).insertionSort
      byName).Pairwise byName := by
    have htrans : IsTrans (Text × List Stmt) byName := ⟨fun _ _ _ h h' => List.le_trans h h'⟩
    have htotal : Std.Total (α := Text × List Stmt) byName := ⟨fun p q => List.le_total p.1 q.1⟩
    exact List.pairwise_insertionSort byName _
  refine List.Pairwise.filterMap toMigration (fun p q hpq m hm m' hm' => ?_) hsorted
  obtain ⟨i, hi, rfl⟩ := Option.map_eq_some_iff.mp hm
  obtain ⟨j, hj, rfl⟩ := Option.map_eq_some_iff.mp hm'
  exact number_le_of_le hi hj hpq

/-- **The manifest**: a first call returns all migration files in the strict order of their
numbers, if there are any and no two have one number. A call that finds two with one number
throws, and the call after it returns them all the same. -/
theorem loadManifest_spec (dir : Directory Stmt) :
    ((loadManifest dir none).1 = .error .noFiles ↔ ∀ f ∈ dir.files, toMigration f = none) ∧
      (∀ ms, (loadManifest dir none).1 = .ok ms →
        ms.Pairwise (fun m m' => number m.id < number m'.id) ∧
          ∀ m, m ∈ ms ↔ ∃ f ∈ dir.files, toMigration f = some m) ∧
      (∀ id, (loadManifest dir none).1 = .error (.duplicateId id) →
        ¬ ((eligible dir).map Migration.id).Nodup ∧
          (loadManifest dir (loadManifest dir none).2).1 = .ok (eligible dir)) := by
  have hempty : (eligible dir).isEmpty = true ↔ ∀ f ∈ dir.files, toMigration f = none := by
    rw [List.isEmpty_iff, List.eq_nil_iff_forall_not_mem]
    constructor
    · intro h f hf
      refine Option.eq_none_iff_forall_ne_some.mpr (fun m hm => h m ?_)
      exact mem_eligible_iff.mpr ⟨f, hf, hm⟩
    · intro h m hm
      obtain ⟨f, hf, heq⟩ := mem_eligible_iff.mp hm
      rw [h f hf] at heq
      cases heq
  have hnone := firstDuplicate_eq_none_iff ((eligible dir).map Migration.id) []
  rw [← hempty]
  unfold loadManifest
  dsimp only
  by_cases hfiles : (eligible dir).isEmpty = true
  · rw [if_pos hfiles]
    simp [hfiles]
  rw [if_neg hfiles]
  rcases hdup : firstDuplicate [] ((eligible dir).map Migration.id) with _ | id
  · refine ⟨by simp [hfiles], fun ms hms => ?_, fun id hid => by simp at hid⟩
    obtain rfl : eligible dir = ms := Except.ok.inj hms
    refine ⟨?_, fun m => mem_eligible_iff⟩
    have hnodup := (hnone.mp hdup).1
    rw [List.Nodup, List.pairwise_map] at hnodup
    refine ((pairwise_eligible dir).and hnodup).imp_of_mem (fun {m m'} hm hm' h => ?_)
    refine lt_of_le_of_ne h.1 (fun heq => h.2 ?_)
    exact eq_of_number_eq (matchFileName_of_mem_eligible hm) (matchFileName_of_mem_eligible hm') heq
  · refine ⟨by simp [hfiles], fun ms hms => by simp at hms, fun id' _ => ⟨fun hnodup => ?_, rfl⟩⟩
    rw [hnone.mpr ⟨hnodup, fun _ _ => List.not_mem_nil⟩] at hdup
    cases hdup

end Load

/-! ## 2. The runs of `migrate` -/

section Migrate

variable {Stmt Schema : Type}

/-- What the database answers to a query. One that fails has executed some of its statements,
or has created its row. -/
inductive Answer (Stmt : Type) where
  | ok
  | error (executed : List Stmt) (stored : Bool) (readConflict : Bool)

/-- The query that `migrate` waits for. -/
inductive Stage (Stmt : Type) where
  /-- `SCHEMA_MIGRATIONS_DDL`. -/
  | bootstrapping
  /-- `fetchAppliedIds`. -/
  | listing
  | applying (m : Migration Stmt) (rest : List (Migration Stmt)) (attempts : ℕ)
  | recording (m : Migration Stmt) (rest : List (Migration Stmt))

structure MigrationResult where
  applied : List Text
  alreadyApplied : List Text
deriving DecidableEq

/-- A call of `migrate`. `applied` is the set of the numbers that have a row, and `pending` the
migrations that have none, from the listing on. -/
structure Run (Stmt : Type) where
  manifest : List (Migration Stmt)
  applied : List Text := []
  pending : List (Migration Stmt) := []
  stage : Stage Stmt := .bootstrapping

/-- A tenant database, with the migrations that have a row in `schema_migrations`, and the call
of `migrate` that works on it. `returned` is the manifest and the result of the last call that
has returned. -/
structure World (Stmt Schema : Type) where
  schema : Schema
  rows : List (Text × Text) := []
  run : Option (Run Stmt) := none
  returned : Option (List (Migration Stmt) × MigrationResult) := none

/-- What happens to a database. The calls of a process come one after the other, and a process
can stop at any point. -/
inductive Act (Stmt : Type) where
  | start (manifest : List (Migration Stmt))
  | answer (o : Answer Stmt)
  | crash

/-- The number of attempts. -/
def maxAttempts : ℕ := 5

variable (exec : Schema → Stmt → Schema)

/-- The statements of a query, in their order. -/
def execAll (s : Schema) (sql : List Stmt) : Schema := sql.foldl exec s

/-- A migration after the other. -/
def applyAll (s : Schema) (ms : List (Migration Stmt)) : Schema :=
  ms.foldl (fun s m => execAll exec s m.sql) s

/-- The next of the pending migrations, or the return. -/
def proceed (w : World Stmt Schema) (run : Run Stmt) : List (Migration Stmt) → World Stmt Schema
  | m :: rest => { w with run := some { run with stage := .applying m rest 0 } }
  | [] =>
      { w with
        run := none
        returned := some (run.manifest,
          if run.pending.isEmpty then ⟨[], run.manifest.map Migration.id⟩
          else ⟨run.pending.map Migration.id, run.applied⟩) }

/-- The unique index on `migrationId`. -/
def hasRow (w : World Stmt Schema) (id : Text) : Bool := (w.rows.map Prod.fst).contains id

/-- `CREATE schema_migrations`. -/
def createRow (w : World Stmt Schema) (m : Migration Stmt) : World Stmt Schema :=
  { w with rows := w.rows ++ [(m.id, m.name)] }

/-- What a call does with the answer. A call that throws is gone. -/
def onAnswer (w : World Stmt Schema) (run : Run Stmt) (o : Answer Stmt) : World Stmt Schema :=
  match run.stage, o with
  | .bootstrapping, .ok => { w with run := some { run with stage := .listing } }
  | .listing, .ok =>
      let applied := w.rows.map Prod.fst
      let pending := run.manifest.filter (fun m => !applied.contains m.id)
      proceed w { run with applied := applied, pending := pending } pending
  | .applying m rest _, .ok =>
      { w with
        schema := execAll exec w.schema m.sql
        run := some { run with stage := .recording m rest } }
  | .applying m rest attempts, .error executed _ readConflict =>
      { w with
        schema := execAll exec w.schema executed
        run :=
          if !readConflict || decide (maxAttempts ≤ attempts + 1) then none
          else some { run with stage := .applying m rest (attempts + 1) } }
  | .recording m rest, .ok =>
      if hasRow w m.id then { w with run := none } else proceed (createRow w m) run rest
  | .recording m _, .error _ stored _ =>
      if stored && !hasRow w m.id then { createRow w m with run := none }
      else { w with run := none }
  | _, .error _ _ _ => { w with run := none }

def step (w : World Stmt Schema) : Act Stmt → World Stmt Schema
  | .start manifest =>
      match w.run with
      | some _ => w
      | none => { w with run := some { manifest := manifest } }
  | .answer o =>
      match w.run with
      | none => w
      | some run => onAnswer exec w run o
  | .crash => { w with run := none }

/-- A migration that has been executed in part can be executed as a whole. -/
def Retryable (ms : List (Migration Stmt)) : Prop :=
  ∀ m ∈ ms, ∀ (s : Schema) (executed : List Stmt), executed.Sublist m.sql →
    execAll exec (execAll exec s executed) m.sql = execAll exec s m.sql

/-- The manifests are the first of one list of migrations, more of it with each release, and a
query that fails executes some of its statements. -/
def Legal (releases : List (Migration Stmt)) (w : World Stmt Schema) : Act Stmt → Prop
  | .start manifest => manifest <+: releases
  | .answer (.error executed _ _) =>
      ∀ run m rest attempts, w.run = some run → run.stage = .applying m rest attempts →
        executed.Sublist m.sql
  | _ => True

/-- The row of a migration. -/
def rowOf (m : Migration Stmt) : Text × Text := (m.id, m.name)

/-! ## 3. The course of a database -/

variable (releases : List (Migration Stmt)) (new : Schema)

/-- The rows are those of the first migrations, the ones that have none lead to the schema that
a new database gets, and what has been returned is in the rows. -/
structure Settled (w : World Stmt Schema) : Prop where
  rows : w.rows = (releases.take w.rows.length).map rowOf
  leads : applyAll exec w.schema (releases.drop w.rows.length) = applyAll exec new releases
  returned : ∀ manifest result, w.returned = some (manifest, result) →
    manifest <+: releases ∧ manifest.length ≤ w.rows.length

/-- A call works on the first migration that has no row, and creates its row once it is
executed. -/
def Fits (w : World Stmt Schema) (run : Run Stmt) : Prop :=
  run.manifest <+: releases ∧
    match run.stage with
    | .bootstrapping => True
    | .listing => True
    | .applying m rest _ => run.manifest.drop w.rows.length = m :: rest
    | .recording m rest => run.manifest.drop w.rows.length = m :: rest ∧
        applyAll exec w.schema (releases.drop (w.rows.length + 1)) = applyAll exec new releases

structure OnCourse (w : World Stmt Schema) : Prop extends Settled exec releases new w where
  fits : ∀ run, w.run = some run → Fits exec releases new w run

variable {exec releases new} {w : World Stmt Schema}

/-- What is dropped of a manifest is dropped of all releases. -/
theorem drop_of_initial {manifest rest : List (Migration Stmt)} {m : Migration Stmt} {k : ℕ}
    (hpre : manifest <+: releases) (hdrop : manifest.drop k = m :: rest) :
    releases.drop k = m :: releases.drop (k + 1) ∧ m ∈ releases := by
  obtain ⟨later, rfl⟩ := hpre
  have hk : k ≤ manifest.length := by
    by_contra hlt
    rw [List.drop_eq_nil_of_le (not_le.mp hlt).le] at hdrop
    cases hdrop
  have hall : (manifest ++ later).drop k = m :: (rest ++ later) := by
    rw [List.drop_append_of_le_length hk, hdrop, List.cons_append]
  have hnext : (manifest ++ later).drop (k + 1) = rest ++ later := by
    rw [← List.drop_drop, hall, List.drop_one, List.tail_cons]
  refine ⟨by rw [hall, hnext], ?_⟩
  exact (List.drop_subset k _) (hall ▸ List.mem_cons_self)

/-- The migrations that have no row are those behind the rows. -/
theorem pending_eq (hids : (releases.map Migration.id).Nodup) (h : Settled exec releases new w)
    {manifest : List (Migration Stmt)} (hpre : manifest <+: releases) :
    manifest.filter (fun m => !(w.rows.map Prod.fst).contains m.id)
      = manifest.drop w.rows.length := by
  have hrows : w.rows.map Prod.fst = (releases.take w.rows.length).map Migration.id := by
    conv_lhs => rw [h.rows]
    rw [List.map_map]
    rfl
  have hmem : ∀ m ∈ releases, (w.rows.map Prod.fst).contains m.id = true ↔
      m ∈ releases.take w.rows.length := by
    intro m hm
    rw [List.contains_iff_mem, hrows, List.mem_map]
    constructor
    · rintro ⟨m', hm', heq⟩
      rwa [← List.inj_on_of_nodup_map hids (List.take_subset _ _ hm') hm heq]
    · exact fun hm' => ⟨m, hm', rfl⟩
  have hdisjoint : ∀ m ∈ releases.drop w.rows.length, m ∉ releases.take w.rows.length := by
    intro m hdrop htake
    have hnodup := hids.of_map
    rw [← List.take_append_drop w.rows.length releases] at hnodup
    exact List.disjoint_of_nodup_append hnodup htake hdrop
  conv_lhs => rw [← List.take_append_drop w.rows.length manifest]
  rw [List.filter_append]
  have hfirst : (manifest.take w.rows.length).filter
      (fun m => !(w.rows.map Prod.fst).contains m.id) = [] := by
    rw [List.filter_eq_nil_iff]
    intro m hm
    have htake : m ∈ releases.take w.rows.length := (hpre.take _).subset hm
    rw [(hmem m (List.take_subset _ _ htake)).mpr htake]
    exact Bool.false_ne_true
  have hrest : (manifest.drop w.rows.length).filter
      (fun m => !(w.rows.map Prod.fst).contains m.id) = manifest.drop w.rows.length := by
    rw [List.filter_eq_self]
    intro m hm
    have hdrop : m ∈ releases.drop w.rows.length := (hpre.drop _).subset hm
    have hnot := (hmem m (List.drop_subset _ _ hdrop)).not.mpr (hdisjoint m hdrop)
    rw [Bool.not_eq_true] at hnot
    rw [hnot, Bool.not_false]
  rw [hfirst, hrest, List.nil_append]

/-- After a row the call goes on with what is left of its manifest. -/
theorem Settled.proceed (h : Settled exec releases new w) {run : Run Stmt}
    {rest : List (Migration Stmt)} (hpre : run.manifest <+: releases)
    (hrest : run.manifest.drop w.rows.length = rest) :
    OnCourse exec releases new (proceed w run rest) := by
  cases rest with
  | nil =>
      refine ⟨⟨h.rows, h.leads, fun manifest result hreturned => ?_⟩, fun run' hrun => ?_⟩
      · obtain ⟨rfl, _⟩ := Prod.mk.inj (Option.some.inj hreturned)
        exact ⟨hpre, List.drop_eq_nil_iff.mp hrest⟩
      · cases hrun
  | cons m rest =>
      refine ⟨⟨h.rows, h.leads, h.returned⟩, fun run' hrun => ?_⟩
      obtain rfl := Option.some.inj hrun
      exact ⟨hpre, hrest⟩

/-- A call that is gone leaves the database as it is. -/
theorem Settled.gone (h : Settled exec releases new w) :
    OnCourse exec releases new { w with run := none } :=
  ⟨⟨h.rows, h.leads, h.returned⟩, fun run hrun => by cases hrun⟩

/-- The row of the migration that has just been executed. -/
theorem Settled.createRow (h : Settled exec releases new w) {manifest rest : List (Migration Stmt)}
    {m : Migration Stmt} (hpre : manifest <+: releases)
    (hdrop : manifest.drop w.rows.length = m :: rest)
    (hleads : applyAll exec w.schema (releases.drop (w.rows.length + 1))
      = applyAll exec new releases) :
    Settled exec releases new (createRow w m) := by
  have hlength : (Migrator.createRow w m).rows.length = w.rows.length + 1 := by
    rw [Migrator.createRow, List.length_append, List.length_singleton]
  refine ⟨?_, ?_, fun manifest' result hreturned => ?_⟩
  · have htake : releases.take (w.rows.length + 1) = releases.take w.rows.length ++ [m] := by
      rw [List.take_add, (drop_of_initial hpre hdrop).1]
      rfl
    rw [hlength, htake, List.map_append, ← h.rows]
    rfl
  · rw [hlength]
    exact hleads
  · have hret := h.returned manifest' result hreturned
    exact ⟨hret.1, hret.2.trans (hlength ▸ Nat.le_succ _)⟩

/-- The statements that an attempt executes leave the rest of the migrations to lead to the same
schema. -/
theorem Settled.execute (h : Settled exec releases new w) (hretry : Retryable exec releases)
    {manifest rest : List (Migration Stmt)} {m : Migration Stmt} (hpre : manifest <+: releases)
    (hdrop : manifest.drop w.rows.length = m :: rest) {executed : List Stmt}
    (hsub : executed.Sublist m.sql) :
    applyAll exec (execAll exec w.schema executed) (releases.drop w.rows.length)
      = applyAll exec new releases := by
  obtain ⟨hall, hm⟩ := drop_of_initial hpre hdrop
  rw [← h.leads, hall, applyAll, applyAll, List.foldl_cons, List.foldl_cons,
    hretry m hm w.schema executed hsub]

/-- One answer. -/
theorem OnCourse.answer (hids : (releases.map Migration.id).Nodup)
    (hretry : Retryable exec releases) (h : OnCourse exec releases new w) {run : Run Stmt}
    (hrun : w.run = some run) {o : Answer Stmt} (hlegal : Legal releases w (.answer o)) :
    OnCourse exec releases new (onAnswer exec w run o) := by
  have hsettled := h.toSettled
  obtain ⟨manifest, applied, pending, stage⟩ := run
  obtain ⟨hpre, hstage⟩ := h.fits _ hrun
  cases stage with
  | bootstrapping =>
      cases o with
      | ok =>
          refine ⟨⟨h.rows, h.leads, h.returned⟩, fun run' hrun' => ?_⟩
          obtain rfl := Option.some.inj hrun'
          exact ⟨hpre, trivial⟩
      | error executed stored readConflict => exact hsettled.gone
  | listing =>
      cases o with
      | ok =>
          refine hsettled.proceed hpre ?_
          exact (pending_eq hids hsettled hpre).symm
      | error executed stored readConflict => exact hsettled.gone
  | applying m rest attempts =>
      cases o with
      | ok =>
          -- all of it: the row is to be created, and the migrations behind it are what is left
          have hexecuted := hsettled.execute hretry hpre hstage (List.Sublist.refl m.sql)
          have hall := (drop_of_initial hpre hstage).1
          refine ⟨⟨h.rows, hexecuted, h.returned⟩, fun run' hrun' => ?_⟩
          obtain rfl := Option.some.inj hrun'
          refine ⟨hpre, hstage, ?_⟩
          rw [← h.leads, hall, applyAll, applyAll, List.foldl_cons]
          rfl
      | error executed stored readConflict =>
          have hsub := hlegal _ m rest attempts hrun rfl
          have hexecuted := hsettled.execute hretry hpre hstage hsub
          refine ⟨⟨h.rows, hexecuted, h.returned⟩, fun run' hrun' => ?_⟩
          have hrun'' : (if !readConflict || decide (maxAttempts ≤ attempts + 1) then none
              else some _) = some run' := hrun'
          split at hrun''
          · cases hrun''
          · obtain rfl := Option.some.inj hrun''
            exact ⟨hpre, hstage⟩
  | recording m rest =>
      obtain ⟨hdrop, hleads⟩ := hstage
      have hcreated := hsettled.createRow hpre hdrop hleads
      cases o with
      | ok =>
          unfold onAnswer
          dsimp only
          split
          · exact hsettled.gone
          · refine hcreated.proceed hpre ?_
            rw [Migrator.createRow, List.length_append, List.length_singleton, ← List.drop_drop,
              hdrop, List.drop_one, List.tail_cons]
      | error executed stored readConflict =>
          unfold onAnswer
          dsimp only
          split
          · exact hcreated.gone
          · exact hsettled.gone

/-- One step. -/
theorem OnCourse.step (hids : (releases.map Migration.id).Nodup)
    (hretry : Retryable exec releases) (h : OnCourse exec releases new w) {a : Act Stmt}
    (hlegal : Legal releases w a) : OnCourse exec releases new (step exec w a) := by
  unfold Migrator.step
  cases a with
  | start manifest =>
      dsimp only
      split
      · exact h
      · refine ⟨⟨h.rows, h.leads, h.returned⟩, fun run hrun => ?_⟩
        obtain rfl := Option.some.inj hrun
        exact ⟨hlegal, trivial⟩
  | answer o =>
      dsimp only
      split
      · exact h
      · next run hrun => exact h.answer hids hretry hrun hlegal
  | crash => exact h.toSettled.gone

/-! ## 4. What a database comes to -/

/-- The database a tenant gets. -/
def fresh (new : Schema) : World Stmt Schema where
  schema := new

theorem onCourse_fresh (releases : List (Migration Stmt)) (new : Schema) :
    OnCourse exec releases new (fresh new) :=
  ⟨⟨rfl, rfl, fun _ _ hreturned => by cases hreturned⟩, fun _ hrun => by cases hrun⟩

/-- The result of a call that has executed what was pending. -/
def resultOf (run : Run Stmt) : MigrationResult :=
  if run.pending.isEmpty then ⟨[], run.manifest.map Migration.id⟩
  else ⟨run.pending.map Migration.id, run.applied⟩

/-- Every query is answered, so many times. -/
def answered (exec : Schema → Stmt → Schema) (n : ℕ) (w : World Stmt Schema) :
    World Stmt Schema :=
  (List.replicate n (.answer .ok)).foldl (step exec) w

theorem answered_succ (n : ℕ) (w : World Stmt Schema) :
    answered exec (n + 1) w = answered exec n (step exec w (.answer .ok)) := by
  rw [answered, List.replicate_succ, List.foldl_cons]
  rfl

/-- The migration that a call works on has no row. -/
theorem hasRow_eq_false (hids : (releases.map Migration.id).Nodup)
    (h : Settled exec releases new w) {manifest rest : List (Migration Stmt)} {m : Migration Stmt}
    (hpre : manifest <+: releases) (hdrop : manifest.drop w.rows.length = m :: rest) :
    hasRow w m.id = false := by
  have hpending := pending_eq hids h hpre
  rw [hdrop] at hpending
  have hm : m ∈ manifest.filter (fun m => !(w.rows.map Prod.fst).contains m.id) := by
    rw [hpending]
    exact List.mem_cons_self
  have hnot := (List.mem_filter.mp hm).2
  rwa [Bool.not_eq_true'] at hnot

theorem answered_add (m n : ℕ) (w : World Stmt Schema) :
    answered exec (m + n) w = answered exec n (answered exec m w) := by
  rw [answered, ← List.replicate_append_replicate, List.foldl_append]
  rfl

theorem OnCourse.answered (hids : (releases.map Migration.id).Nodup)
    (hretry : Retryable exec releases) (h : OnCourse exec releases new w) (n : ℕ) :
    OnCourse exec releases new (answered exec n w) := by
  induction n generalizing w with
  | zero => exact h
  | succ n ih =>
      rw [answered_succ]
      exact ih (h.step hids hretry trivial)

/-- The two queries of a migration. -/
theorem turn_of_applying (hids : (releases.map Migration.id).Nodup)
    (hretry : Retryable exec releases) (h : OnCourse exec releases new w) {run : Run Stmt}
    {m : Migration Stmt} {rest : List (Migration Stmt)} {attempts : ℕ} (hrun : w.run = some run)
    (hstage : run.stage = .applying m rest attempts) :
    ∃ w₁ : World Stmt Schema, Migrator.answered exec 2 w
      = proceed w₁ { run with stage := .recording m rest } rest := by
  have hfirst : Migrator.step exec w (.answer .ok) = { w with
      schema := execAll exec w.schema m.sql
      run := some { run with stage := .recording m rest } } := by
    simp only [Migrator.step, hrun, onAnswer, hstage]
  have hcourse := h.step hids hretry (a := .answer .ok) trivial
  rw [hfirst] at hcourse
  obtain ⟨hpre, hdrop, _⟩ := hcourse.fits _ rfl
  have hrow := hasRow_eq_false hids hcourse.toSettled hpre hdrop
  refine ⟨Migrator.createRow { w with
    schema := execAll exec w.schema m.sql
    run := some { run with stage := .recording m rest } } m, ?_⟩
  rw [answered_succ, hfirst, answered_succ]
  simp only [Migrator.step, onAnswer]
  rw [if_neg (by rw [hrow]; exact Bool.false_ne_true)]
  rfl

/-- A call whose queries are all answered returns: two of them for each migration. -/
theorem returns_of_proceed (hids : (releases.map Migration.id).Nodup)
    (hretry : Retryable exec releases) (rest : List (Migration Stmt)) :
    ∀ (w : World Stmt Schema) (run : Run Stmt), OnCourse exec releases new (proceed w run rest) →
      (answered exec (2 * rest.length) (proceed w run rest)).run = none ∧
        (answered exec (2 * rest.length) (proceed w run rest)).returned
          = some (run.manifest, resultOf run) := by
  induction rest with
  | nil => exact fun w run _ => ⟨rfl, rfl⟩
  | cons m rest ih =>
      intro w run h
      obtain ⟨w₁, hturn⟩ := turn_of_applying hids hretry h rfl rfl
      have hnext := h.answered hids hretry 2
      rw [hturn] at hnext
      have hrest := ih w₁ _ hnext
      rw [List.length_cons, Nat.mul_succ, Nat.add_comm, answered_add, hturn]
      exact hrest

/-- **The migrations of a database**, over any number of calls that stop anywhere: the rows are
those of the first migrations, in order; the ones that have no row lead to the schema of a new
database; no migration is executed that has a row, or before one without; a call that has returned
leaves a row for each migration of its manifest; and a call that is not disturbed returns, with
all migrations in the rows and the schema of a new database. -/
theorem migrate_converges (exec : Schema → Stmt → Schema) (new : Schema)
    (releases : List (Migration Stmt)) (hids : (releases.map Migration.id).Nodup)
    (hretry : Retryable exec releases) {w : World Stmt Schema}
    (h : Runs.Reached (step exec) (Legal releases) (fresh new) w) :
    w.rows = (releases.take w.rows.length).map rowOf ∧
      applyAll exec w.schema (releases.drop w.rows.length) = applyAll exec new releases ∧
      (∀ run m rest attempts, w.run = some run → run.stage = .applying m rest attempts →
        releases[w.rows.length]? = some m) ∧
      (∀ manifest result, w.returned = some (manifest, result) →
        manifest.map rowOf <+: w.rows) ∧
      ∃ n, ∀ w', w' = answered exec n (step exec (step exec w .crash) (.start releases)) →
        w'.run = none ∧ w'.rows = releases.map rowOf ∧ w'.schema = applyAll exec new releases ∧
          w'.returned = some (releases,
            if releases.length ≤ w.rows.length then ⟨[], releases.map Migration.id⟩
            else ⟨(releases.drop w.rows.length).map Migration.id, w.rows.map Prod.fst⟩) := by
  have hcourse : OnCourse exec releases new w :=
    h.invariant (onCourse_fresh releases new) (fun w a hw hlegal => hw.step hids hretry hlegal)
  refine ⟨hcourse.rows, hcourse.leads, fun run m rest attempts hrun hstage => ?_,
    fun manifest result hreturned => ?_, 2 + 2 * (releases.length - w.rows.length), ?_⟩
  · have hfits := hcourse.fits run hrun
    rw [Fits, hstage] at hfits
    have hdrop := (drop_of_initial hfits.1 hfits.2).1
    rw [← List.head?_drop, hdrop, List.head?_cons]
  · obtain ⟨hpre, hlength⟩ := hcourse.returned manifest result hreturned
    rw [hcourse.rows]
    exact (List.prefix_take_iff.mpr ⟨hpre, hlength⟩).map rowOf
  · rintro w' rfl
    -- the two queries before the first migration
    have hstart : step exec (step exec w .crash) (.start releases)
        = { w with run := some { manifest := releases } } := rfl
    have hbegin : OnCourse exec releases new { w with run := some { manifest := releases } } :=
      (hcourse.toSettled.gone.step hids hretry (a := .start releases) (List.prefix_refl releases))
    have hpending := pending_eq hids hcourse.toSettled (List.prefix_refl releases)
    have htwo : answered exec 2 { w with run := some { manifest := releases } }
        = proceed { w with run := some { manifest := releases, stage := .listing } }
          { manifest := releases, applied := w.rows.map Prod.fst,
            pending := releases.drop w.rows.length, stage := .listing }
          (releases.drop w.rows.length) := by
      rw [← hpending]
      rfl
    have hlisted := hbegin.answered hids hretry 2
    rw [htwo] at hlisted
    have hlength : (releases.drop w.rows.length).length = releases.length - w.rows.length :=
      List.length_drop
    have hreturns := returns_of_proceed hids hretry _ _ _ hlisted
    have hend := hlisted.answered hids hretry (2 * (releases.drop w.rows.length).length)
    rw [hlength] at hreturns hend
    rw [hstart, answered_add, htwo]
    obtain ⟨hrun, hreturned⟩ := hreturns
    obtain ⟨_, hall⟩ := hend.returned _ _ hreturned
    have hrows := hend.rows
    have hleads := hend.leads
    rw [List.take_of_length_le hall] at hrows
    rw [List.drop_eq_nil_of_le hall] at hleads
    refine ⟨hrun, hrows, hleads, ?_⟩
    rw [hreturned, resultOf]
    simp only [List.isEmpty_iff, List.drop_eq_nil_iff]

end Migrate

/-! ## 5. Tables that are defined if they do not exist -/

/-- `DEFINE TABLE IF NOT EXISTS`. -/
def defineTable (tables : Finset ℕ) (table : ℕ) : Finset ℕ := insert table tables

theorem execAll_defineTable (sql : List ℕ) :
    ∀ tables, execAll defineTable tables sql = tables ∪ sql.toFinset := by
  induction sql with
  | nil => simp [execAll]
  | cons table sql ih =>
      intro tables
      rw [execAll, List.foldl_cons, ← execAll, ih, defineTable, List.toFinset_cons,
        Finset.insert_union, Finset.union_insert]

/-- Such definitions can be executed again. -/
theorem retryable_defineTable (ms : List (Migration ℕ)) : Retryable defineTable ms := by
  intro m _ tables executed hsub
  have hsubset : executed.toFinset ⊆ m.sql.toFinset := fun table htable =>
    List.mem_toFinset.mpr (hsub.subset (List.mem_toFinset.mp htable))
  rw [execAll_defineTable, execAll_defineTable, execAll_defineTable, Finset.union_assoc,
    Finset.union_eq_right.mpr hsubset]

def twoMigrations : List (Migration ℕ) :=
  [⟨units "0001", units "0001_baseline.surql", [1, 2]⟩,
    ⟨units "0002", units "0002_audit.surql", [3]⟩]

/-- The first migration meets a read conflict when its second table is defined, and the process
stops. -/
def interrupted : World ℕ (Finset ℕ) :=
  [.start twoMigrations, .answer .ok, .answer .ok, .answer (.error [2] false true), .crash].foldl
    (step defineTable) (fresh ∅)

/-- No row, and the two migrations still lead to the schema of a new database. -/
theorem migrate_converges_interrupted : interrupted.rows = [] ∧
    applyAll defineTable interrupted.schema (twoMigrations.drop interrupted.rows.length)
      = applyAll defineTable ∅ twoMigrations := by
  have hreached : Runs.Reached (step defineTable) (Legal twoMigrations) (fresh ∅) interrupted := by
    refine .next Act.crash (.next (Act.answer (.error [2] false true)) (.next (Act.answer .ok)
      (.next (Act.answer .ok) (.next (Act.start twoMigrations) .start ?_) ?_) ?_) ?_) ?_
    · exact List.prefix_refl _
    · trivial
    · trivial
    · intro run m rest attempts hrun hstage
      obtain rfl := Option.some.inj hrun
      obtain ⟨rfl, _, _⟩ := Stage.applying.inj hstage
      exact List.Sublist.cons 1 (List.Sublist.refl [2])
    · trivial
  exact ⟨rfl, (migrate_converges defineTable ∅ twoMigrations (by decide)
    (retryable_defineTable _) hreached).2.1⟩

end Brain.Migrator
