/-
The changefeed consumer (`src/src/audit/changefeed-consumer.service.ts`), which mirrors
the changes of three tables into `audit_event`.

The first part are its functions: which changes of an answer are new, which of them go
into the next batch, and the rows they become. The second part is the system: pods that
tick and drain, writers that commit changes, and the tables of the tenants. Every call to
the database is a step of its own, and a pod may stop between any two of them.

`SHOW CHANGES` is the database's. Its answer is an argument of the step, and may be any
list of committed changes with at least those above the cursor, in any order
(`ValidAnswer`). Columns of `audit_event` that the database fills in by itself are left
out.
-/
import Brain.Jobs.LeaderLeaseService
import Brain.Lib.Runs

set_option autoImplicit false

namespace Brain.Audit

open Jobs

/-! ## Changes and the rows they become -/

/-- `SOURCES`. -/
inductive Source where
  | knowledgeEntity | knowledgeFact | knowledgeEdge
deriving DecidableEq, Repr

/-- A field of a record image: `null`, or what it prints as. -/
inductive FieldValue where
  | null
  | value (text : String)
deriving DecidableEq, Repr

abbrev RecordImage := List (String × FieldValue)

/-- What stands under a key of a change item. -/
inductive Payload where
  | text (s : String)
  | image (fields : RecordImage)
deriving DecidableEq, Repr

/-- An item of a change: `{ update: {...} }`, `{ delete: ... }`, `{ define_table: {...} }`. -/
abbrev ChangeItem := List (String × Payload)

/-- A row of `SHOW CHANGES`. -/
structure Change where
  versionstamp : ℕ
  changes : List ChangeItem
deriving DecidableEq, Repr

/-- A row of `audit_event`. -/
structure EventRow where
  source : Source
  recordId : String
  op : String
  versionstamp : ℕ
  after : Option RecordImage
deriving DecidableEq, Repr

def redacted : FieldValue := .value "[redacted]"

/-- `STRUCTURAL_FIELDS`. -/
def structuralFields : List String :=
  ["id", "entityId", "predicate", "op", "status", "validFrom", "validUntil", "recordedAt",
    "retractedAt", "retractionReason", "supersededBy", "priorValidUntil", "confidence", "kind",
    "in", "out", "weight", "artifactType", "dirty", "mergedInto", "mergedAt", "type"]

/-- `redactAfterImage`. -/
def redactAfterImage (row : RecordImage) : RecordImage :=
  (row.filter (fun kv => kv.1 != "embedding")).map (fun kv =>
    (kv.1, if structuralFields.contains kv.1 || kv.2 == .null then kv.2 else redacted))

/-- `String(payload)`. -/
def Payload.print : Option Payload → String
  | none => "undefined"
  | some (.text s) => s
  | some (.image _) => "[object Object]"

/-- `payload?.id?.toString() ?? ''`. -/
def Payload.id : Option Payload → String
  | some (.image fields) =>
      match fields.lookup "id" with
      | some (.value s) => s
      | _ => ""
  | _ => ""

/-- The row of one item. -/
def eventOf (source : Source) (versionstamp : ℕ) (item : ChangeItem) : EventRow :=
  let op := (item.head?.map Prod.fst).getD "unknown"
  let payload := item.head?.map Prod.snd
  { source := source
    recordId := if op = "delete" then Payload.print payload else Payload.id payload
    op := op
    versionstamp := versionstamp
    after := match payload with
      | some (.image fields) => some (redactAfterImage fields)
      | _ => none }

/-- `buildAuditEventBatch`. -/
def buildAuditEventBatch (source : Source) (changes : List Change) : List EventRow :=
  changes.flatMap (fun change => change.changes.map (eventOf source change.versionstamp))

/-- `fetchChanges`, on the answer of `SHOW CHANGES`: with a cursor, what is at or below it
is dropped. -/
def fetchChanges (since : ℕ) (answer : List Change) : List Change :=
  if 0 < since then answer.filter (fun c => decide (since < c.versionstamp)) else answer

/-- `slice(0, end)`; `none` is `NaN`, which counts as 0, and a negative end counts from
the end of the list. -/
def sliceTo {α : Type*} (limit : Option ℤ) (l : List α) : List α :=
  match limit with
  | none => []
  | some n => if 0 ≤ n then l.take n.toNat else l.take (l.length - n.natAbs)

/-- The batch of a source: sorted by versionstamp, and cut to `perBatchLimit`. -/
def nextBatch (perBatchLimit : Option ℤ) (changes : List Change) : List Change :=
  sliceTo perBatchLimit (changes.mergeSort (fun a b => decide (a.versionstamp ≤ b.versionstamp)))

/-- `batch[batch.length - 1].versionstamp`. -/
def lastStamp (batch : List Change) : ℕ := (batch.getLast?.map Change.versionstamp).getD 0

/-! ## The system -/

/-- A row of `changefeed_state`, under its source. -/
structure CursorRow where
  lastVersionstamp : ℕ
  updatedAt : Time

/-- What the consumer sees of a tenant's database. `feed` are the committed changes, in
the order of their commits. -/
structure MirrorDb where
  feed : Source → List Change
  cursor : Source → Option CursorRow
  events : List EventRow

/-- `loadCursor`. -/
def MirrorDb.loadCursor (db : MirrorDb) (source : Source) : ℕ :=
  ((db.cursor source).map CursorRow.lastVersionstamp).getD 0

/-- `INSERT INTO audit_event`. -/
def MirrorDb.insertEvents (db : MirrorDb) (rows : List EventRow) : MirrorDb :=
  { db with events := db.events ++ rows }

/-- The `UPSERT` of `advanceCursor`. -/
def MirrorDb.setCursor (db : MirrorDb) (source : Source) (row : CursorRow) : MirrorDb :=
  { db with cursor := Function.update db.cursor source (some row) }

/-- A writer's change of a source. -/
def MirrorDb.commit (db : MirrorDb) (source : Source) (change : Change) : MirrorDb :=
  { db with feed := Function.update db.feed source (db.feed source ++ [change]) }

/-- What `SHOW CHANGES ... SINCE since` may answer. -/
def ValidAnswer (feed : List Change) (since : ℕ) (answer : List Change) : Prop :=
  (∀ c ∈ answer, c ∈ feed) ∧ ∀ c ∈ feed, since < c.versionstamp → c ∈ answer

instance (feed : List Change) (since : ℕ) (answer : List Change) :
    Decidable (ValidAnswer feed since answer) := by
  unfold ValidAnswer
  infer_instance

/-- Whether a change may be committed next: versionstamps are positive and increase. -/
def commits (feed : List Change) (c : Change) : Bool :=
  decide (0 < c.versionstamp) && feed.all (fun d => decide (d.versionstamp < c.versionstamp))

/-- Where `consumeForTenant` stands with its current source. -/
inductive Phase where
  | loading
  | fetching (since : ℕ)
  /-- The batch has rows, and `INSERT` comes next. -/
  | inserting (batch : List Change)
  /-- `advanceCursor` comes next. -/
  | advancing (batch : List Change)
deriving DecidableEq

/-- A call of `consumeForTenant`. -/
structure Consumer where
  companyId : String
  source : Source
  later : List Source
  phase : Phase
deriving DecidableEq

def Consumer.start (companyId : String) : Consumer where
  companyId := companyId
  source := .knowledgeEntity
  later := [.knowledgeFact, .knowledgeEdge]
  phase := .loading

/-- The loop goes on to the next source. -/
def Consumer.next (c : Consumer) : Option Consumer :=
  match c.later with
  | [] => none
  | source :: later => some { c with source := source, later := later, phase := .loading }

theorem Consumer.next_phase {c c' : Consumer} (h : c.next = some c') : c'.phase = .loading := by
  unfold Consumer.next at h
  split at h
  · cases h
  · obtain rfl := Option.some.inj h
    rfl

/-- Where a call stands. -/
inductive CallStage where
  /-- A tick that waits for `tryAcquire`. -/
  | acquiring
  /-- The loop over the tenants. A call that has set `inFlight` takes it back at its end. -/
  | draining (flagged : Bool) (task : Option Consumer)

/-- A call of `tick`, `drainNow` or `consumeForTenant`. -/
structure Call where
  pod : LeaderId
  /-- The tenants that are still to come. -/
  tenants : List String
  stage : CallStage

def Call.task (call : Call) : Option Consumer :=
  match call.stage with
  | .acquiring => none
  | .draining _ task => task

structure Config where
  enabled : Bool
  perBatchLimit : Option ℤ

structure System where
  clock : Time
  leases : LeaseTable
  inFlight : LeaderId → Bool
  dbs : String → MirrorDb
  calls : ℕ → Option Call

def System.init (clock : Time) : System where
  clock := clock
  leases := fun _ => none
  inFlight := fun _ => false
  dbs := fun _ => { feed := fun _ => [], cursor := fun _ => none, events := [] }
  calls := fun _ => none

inductive Op where
  | advance (ms : ℕ)
  /-- A writer commits. -/
  | commit (companyId : String) (source : Source) (change : Change)
  | tick (id : ℕ) (pod : LeaderId) (tenants : List String)
  | acquire (id : ℕ)
  | drainNow (id : ℕ) (pod : LeaderId) (tenants : List String)
  | consumeForTenant (id : ℕ) (pod : LeaderId) (companyId : String)
  /-- The loop over the tenants goes on, or the call ends. -/
  | nextTenant (id : ℕ)
  | load (id : ℕ)
  | fetch (id : ℕ) (answer : List Change)
  | insert (id : ℕ)
  | advanceCursor (id : ℕ)
  /-- The call to the database that is next fails. -/
  | fails (id : ℕ)
  | crash (pod : LeaderId)

namespace System

/-- The consumer that call `id` runs. -/
def task (s : System) (id : ℕ) : Option Consumer := (s.calls id).bind Call.task

def setCall (s : System) (id : ℕ) (call : Option Call) : System :=
  { s with calls := Function.update s.calls id call }

/-- The call goes on with another task. -/
def setTask (s : System) (id : ℕ) (call : Call) (flagged : Bool) (task : Option Consumer) : System :=
  s.setCall id (some { call with stage := .draining flagged task })

def setDb (s : System) (companyId : String) (db : MirrorDb) : System :=
  { s with dbs := Function.update s.dbs companyId db }

def setInFlight (s : System) (pod : LeaderId) (b : Bool) : System :=
  { s with inFlight := Function.update s.inFlight pod b }

/-- One step. An operation that does not fit the call it names changes nothing. -/
def step (cfg : Config) (s : System) : Op → System
  | .advance ms => { s with clock := s.clock + ms }
  | .commit companyId source change =>
      let db := s.dbs companyId
      if commits (db.feed source) change then
        s.setDb companyId (db.commit source change)
      else s
  | .tick id pod tenants =>
      match s.calls id with
      | some _ => s
      | none =>
          if !cfg.enabled || s.inFlight pod then s
          else s.setCall id (some { pod := pod, tenants := tenants, stage := .acquiring })
  | .acquire id =>
      match s.calls id with
      | some call =>
          match call.stage with
          | .acquiring =>
              let got := tryAcquire call.pod "changefeed_consumer" 180 s.clock s.leases
              if got.1 then
                ({ s with leases := got.2 }.setInFlight call.pod true).setTask id call true none
              else s.setCall id none
          | .draining _ _ => s
      | none => s
  | .drainNow id pod tenants =>
      match s.calls id with
      | some _ => s
      | none =>
          if s.inFlight pod then s
          else (s.setInFlight pod true).setCall id (some
            { pod := pod, tenants := tenants, stage := .draining true none })
  | .consumeForTenant id pod companyId =>
      match s.calls id with
      | some _ => s
      | none => s.setCall id (some
          { pod := pod, tenants := [], stage := .draining false (some (Consumer.start companyId)) })
  | .nextTenant id =>
      match s.calls id with
      | some call =>
          match call.stage, call.tenants with
          | .draining flagged none, companyId :: tenants =>
              s.setTask id { call with tenants := tenants } flagged (some (Consumer.start companyId))
          | .draining flagged none, [] =>
              (if flagged then s.setInFlight call.pod false else s).setCall id none
          | _, _ => s
      | none => s
  | .load id =>
      match s.calls id with
      | some call =>
          match call.stage with
          | .draining flagged (some c) =>
              if c.phase = .loading then
                s.setTask id call flagged (some
                  { c with phase := .fetching ((s.dbs c.companyId).loadCursor c.source) })
              else s
          | _ => s
      | none => s
  | .fetch id answer =>
      match s.calls id with
      | some call =>
          match call.stage with
          | .draining flagged (some c) =>
              match c.phase with
              | .fetching since =>
                  if ValidAnswer ((s.dbs c.companyId).feed c.source) since answer then
                    let changes := fetchChanges since answer
                    let batch := nextBatch cfg.perBatchLimit changes
                    if changes = [] then s.setTask id call flagged c.next
                    -- without a batch, `batch[batch.length - 1]` is undefined and throws
                    else if batch = [] then s.setTask id call flagged none
                    else if buildAuditEventBatch c.source batch = [] then
                      s.setTask id call flagged (some { c with phase := .advancing batch })
                    else s.setTask id call flagged (some { c with phase := .inserting batch })
                  else s
              | _ => s
          | _ => s
      | none => s
  | .insert id =>
      match s.calls id with
      | some call =>
          match call.stage with
          | .draining flagged (some c) =>
              match c.phase with
              | .inserting batch =>
                  (s.setDb c.companyId ((s.dbs c.companyId).insertEvents
                    (buildAuditEventBatch c.source batch))).setTask id call flagged
                      (some { c with phase := .advancing batch })
              | _ => s
          | _ => s
      | none => s
  | .advanceCursor id =>
      match s.calls id with
      | some call =>
          match call.stage with
          | .draining flagged (some c) =>
              match c.phase with
              | .advancing batch =>
                  (s.setDb c.companyId ((s.dbs c.companyId).setCursor c.source
                    { lastVersionstamp := lastStamp batch, updatedAt := s.clock })).setTask id call
                      flagged c.next
              | _ => s
          | _ => s
      | none => s
  | .fails id =>
      match s.calls id with
      | some call =>
          match call.stage with
          | .acquiring => s.setCall id none
          | .draining flagged _ => s.setTask id call flagged none
      | none => s
  | .crash pod =>
      { s.setInFlight pod false with
        calls := fun id => (s.calls id).filter (fun call => call.pod != pod) }

/-- The states that some interleaving leads to. -/
def Reachable (cfg : Config) (clock : Time) (s : System) : Prop :=
  Runs.Reached (step cfg) (fun _ _ => True) (init clock) s

variable {cfg : Config} {s : System} {op : Op}

theorem task_setCall (s : System) (id id' : ℕ) (call : Option Call) :
    (s.setCall id call).task id' = if id' = id then call.bind Call.task else s.task id' := by
  unfold task setCall
  by_cases h : id' = id
  · simp [h]
  · simp [h]

theorem task_setTask (s : System) (id id' : ℕ) (call : Call) (flagged : Bool)
    (c : Option Consumer) :
    (s.setTask id call flagged c).task id' = if id' = id then c else s.task id' :=
  task_setCall s id id' _

@[simp] theorem dbs_setTask (s : System) (id : ℕ) (call : Call) (flagged : Bool)
    (c : Option Consumer) : (s.setTask id call flagged c).dbs = s.dbs := rfl

@[simp] theorem dbs_setCall (s : System) (id : ℕ) (call : Option Call) :
    (s.setCall id call).dbs = s.dbs := rfl

@[simp] theorem dbs_setInFlight (s : System) (pod : LeaderId) (b : Bool) :
    (s.setInFlight pod b).dbs = s.dbs := rfl

theorem dbs_setDb (s : System) (companyId companyId' : String) (db : MirrorDb) :
    (s.setDb companyId db).dbs companyId'
      = if companyId' = companyId then db else s.dbs companyId' :=
  Function.update_apply ..

/-! ## What a step does -/

/-- The step ends call `id`, or its consumer, from outside. -/
def Stops (s : System) (op : Op) (id : ℕ) : Prop :=
  op = .fails id ∨ ∃ call, op = .crash call.pod ∧ s.calls id = some call

/-- What a step does to the tables and the consumers: nothing that a table shows, or one of
five changes. -/
inductive Effect (cfg : Config) (s : System) (op : Op) (s' : System) : Prop
  | quiet (hdbs : s'.dbs = s.dbs)
      (hnew : ∀ id c, s'.task id = some c → s.task id = some c ∨ c.phase = .loading)
      (hkept : ∀ id c batch, s.task id = some c → c.phase = .advancing batch →
        s'.task id = some c ∨ Stops s op id)
  | commit (companyId : String) (source : Source) (change : Change)
      (h : commits ((s.dbs companyId).feed source) change = true)
      (hdbs : s'.dbs = (s.setDb companyId ((s.dbs companyId).commit source change)).dbs)
      (htask : ∀ id, s'.task id = s.task id)
  | load (id : ℕ) (c : Consumer) (hop : op = .load id) (hc : s.task id = some c)
      (hphase : c.phase = .loading) (hdbs : s'.dbs = s.dbs)
      (htask : ∀ id', s'.task id' = if id' = id then
        some { c with phase := .fetching ((s.dbs c.companyId).loadCursor c.source) }
        else s.task id')
  | fetch (id : ℕ) (c : Consumer) (since : ℕ) (answer : List Change) (phase : Phase)
      (hop : op = .fetch id answer) (hc : s.task id = some c) (hphase : c.phase = .fetching since)
      (hvalid : ValidAnswer ((s.dbs c.companyId).feed c.source) since answer)
      (hne : nextBatch cfg.perBatchLimit (fetchChanges since answer) ≠ [])
      (hnext : phase = .inserting (nextBatch cfg.perBatchLimit (fetchChanges since answer)) ∨
        phase = .advancing (nextBatch cfg.perBatchLimit (fetchChanges since answer)) ∧
          buildAuditEventBatch c.source
            (nextBatch cfg.perBatchLimit (fetchChanges since answer)) = [])
      (hdbs : s'.dbs = s.dbs)
      (htask : ∀ id', s'.task id' = if id' = id then some { c with phase := phase } else s.task id')
  | insert (id : ℕ) (c : Consumer) (batch : List Change) (hc : s.task id = some c)
      (hphase : c.phase = .inserting batch)
      (hdbs : s'.dbs = (s.setDb c.companyId ((s.dbs c.companyId).insertEvents
        (buildAuditEventBatch c.source batch))).dbs)
      (htask : ∀ id', s'.task id' = if id' = id then some { c with phase := .advancing batch }
        else s.task id')
  | advanceCursor (id : ℕ) (c : Consumer) (batch : List Change) (hc : s.task id = some c)
      (hphase : c.phase = .advancing batch)
      (hdbs : s'.dbs = (s.setDb c.companyId ((s.dbs c.companyId).setCursor c.source
        { lastVersionstamp := lastStamp batch, updatedAt := s.clock })).dbs)
      (htask : ∀ id', s'.task id' = if id' = id then c.next else s.task id')

/-- A step that leaves everything is quiet. -/
theorem Effect.refl : Effect cfg s op s :=
  .quiet rfl (fun _ _ h => Or.inl h) (fun _ _ _ h _ => Or.inl h)

/-- So is one that replaces a call, or its consumer, by one that has not loaded anything. -/
theorem Effect.of_task {s' : System} {id : ℕ} {t : Option Consumer} (hdbs : s'.dbs = s.dbs)
    (htask : ∀ id', s'.task id' = if id' = id then t else s.task id')
    (ht : ∀ c, t = some c → s.task id = some c ∨ c.phase = .loading)
    (hkept : ∀ c batch, s.task id = some c → c.phase = .advancing batch →
      t = some c ∨ Stops s op id) : Effect cfg s op s' := by
  refine .quiet hdbs (fun id' c hc => ?_) (fun id' c batch hc hphase => ?_)
  · rw [htask] at hc
    split at hc
    · next hid => exact hid ▸ ht c hc
    · exact Or.inl hc
  · rw [htask]
    split
    · next hid =>
        subst hid
        exact hkept c batch hc hphase
    · exact Or.inl hc

theorem task_eq {id : ℕ} {call : Call} {flagged : Bool} {t : Option Consumer}
    (h : s.calls id = some call) (hstage : call.stage = .draining flagged t) : s.task id = t := by
  rw [task, h, Option.bind_some, Call.task, hstage]

theorem task_none_of_acquiring {id : ℕ} {call : Call} (h : s.calls id = some call)
    (hstage : call.stage = .acquiring) : s.task id = none := by
  rw [task, h, Option.bind_some, Call.task, hstage]

/-- A call that had no consumer gets one that has not loaded anything, or none. -/
theorem Effect.of_idle {s' : System} {id : ℕ} {t : Option Consumer} (hdbs : s'.dbs = s.dbs)
    (hidle : s.task id = none) (htask : ∀ id', s'.task id' = if id' = id then t else s.task id')
    (ht : ∀ c, t = some c → c.phase = .loading) : Effect cfg s op s' := by
  refine .of_task hdbs htask (fun c hc => Or.inr (ht c hc)) (fun c batch hc _ => ?_)
  rw [hidle] at hc
  cases hc

/-- The fetch of a consumer. -/
theorem effect_fetch {id : ℕ} {call : Call} {flagged : Bool} {c : Consumer} {answer : List Change}
    (hcall : s.calls id = some call) (hstage : call.stage = .draining flagged (some c)) :
    Effect cfg s (.fetch id answer) (s.step cfg (.fetch id answer)) := by
  have htask := task_eq hcall hstage
  have hput : ∀ (t : Option Consumer) (id' : ℕ),
      (s.setTask id call flagged t).task id' = if id' = id then t else s.task id' :=
    fun t id' => task_setTask s id id' call flagged t
  simp only [step, hcall, hstage]
  split
  · next since hphase =>
      split
      · next hvalid =>
          -- the consumer is about to fetch, so it has nothing to write yet
          have hnot : ∀ (t : Option Consumer) d batch, s.task id = some d →
              d.phase = .advancing batch → t = some d ∨ Stops s (.fetch id answer) id := by
            intro t d batch hd hd'
            rw [htask] at hd
            obtain rfl := Option.some.inj hd
            rw [hphase] at hd'
            cases hd'
          split
          · exact .of_task rfl (hput _) (fun d hd => Or.inr (Consumer.next_phase hd)) (hnot _)
          · split
            · exact .of_task rfl (hput _) (fun d hd => by cases hd) (hnot _)
            · next hne =>
                split
                · next hempty =>
                    exact .fetch id c since answer _ rfl htask hphase hvalid hne
                      (Or.inr ⟨rfl, hempty⟩) rfl (hput _)
                · exact .fetch id c since answer _ rfl htask hphase hvalid hne (Or.inl rfl) rfl
                    (hput _)
      · exact .refl
  · exact .refl

/-- The next tenant of a drain, or its end. -/
theorem effect_nextTenant (id : ℕ) :
    Effect cfg s (.nextTenant id) (s.step cfg (.nextTenant id)) := by
  simp only [step]
  split
  · next call hcall =>
      split
      · next flagged companyId tenants hstage _ =>
          refine .of_idle rfl (task_eq hcall hstage)
            (fun id' => task_setTask s id id' _ flagged _)
            (fun c h => ?_)
          obtain rfl := Option.some.inj h
          rfl
      · next flagged hstage _ =>
          refine .of_idle ?_ (task_eq hcall hstage) (fun id' => ?_) (fun c h => ?_) (t := none)
          · split <;> rfl
          · rw [task_setCall]
            split
            · rfl
            · split <;> rfl
          · cases h
      · exact .refl
  · exact .refl

/-- A crash takes the calls of its pod away and leaves the others. -/
theorem effect_crash (pod : LeaderId) : Effect cfg s (.crash pod) (s.step cfg (.crash pod)) := by
  have hcalls : ∀ id, (s.step cfg (.crash pod)).task id
      = ((s.calls id).filter (fun call => call.pod != pod)).bind Call.task := fun _ => rfl
  refine .quiet rfl (fun id c hc => ?_) (fun id c batch hc _ => ?_)
  · rw [hcalls] at hc
    obtain ⟨call, hcall, hc⟩ := Option.bind_eq_some_iff.mp hc
    left
    rw [task, (Option.filter_eq_some_iff.mp hcall).1, Option.bind_some, hc]
  · obtain ⟨call, hcall, htask⟩ := Option.bind_eq_some_iff.mp hc
    by_cases hpod : call.pod = pod
    · exact Or.inr (Or.inr ⟨call, by rw [hpod], hcall⟩)
    · left
      rw [hcalls, hcall, Option.filter_some]
      simp [hpod, htask]

/-- **Every step has one of these effects.** -/
theorem step_effect (cfg : Config) (s : System) (op : Op) : Effect cfg s op (s.step cfg op) := by
  have hfree : ∀ id, s.calls id = none → s.task id = none := fun id h => by rw [task, h]; rfl
  cases op with
  | advance ms => exact .quiet rfl (fun _ _ h => Or.inl h) (fun _ _ _ h _ => Or.inl h)
  | commit companyId source change =>
      simp only [step]
      split
      · next h => exact .commit companyId source change h rfl (fun _ => rfl)
      · exact .refl
  | tick id pod tenants =>
      simp only [step]
      split
      · exact .refl
      · next hnone =>
          split
          · exact .refl
          · exact .of_idle rfl (hfree id hnone) (fun id' => task_setCall s id id' _)
              (fun c h => by cases h)
  | acquire id =>
      simp only [step]
      split
      · next call hcall =>
          split
          · next hstage =>
              have hidle := task_none_of_acquiring hcall hstage
              split
              · exact .of_idle rfl hidle (fun id' => task_setTask _ id id' call true none)
                  (fun c h => by cases h)
              · exact .of_idle rfl hidle (fun id' => task_setCall s id id' none)
                  (fun c h => by cases h)
          · exact .refl
      · exact .refl
  | drainNow id pod tenants =>
      simp only [step]
      split
      · exact .refl
      · next hnone =>
          split
          · exact .refl
          · exact .of_idle rfl (hfree id hnone) (fun id' => task_setCall _ id id' _)
              (fun c h => by cases h)
  | consumeForTenant id pod companyId =>
      simp only [step]
      split
      · exact .refl
      · next hnone =>
          refine .of_idle rfl (hfree id hnone) (fun id' => task_setCall _ id id' _) (fun c h => ?_)
          obtain rfl := Option.some.inj h
          rfl
  | nextTenant id => exact effect_nextTenant id
  | load id =>
      simp only [step]
      split
      · next call hcall =>
          split
          · next flagged c hstage =>
              split
              · next hphase =>
                  exact .load id c rfl (task_eq hcall hstage) hphase rfl
                    (fun id' => task_setTask s id id' call flagged _)
              · exact .refl
          · exact .refl
      · exact .refl
  | fetch id answer =>
      cases hcall : s.calls id with
      | none =>
          simp only [step, hcall]
          exact .refl
      | some call =>
          cases hstage : call.stage with
          | draining flagged c =>
              cases c with
              | some c => exact effect_fetch hcall hstage
              | none =>
                  simp only [step, hcall, hstage]
                  exact .refl
          | acquiring =>
              simp only [step, hcall, hstage]
              exact .refl
  | insert id =>
      simp only [step]
      split
      · next call hcall =>
          split
          · next flagged c hstage =>
              split
              · next batch hphase =>
                  exact .insert id c batch (task_eq hcall hstage) hphase rfl
                    (fun id' => task_setTask _ id id' call flagged _)
              · exact .refl
          · exact .refl
      · exact .refl
  | advanceCursor id =>
      simp only [step]
      split
      · next call hcall =>
          split
          · next flagged c hstage =>
              split
              · next batch hphase =>
                  exact .advanceCursor id c batch (task_eq hcall hstage) hphase rfl
                    (fun id' => task_setTask _ id id' call flagged _)
              · exact .refl
          · exact .refl
      · exact .refl
  | fails id =>
      simp only [step]
      split
      · split
        · exact .of_task rfl (fun id' => task_setCall s id id' _) (fun c h => by cases h)
            (fun _ _ _ _ => Or.inr (Or.inl rfl))
        · exact .of_task rfl (fun id' => task_setTask s id id' _ _ _) (fun c h => by cases h)
            (fun _ _ _ _ => Or.inr (Or.inl rfl))
      · exact .refl
  | crash pod => exact effect_crash pod

end System

end Brain.Audit
