/-
`src/src/admin/admin.service.ts`, `src/src/admin/operator-action.service.ts`: the lists of an
operator, newest first, over the databases of all tenants.

Each tenant is asked for its newest rows, at most `limit`, and the rows of all answers are sorted
again and cut at `limit`. A tenant whose database fails is left out. Whatever the order in which
the answers arrive, the list has the newest rows of all tenants that have answered
(`fanOut_newest`). The totals of the audit page count the rows that were read, so a tenant counts
with at most `limit` of its rows (`auditPage_totals`).
-/
import Brain.Common.Parallel
import Brain.Db.KnowledgeFact
import Brain.Lib.Tally
import Brain.Lib.TopRows

set_option autoImplicit false

namespace Brain.Admin

open TopRows

/-- The milliseconds of `new Date(t).toISOString()`, where the database has nanoseconds. -/
def isoMs (t : Time) : ℤ := t / 1000000

theorem isoMs_mono {t t' : Time} (h : t ≤ t') : isoMs t ≤ isoMs t' :=
  Int.ediv_le_ediv (by decide) h

/-- `if (filter.reason)`. -/
def truthy (s : Option String) : Option String := s.filter (fun s => s ≠ "")

/-- A condition of `WHERE` that is there if the filter has a value. -/
def clause {α : Type} (value : Option α) (holds : α → Bool) : Bool := value.all holds

/-! ## The lists -/

/-- What is listed of a table, and how. -/
structure Listing (Row Filter Out : Type) where
  /-- The `WHERE` of the query. -/
  admits : Filter → Row → Bool
  /-- The column of its `ORDER BY .. DESC`. -/
  time : Row → Time
  defaultLimit : ℤ
  maxLimit : ℤ
  /-- A row of a tenant, as it is returned. -/
  render : String → Row → Out
  /-- What the rows of all tenants are sorted by. -/
  shown : Out → ℤ
  shown_render : ∀ c r, shown (render c r) = isoMs (time r)

variable {Row Filter Out : Type}

structure Query (Filter : Type) where
  companyId : Option String := none
  filter : Filter
  limit : Option ℤ := none

/-- `filter.companyId ? [filter.companyId] : this.apiKeys.knownCompanyIds()`. -/
def Query.tenants (q : Query Filter) (known : List String) : List String :=
  match truthy q.companyId with
  | some c => [c]
  | none => known

namespace Listing

/-- `Math.min(Math.max(filter.limit ?? .., 1), ..)`. -/
def limit (L : Listing Row Filter Out) (q : Query Filter) : ℕ :=
  (min (max (q.limit.getD L.defaultLimit) 1) L.maxLimit).toNat

/-- The rows of a tenant that the query is about. -/
def matching (L : Listing Row Filter Out) (q : Query Filter) (table : List Row) : List Row :=
  table.filter (L.admits q.filter)

/-- The call for a tenant, when its database answers or fails. -/
def call (L : Listing Row Filter Out) (c : String) (answer : Option (List Row)) :
    Parallel.Outcome (List Out) :=
  match answer with
  | some rows => .resolved (rows.map (L.render c))
  | none => .rejected false

/-- `for (const batch of perTenant) if (batch) out.push(...batch)`. -/
def gathered (perTenant : List (Option (List Out))) : List Out :=
  perTenant.flatMap (fun batch => batch.getD [])

/-- `out.sort((a, b) => b.ts.localeCompare(a.ts))`, and `out.slice(0, limit)`. -/
def page (L : Listing Row Filter Out) (q : Query Filter) (out : List Out) : List Out :=
  (out.insertionSort (fun a b => L.shown b ≤ L.shown a)).take (L.limit q)

/-- What the database may answer: `ORDER BY .. DESC LIMIT`, the rows of one time in any order. -/
def Answers (L : Listing Row Filter Out) (q : Query Filter) (db : String → List Row)
    (answer : String → Option (List Row)) : Prop :=
  ∀ c rows, answer c = some rows → IsTop L.time (L.limit q) (L.matching q (db c)) rows

/-- The rows of all tenants that have answered. -/
def allMatching (L : Listing Row Filter Out) (q : Query Filter) (db : String → List Row)
    (answer : String → Option (List Row)) (tenants : List String) : List Out :=
  (tenants.filter (fun c => (answer c).isSome)).flatMap
    (fun c => (L.matching q (db c)).map (L.render c))

end Listing

/-! ### The members -/

variable {J : Type}

/-- `ingest_dead_letter`. -/
structure DeadLetter (J : Type) where
  id : String
  reason : String
  rejectedAt : Time
  payload : J

/-- `AdminDeadLetterRow`. -/
structure AdminDeadLetterRow (J : Type) where
  companyId : String
  id : String
  reason : String
  rejectedAt : ℤ
  payload : J

/-- `listDeadLetter`; its filter is `reason`. -/
def listDeadLetter : Listing (DeadLetter J) (Option String) (AdminDeadLetterRow J) where
  admits reason r := clause (truthy reason) (fun reason => r.reason == reason)
  time r := r.rejectedAt
  defaultLimit := 200
  maxLimit := 1000
  render c r := ⟨c, r.id, r.reason, isoMs r.rejectedAt, r.payload⟩
  shown out := out.rejectedAt
  shown_render _ _ := rfl

/-- `forgotten_entity`. -/
structure ForgottenEntity where
  entityIdHash : String
  reason : String
  forgottenAt : Time
  factsDeleted : Option ℤ
  edgesDeleted : Option ℤ

structure AdminForgottenRow where
  companyId : String
  entityIdHash : String
  reason : String
  forgottenAt : ℤ
  factsDeleted : ℤ
  edgesDeleted : ℤ

structure ForgottenFilter where
  reason : Option String := none
  since : Option Time := none

/-- `listForgotten`. -/
def listForgotten : Listing ForgottenEntity ForgottenFilter AdminForgottenRow where
  admits f r := clause (truthy f.reason) (fun reason => r.reason == reason) &&
    clause f.since (fun since => since ≤ r.forgottenAt)
  time r := r.forgottenAt
  defaultLimit := 200
  maxLimit := 2000
  render c r := ⟨c, r.entityIdHash, r.reason, isoMs r.forgottenAt, r.factsDeleted.getD 0,
    r.edgesDeleted.getD 0⟩
  shown out := out.forgottenAt
  shown_render _ _ := rfl

/-- `audit_event`. -/
structure AuditEvent (J : Type) where
  id : String
  source : String
  recordId : String
  op : String
  ts : Time
  versionstamp : ℤ
  before : Option J
  after : Option J
  consumedBy : Option String

structure AuditEventRow (J : Type) where
  id : String
  companyId : String
  source : String
  recordId : String
  op : String
  ts : ℤ
  versionstamp : ℤ
  before : Option J
  after : Option J
  consumedBy : String

/-- `AuditQuery`, less `companyId` and `limit`. -/
structure AuditFilter where
  source : Option String := none
  op : Option String := none
  since : Option Time := none
  before : Option Time := none

/-- The events of `listAuditEvents`. -/
def listAuditEvents : Listing (AuditEvent J) AuditFilter (AuditEventRow J) where
  admits f r := clause (truthy f.source) (fun source => r.source == source) &&
    clause (truthy f.op) (fun op => r.op == op) && clause f.since (fun since => since ≤ r.ts) &&
    clause f.before (fun before => r.ts < before)
  time r := r.ts
  defaultLimit := 100
  maxLimit := 500
  render c r := ⟨r.id, c, r.source, r.recordId, r.op, isoMs r.ts, r.versionstamp, r.before,
    r.after, r.consumedBy.getD "changefeed-consumer"⟩
  shown out := out.ts
  shown_render _ _ := rfl

/-- `operator_action`. -/
structure OperatorAction (J : Type) where
  ts : Time
  actor : String
  scopes : List String
  method : String
  path : String
  status : ℤ
  durationMs : Option ℤ
  query : Option J
  bodySummary : Option J

structure OperatorActionRow (J : Type) where
  ts : ℤ
  actor : String
  scopes : List String
  method : String
  path : String
  status : ℤ
  durationMs : ℤ
  query : Option J
  bodySummary : Option J
  companyId : String

structure ActionFilter where
  pathPrefix : Option String := none
  since : Option Time := none

/-- `OperatorActionService.list`, where `actor` is the tenant. -/
def listOperatorActions : Listing (OperatorAction J) ActionFilter (OperatorActionRow J) where
  admits f r := clause (truthy f.pathPrefix) (fun pathPrefix => r.path.startsWith pathPrefix) &&
    clause f.since (fun since => since ≤ r.ts)
  time r := r.ts
  defaultLimit := 200
  maxLimit := 1000
  render c r := ⟨isoMs r.ts, r.actor, r.scopes, r.method, r.path, r.status, r.durationMs.getD 0,
    r.query, r.bodySummary, c⟩
  shown out := out.ts
  shown_render _ _ := rfl

/-- The loop of `OperatorActionService.list`, one tenant after the other. -/
def actionLoop (answer : String → Option (List (OperatorAction J))) (tenants : List String) :
    List (OperatorActionRow J) :=
  tenants.foldl (fun out c => match answer c with
    | some rows => out ++ rows.map (listOperatorActions.render c)
    | none => out) []

/-! ## The newest rows -/

namespace Listing

variable {L : Listing Row Filter Out} {q : Query Filter} {db : String → List Row}
  {answer : String → Option (List Row)} {tenants : List String}

/-- What the tenants have and what they answer, as it is rendered. -/
def batches (L : Listing Row Filter Out) (q : Query Filter) (db : String → List Row)
    (answer : String → Option (List Row)) (tenants : List String) : List (Batch Out) :=
  (tenants.filter (fun c => (answer c).isSome)).map (fun c =>
    ⟨(L.matching q (db c)).map (L.render c), ((answer c).getD []).map (L.render c)⟩)

theorem isTop_of_mem_batches (h : L.Answers q db answer) {b : Batch Out}
    (hb : b ∈ L.batches q db answer tenants) : IsTop L.shown (L.limit q) b.all b.answer := by
  obtain ⟨c, hc, rfl⟩ := List.mem_map.mp hb
  obtain ⟨rows, hrows⟩ := Option.isSome_iff_exists.mp (List.mem_filter.mp hc).2
  have htop := h c rows hrows
  have hcoarse : IsTop (fun r => isoMs (L.time r)) (L.limit q) (L.matching q (db c)) rows :=
    htop.mono (fun _ _ => isoMs_mono)
  rw [hrows]
  exact hcoarse.map (L.shown_render c)

/-- The rows of the answers, in the order of the tenants. -/
theorem answers_batches (L : Listing Row Filter Out) (q : Query Filter) (db : String → List Row)
    (answer : String → Option (List Row)) (tenants : List String) :
    answers (L.batches q db answer tenants)
      = tenants.flatMap (fun c => ((answer c).getD []).map (L.render c)) := by
  rw [answers, batches, List.flatMap_map]
  induction tenants with
  | nil => rfl
  | cons c tenants ih =>
      cases hc : answer c with
      | none =>
          rw [List.filter_cons_of_neg (by simp [hc]), ih, List.flatMap_cons, hc]
          rfl
      | some rows =>
          rw [List.filter_cons_of_pos (by simp [hc]), List.flatMap_cons, ih, List.flatMap_cons]

/-- The newest rows of the answers are the newest of all. -/
theorem isTop_page (h : L.Answers q db answer) :
    IsTop L.shown (L.limit q) (L.allMatching q db answer tenants)
      (L.page q (tenants.flatMap (fun c => ((answer c).getD []).map (L.render c)))) := by
  have hall : allRows (L.batches q db answer tenants) = L.allMatching q db answer tenants := by
    rw [allRows, batches, List.flatMap_map]
    rfl
  rw [← answers_batches L q db, ← hall]
  exact IsTop.merge (fun b hb => isTop_of_mem_batches h hb) (isTop_take _ _)

/-- What `mapWithLimit` leaves of the calls. -/
theorem gathered_of_resolved {concurrency : ℤ} {s : Parallel.State (List Out)}
    (hrun : Runs.Reached (Parallel.step tenants.length) (fun _ _ => True)
      (Parallel.start concurrency tenants.length) s)
    (hcalls : ∀ i o, (i, o) ∈ s.settled → ∀ c, tenants[i]? = some c → o = L.call c (answer c))
    {out : List (Option (List Out))} (hout : Parallel.result s = .resolved out) :
    gathered out = tenants.flatMap (fun c => ((answer c).getD []).map (L.render c)) := by
  have hvalue : ∀ i o, (i, o) ∈ s.settled → o.value
      = (tenants[i]?).bind (fun c => (answer c).map (List.map (L.render c))) := by
    intro i o ho
    have hi : i < tenants.length := by
      obtain ⟨hperm, _⟩ := Parallel.resolved_spec hrun hout
      exact List.mem_range.mp (hperm.mem_iff.mp (List.mem_map_of_mem ho))
    have hc : tenants[i]? = some tenants[i] := List.getElem?_eq_getElem hi
    rw [hcalls i o ho _ hc, hc, Option.bind_some]
    unfold call
    cases answer tenants[i] <;> rfl
  have hmap : (List.range tenants.length).map (fun i => (tenants[i]?).bind
        (fun c => (answer c).map (List.map (L.render c))))
      = tenants.map (fun c => (answer c).map (List.map (L.render c))) := by
    refine List.ext_getElem (by simp) (fun i h _ => ?_)
    have hi : i < tenants.length := by simpa using h
    rw [List.getElem_map, List.getElem_range, List.getElem?_eq_getElem hi, Option.bind_some,
      List.getElem_map]
  rw [Parallel.resolved_eq_map hrun hout hvalue, hmap, gathered, List.flatMap_map]
  congr 1
  funext c
  cases answer c <;> rfl

end Listing

/-- **The newest rows of all tenants**: `listDeadLetter`, `listForgotten`, `listAuditEvents`. In
whatever order the tenants answer or fail, and however the databases order rows of one time, the
list is sorted, has as many rows as the limit admits, and no row of a tenant that has answered is
left out that is newer than one in the list. -/
theorem fanOut_newest {L : Listing Row Filter Out} {q : Query Filter} {db : String → List Row}
    {answer : String → Option (List Row)} {known : List String} {concurrency : ℤ}
    {s : Parallel.State (List Out)} (hanswer : L.Answers q db answer)
    (hrun : Runs.Reached (Parallel.step (q.tenants known).length) (fun _ _ => True)
      (Parallel.start concurrency (q.tenants known).length) s)
    (hcalls : ∀ i o, (i, o) ∈ s.settled → ∀ c, (q.tenants known)[i]? = some c →
      o = L.call c (answer c))
    {out : List (Option (List Out))} (hout : Parallel.result s = .resolved out) :
    IsTop L.shown (L.limit q) (L.allMatching q db answer (q.tenants known))
      (L.page q (Listing.gathered out)) := by
  rw [Listing.gathered_of_resolved hrun hcalls hout]
  exact Listing.isTop_page hanswer

theorem actionLoop_eq (answer : String → Option (List (OperatorAction J)))
    (tenants : List String) : actionLoop answer tenants
      = tenants.flatMap (fun c => ((answer c).getD []).map (listOperatorActions.render c)) := by
  have hfold : ∀ (tenants : List String) (out : List (OperatorActionRow J)),
      tenants.foldl (fun out c => match answer c with
        | some rows => out ++ rows.map (listOperatorActions.render c)
        | none => out) out
      = out ++ tenants.flatMap
          (fun c => ((answer c).getD []).map (listOperatorActions.render c)) := by
    intro tenants
    induction tenants with
    | nil => exact fun out => (List.append_nil out).symm
    | cons c tenants ih =>
        intro out
        rw [List.foldl_cons, ih, List.flatMap_cons]
        cases answer c with
        | none => rfl
        | some rows => exact List.append_assoc _ _ _
  exact hfold tenants []

/-- The actions of the operators, for which the tenants are asked one after the other. -/
theorem operatorActions_newest {q : Query ActionFilter} {db : String → List (OperatorAction J)}
    {answer : String → Option (List (OperatorAction J))} (h : listOperatorActions.Answers q db answer)
    (known : List String) :
    IsTop (listOperatorActions (J := J)).shown ((listOperatorActions (J := J)).limit q)
      (listOperatorActions.allMatching q db answer (q.tenants known))
      (listOperatorActions.page q (actionLoop answer (q.tenants known))) := by
  rw [actionLoop_eq]
  exact Listing.isTop_page h

/-! ## The totals of the audit page -/

/-- The hour of `row.ts.slice(0, 13)`. -/
def hour (ts : ℤ) : ℤ := ts / 3600000

structure AuditPage (J : Type) where
  events : List (AuditEventRow J)
  totalsBySource : InsertionMap String ℕ
  totalsByOp : InsertionMap String ℕ
  hourly : List (ℤ × ℕ)

/-- `listAuditEvents`, after the calls. -/
def auditPage (q : Query AuditFilter) (rows : List (AuditEventRow J)) : AuditPage J where
  events := listAuditEvents.page q rows
  totalsBySource := InsertionMap.tally (rows.map AuditEventRow.source)
  totalsByOp := InsertionMap.tally (rows.map AuditEventRow.op)
  hourly := (InsertionMap.tally (rows.map (fun row => hour row.ts))).entries.insertionSort
    (fun a b => a.1 ≤ b.1)

theorem length_gathered {L : Listing Row Filter Out} {q : Query Filter} {db : String → List Row}
    {answer : String → Option (List Row)} (h : L.Answers q db answer) (tenants : List String) :
    (tenants.flatMap (fun c => ((answer c).getD []).map (L.render c))).length
      = ((tenants.filter (fun c => (answer c).isSome)).map
          (fun c => min (L.limit q) (L.matching q (db c)).length)).sum := by
  induction tenants with
  | nil => rfl
  | cons c tenants ih =>
      rw [List.flatMap_cons, List.length_append, ih, List.length_map]
      cases hc : answer c with
      | none =>
          rw [List.filter_cons_of_neg (by simp [hc])]
          exact Nat.zero_add _
      | some rows =>
          rw [List.filter_cons_of_pos (by simp [hc]), List.map_cons, List.sum_cons,
            ← (h c rows hc).length]
          rfl

/-- **The totals of the audit page**: each counts the rows that were read of its source, its
operation or its hour, the hours in their order; and all of them add up to what the tenants
that have answered have, where each counts with no more rows than the limit. -/
theorem auditPage_totals {q : Query AuditFilter} {db : String → List (AuditEvent J)}
    {answer : String → Option (List (AuditEvent J))} {known : List String} {concurrency : ℤ}
    {s : Parallel.State (List (AuditEventRow J))} (hanswer : listAuditEvents.Answers q db answer)
    (hrun : Runs.Reached (Parallel.step (q.tenants known).length) (fun _ _ => True)
      (Parallel.start concurrency (q.tenants known).length) s)
    (hcalls : ∀ i o, (i, o) ∈ s.settled → ∀ c, (q.tenants known)[i]? = some c →
      o = listAuditEvents.call c (answer c))
    {out : List (Option (List (AuditEventRow J)))} (hout : Parallel.result s = .resolved out) :
    let rows := Listing.gathered out
    let page := auditPage q rows
    let read := (((q.tenants known).filter (fun c => (answer c).isSome)).map
      (fun c => min ((listAuditEvents (J := J)).limit q)
        (listAuditEvents.matching q (db c)).length)).sum
    (∀ source, (page.totalsBySource.get? source).getD 0
        = rows.countP (fun row => row.source == source)) ∧
      (∀ op, (page.totalsByOp.get? op).getD 0 = rows.countP (fun row => row.op == op)) ∧
      page.hourly.Pairwise (fun a b => a.1 < b.1) ∧
      (∀ e ∈ page.hourly, 0 < e.2 ∧ e.2 = rows.countP (fun row => hour row.ts == e.1)) ∧
      page.totalsBySource.values.sum = read ∧ page.totalsByOp.values.sum = read ∧
      (page.hourly.map Prod.snd).sum = read ∧
      page.events.length = min ((listAuditEvents (J := J)).limit q) read := by
  intro rows page read
  have hlength : rows.length = read := by
    rw [show rows = _ from Listing.gathered_of_resolved hrun hcalls hout]
    exact length_gathered hanswer _
  have hcount : ∀ {κ : Type} [DecidableEq κ] (key : AuditEventRow J → κ) (k : κ),
      (rows.map key).count k = rows.countP (fun row => key row == k) := by
    intro κ _ key k
    rw [List.count, List.countP_map]
    rfl
  have hperm : page.hourly.Perm (InsertionMap.tally (rows.map (fun row => hour row.ts))).entries :=
    List.perm_insertionSort _ _
  refine ⟨fun source => ?_, fun op => ?_, ?_, fun e he => ?_, ?_, ?_, ?_, ?_⟩
  · rw [← hcount, ← InsertionMap.getD_tally]
    rfl
  · rw [← hcount, ← InsertionMap.getD_tally]
    rfl
  · -- the hours are sorted, and each has one entry
    have hsorted : page.hourly.Pairwise (fun a b => a.1 ≤ b.1) :=
      StableSort.pairwise_leastFirst Prod.fst _
    have hnodup : page.hourly.Pairwise (fun a b => a.1 ≠ b.1) := by
      rw [← List.pairwise_map (f := Prod.fst) (R := (· ≠ ·))]
      exact (hperm.map Prod.fst).nodup_iff.mpr (InsertionMap.nodup _)
    exact hsorted.imp₂ (fun a b hle hne => lt_of_le_of_ne hle hne) hnodup
  · obtain ⟨hmem, hn⟩ := InsertionMap.mem_entries_tally.mp (hperm.mem_iff.mp he)
    rw [hn]
    refine ⟨List.count_pos_iff.mpr hmem, hcount _ _⟩
  · rw [← hlength, ← List.length_map]
    exact InsertionMap.sum_values_tally _
  · rw [← hlength, ← List.length_map]
    exact InsertionMap.sum_values_tally _
  · rw [(hperm.map Prod.snd).sum_eq, ← hlength, ← List.length_map]
    exact InsertionMap.sum_values_tally _
  · rw [show page.events = listAuditEvents.page q rows from rfl, Listing.page, List.length_take,
      List.length_insertionSort, hlength]

/-! ## Two tenants -/

/-- An event at so many milliseconds. -/
def eventAt (id : String) (ms : ℤ) : AuditEvent Unit :=
  ⟨id, "knowledge_fact", "r", "create", ms * 1000000, 1, none, none, none⟩

/-- The second tenant does not answer. -/
def twoTenants (c : String) : List (AuditEvent Unit) :=
  if c = "acme" then [eventAt "a" 1, eventAt "b" 2] else [eventAt "c" 3]

def oneAnswer (c : String) : Option (List (AuditEvent Unit)) :=
  if c = "acme" then some [eventAt "b" 2] else none

def newestEvent : Query AuditFilter := { filter := {}, limit := some 1 }

def twoCalls : Parallel.State (List (AuditEventRow Unit)) :=
  [⟨1, listAuditEvents.call "beta" none⟩,
    ⟨0, listAuditEvents.call "acme" (oneAnswer "acme")⟩].foldl (Parallel.step 2)
      (Parallel.start 4 2)

theorem answers_twoTenants : listAuditEvents.Answers newestEvent twoTenants oneAnswer := by
  intro c rows h
  unfold oneAnswer at h
  split at h
  · next hc =>
      obtain rfl := Option.some.inj h
      rw [twoTenants, if_pos hc]
      refine ⟨List.pairwise_singleton _ _, rfl, [eventAt "a" 1], List.Perm.swap _ _ _, ?_⟩
      intro a ha b hb
      rw [List.mem_singleton.mp ha, List.mem_singleton.mp hb]
      decide
  · cases h

theorem calls_twoTenants : ∀ i o, (i, o) ∈ twoCalls.settled →
    ∀ c, ["acme", "beta"][i]? = some c → o = listAuditEvents.call c (oneAnswer c) := by
  intro i o ho c hc
  have hsettled : twoCalls.settled = [(1, listAuditEvents.call "beta" none),
      (0, listAuditEvents.call "acme" (oneAnswer "acme"))] := rfl
  rw [hsettled, List.mem_cons, List.mem_singleton] at ho
  rcases ho with ho | ho <;> obtain ⟨rfl, rfl⟩ := Prod.mk.inj ho <;>
    obtain rfl := Option.some.inj hc <;> rfl

theorem fanOut_newest_two : IsTop (listAuditEvents (J := Unit)).shown 1
    [listAuditEvents.render "acme" (eventAt "a" 1), listAuditEvents.render "acme" (eventAt "b" 2)]
    (listAuditEvents.page newestEvent (Listing.gathered
      [some [listAuditEvents.render "acme" (eventAt "b" 2)], none])) :=
  @fanOut_newest _ _ _ _ _ _ _ ["acme", "beta"] 4 _ answers_twoTenants
    (Runs.reached_foldl .start _) calls_twoTenants _ rfl

theorem auditPage_totals_two :
    ((auditPage newestEvent (Listing.gathered
      [some [listAuditEvents.render "acme" (eventAt "b" 2)], none])).totalsBySource.values).sum = 1 :=
  (@auditPage_totals _ _ _ _ ["acme", "beta"] 4 _ answers_twoTenants
    (Runs.reached_foldl .start _) calls_twoTenants _ rfl).2.2.2.2.1

end Brain.Admin
