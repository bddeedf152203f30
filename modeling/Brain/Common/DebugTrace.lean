/-
`src/src/common/debug-trace-core.ts`, `debug-trace.interceptor.ts` and `trace-buffer.service.ts`:
the traces of requests with `X-Brain-Debug: 1`.

A snapshot shares its spans and artifacts with the context of its request, so what the request's
code records after the snapshot was taken stands in it, too. The buffer counts the bytes of a
snapshot when it comes in and again when it goes; in between it may have grown, so the count is at
most what the buffer holds (`Inv.bytes_le`), and exact as long as nothing is recorded late
(`quiet_window`).

Of the snapshots' fields `ts` and `durationMs`, and those of a span besides its name and its parent,
are left out; no function reads them. An artifact's value is what the estimate sees of it.
-/
import Brain.Facts.FactsService
import Brain.Lib.Window

set_option autoImplicit false

namespace Brain.DebugTrace

open Window

/-! ## 1. Contexts -/

/-- A value that is to be recorded: of a string its length, of another one the length of its JSON
and, if it is an object or an array, how many keys it has. -/
inductive Raw where
  /-- `undefined` or `null`. -/
  | absent
  | text (length : ℕ)
  | json (length : ℕ) (keys : Option ℕ)
  | unserializable

inductive Value where
  | text (length : ℕ)
  | object (keys : ℕ)
  | other

def MAX_ARTIFACT_SIZE : ℕ := 32 * 1024

def MAX_ARTIFACTS_PER_REQUEST : ℕ := 200

def safeArtifact : Raw → Value
  | .absent => .other
  | .text length => if length ≤ MAX_ARTIFACT_SIZE then .text length else .object 3
  | .json length keys =>
      if length ≤ MAX_ARTIFACT_SIZE then
        match keys with
        | some k => .object k
        | none => .other
      else .object 3
  | .unserializable => .object 2

structure Span where
  name : String
  parentId : Option String

structure Artifact where
  name : String
  value : Value

/-- `brainAuth`; neither kind of credentials has an empty tenant. -/
structure Auth where
  companyId : String
  scopes : List BrainScope
  named : companyId ≠ ""

/-- `DebugContext`, and the request it is for. -/
structure Ctx where
  auth : Option Auth
  method : String
  path : String
  spans : List Span := []
  artifacts : List Artifact := []
  artifactsDropped : ℕ := 0

def Ctx.traceSpan (ctx : Ctx) (span : Span) : Ctx := { ctx with spans := ctx.spans ++ [span] }

def Ctx.traceArtifact (ctx : Ctx) (name : String) (value : Raw) : Ctx :=
  if MAX_ARTIFACTS_PER_REQUEST ≤ ctx.artifacts.length then
    { ctx with artifactsDropped := ctx.artifactsDropped + 1 }
  else { ctx with artifacts := ctx.artifacts ++ [⟨name, safeArtifact value⟩] }

/-! ## 2. Snapshots -/

/-- `DebugTraceSnapshot`, whose spans and artifacts are those of its context. -/
structure Snapshot where
  requestId : ℕ
  method : String
  path : String
  status : ℕ
  companyId : Option String
  errored : Option String
deriving DecidableEq

/-- A snapshot with its spans and artifacts, as it is read. -/
structure Trace where
  snapshot : Snapshot
  spans : List Span
  artifacts : List Artifact

/-- `captureSnapshot`. -/
def Ctx.captureSnapshot (ctx : Ctx) (requestId status : ℕ) (errored : Option String) :
    Option Snapshot :=
  match ctx.auth with
  | none => none
  | some auth =>
      if BrainScope.admin ∈ auth.scopes then
        some ⟨requestId, ctx.method, ctx.path, status, some auth.companyId, errored⟩
      else none

def Value.bytes : Value → ℕ
  | .text length => length
  | .object keys => keys * 64 + 64
  | .other => 32

/-- `estimateSnapshotBytes`. -/
def Ctx.estimateSnapshotBytes (ctx : Ctx) : ℕ :=
  256 + ctx.spans.length * 256 + (ctx.artifacts.map (fun a => a.value.bytes)).sum

/-! ## 3. The buffer -/

structure Config where
  byteBudget : ℕ
  /-- `DEBUG_TRACE_PERSIST`. -/
  persistEnabled : Bool

def capacity : ℕ := 100

/-- A row of `debug_trace` in the database of a tenant. -/
structure Row where
  db : String
  trace : Trace

structure State where
  /-- The contexts of the requests, by their ids. -/
  ctxs : List Ctx := []
  buffer : List Snapshot := []
  bufferBytes : ℤ := 0
  /-- What `stream` has emitted. -/
  stream : List Snapshot := []
  rows : List Row := []

inductive Event where
  | request (auth : Option Auth) (method path : String)
  | traceSpan (r : ℕ) (span : Span)
  | traceArtifact (r : ℕ) (name : String) (value : Raw)
  /-- The handler of a request has returned a value or thrown. -/
  | finish (r status : ℕ) (errored : Option String)
  /-- A snapshot is written to its tenant's database. -/
  | persist (snapshot : Snapshot)
  /-- A row is pruned. -/
  | prune (n : ℕ)

/-- A string that counts as true. -/
def truthy : Option String → Bool
  | some c => !c.isEmpty
  | none => false

section Buffer

variable (cfg : Config)

def State.estimate (s : State) (snapshot : Snapshot) : ℕ :=
  ((s.ctxs[snapshot.requestId]?).map Ctx.estimateSnapshotBytes).getD 0

def overCapacity (n : ℕ) (_ : ℤ) : Bool := decide (capacity < n)

def overBudget (n : ℕ) (bytes : ℤ) : Bool := decide ((cfg.byteBudget : ℤ) < bytes) && decide (1 < n)

/-- `add`. -/
def State.add (s : State) (snapshot : Snapshot) : State :=
  let byCount := popWhile overCapacity s.estimate (snapshot :: s.buffer)
    (s.bufferBytes + s.estimate snapshot)
  let byBytes := popWhile (overBudget cfg) s.estimate byCount.1 byCount.2
  { s with buffer := byBytes.1, bufferBytes := byBytes.2, stream := s.stream ++ [snapshot] }

def State.traceOf (s : State) (snapshot : Snapshot) : Trace where
  snapshot := snapshot
  spans := ((s.ctxs[snapshot.requestId]?).map Ctx.spans).getD []
  artifacts := ((s.ctxs[snapshot.requestId]?).map Ctx.artifacts).getD []

def step (s : State) : Event → State
  | .request auth method path => { s with ctxs := s.ctxs ++ [⟨auth, method, path, [], [], 0⟩] }
  | .traceSpan r span => { s with ctxs := s.ctxs.modify r (fun ctx => ctx.traceSpan span) }
  | .traceArtifact r name value =>
      { s with ctxs := s.ctxs.modify r (fun ctx => ctx.traceArtifact name value) }
  | .finish r status errored =>
      match s.ctxs[r]? with
      | none => s
      | some ctx =>
          match ctx.captureSnapshot r status errored with
          | none => s
          | some snapshot => s.add cfg snapshot
  | .persist snapshot =>
      match snapshot.companyId with
      | none => s
      | some companyId =>
          if cfg.persistEnabled && !companyId.isEmpty && decide (snapshot ∈ s.stream) then
            { s with rows := s.rows ++ [⟨companyId, s.traceOf snapshot⟩] }
          else s
  | .prune n => { s with rows := s.rows.eraseIdx n }

def run (events : List Event) : State := events.foldl (step cfg) {}

/-- `list`. -/
def State.list (s : State) (companyId : Option String) : List Snapshot :=
  if truthy companyId then s.buffer.filter (fun x => decide (x.companyId = companyId)) else s.buffer

/-- `streamTraces`: what has been emitted to a subscriber that was there from the start. -/
def State.streamTraces (s : State) (companyId : Option String) : List Snapshot :=
  s.stream.filter (fun x => !truthy companyId || decide (x.companyId = companyId))

/-- `get`. -/
def State.get (s : State) (requestId : ℕ) (companyId : Option String) : Option Trace :=
  match s.buffer.find? (fun x => decide (x.requestId = requestId)) with
  | some hit =>
      if truthy companyId && truthy hit.companyId && decide (hit.companyId ≠ companyId) then none
      else some (s.traceOf hit)
  | none =>
      if cfg.persistEnabled && truthy companyId then
        (s.rows.find? (fun row => decide (some row.db = companyId)
          && decide (row.trace.snapshot.requestId = requestId)
          && decide (row.trace.snapshot.companyId = companyId))).map Row.trace
      else none

end Buffer

/-! ## 4. What `add` leaves -/

section Add

variable (cfg : Config) (s : State) (x : Snapshot)

/-- The buffer after `add`, and what is gone. -/
theorem add_spec : ∃ gone, x :: s.buffer = (s.add cfg x).buffer ++ gone ∧
    (s.add cfg x).bufferBytes = s.bufferBytes + s.estimate x - weight s.estimate gone ∧
    (s.add cfg x).buffer ≠ [] ∧ (s.add cfg x).buffer.length ≤ capacity ∧
    ((s.add cfg x).bufferBytes ≤ cfg.byteBudget ∨ (s.add cfg x).buffer.length ≤ 1) ∧
    ∀ p q, x :: s.buffer = p ++ q → (s.add cfg x).buffer.length < p.length →
      capacity < p.length ∨
        ((cfg.byteBudget : ℤ) < s.bufferBytes + s.estimate x - weight s.estimate q ∧
          1 < p.length) := by
  obtain ⟨gone, hl, hleft, hstop, hall⟩ := popWhile_spec overCapacity s.estimate (x :: s.buffer)
    (s.bufferBytes + s.estimate x)
  have hone : ∀ t, overCapacity 1 t = false := fun _ => rfl
  have hone' : ∀ t, overBudget cfg 1 t = false := fun _ => Bool.and_false _
  have hne := popWhile_ne_nil (w := s.estimate) hone (List.cons_ne_nil x s.buffer)
    (s.bufferBytes + s.estimate x)
  set byCount := popWhile overCapacity s.estimate (x :: s.buffer) (s.bufferBytes + s.estimate x)
    with hcount
  obtain ⟨gone', hl', hleft', hstop', hall'⟩ := popWhile_spec (overBudget cfg) s.estimate byCount.1
    byCount.2
  have hne' := popWhile_ne_nil (w := s.estimate) hone' hne byCount.2
  set byBytes := popWhile (overBudget cfg) s.estimate byCount.1 byCount.2 with hbytes
  have hlen := congrArg List.length hl'
  rw [List.length_append] at hlen
  have hcapacity : byCount.1.length ≤ capacity := not_lt.mp (of_decide_eq_false (hstop hne))
  refine ⟨gone' ++ gone, ?_, ?_, hne', ?_, ?_, fun p q hpq hlt => ?_⟩
  · rw [hl, hl', List.append_assoc]
    rfl
  · show byBytes.2 = _
    rw [hleft', hleft, weight_append, Nat.cast_add]
    ring
  · show byBytes.1.length ≤ capacity
    omega
  · have hstop' := hstop' hne'
    rw [overBudget, Bool.and_eq_false_iff] at hstop'
    exact hstop'.imp (fun h => not_lt.mp (of_decide_eq_false h))
      (fun h => not_lt.mp (of_decide_eq_false h))
  · rcases Nat.lt_or_ge byCount.1.length p.length with hp | hp
    · exact Or.inl (of_decide_eq_true (hall p q hpq hp))
    · -- `p` is one of those that the second loop has left
      obtain ⟨r, hr⟩ : p <+: byCount.1 :=
        List.prefix_of_prefix_length_le ⟨q, hpq.symm⟩ ⟨gone, hl.symm⟩ hp
      have hq : q = r ++ gone := by
        rw [hpq, ← hr, List.append_assoc] at hl
        exact List.append_cancel_left hl
      have hover := hall' p r hr.symm hlt
      rw [overBudget, Bool.and_eq_true] at hover
      refine Or.inr ⟨?_, of_decide_eq_true hover.2⟩
      have hbudget := of_decide_eq_true hover.1
      rw [hleft] at hbudget
      rw [hq, weight_append, Nat.cast_add]
      omega

end Add

/-! ## 5. The invariant -/

section Invariant

variable {cfg : Config} {s s' : State} {events : List Event}

/-- The context of one request has recorded more. -/
structure Ctx.Grows (ctx ctx' : Ctx) : Prop where
  auth : ctx'.auth = ctx.auth
  spans : ctx.spans <+: ctx'.spans
  artifacts : ctx.artifacts <+: ctx'.artifacts

theorem Ctx.Grows.refl (ctx : Ctx) : ctx.Grows ctx :=
  ⟨rfl, List.prefix_refl _, List.prefix_refl _⟩

theorem grows_traceSpan (ctx : Ctx) (span : Span) : ctx.Grows (ctx.traceSpan span) :=
  ⟨rfl, List.prefix_append _ _, List.prefix_refl _⟩

theorem grows_traceArtifact (ctx : Ctx) (name : String) (value : Raw) :
    ctx.Grows (ctx.traceArtifact name value) := by
  unfold Ctx.traceArtifact
  split
  · exact ⟨rfl, List.prefix_refl _, List.prefix_refl _⟩
  · exact ⟨rfl, List.prefix_refl _, List.prefix_append _ _⟩

theorem Ctx.Grows.estimate_le {ctx ctx' : Ctx} (h : ctx.Grows ctx') :
    ctx.estimateSnapshotBytes ≤ ctx'.estimateSnapshotBytes := by
  have hspans := h.spans.length_le
  obtain ⟨more, hmore⟩ := h.artifacts
  unfold Ctx.estimateSnapshotBytes
  rw [← hmore, List.map_append, List.sum_append]
  omega

/-- The contexts are still there, and may have recorded more. -/
def State.Grows (s s' : State) : Prop :=
  ∀ (r : ℕ) (ctx : Ctx), s.ctxs[r]? = some ctx → ∃ ctx', s'.ctxs[r]? = some ctx' ∧ ctx.Grows ctx'

theorem grows_modify (s : State) (r : ℕ) {f : Ctx → Ctx} (hf : ∀ ctx : Ctx, ctx.Grows (f ctx)) :
    s.Grows { s with ctxs := s.ctxs.modify r f } := by
  intro r' ctx hctx
  show ∃ ctx', (s.ctxs.modify r f)[r']? = some ctx' ∧ _
  rw [List.getElem?_modify, hctx]
  refine ⟨if r = r' then f ctx else ctx, rfl, ?_⟩
  split
  · exact hf ctx
  · exact .refl ctx

theorem grows_request (s : State) (ctx : Ctx) : s.Grows { s with ctxs := s.ctxs ++ [ctx] } :=
  fun _ ctx' hctx => ⟨ctx', (List.getElem?_append_left (List.getElem?_eq_some_iff.mp hctx).1).trans
    hctx, .refl ctx'⟩

theorem State.Grows.estimate_le (h : s.Grows s') (x : Snapshot) : s.estimate x ≤ s'.estimate x := by
  unfold State.estimate
  cases hctx : s.ctxs[x.requestId]? with
  | none => exact Nat.zero_le _
  | some ctx =>
      obtain ⟨ctx', hctx', hgrows⟩ := h _ ctx hctx
      rw [hctx']
      exact hgrows.estimate_le

/-- A snapshot of a request that an admin of the tenant has made. -/
def State.Of (s : State) (companyId : String) (x : Snapshot) : Prop :=
  ∃ ctx auth, s.ctxs[x.requestId]? = some ctx ∧ ctx.auth = some auth ∧ .admin ∈ auth.scopes ∧
    auth.companyId = companyId ∧ x.companyId = some companyId

/-- A trace whose spans and artifacts are what its own request has recorded. -/
def State.Own (s : State) (t : Trace) : Prop :=
  ∃ ctx, s.ctxs[t.snapshot.requestId]? = some ctx ∧ t.spans <+: ctx.spans ∧
    t.artifacts <+: ctx.artifacts

structure Inv (cfg : Config) (s : State) : Prop where
  initial : s.buffer <+: s.stream.reverse
  length_le : s.buffer.length ≤ capacity
  newest : s.stream ≠ [] → s.buffer ≠ []
  /-- The count is at most what the buffer holds. -/
  bytes_le : s.bufferBytes ≤ weight s.estimate s.buffer
  budget : s.bufferBytes ≤ cfg.byteBudget ∨ s.buffer.length ≤ 1
  taken : ∀ x ∈ s.stream, ∃ companyId, companyId ≠ "" ∧ s.Of companyId x
  rows : ∀ row ∈ s.rows, row.trace.snapshot ∈ s.stream ∧
    row.trace.snapshot.companyId = some row.db ∧ s.Own row.trace

theorem State.Grows.of_mem (h : s.Grows s') {c : String} {x : Snapshot} (hx : s.Of c x) :
    s'.Of c x := by
  obtain ⟨ctx, auth, hctx, hauth, hadmin, hc, hx⟩ := hx
  obtain ⟨ctx', hctx', hgrows⟩ := h _ ctx hctx
  exact ⟨ctx', auth, hctx', hgrows.auth.trans hauth, hadmin, hc, hx⟩

theorem State.Grows.own (h : s.Grows s') {t : Trace} (ht : s.Own t) : s'.Own t := by
  obtain ⟨ctx, hctx, hspans, hartifacts⟩ := ht
  obtain ⟨ctx', hctx', hgrows⟩ := h _ ctx hctx
  exact ⟨ctx', hctx', hspans.trans hgrows.spans, hartifacts.trans hgrows.artifacts⟩

theorem weight_mono {w w' : Snapshot → ℕ} (h : ∀ x, w x ≤ w' x) (l : List Snapshot) :
    weight w l ≤ weight w' l := List.sum_le_sum (fun x _ => h x)

theorem inv_start : Inv cfg {} where
  initial := List.prefix_refl _
  length_le := Nat.zero_le _
  newest h := absurd rfl h
  bytes_le := le_refl 0
  budget := Or.inr (Nat.zero_le _)
  taken _ hx := absurd hx List.not_mem_nil
  rows _ hrow := absurd hrow List.not_mem_nil

/-- What is recorded late makes the count too small, not too great. -/
theorem Inv.grow (h : Inv cfg s) {ctxs : List Ctx} (hgrows : s.Grows { s with ctxs := ctxs }) :
    Inv cfg { s with ctxs := ctxs } where
  initial := h.initial
  length_le := h.length_le
  newest := h.newest
  bytes_le := h.bytes_le.trans (by exact_mod_cast weight_mono hgrows.estimate_le s.buffer)
  budget := h.budget
  taken x hx := (h.taken x hx).imp (fun _ hc => ⟨hc.1, hgrows.of_mem hc.2⟩)
  rows row hrow := ⟨(h.rows row hrow).1, (h.rows row hrow).2.1, hgrows.own (h.rows row hrow).2.2⟩

theorem Inv.add (h : Inv cfg s) {x : Snapshot} {c : String} (hc : c ≠ "") (hx : s.Of c x) :
    Inv cfg (s.add cfg x) := by
  obtain ⟨gone, hall, hbytes, hne, hlength, hbudget, _⟩ := add_spec cfg s x
  refine ⟨?_, hlength, fun _ => hne, ?_, hbudget, fun y hy => ?_, fun row hrow => ?_⟩
  · have hstream : (s.add cfg x).stream.reverse = x :: s.stream.reverse := List.reverse_append
    rw [hstream]
    exact List.IsPrefix.trans ⟨gone, hall.symm⟩ (List.cons_prefix_cons.mpr ⟨rfl, h.initial⟩)
  · have hweight := congrArg (weight s.estimate) hall
    rw [weight_append, weight, List.map_cons, List.sum_cons] at hweight
    have hle := h.bytes_le
    show (s.add cfg x).bufferBytes ≤ (weight s.estimate (s.add cfg x).buffer : ℕ)
    rw [weight] at hle
    omega
  · rcases List.mem_append.mp hy with hy | hy
    · exact h.taken y hy
    · obtain rfl := List.mem_singleton.mp hy
      exact ⟨c, hc, hx⟩
  · exact ⟨List.mem_append_left _ (h.rows row hrow).1, (h.rows row hrow).2⟩

/-- A snapshot is of its own request, and only of one that an admin has made. -/
theorem of_captureSnapshot {r status : ℕ} {errored : Option String} {ctx : Ctx} {x : Snapshot}
    (hctx : s.ctxs[r]? = some ctx) (hx : ctx.captureSnapshot r status errored = some x) :
    x.requestId = r ∧ ∃ c, c ≠ "" ∧ s.Of c x := by
  unfold Ctx.captureSnapshot at hx
  split at hx
  · cases hx
  · next auth hauth =>
      split at hx
      · next hadmin =>
          cases hx
          exact ⟨rfl, auth.companyId, auth.named, ctx, auth, hctx, hauth, hadmin, rfl, rfl⟩
      · cases hx

theorem Inv.own (h : Inv cfg s) {x : Snapshot} (hx : x ∈ s.stream) : s.Own (s.traceOf x) := by
  obtain ⟨_, _, ctx, _, hctx, _⟩ := h.taken x hx
  refine ⟨ctx, hctx, ?_, ?_⟩
  · rw [State.traceOf, hctx]
    exact List.prefix_refl _
  · rw [State.traceOf, hctx]
    exact List.prefix_refl _

theorem Inv.step (h : Inv cfg s) (e : Event) : Inv cfg (step cfg s e) := by
  cases e with
  | request auth method path => exact h.grow (grows_request s _)
  | traceSpan r span => exact h.grow (grows_modify s r (fun ctx => grows_traceSpan ctx span))
  | traceArtifact r name value =>
      exact h.grow (grows_modify s r (fun ctx => grows_traceArtifact ctx name value))
  | finish r status errored =>
      simp only [DebugTrace.step]
      split
      · exact h
      · next ctx hctx =>
          split
          · exact h
          · next x hx =>
              obtain ⟨_, c, hc, hof⟩ := of_captureSnapshot hctx hx
              exact h.add hc hof
  | persist x =>
      simp only [DebugTrace.step]
      split
      · exact h
      · next c hc =>
          split
          · next hon =>
              have hx : x ∈ s.stream := of_decide_eq_true ((Bool.and_eq_true _ _).mp hon).2
              refine { h with rows := fun row hrow => ?_ }
              rcases List.mem_append.mp hrow with hrow | hrow
              · exact h.rows row hrow
              · obtain rfl := List.mem_singleton.mp hrow
                exact ⟨hx, hc, h.own hx⟩
          · exact h
  | prune n =>
      exact { h with rows := fun row hrow => h.rows row (List.eraseIdx_subset hrow) }

theorem inv_run (cfg : Config) (events : List Event) : Inv cfg (run cfg events) := by
  induction events using List.reverseRecOn with
  | nil => exact inv_start
  | append_singleton events e ih =>
      rw [run, List.foldl_append]
      exact ih.step e

end Invariant

/-! ## 6. When nothing is recorded late -/

section Quiet

variable {cfg : Config} {s s' : State} {events : List Event}

def Event.finishes : Event → Option ℕ
  | .finish r _ _ => some r
  | _ => none

def Event.records : Event → Option ℕ
  | .traceSpan r _ => some r
  | .traceArtifact r _ _ => some r
  | _ => none

/-- No request records anything once it has finished. -/
def Quiet (events : List Event) : Prop :=
  events.Pairwise (fun e e' => ∀ r, e.finishes = some r → e'.records ≠ some r)

/-- The snapshots are at most a hundred, and in the budget unless there is only one. -/
def Fits (cfg : Config) (w : Snapshot → ℕ) (l : List Snapshot) : Prop :=
  l.length ≤ capacity ∧ (weight w l ≤ cfg.byteBudget ∨ l.length ≤ 1)

structure Exact (cfg : Config) (s : State) : Prop where
  bytes : s.bufferBytes = weight s.estimate s.buffer
  /-- The buffer holds as many of the newest snapshots as fit. -/
  window : Longest (Fits cfg s.estimate) s.buffer s.stream.reverse

theorem fits_tail (w : Snapshot → ℕ) (x : Snapshot) (l : List Snapshot)
    (h : Fits cfg w (x :: l)) : Fits cfg w l := by
  obtain ⟨hlength, hweight⟩ := h
  rw [weight, List.map_cons, List.sum_cons, List.length_cons] at hweight
  rw [List.length_cons] at hlength
  refine ⟨by omega, ?_⟩
  rw [weight]
  omega

theorem Exact.add (h : Exact cfg s) (x : Snapshot) : Exact cfg (s.add cfg x) := by
  obtain ⟨gone, hall, hbytes, hne, hlength, hbudget, hmore⟩ := add_spec cfg s x
  have hweight : (weight s.estimate (x :: s.buffer) : ℤ) = s.bufferBytes + s.estimate x := by
    rw [h.bytes, weight, List.map_cons, List.sum_cons, weight]
    push_cast
    ring
  have hexact : (s.add cfg x).bufferBytes = weight s.estimate (s.add cfg x).buffer := by
    rw [hbytes, ← hweight, hall, weight_append]
    push_cast
    ring
  refine ⟨hexact, ?_⟩
  have hstream : (s.add cfg x).stream.reverse = x :: s.stream.reverse := List.reverse_append
  rw [hstream]
  refine h.window.push (fits_tail s.estimate) ⟨⟨gone, hall.symm⟩, ⟨hlength, ?_⟩, ?_⟩
  · rw [hexact] at hbudget
    exact hbudget.imp_left (fun h => (by exact_mod_cast h))
  · rintro p ⟨q, hpq⟩ ⟨hfits, hfits'⟩
    refine not_lt.mp (fun hlt => ?_)
    rcases hmore p q hpq.symm hlt with hover | ⟨hover, hone⟩
    · omega
    · have hp : (weight s.estimate p : ℤ) = s.bufferBytes + s.estimate x - weight s.estimate q := by
        rw [← hweight, ← hpq, weight_append]
        push_cast
        ring
      rw [← hp] at hover
      have hover : cfg.byteBudget < weight s.estimate p := by exact_mod_cast hover
      omega

/-- Only the sizes of the snapshots count that have been taken. -/
theorem Exact.congr (h : Exact cfg s) (hbuffer : s'.buffer = s.buffer)
    (hbytes : s'.bufferBytes = s.bufferBytes) (hstream : s'.stream = s.stream)
    (hsame : ∀ x ∈ s.stream, s'.estimate x = s.estimate x) : Exact cfg s' := by
  have hweight : ∀ p, p <+: s.stream.reverse → weight s'.estimate p = weight s.estimate p := by
    intro p hp
    refine congrArg List.sum (List.map_congr_left (fun x hx => hsame x ?_))
    exact List.mem_reverse.mp (hp.subset hx)
  refine ⟨?_, ?_⟩
  · rw [hbytes, hbuffer, hweight _ h.window.initial]
    exact h.bytes
  · rw [hbuffer, hstream]
    refine ⟨h.window.initial, ?_, fun p hp hfits => h.window.longest p hp ?_⟩
    · rw [Fits, hweight _ h.window.initial]
      exact h.window.fits
    · rwa [Fits, hweight p hp] at hfits

/-- What has been taken is of requests that have finished. -/
theorem finished_of_stream : ∀ (events : List Event), ∀ x ∈ (run cfg events).stream,
    ∃ e ∈ events, e.finishes = some x.requestId := by
  intro events
  induction events using List.reverseRecOn with
  | nil => exact fun x hx => absurd hx List.not_mem_nil
  | append_singleton events e ih =>
      intro x hx
      rw [run, List.foldl_append] at hx
      have hold : x ∈ (run cfg events).stream → ∃ e' ∈ events ++ [e],
          e'.finishes = some x.requestId := by
        intro hx
        obtain ⟨e', he', hfinishes⟩ := ih x hx
        exact ⟨e', List.mem_append_left _ he', hfinishes⟩
      cases e with
      | request auth method path => exact hold hx
      | traceSpan r span => exact hold hx
      | traceArtifact r name value => exact hold hx
      | finish r status errored =>
          simp only [List.foldl_cons, List.foldl_nil, step] at hx
          split at hx
          · exact hold hx
          · next ctx hctx =>
              split at hx
              · exact hold hx
              · next y hy =>
                  rcases List.mem_append.mp hx with hx | hx
                  · exact hold hx
                  · obtain rfl := List.mem_singleton.mp hx
                    obtain ⟨hid, _⟩ := of_captureSnapshot hctx hy
                    exact ⟨_, List.mem_append_right _ (List.mem_singleton_self _),
                      congrArg some hid.symm⟩
      | persist y =>
          simp only [List.foldl_cons, List.foldl_nil, step] at hx
          split at hx
          · exact hold hx
          · split at hx <;> exact hold hx
      | prune n => exact hold hx

theorem estimate_modify {r : ℕ} {f : Ctx → Ctx} {x : Snapshot} (h : r ≠ x.requestId) :
    State.estimate { s with ctxs := s.ctxs.modify r f } x = s.estimate x := by
  show ((s.ctxs.modify r f)[x.requestId]?.map _).getD 0 = _
  rw [List.getElem?_modify_ne _ _ h]
  rfl

/-- **The window**, if nothing is recorded late. -/
theorem quiet_window (cfg : Config) : ∀ events : List Event, Quiet events →
    Exact cfg (run cfg events) := by
  intro events
  induction events using List.reverseRecOn with
  | nil => exact fun _ => ⟨rfl, ⟨List.prefix_refl _, ⟨Nat.zero_le _, Or.inr (Nat.zero_le _)⟩,
      fun p hp _ => hp.length_le⟩⟩
  | append_singleton events e ih =>
      intro hquiet
      obtain ⟨hbefore, _, hlast⟩ := List.pairwise_append.mp hquiet
      have h := ih hbefore
      have hi := inv_run cfg events
      have hlate : ∀ x ∈ (run cfg events).stream, e.records ≠ some x.requestId := by
        intro x hx
        obtain ⟨e', he', hfinishes⟩ := finished_of_stream events x hx
        exact hlast e' he' e (List.mem_singleton_self e) _ hfinishes
      rw [run, List.foldl_append]
      cases e with
      | request auth method path =>
          refine h.congr rfl rfl rfl (fun x hx => ?_)
          obtain ⟨_, _, _, _, hctx, _⟩ := hi.taken x hx
          show (((run cfg events).ctxs ++ [_])[x.requestId]?.map _).getD 0 = _
          rw [List.getElem?_append_left (List.getElem?_eq_some_iff.mp hctx).1]
          rfl
      | traceSpan r span =>
          exact h.congr rfl rfl rfl (fun x hx =>
            estimate_modify (fun hr => hlate x hx (congrArg some hr)))
      | traceArtifact r name value =>
          exact h.congr rfl rfl rfl (fun x hx =>
            estimate_modify (fun hr => hlate x hx (congrArg some hr)))
      | finish r status errored =>
          simp only [List.foldl_cons, List.foldl_nil, step]
          split
          · exact h
          · split
            · exact h
            · exact h.add _
      | persist y =>
          simp only [List.foldl_cons, List.foldl_nil, step]
          split
          · exact h
          · split
            · exact h.congr rfl rfl rfl (fun _ _ => rfl)
            · exact h
      | prune n => exact h.congr rfl rfl rfl (fun _ _ => rfl)

/-- A span that comes late is not counted. -/
example :
    let s := run ⟨1000, false⟩ [.request (some ⟨"t", [.admin], by decide⟩) "GET" "/v1/search",
      .finish 0 200 none, .traceSpan 0 ⟨"late", none⟩]
    s.bufferBytes = 256 ∧ weight s.estimate s.buffer = 512 := by
  decide

end Quiet

/-! ## 7. What is shown -/

section Shown

variable {cfg : Config} {s : State}

/-- The buffer, in any case. -/
structure Kept (cfg : Config) (s : State) : Prop where
  /-- The oldest snapshots go first, and the newest one stays. -/
  initial : s.buffer <+: s.stream.reverse
  length_le : s.buffer.length ≤ 100
  newest : s.stream ≠ [] → s.buffer ≠ []
  bytes_le : s.bufferBytes ≤ weight s.estimate s.buffer
  budget : s.bufferBytes ≤ cfg.byteBudget ∨ s.buffer.length ≤ 1

/-- What an admin of a tenant is shown. -/
structure Shown (cfg : Config) (s : State) (c : String) : Prop where
  list : ∀ x, x ∈ s.list (some c) ↔ x ∈ s.buffer ∧ s.Of c x
  stream : ∀ x, x ∈ s.streamTraces (some c) ↔ x ∈ s.stream ∧ s.Of c x
  get : ∀ r t, s.get cfg r (some c) = some t →
    t.snapshot.requestId = r ∧ s.Of c t.snapshot ∧ s.Own t
  /-- What is listed can be read. -/
  listed : ∀ x ∈ s.list (some c), ∃ t, s.get cfg x.requestId (some c) = some t

theorem truthy_some {c : String} (hc : c ≠ "") : truthy (some c) = true := by
  show (!c.isEmpty) = true
  rw [Bool.not_eq_true', Bool.eq_false_iff]
  exact fun h => hc (String.isEmpty_iff.mp h)

theorem State.Of.unique {c c' : String} {x : Snapshot} (h : s.Of c x)
    (h' : x.companyId = some c') : s.Of c' x := by
  obtain ⟨_, _, _, _, _, _, hx⟩ := id h
  obtain rfl : c = c' := Option.some.inj (hx.symm.trans h')
  exact h

theorem Inv.of_mem (h : Inv cfg s) {c : String} {x : Snapshot} (hx : x ∈ s.stream) :
    x.companyId = some c ↔ s.Of c x := by
  obtain ⟨c', _, hof⟩ := h.taken x hx
  exact ⟨fun hc => hof.unique hc, fun ⟨_, _, _, _, _, _, hc⟩ => hc⟩

theorem Inv.shown (h : Inv cfg s) {c : String} (hc : c ≠ "") : Shown cfg s c := by
  have hsub : ∀ x ∈ s.buffer, x ∈ s.stream :=
    fun x hx => List.mem_reverse.mp (h.initial.subset hx)
  have hlist : ∀ x, x ∈ s.list (some c) ↔ x ∈ s.buffer ∧ s.Of c x := by
    intro x
    rw [State.list, if_pos (truthy_some hc), List.mem_filter, decide_eq_true_iff]
    exact and_congr_right (fun hx => h.of_mem (hsub x hx))
  refine ⟨hlist, fun x => ?_, fun r t hget => ?_, fun x hx => ?_⟩
  · rw [State.streamTraces, List.mem_filter, truthy_some hc, Bool.not_true, Bool.false_or,
      decide_eq_true_iff]
    exact and_congr_right (fun hx => h.of_mem hx)
  · unfold State.get at hget
    split at hget
    · next hit hfind =>
        split at hget
        · cases hget
        · next hshown =>
            cases hget
            have hmem := hsub hit (List.mem_of_find?_eq_some hfind)
            obtain ⟨c', hc', hof⟩ := h.taken hit hmem
            obtain ⟨_, _, _, _, _, _, hcompany⟩ := id hof
            rw [truthy_some hc, hcompany, truthy_some hc', Bool.true_and, Bool.true_and,
              decide_eq_true_iff, not_not] at hshown
            have hid := List.find?_some hfind
            rw [decide_eq_true_iff] at hid
            refine ⟨hid, ?_, h.own hmem⟩
            exact hof.unique (hcompany.trans hshown)
    · split at hget
      · obtain ⟨row, hfind, rfl⟩ := Option.map_eq_some_iff.mp hget
        obtain ⟨hstream, _, hown⟩ := h.rows row (List.mem_of_find?_eq_some hfind)
        have hmatch := List.find?_some hfind
        rw [Bool.and_eq_true, Bool.and_eq_true, decide_eq_true_iff, decide_eq_true_iff,
          decide_eq_true_iff] at hmatch
        exact ⟨hmatch.1.2, (h.of_mem hstream).mp hmatch.2, hown⟩
      · cases hget
  · obtain ⟨hbuffer, ctx, auth, hctx, hauth, _, hcompany, _⟩ := (hlist x).mp hx
    cases hfind : s.buffer.find? (fun y => decide (y.requestId = x.requestId)) with
    | none => exact absurd (List.find?_eq_none.mp hfind x hbuffer) (by simp)
    | some hit =>
        -- the first snapshot of the request is of the same tenant
        have hid := List.find?_some hfind
        rw [decide_eq_true_iff] at hid
        obtain ⟨c', _, ctx', auth', hctx', hauth', _, hcompany', hhit⟩ :=
          h.taken hit (hsub hit (List.mem_of_find?_eq_some hfind))
        rw [hid, hctx] at hctx'
        obtain rfl := Option.some.inj hctx'
        rw [hauth] at hauth'
        obtain rfl := Option.some.inj hauth'
        obtain rfl : c = c' := hcompany.symm.trans hcompany'
        refine ⟨s.traceOf hit, ?_⟩
        rw [State.get, hfind]
        dsimp only
        rw [hhit, if_neg (by simp)]

/-- **Traces**, for every order in which requests start, record, finish and are written. (1) The
buffer holds an initial segment of the snapshots that were taken, the newest first: at most a
hundred, and by its own count within the budget unless there is only one; the count never exceeds
what is held. (2) An admin is shown the snapshots of the requests that admins of the same tenant
have made, and with each what this request has recorded. (3) If nothing is recorded late, the count
is exact and the buffer holds as many of the newest snapshots as fit. -/
theorem traces_spec (cfg : Config) (events : List Event) :
    Kept cfg (run cfg events) ∧ (∀ c, c ≠ "" → Shown cfg (run cfg events) c) ∧
      (Quiet events → Exact cfg (run cfg events)) := by
  have h := inv_run cfg events
  exact ⟨⟨h.initial, h.length_le, h.newest, h.bytes_le, h.budget⟩, fun c hc => h.shown hc,
    quiet_window cfg events⟩

end Shown

end Brain.DebugTrace
