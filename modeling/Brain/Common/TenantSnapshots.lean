/-
The snapshots of a tenant's tables that three services keep for a minute:
`src/src/ai/predicate-registry.service.ts`, `src/src/ai/extraction-pattern.service.ts` and
`src/src/admin/collapse-pattern.service.ts`.

`getSnapshot` answers from the cache if the entry is younger than `SNAPSHOT_TTL_MS`, and else loads
the table and puts what it has loaded into the cache. A write ends with `invalidate`. The load is
awaited, so other calls come between the lookup, the query and the `set`, and a load that has read
before a write puts its snapshot back after the write's `invalidate`. What can still be said is
`snapshot_fresh`: how old a snapshot can be, and when a write is seen at once.
-/
import Brain.Ai.LocalSynth
import Brain.Ai.PredicateRegistryService
import Brain.ChatRouter.LocalPrepass
import Brain.Common.LRUCache

set_option autoImplicit false

namespace Brain.TenantSnapshots

variable {κ D S : Type} [DecidableEq κ]

/-! ## The services -/

def SNAPSHOT_TTL_MS : Time := 60000

structure Service (D S : Type) where
  loadFresh : D → S
  /-- What `loadFresh` returns when its query fails; without it, it throws. -/
  onFailure : Option S
  capacity : ℕ

/-- `PredicateRegistryService`. -/
def predicateRegistry (capacity : ℕ) : Service (List TenantPredicate) Brain.PredicateSnapshot where
  loadFresh := Brain.loadFresh
  onFailure := none
  capacity := capacity

/-- `ExtractionPatternService`. -/
def extractionPatterns (libs : ExtractorLibs) (capacity : ℕ) :
    Service (LocalSynth.PatternRows libs) (LocalSynth.PatternRows libs) where
  loadFresh := LocalSynth.loadFresh libs
  onFailure := some .empty
  capacity := capacity

/-- `CollapsePatternService`: the patterns under their lower-cased text. -/
def collapsePatterns (libs : ChatRouter.RouterLibs) (capacity : ℕ) :
    Service (List ChatRouter.CollapsePattern)
      (InsertionMap ChatRouter.Text ChatRouter.CollapsePattern) where
  loadFresh rows := .ofList (rows.map (fun r => (libs.toLowerCase r.pattern, r)))
  onFailure := some .empty
  capacity := capacity

/-! ## The calls -/

/-- What a load has read: at which time, and after how many writes. -/
structure Read (S : Type) where
  snapshot : S
  time : Time
  seen : ℕ
  failed : Bool

/-- An entry of the cache; `read` is where it comes from. -/
structure Entry (S : Type) where
  snapshot : S
  loadedAt : Time
  read : Read S

/-- How far a call of `getSnapshot` has come. -/
inductive Progress (S : Type) where
  | loading
  | queried (r : Read S)
  | returned (time : Time) (e : Entry S)
  | thrown

structure Call (κ S : Type) where
  key : κ
  progress : Progress S

/-- `rows` is the table of each tenant, `log` its writes with their times, the last one first. -/
structure State (κ D S : Type) where
  now : Time
  rows : κ → D
  log : κ → List (Time × D)
  cache : InsertionMap κ (Entry S) := .empty
  calls : List (Call κ S) := []

inductive Event (κ D : Type) where
  | tick (ms : ℕ)
  /-- A statement of some writer. -/
  | write (k : κ) (d : D)
  | invalidate (k : κ)
  | get (k : κ)
  /-- The query of the call, which fails or not. -/
  | query (call : ℕ) (answers : Bool)
  /-- The rest of the call. -/
  | finish (call : ℕ)

def State.start (rows : κ → D) : State κ D S where
  now := 0
  rows := rows
  log k := [(0, rows k)]

/-- `getSnapshot`, as far as it comes before it awaits the load. -/
def getSnapshot (s : State κ D S) (k : κ) : State κ D S :=
  let cached := s.cache.lruGet k
  match cached.1 with
  | some e =>
      if s.now - e.loadedAt < SNAPSHOT_TTL_MS then
        { s with cache := cached.2, calls := s.calls ++ [⟨k, .returned s.now e⟩] }
      else { s with cache := cached.2, calls := s.calls ++ [⟨k, .loading⟩] }
  | none => { s with cache := cached.2, calls := s.calls ++ [⟨k, .loading⟩] }

/-- The query in `loadFresh`. -/
def queryRows (sv : Service D S) (s : State κ D S) (k : κ) (answers : Bool) : Progress S :=
  if answers then .queried ⟨sv.loadFresh (s.rows k), s.now, (s.log k).length, false⟩
  else match sv.onFailure with
    | some x => .queried ⟨x, s.now, (s.log k).length, true⟩
    | none => .thrown

def step (sv : Service D S) (s : State κ D S) : Event κ D → State κ D S
  | .tick ms => { s with now := s.now + ms }
  | .write k d => { s with
      rows := Function.update s.rows k d
      log := Function.update s.log k ((s.now, d) :: s.log k) }
  | .invalidate k => { s with cache := s.cache.delete k }
  | .get k => getSnapshot s k
  | .query n answers =>
      match s.calls[n]? with
      | some ⟨k, .loading⟩ => { s with calls := s.calls.set n ⟨k, queryRows sv s k answers⟩ }
      | _ => s
  | .finish n =>
      match s.calls[n]? with
      | some ⟨k, .queried r⟩ =>
          let e : Entry S := ⟨r.snapshot, s.now, r⟩
          { s with
            cache := s.cache.lruSet sv.capacity k e
            calls := s.calls.set n ⟨k, .returned s.now e⟩ }
      | _ => s

/-! ## What a load has read -/

variable {sv : Service D S} {s s' : State κ D S} {k : κ}

/-- The read took the table as some write left it, and the writes that it did not see came after
it. -/
def Sound (sv : Service D S) (s : State κ D S) (k : κ) (r : Read S) : Prop :=
  r.time ≤ s.now ∧ ∃ newer older t d, s.log k = newer ++ (t, d) :: older ∧
    older.length + 1 = r.seen ∧ (∀ w ∈ newer, r.time ≤ w.1) ∧
    (r.failed = false → r.snapshot = sv.loadFresh d) ∧
    (r.failed = true → sv.onFailure = some r.snapshot)

structure SoundEntry (sv : Service D S) (s : State κ D S) (k : κ) (e : Entry S) : Prop where
  read : Sound sv s k e.read
  snapshot : e.snapshot = e.read.snapshot
  after : e.read.time ≤ e.loadedAt
  past : e.loadedAt ≤ s.now

def SoundProgress (sv : Service D S) (s : State κ D S) (k : κ) : Progress S → Prop
  | .loading => True
  | .queried r => Sound sv s k r
  | .returned t e => SoundEntry sv s k e ∧ t < e.loadedAt + SNAPSHOT_TTL_MS
  | .thrown => True

structure Inv (sv : Service D S) (s : State κ D S) : Prop where
  current : ∀ k, ∃ t older, s.log k = (t, s.rows k) :: older
  entries : ∀ k e, (k, e) ∈ s.cache.entries → SoundEntry sv s k e
  calls : ∀ c ∈ s.calls, SoundProgress sv s c.key c.progress

omit [DecidableEq κ] in
/-- Time has passed, and the tables have been written since. -/
def Later (s s' : State κ D S) : Prop :=
  s.now ≤ s'.now ∧ ∀ k, ∃ new, s'.log k = new ++ s.log k ∧ ∀ w ∈ new, s.now ≤ w.1

omit [DecidableEq κ] in
theorem Later.of_eq (hnow : s'.now = s.now) (hlog : s'.log = s.log) : Later s s' :=
  ⟨hnow.ge, fun k => ⟨[], by rw [hlog]; rfl, fun w hw => by cases hw⟩⟩

omit [DecidableEq κ] in
theorem Sound.later {r : Read S} (h : Sound sv s k r) (hlater : Later s s') : Sound sv s' k r := by
  obtain ⟨hpast, newer, older, t, d, hlog, hseen, hnewer, hread⟩ := h
  obtain ⟨new, hnew, hafter⟩ := hlater.2 k
  refine ⟨hpast.trans hlater.1, new ++ newer, older, t, d, ?_, hseen, fun w hw => ?_, hread⟩
  · rw [hnew, hlog, List.append_assoc]
  · rcases List.mem_append.mp hw with hw | hw
    · exact hpast.trans (hafter w hw)
    · exact hnewer w hw

omit [DecidableEq κ] in
theorem SoundEntry.later {e : Entry S} (h : SoundEntry sv s k e) (hlater : Later s s') :
    SoundEntry sv s' k e :=
  ⟨h.read.later hlater, h.snapshot, h.after, h.past.trans hlater.1⟩

omit [DecidableEq κ] in
theorem SoundProgress.later {p : Progress S} (h : SoundProgress sv s k p) (hlater : Later s s') :
    SoundProgress sv s' k p := by
  cases p with
  | loading => trivial
  | queried r => exact Sound.later h hlater
  | returned t e => exact ⟨h.1.later hlater, h.2⟩
  | thrown => trivial

/-! ## Each step -/

theorem later_step (sv : Service D S) (s : State κ D S) (ev : Event κ D) :
    Later s (step sv s ev) := by
  cases ev with
  | tick ms => exact ⟨by simp [step], fun k => ⟨[], rfl, fun w hw => by cases hw⟩⟩
  | write k d =>
      refine ⟨le_rfl, fun k' => ?_⟩
      by_cases hk : k' = k
      · subst hk
        exact ⟨[(s.now, d)], Function.update_self .., fun w hw => by
          rw [List.mem_singleton.mp hw]⟩
      · exact ⟨[], Function.update_of_ne hk _ _, fun w hw => by cases hw⟩
  | invalidate k => exact Later.of_eq rfl rfl
  | get k =>
      refine Later.of_eq ?_ ?_ <;>
      · unfold step getSnapshot
        dsimp only
        split
        · split <;> rfl
        · rfl
  | query n answers =>
      refine Later.of_eq ?_ ?_ <;>
      · unfold step
        dsimp only
        split <;> rfl
  | finish n =>
      refine Later.of_eq ?_ ?_ <;>
      · unfold step
        dsimp only
        split <;> rfl

omit [DecidableEq κ] in
/-- A query reads the table as it is. -/
theorem Inv.queried (h : Inv sv s) (k : κ) (answers : Bool) :
    SoundProgress sv s k (queryRows sv s k answers) := by
  obtain ⟨t, older, hlog⟩ := h.current k
  have hseen : older.length + 1 = (s.log k).length := by rw [hlog, List.length_cons]
  unfold queryRows
  split
  · exact ⟨le_rfl, [], older, t, s.rows k, hlog, hseen, fun w hw => (by cases hw),
      fun _ => rfl, fun hf => (by cases hf)⟩
  · split
    · next x hx =>
        exact ⟨le_rfl, [], older, t, s.rows k, hlog, hseen, fun w hw => (by cases hw),
          fun hf => (by cases hf), fun _ => hx⟩
    · trivial

theorem Inv.cached (h : Inv sv s) {e : Entry S} (hget : (s.cache.lruGet k).1 = some e) :
    SoundEntry sv s k e := by
  unfold InsertionMap.lruGet at hget
  cases hfound : s.cache.get? k with
  | none =>
      rw [hfound] at hget
      cases hget
  | some e' =>
      rw [hfound] at hget
      obtain rfl := Option.some.inj hget
      exact h.entries k e' (InsertionMap.mem_of_get? hfound)

omit [DecidableEq κ] in
/-- A step that only moves calls on. -/
theorem Inv.of_eq (h : Inv sv s) (hnow : s'.now = s.now) (hrows : s'.rows = s.rows)
    (hlog : s'.log = s.log)
    (hentries : ∀ k e, (k, e) ∈ s'.cache.entries → SoundEntry sv s k e)
    (hcalls : ∀ c ∈ s'.calls, SoundProgress sv s c.key c.progress) : Inv sv s' := by
  have hlater : Later s s' := Later.of_eq hnow hlog
  refine ⟨fun k => ?_, fun k e he => (hentries k e he).later hlater,
    fun c hc => (hcalls c hc).later hlater⟩
  rw [hlog, hrows]
  exact h.current k

theorem Inv.step (h : Inv sv s) (ev : Event κ D) : Inv sv (step sv s ev) := by
  have hlater := later_step sv s ev
  have hentries : ∀ k e, (k, e) ∈ s.cache.entries → SoundEntry sv (TenantSnapshots.step sv s ev) k e :=
    fun k e he => (h.entries k e he).later hlater
  have hcalls : ∀ c ∈ s.calls, SoundProgress sv (TenantSnapshots.step sv s ev) c.key c.progress :=
    fun c hc => (h.calls c hc).later hlater
  cases ev with
  | tick ms => exact ⟨h.current, hentries, hcalls⟩
  | write k d =>
      refine ⟨fun k' => ?_, hentries, hcalls⟩
      by_cases hk : k' = k
      · subst hk
        refine ⟨s.now, s.log k', ?_⟩
        show Function.update s.log k' _ k' = (s.now, Function.update s.rows k' d k') :: s.log k'
        rw [Function.update_self, Function.update_self]
      · obtain ⟨t, older, hlog⟩ := h.current k'
        refine ⟨t, older, ?_⟩
        show Function.update s.log k _ k' = (t, Function.update s.rows k d k') :: older
        rw [Function.update_of_ne hk, Function.update_of_ne hk, hlog]
  | invalidate k =>
      exact ⟨h.current, fun k' e he => hentries k' e (List.mem_of_mem_filter he), hcalls⟩
  | get k =>
      have hkept : ∀ k' e, (k', e) ∈ (s.cache.lruGet k).2.entries → SoundEntry sv s k' e :=
        fun k' e he => h.entries k' e (InsertionMap.mem_of_mem_lruGet he)
      have hone : ∀ p, SoundProgress sv s k p → ∀ c ∈ s.calls ++ [⟨k, p⟩],
          SoundProgress sv s c.key c.progress := by
        intro p hp c hc
        rcases List.mem_append.mp hc with hc | hc
        · exact h.calls c hc
        · rw [List.mem_singleton.mp hc]
          exact hp
      unfold TenantSnapshots.step getSnapshot
      dsimp only
      split
      · next e hget =>
          split
          · next hyoung =>
              have he := h.cached hget
              exact h.of_eq rfl rfl rfl hkept (hone _ ⟨he, sub_lt_iff_lt_add'.mp hyoung⟩)
          · exact h.of_eq rfl rfl rfl hkept (hone _ trivial)
      · exact h.of_eq rfl rfl rfl hkept (hone _ trivial)
  | query n answers =>
      unfold TenantSnapshots.step
      dsimp only
      split
      · next k hcall =>
          refine h.of_eq rfl rfl rfl h.entries (fun c hc => ?_)
          rcases List.mem_or_eq_of_mem_set hc with hc | rfl
          · exact h.calls c hc
          · exact h.queried k answers
      · exact h
  | finish n =>
      unfold TenantSnapshots.step
      dsimp only
      split
      · next k r hcall =>
          have hread : Sound sv s k r := h.calls _ (List.mem_of_getElem? hcall)
          have hentry : SoundEntry sv s k ⟨r.snapshot, s.now, r⟩ := ⟨hread, rfl, hread.1, le_rfl⟩
          refine h.of_eq rfl rfl rfl (fun k' e he => ?_) (fun c hc => ?_)
          · rcases InsertionMap.mem_of_mem_lruSet he with heq | ⟨_, he⟩
            · obtain ⟨rfl, rfl⟩ := Prod.mk.inj heq
              exact hentry
            · exact h.entries k' e he
          · rcases List.mem_or_eq_of_mem_set hc with hc | rfl
            · exact h.calls c hc
            · exact ⟨hentry, lt_add_of_pos_right _ (by decide)⟩
      · exact h

theorem inv_of_reached {rows : κ → D}
    (h : Runs.Reached (step sv) (fun _ _ => True) (State.start rows) s) : Inv sv s :=
  h.invariant ⟨fun k => ⟨0, [], rfl⟩, fun k e he => (by cases he), fun c hc => (by cases hc)⟩
    (fun _ ev hs _ => hs.step ev)

/-! ## After an invalidate -/

/-- The call has returned what it had returned in `before`, or has seen the first `m` writes. -/
def SeenBy (before : List (Call κ S)) (m n : ℕ) (c : Call κ S) : Prop :=
  match c.progress with
  | .loading => True
  | .queried r => m ≤ r.seen
  | .returned _ e => before[n]? = some c ∨ m ≤ e.read.seen
  | .thrown => True

/-- Nothing that is in the cache or on its way to it is older than the first `m` writes. -/
structure Fresh (before : List (Call κ S)) (k : κ) (m : ℕ) (s : State κ D S) : Prop where
  entries : ∀ e, (k, e) ∈ s.cache.entries → m ≤ e.read.seen
  calls : ∀ n c, s.calls[n]? = some c → c.key = k → SeenBy before m n c
  log : m ≤ (s.log k).length

theorem getElem?_concat {α : Type} {l : List α} {x y : α} {n : ℕ} (h : (l ++ [x])[n]? = some y) :
    l[n]? = some y ∨ y = x := by
  rw [List.getElem?_append] at h
  split at h
  · exact Or.inl h
  · rw [List.getElem?_singleton] at h
    split at h
    · exact Or.inr (Option.some.inj h).symm
    · cases h

theorem getElem?_of_set {α : Type} {l : List α} {x y : α} {m n : ℕ}
    (h : (l.set m x)[n]? = some y) : n = m ∧ y = x ∨ l[n]? = some y := by
  rw [List.getElem?_set] at h
  split at h
  · next hmn =>
      split at h
      · exact Or.inl ⟨hmn.symm, (Option.some.inj h).symm⟩
      · cases h
  · exact Or.inr h

theorem Fresh.step {before : List (Call κ S)} {m : ℕ} (h : Fresh before k m s) (ev : Event κ D) :
    Fresh before k m (step sv s ev) := by
  have hlog : m ≤ ((TenantSnapshots.step sv s ev).log k).length := by
    obtain ⟨new, hnew, _⟩ := (later_step sv s ev).2 k
    rw [hnew, List.length_append]
    exact h.log.trans (Nat.le_add_left _ _)
  cases ev with
  | tick ms => exact ⟨h.entries, h.calls, hlog⟩
  | write k' d => exact ⟨h.entries, h.calls, hlog⟩
  | invalidate k' => exact ⟨fun e he => h.entries e (List.mem_of_mem_filter he), h.calls, hlog⟩
  | get k' =>
      have hkept : ∀ e, (k, e) ∈ (s.cache.lruGet k').2.entries → m ≤ e.read.seen :=
        fun e he => h.entries e (InsertionMap.mem_of_mem_lruGet he)
      have hone : ∀ p, (k' = k → ∀ n, SeenBy before m n ⟨k', p⟩) → ∀ n c,
          (s.calls ++ [⟨k', p⟩])[n]? = some c → c.key = k → SeenBy before m n c := by
        intro p hp n c hc hk
        rcases getElem?_concat hc with hc | rfl
        · exact h.calls n c hc hk
        · exact hp hk n
      unfold TenantSnapshots.step getSnapshot at hlog ⊢
      dsimp only at hlog ⊢
      split
      · next e hget =>
          split
          · refine ⟨hkept, hone _ (fun hk n => Or.inr (h.entries e ?_)), h.log⟩
            subst hk
            unfold InsertionMap.lruGet at hget
            cases hfound : s.cache.get? k' with
            | none =>
                rw [hfound] at hget
                cases hget
            | some e' =>
                rw [hfound] at hget
                obtain rfl := Option.some.inj hget
                exact InsertionMap.mem_of_get? hfound
          · exact ⟨hkept, hone _ (fun _ _ => trivial), h.log⟩
      · exact ⟨hkept, hone _ (fun _ _ => trivial), h.log⟩
  | query n answers =>
      unfold TenantSnapshots.step
      dsimp only
      split
      · next k' hcall =>
          refine ⟨h.entries, fun n' c hc hk => ?_, h.log⟩
          rcases getElem?_of_set hc with ⟨_, rfl⟩ | hc
          · -- the query sees all writes of before
            obtain rfl : k' = k := hk
            unfold SeenBy queryRows
            dsimp only
            split
            · trivial
            · next r hr =>
                split at hr
                · obtain rfl := Progress.queried.inj hr
                  exact h.log
                · split at hr
                  · obtain rfl := Progress.queried.inj hr
                    exact h.log
                  · cases hr
            · next t e hr =>
                split at hr
                · cases hr
                · split at hr <;> cases hr
            · trivial
          · exact h.calls n' c hc hk
      · exact h
  | finish n =>
      unfold TenantSnapshots.step
      dsimp only
      split
      · next k' r hcall =>
          have hseen : k' = k → m ≤ r.seen := fun hk => h.calls n _ hcall hk
          refine ⟨fun e he => ?_, fun n' c hc hk => ?_, h.log⟩
          · rcases InsertionMap.mem_of_mem_lruSet he with heq | ⟨_, he⟩
            · obtain ⟨hk, rfl⟩ := Prod.mk.inj heq
              exact hseen hk.symm
            · exact h.entries e he
          · rcases getElem?_of_set hc with ⟨_, rfl⟩ | hc
            · exact Or.inr (hseen hk)
            · exact h.calls n' c hc hk
      · exact h

/-- An `invalidate` while no load of the tenant is between its query and its `set`. -/
theorem fresh_of_invalidate (hquiet : ∀ c ∈ s.calls, c.key = k → ∀ r, c.progress ≠ .queried r) :
    Fresh s.calls k (s.log k).length (step sv s (.invalidate k)) := by
  refine ⟨fun e he => ?_, fun n c hc hk => ?_, le_rfl⟩
  · have hne := (List.mem_filter.mp he).2
    simp at hne
  · unfold SeenBy
    split
    · trivial
    · next r hr => exact absurd hr (hquiet c (List.mem_of_getElem? hc) hk r)
    · exact Or.inl hc
    · trivial

/-- **How fresh a snapshot is**: what any call returns, in any interleaving of calls, queries that
fail or not, writes and invalidates, is what `loadFresh` makes of the table of its tenant as it was
after some write (or what it returns for a query that failed), and every later write is less than
the TTL, plus the time from the query to the `set` of the load, old when the call returns. And once
a write has been invalidated while no load of the tenant was between its query and its `set`, every
call that returns after it has seen that write and all before. -/
theorem snapshot_fresh {rows : κ → D}
    (h : Runs.Reached (step sv) (fun _ _ => True) (State.start rows) s) :
    (∀ c ∈ s.calls, ∀ t e, c.progress = .returned t e →
      ∃ newer older tw d, s.log c.key = newer ++ (tw, d) :: older ∧
        (if e.read.failed then sv.onFailure = some e.snapshot else e.snapshot = sv.loadFresh d) ∧
        ∀ w ∈ newer, t < w.1 + SNAPSHOT_TTL_MS + (e.loadedAt - e.read.time)) ∧
      ∀ k, (∀ c ∈ s.calls, c.key = k → ∀ r, c.progress ≠ .queried r) →
        ∀ s' : State κ D S,
          Runs.Reached (step sv) (fun _ _ => True) (step sv s (.invalidate k)) s' →
          ∀ (n : ℕ) (c : Call κ S) (t : Time) (e : Entry S), s'.calls[n]? = some c → c.key = k → c.progress = .returned t e →
            s.calls[n]? = some c ∨
              ∃ newer older tw d, s'.log k = newer ++ (tw, d) :: older ∧
                (s.log k).length ≤ older.length + 1 ∧
                (e.read.failed = false → e.snapshot = sv.loadFresh d) := by
  refine ⟨fun c hc t e hp => ?_, fun k hquiet s' hlater n c t e hc hk hp => ?_⟩
  · have hsound := (inv_of_reached h).calls c hc
    rw [hp] at hsound
    obtain ⟨hentry, hyoung⟩ := hsound
    obtain ⟨_, newer, older, tw, d, hlog, _, hnewer, hread, hfailed⟩ := hentry.read
    refine ⟨newer, older, tw, d, hlog, ?_, fun w hw => ?_⟩
    · rw [hentry.snapshot]
      split
      · next hf => exact hfailed hf
      · next hf => exact hread (by simpa using hf)
    · have hw := hnewer w hw
      linarith
  · have hinv : Inv sv s' := hlater.invariant ((inv_of_reached h).step _) (fun _ ev hs _ => hs.step ev)
    have hfresh : Fresh s.calls k (s.log k).length s' :=
      hlater.invariant (P := Fresh s.calls k (s.log k).length) (fresh_of_invalidate hquiet)
        (fun _ ev hs _ => hs.step ev)
    have hseen := hfresh.calls n c hc hk
    have hsound := hinv.calls c (List.mem_of_getElem? hc)
    rw [hp, hk] at hsound
    unfold SeenBy at hseen
    rw [hp] at hseen
    refine hseen.imp_right (fun hle => ?_)
    obtain ⟨_, newer, older, tw, d, hlog, hlength, _, hread, _⟩ := hsound.1.read
    exact ⟨newer, older, tw, d, hlog, hlength ▸ hle,
      fun hf => hsound.1.snapshot.trans (hread hf)⟩

/-! ## A write during a load -/

/-- A predicate that an operator creates. -/
def hobby : TenantPredicate where
  predicateId := "hobby"
  semantics := .append_only
  decayHalfLifeDays := none
  piiClass := "none"

/-- What the load has read before it. -/
def overtakenRead : Entry Brain.PredicateSnapshot where
  snapshot := Brain.loadFresh []
  loadedAt := 10
  read := ⟨Brain.loadFresh [], 0, 1, false⟩

/-- A load reads the registry and is still on its way when the predicate is created; the next call
comes a tenth of a second later. -/
def overtaken : State Unit (List TenantPredicate) Brain.PredicateSnapshot :=
  [.get (), .query 0 true, .tick 5, .write () [hobby], .invalidate (), .tick 5, .finish 0,
    .tick 100, .get ()].foldl (step (predicateRegistry 200)) (State.start (fun _ => []))

theorem snapshot_fresh_overtaken : ∃ newer older tw d,
    overtaken.log () = newer ++ (tw, d) :: older ∧ overtakenRead.snapshot = Brain.loadFresh d ∧
      ∀ w ∈ newer, 110 < w.1 + SNAPSHOT_TTL_MS + 10 := by
  have hcall : (⟨(), .returned 110 overtakenRead⟩ : Call Unit Brain.PredicateSnapshot)
      ∈ overtaken.calls := List.mem_of_getElem? (i := 1) rfl
  exact (snapshot_fresh (Runs.reached_foldl .start _)).1 _ hcall 110 overtakenRead rfl

end Brain.TenantSnapshots
