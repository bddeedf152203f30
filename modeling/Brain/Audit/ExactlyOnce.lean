/-
The mirror without duplicates.

The insert of a batch and the advance of the cursor are two statements, and only the
cron's path takes the lease: `drainNow` looks at a flag of its own process. So two
consumers can work from one cursor, and a consumer can stop between its two statements;
either way changes are inserted again, and the slower consumer sets the cursor back
(`inserted_twice`).

If a consumer loads a cursor only while no other one is between its load and its advance
for the same source, and none stops between insert and advance (`Serialised`), then
`audit_event` holds the rows of the changes up to the cursor, each once and in the order
of the feed, and no cursor goes back (`once_of_serialised`).
-/
import Brain.Audit.Completeness

set_option autoImplicit false

namespace Brain.Audit

variable {cfg : Config} {s : System} {op : Op} {db : MirrorDb} {source source' : Source} {v : ℕ}
  {feed batch l : List Change} {c change : Change}

/-! ## Parts of the feed and of the mirror -/

/-- The changes up to `v`. -/
def upTo (feed : List Change) (v : ℕ) : List Change :=
  feed.filter (fun c => decide (c.versionstamp ≤ v))

/-- The changes above `v`. -/
def above (feed : List Change) (v : ℕ) : List Change :=
  feed.filter (fun c => decide (v < c.versionstamp))

/-- The rows of a source. -/
def MirrorDb.eventsOf (db : MirrorDb) (source : Source) : List EventRow :=
  db.events.filter (fun e => decide (e.source = source))

theorem mem_upTo : c ∈ upTo feed v ↔ c ∈ feed ∧ c.versionstamp ≤ v := by
  rw [upTo, List.mem_filter, decide_eq_true_eq]

/-- A feed that is split at `v`. -/
theorem upTo_append {l' : List Change} (hl : ∀ c ∈ l, c.versionstamp ≤ v)
    (hl' : ∀ c ∈ l', v < c.versionstamp) : upTo (l ++ l') v = l := by
  have h1 : upTo l v = l := List.filter_eq_self.mpr (fun c hc => decide_eq_true (hl c hc))
  have h2 : upTo l' v = [] := by
    rw [upTo, List.filter_eq_nil_iff]
    intro c hc
    have := hl' c hc
    simp only [decide_eq_true_eq]
    omega
  rw [upTo, List.filter_append, ← upTo, ← upTo, h1, h2, List.append_nil]

/-- What is settled does not grow. -/
theorem upTo_commit (hs : Settled (db.feed source) v)
    (hc : commits (db.feed source') change = true) :
    upTo ((db.commit source' change).feed source) v = upTo (db.feed source) v := by
  rw [feed_commit]
  split
  · next hsrc =>
      subst hsrc
      have hlt := hs change hc
      rw [upTo, List.filter_append, ← upTo]
      simp [Nat.not_le_of_lt hlt]
  · rfl

/-- A feed in order is its changes up to `v`, and then the others. -/
theorem feed_eq_upTo_append (h : FeedOk feed) (v : ℕ) :
    feed = upTo feed v ++ above feed v := by
  have hinc := h.increasing
  clear h
  induction feed with
  | nil => rfl
  | cons a l ih =>
      obtain ⟨ha, hl⟩ := List.pairwise_cons.mp hinc
      by_cases hav : a.versionstamp ≤ v
      · have hno : ¬ v < a.versionstamp := by omega
        rw [upTo, List.filter_cons_of_pos (by simpa using hav), above,
          List.filter_cons_of_neg (by simpa using hno), ← upTo, ← above, List.cons_append, ← ih hl]
      · -- the first one is above `v`, so all are
        have hall : ∀ c ∈ a :: l, v < c.versionstamp := by
          intro c hc
          rcases List.mem_cons.mp hc with rfl | hc
          · omega
          · have := ha c hc
            omega
        have hnil : upTo (a :: l) v = [] := upTo_append (l := []) (by simp) hall
        rw [hnil, List.nil_append, above,
          List.filter_eq_self.mpr (fun c hc => decide_eq_true (hall c hc))]

theorem build_append (source : Source) (l l' : List Change) :
    buildAuditEventBatch source (l ++ l')
      = buildAuditEventBatch source l ++ buildAuditEventBatch source l' :=
  List.flatMap_append

theorem mem_build {e : EventRow} (h : e ∈ buildAuditEventBatch source l) :
    e.source = source ∧ ∃ c ∈ l, e.versionstamp = c.versionstamp := by
  obtain ⟨c, hc, he⟩ := List.mem_flatMap.mp h
  obtain ⟨item, _, rfl⟩ := List.mem_map.mp he
  exact ⟨rfl, c, hc, rfl⟩

theorem eventsOf_insertEvents (db : MirrorDb) (source source' : Source) (batch : List Change) :
    (db.insertEvents (buildAuditEventBatch source' batch)).eventsOf source
      = db.eventsOf source
        ++ if source = source' then buildAuditEventBatch source batch else [] := by
  rw [MirrorDb.eventsOf, MirrorDb.insertEvents, List.filter_append, ← MirrorDb.eventsOf]
  split
  · next h =>
      subst h
      rw [List.filter_eq_self.mpr (fun e he => decide_eq_true (mem_build he).1)]
  · next h =>
      rw [List.filter_eq_nil_iff.mpr]
      intro e he
      rw [(mem_build he).1]
      simpa using fun hs => h hs.symm

/-- The rows of one change among those of a part of the feed. -/
theorem filter_build (source : Source) (l : List Change) (v : ℕ) :
    (buildAuditEventBatch source l).filter (fun e => decide (e.versionstamp = v))
      = buildAuditEventBatch source (l.filter (fun c => decide (c.versionstamp = v))) := by
  induction l with
  | nil => rfl
  | cons a l ih =>
      have hcons : buildAuditEventBatch source (a :: l)
          = a.changes.map (eventOf source a.versionstamp) ++ buildAuditEventBatch source l := rfl
      rw [hcons, List.filter_append, ih]
      by_cases ha : a.versionstamp = v
      · rw [List.filter_cons_of_pos (by simpa using ha), List.filter_eq_self.mpr]
        · rfl
        · intro e he
          obtain ⟨item, _, rfl⟩ := List.mem_map.mp he
          exact decide_eq_true ha
      · rw [List.filter_cons_of_neg (by simpa using ha), List.filter_eq_nil_iff.mpr,
          List.nil_append]
        intro e he
        obtain ⟨item, _, rfl⟩ := List.mem_map.mp he
        intro heq
        exact ha (of_decide_eq_true heq)

/-- A change comes once in the feed. -/
theorem filter_feed_eq (h : FeedOk feed) (hc : c ∈ feed) :
    feed.filter (fun d => decide (d.versionstamp = c.versionstamp)) = [c] := by
  have hnd : feed.Nodup := by
    refine h.increasing.imp ?_
    rintro a b hab rfl
    omega
  have hsame : feed.filter (fun d => decide (d.versionstamp = c.versionstamp))
      = feed.filter (fun d => decide (d = c)) := by
    apply List.filter_congr
    intro d hd
    rw [decide_eq_decide]
    exact ⟨fun heq => h.eq_of_stamp_eq hd hc heq, fun e => congrArg _ e⟩
  rw [hsame, List.filter_eq, List.count_eq_one_of_mem hnd hc, List.replicate_one]

/-! ## One consumer at a time -/

/-- The step does not start a consumer of a source while another one is under way there,
and stops none between its insert and its advance; and `SHOW CHANGES` answers each change
once. -/
def Serialised (s : System) (op : Op) : Prop :=
  (∀ id c, op = .load id → s.task id = some c → ∀ id' c', id' ≠ id → s.task id' = some c' →
    c'.companyId = c.companyId → c'.source = c.source → c'.phase = .loading) ∧
  (∀ id c batch, s.task id = some c → c.phase = .advancing batch →
    buildAuditEventBatch c.source batch ≠ [] → ¬ System.Stops s op id) ∧
  (∀ id answer, op = .fetch id answer → answer.Nodup)

/-- The batch is what the feed has next after the cursor. -/
structure NextBatch (db : MirrorDb) (source : Source) (batch : List Change) : Prop where
  nonempty : batch ≠ []
  le : db.loadCursor source ≤ lastStamp batch
  feed : upTo (db.feed source) (lastStamp batch)
    = upTo (db.feed source) (db.loadCursor source) ++ batch

/-- What a consumer that is alone with its source knows. -/
def OncePhase (db : MirrorDb) (source : Source) : Phase → Prop
  | .loading => True
  | .fetching since => since = db.loadCursor source
  | .inserting batch => NextBatch db source batch
  | .advancing batch => NextBatch db source batch ∧
      db.eventsOf source
        = buildAuditEventBatch source (upTo (db.feed source) (lastStamp batch))

/-- The last change of a batch has its largest stamp. -/
theorem le_lastStamp {limit : Option ℤ} {changes : List Change} (hc : c ∈ nextBatch limit changes) :
    c.versionstamp ≤ lastStamp (nextBatch limit changes) := by
  have hne : nextBatch limit changes ≠ [] := List.ne_nil_of_mem hc
  have hsort : (nextBatch limit changes).Pairwise (fun a b => a.versionstamp ≤ b.versionstamp) :=
    (pairwise_mergeSort_stamps changes).sublist (isPrefix_nextBatch limit changes).sublist
  rw [lastStamp, List.getLast?_eq_some_getLast hne, Option.map_some, Option.getD_some]
  rw [← List.dropLast_append_getLast hne] at hsort hc
  rcases List.mem_append.mp hc with hc | hc
  · exact (List.pairwise_append.mp hsort).2.2 c hc _ (List.mem_singleton_self _)
  · rw [List.mem_singleton.mp hc]

theorem pairwise_above (h : FeedOk feed) (v : ℕ) :
    (above feed v).Pairwise (fun a b => a.versionstamp < b.versionstamp) :=
  h.increasing.sublist List.filter_sublist

/-- **What is fetched is what is new**, and sorting brings it into the order of the feed. -/
theorem mergeSort_fetchChanges {answer : List Change} (hfeed : FeedOk feed)
    (hvalid : ValidAnswer feed v answer) (hnd : answer.Nodup) :
    (fetchChanges v answer).mergeSort (fun a b => decide (a.versionstamp ≤ b.versionstamp))
      = above feed v := by
  have hmem : ∀ c, c ∈ fetchChanges v answer ↔ c ∈ above feed v := by
    intro c
    rw [mem_fetchChanges, above, List.mem_filter, decide_eq_true_eq]
    constructor
    · rintro ⟨hc, h0⟩
      have hpos := hfeed.pos c (hvalid.1 c hc)
      exact ⟨hvalid.1 c hc, by omega⟩
    · rintro ⟨hc, hlt⟩
      exact ⟨hvalid.2 c hc hlt, Or.inr hlt⟩
  have hlt := pairwise_above hfeed v
  have hperm : (fetchChanges v answer).Perm (above feed v) := by
    refine (List.perm_ext_iff_of_nodup ?_ ?_).mpr hmem
    · unfold fetchChanges
      split
      · exact hnd.sublist List.filter_sublist
      · exact hnd
    · refine hlt.imp ?_
      rintro a b hab rfl
      omega
  refine ((List.mergeSort_perm _ _).trans hperm).eq_of_pairwise ?_
    (pairwise_mergeSort_stamps _) (hlt.imp (fun hab => Nat.le_of_lt hab))
  intro a b ha hb hab hba
  have haf : a ∈ feed := (List.mem_filter.mp ((hmem a).mp (List.mem_mergeSort.mp ha))).1
  exact hfeed.eq_of_stamp_eq haf (List.mem_filter.mp hb).1 (by omega)

/-- **A fetch takes what is next.** -/
theorem nextBatch_of_fetch {limit : Option ℤ} {answer : List Change}
    (hfeed : FeedOk (db.feed source))
    (hvalid : ValidAnswer (db.feed source) (db.loadCursor source) answer) (hnd : answer.Nodup)
    (hne : nextBatch limit (fetchChanges (db.loadCursor source) answer) ≠ []) :
    NextBatch db source (nextBatch limit (fetchChanges (db.loadCursor source) answer)) := by
  let since := db.loadCursor source
  obtain ⟨rest, hrest⟩ := isPrefix_nextBatch limit (fetchChanges since answer)
  rw [mergeSort_fetchChanges hfeed hvalid hnd] at hrest
  obtain ⟨last, hlast, hstamp⟩ := exists_lastStamp hne
  have hlastnew : last ∈ above (db.feed source) since := hrest ▸ List.mem_append_left _ hlast
  have hlt : since < last.versionstamp := of_decide_eq_true (List.mem_filter.mp hlastnew).2
  refine ⟨hne, by omega, ?_⟩
  have hsplit : db.feed source = upTo (db.feed source) since
      ++ nextBatch limit (fetchChanges since answer) ++ rest := by
    rw [List.append_assoc, hrest]
    exact feed_eq_upTo_append hfeed since
  have hrestlt : ∀ c ∈ rest,
      lastStamp (nextBatch limit (fetchChanges since answer)) < c.versionstamp := by
    intro c hc
    have hinc := pairwise_above hfeed since
    rw [← hrest] at hinc
    rw [← hstamp]
    exact (List.pairwise_append.mp hinc).2.2 last hlast c hc
  conv_lhs => rw [hsplit]
  apply upTo_append
  · intro c hc
    rcases List.mem_append.mp hc with hc | hc
    · have := (mem_upTo.mp hc).2
      omega
    · exact le_lastStamp hc
  · exact hrestlt

/-- After it, the rows of the batch follow those up to the cursor. -/
theorem NextBatch.build_eq (h : NextBatch db source batch) :
    buildAuditEventBatch source (upTo (db.feed source) (lastStamp batch))
      = buildAuditEventBatch source (upTo (db.feed source) (db.loadCursor source))
        ++ buildAuditEventBatch source batch := by
  rw [h.feed, build_append]

/-- A phase looks at the feed, the cursor and the rows of its source only. -/
theorem OncePhase.congr {db' : MirrorDb} {phase : Phase} (h : OncePhase db source phase)
    (hfeed : db'.feed source = db.feed source)
    (hcursor : db'.loadCursor source = db.loadCursor source)
    (hevents : db'.eventsOf source = db.eventsOf source) : OncePhase db' source phase := by
  have hbatch : ∀ batch, NextBatch db source batch → NextBatch db' source batch := by
    intro batch hb
    refine ⟨hb.nonempty, ?_, ?_⟩
    · rw [hcursor]
      exact hb.le
    · rw [hfeed, hcursor]
      exact hb.feed
  cases phase with
  | loading => trivial
  | fetching since =>
      rw [OncePhase, hcursor]
      exact h
  | inserting batch => exact hbatch batch h
  | advancing batch =>
      refine ⟨hbatch batch h.1, ?_⟩
      rw [hevents, hfeed]
      exact h.2

theorem OncePhase.commit {phase : Phase} (h : OncePhase db source phase)
    (hok : PhaseOk db source phase) (hset : Settled (db.feed source) (db.loadCursor source))
    (hc : commits (db.feed source') change = true) :
    OncePhase (db.commit source' change) source phase := by
  have hbatch : ∀ batch, Settled (db.feed source) (lastStamp batch) → NextBatch db source batch →
      NextBatch (db.commit source' change) source batch := by
    intro batch hlast hb
    refine ⟨hb.nonempty, hb.le, ?_⟩
    rw [upTo_commit hlast hc]
    exact hb.feed.trans (congrArg (· ++ batch) (upTo_commit hset hc).symm)
  cases phase with
  | loading => trivial
  | fetching since => exact h
  | inserting batch => exact hbatch batch (settled_lastStamp hok.1 hok.2.1) h
  | advancing batch =>
      refine ⟨hbatch batch hok.2 h.1, ?_⟩
      rw [upTo_commit hok.2 hc]
      exact h.2

/-- No consumer of the source is between its insert and its advance. -/
def Idle (s : System) (companyId : String) (source : Source) : Prop :=
  ∀ id c batch, s.task id = some c → c.companyId = companyId → c.source = source →
    c.phase ≠ .advancing batch

/-- The invariant: a consumer that has loaded its cursor is alone with its source, and
`audit_event` holds what is up to the cursor, or up to the batch of the consumer that is
about to advance it. -/
structure Once (s : System) : Prop where
  complete : Complete s
  alone : ∀ id id' c c', s.task id = some c → s.task id' = some c' → c'.companyId = c.companyId →
    c'.source = c.source → c.phase ≠ .loading → c'.phase ≠ .loading → id' = id
  tasks : ∀ id c, s.task id = some c → OncePhase (s.dbs c.companyId) c.source c.phase
  idle : ∀ companyId source, Idle s companyId source → (s.dbs companyId).eventsOf source
    = buildAuditEventBatch source
        (upTo ((s.dbs companyId).feed source) ((s.dbs companyId).loadCursor source))

theorem once_init (clock : Time) : Once (System.init clock) := by
  refine ⟨complete_init clock, ?_, ?_, fun companyId source _ => rfl⟩
  · rintro id id' c c' ⟨⟩
  · rintro id c ⟨⟩

/-- A step that replaces one consumer, by one that has loaded only if the old one had. -/
theorem Once.alone_replace {s' : System} {id : ℕ} {c : Consumer} {t : Option Consumer} (h : Once s)
    (hc : s.task id = some c) (hphase : c.phase ≠ .loading)
    (htask : ∀ id', s'.task id' = if id' = id then t else s.task id')
    (ht : ∀ d, t = some d → d.phase ≠ .loading → d.companyId = c.companyId ∧ d.source = c.source)
    (id₁ id₂ : ℕ) (c₁ c₂ : Consumer) (h₁ : s'.task id₁ = some c₁) (h₂ : s'.task id₂ = some c₂)
    (hco : c₂.companyId = c₁.companyId) (hsrc : c₂.source = c₁.source) (hp₁ : c₁.phase ≠ .loading)
    (hp₂ : c₂.phase ≠ .loading) : id₂ = id₁ := by
  rw [htask] at h₁ h₂
  split at h₁ <;> split at h₂
  · next e₁ e₂ => rw [e₁, e₂]
  · next e₁ _ =>
      obtain ⟨hco', hsrc'⟩ := ht c₁ h₁ hp₁
      rw [e₁]
      exact h.alone id id₂ c c₂ hc h₂ (hco.trans hco') (hsrc.trans hsrc') hphase hp₂
  · next e₂ =>
      obtain ⟨hco', hsrc'⟩ := ht c₂ h₂ hp₂
      rw [e₂]
      exact h.alone id₁ id c₁ c h₁ hc (hco'.symm.trans hco) (hsrc'.symm.trans hsrc) hp₁ hphase
  · exact h.alone id₁ id₂ c₁ c₂ h₁ h₂ hco hsrc hp₁ hp₂

/-- What is idle after a consumer was replaced was idle before, if that consumer was not
about to advance this source. -/
theorem Idle.of_replace {s' : System} {id : ℕ} {c : Consumer} {t : Option Consumer}
    {companyId : String} (hidle : Idle s' companyId source) (hc : s.task id = some c)
    (htask : ∀ id', s'.task id' = if id' = id then t else s.task id')
    (hnot : ∀ batch, c.companyId = companyId → c.source = source → c.phase ≠ .advancing batch) :
    Idle s companyId source := by
  intro id' c' batch hc' hco hsrc
  by_cases hid : id' = id
  · subst hid
    obtain rfl := Option.some.inj (hc.symm.trans hc')
    exact hnot batch hco hsrc
  · refine hidle id' c' batch ?_ hco hsrc
    rw [htask, if_neg hid]
    exact hc'

/-- While a consumer has not come to its advance, none of its source has. -/
theorem Once.idle_of_alone (h : Once s) {id : ℕ} {d : Consumer} (hd : s.task id = some d)
    (hload : d.phase ≠ .loading) (hnot : ∀ batch, d.phase ≠ .advancing batch) :
    Idle s d.companyId d.source := by
  intro id' c' batch hc' hco hsrc hphase
  have hload' : c'.phase ≠ .loading := by
    rw [hphase]
    simp
  obtain rfl := h.alone id id' d c' hd hc' hco hsrc hload hload'
  obtain rfl := Option.some.inj (hd.symm.trans hc')
  exact hnot batch hphase

/-- A step on the tables of one tenant that is done for one consumer. -/
theorem Once.others {s' : System} {id : ℕ} {c : Consumer} {db' : MirrorDb} (h : Once s)
    (hc : s.task id = some c) (hload : c.phase ≠ .loading)
    (hdbs : s'.dbs = (s.setDb c.companyId db').dbs)
    (hfeed : ∀ source, db'.feed source = (s.dbs c.companyId).feed source)
    (hcursor : ∀ source, source ≠ c.source →
      db'.loadCursor source = (s.dbs c.companyId).loadCursor source)
    (hevents : ∀ source, source ≠ c.source →
      db'.eventsOf source = (s.dbs c.companyId).eventsOf source)
    {id' : ℕ} {d : Consumer} (hd : s.task id' = some d) (hid : id' ≠ id) :
    OncePhase (s'.dbs d.companyId) d.source d.phase := by
  have hold := h.tasks id' d hd
  rw [hdbs, System.dbs_setDb]
  split
  · next hco =>
      rw [hco] at hold
      by_cases hsrc : d.source = c.source
      · -- it shares the source, so it has not loaded anything
        have hloading : d.phase = .loading := by
          by_contra hne
          exact hid (h.alone id id' c d hc hd hco hsrc hload hne)
        rw [hloading]
        trivial
      · exact hold.congr (hfeed _) (hcursor _ hsrc) (hevents _ hsrc)
  · exact hold

/-- What is quiet keeps it, if no consumer stops before its advance. -/
theorem Once.quiet {s' : System} (h : Once s) (hs' : Complete s') (hdbs : s'.dbs = s.dbs)
    (hnew : ∀ id c, s'.task id = some c → s.task id = some c ∨ c.phase = .loading)
    (hkept : ∀ id c batch, s.task id = some c → c.phase = .advancing batch →
      s'.task id = some c ∨ buildAuditEventBatch c.source batch = []) : Once s' := by
  have hold : ∀ id c, s'.task id = some c → c.phase ≠ .loading → s.task id = some c :=
    fun id c hc hload => (hnew id c hc).resolve_right hload
  refine ⟨hs', ?_, ?_, ?_⟩
  · intro id id' c c' hc hc' hco hsrc hload hload'
    exact h.alone id id' c c' (hold id c hc hload) (hold id' c' hc' hload') hco hsrc hload hload'
  · intro id c hc
    rw [hdbs]
    rcases hnew id c hc with hc | hload
    · exact h.tasks id c hc
    · rw [hload]
      trivial
  · intro companyId source hidle
    rw [hdbs]
    by_cases hbefore : Idle s companyId source
    · exact h.idle companyId source hbefore
    · -- the consumer that was about to advance is gone, and had inserted nothing
      obtain ⟨id, c, batch, hc, rfl, rfl, hphase⟩ : ∃ id c batch, s.task id = some c ∧
          c.companyId = companyId ∧ c.source = source ∧ c.phase = .advancing batch := by
        simpa [Idle] using hbefore
      rcases hkept id c batch hc hphase with hstays | hempty
      · exact absurd hphase (hidle id c batch hstays rfl rfl)
      · have hphaseok := h.tasks id c hc
        rw [hphase] at hphaseok
        rw [hphaseok.2, hphaseok.1.build_eq, hempty, List.append_nil]

theorem Once.commit {s' : System} {companyId : String} (h : Once s) (hs' : Complete s')
    (hc : commits ((s.dbs companyId).feed source) change = true)
    (hdbs : s'.dbs = (s.setDb companyId ((s.dbs companyId).commit source change)).dbs)
    (htask : ∀ id, s'.task id = s.task id) : Once s' := by
  refine ⟨hs', ?_, ?_, ?_⟩
  · intro id id' c c' h₁ h₂
    rw [htask] at h₁ h₂
    exact h.alone id id' c c' h₁ h₂
  · intro id d hd
    rw [htask] at hd
    have hold := h.tasks id d hd
    have hok := h.complete.tasks id d hd
    rw [hdbs, System.dbs_setDb]
    split
    · next hco =>
        rw [hco] at hold hok
        exact hold.commit hok ((h.complete.dbs companyId).settled d.source) hc
    · exact hold
  · intro co src hidle
    have hold := h.idle co src (fun id d batch hd => hidle id d batch ((htask id).trans hd))
    rw [hdbs, System.dbs_setDb]
    split
    · next hco =>
        subst hco
        have hcursor : ((s.dbs co).commit source change).loadCursor src
            = (s.dbs co).loadCursor src := rfl
        rw [hcursor, upTo_commit ((h.complete.dbs co).settled src) hc]
        exact hold
    · exact hold

theorem Once.load {s' : System} {id : ℕ} {c : Consumer} (h : Once s) (hs' : Complete s')
    (hfree : ∀ id' c', id' ≠ id → s.task id' = some c' → c'.companyId = c.companyId →
      c'.source = c.source → c'.phase = .loading)
    (hc : s.task id = some c) (hphase : c.phase = .loading) (hdbs : s'.dbs = s.dbs)
    (htask : ∀ id', s'.task id' = if id' = id then
      some { c with phase := .fetching ((s.dbs c.companyId).loadCursor c.source) }
      else s.task id') : Once s' := by
  refine ⟨hs', ?_, ?_, ?_⟩
  · intro id₁ id₂ c₁ c₂ h₁ h₂ hco hsrc hload₁ hload₂
    rw [htask] at h₁ h₂
    split at h₁ <;> split at h₂
    · next e₁ e₂ => rw [e₁, e₂]
    · next _ e₂ =>
        obtain rfl := Option.some.inj h₁
        exact absurd (hfree id₂ c₂ e₂ h₂ hco hsrc) hload₂
    · next e₁ _ =>
        obtain rfl := Option.some.inj h₂
        exact absurd (hfree id₁ c₁ e₁ h₁ hco.symm hsrc.symm) hload₁
    · exact h.alone id₁ id₂ c₁ c₂ h₁ h₂ hco hsrc hload₁ hload₂
  · intro id' d hd
    rw [hdbs]
    rw [htask] at hd
    split at hd
    · obtain rfl := Option.some.inj hd
      rfl
    · exact h.tasks id' d hd
  · intro companyId source hidle
    rw [hdbs]
    refine h.idle companyId source (hidle.of_replace hc htask (fun batch _ _ => ?_))
    rw [hphase]
    simp

theorem Once.fetch {s' : System} {id since : ℕ} {c : Consumer} {answer : List Change} {phase : Phase}
    (h : Once s) (hs' : Complete s') (hnd : answer.Nodup) (hc : s.task id = some c)
    (hphase : c.phase = .fetching since)
    (hvalid : ValidAnswer ((s.dbs c.companyId).feed c.source) since answer)
    (hne : nextBatch cfg.perBatchLimit (fetchChanges since answer) ≠ [])
    (hnext : phase = .inserting (nextBatch cfg.perBatchLimit (fetchChanges since answer)) ∨
      phase = .advancing (nextBatch cfg.perBatchLimit (fetchChanges since answer)) ∧
        buildAuditEventBatch c.source
          (nextBatch cfg.perBatchLimit (fetchChanges since answer)) = [])
    (hdbs : s'.dbs = s.dbs)
    (htask : ∀ id', s'.task id' = if id' = id then some { c with phase := phase } else s.task id') :
    Once s' := by
  have hload : c.phase ≠ .loading := hphase.trans_ne (by simp)
  have hnot : ∀ batch, c.phase ≠ .advancing batch := fun _ => hphase.trans_ne (by simp)
  refine ⟨hs', ?_, ?_, ?_⟩
  · refine h.alone_replace hc hload htask (fun d hd _ => ?_)
    obtain rfl := Option.some.inj hd
    exact ⟨rfl, rfl⟩
  · intro id' d hd
    rw [hdbs]
    rw [htask] at hd
    split at hd
    · obtain rfl := Option.some.inj hd
      have hsince := h.tasks id c hc
      rw [hphase] at hsince
      obtain rfl : since = (s.dbs c.companyId).loadCursor c.source := hsince
      have hbatch := nextBatch_of_fetch ((h.complete.dbs c.companyId).feed c.source) hvalid hnd hne
      rcases hnext with rfl | ⟨rfl, hempty⟩
      · exact hbatch
      · refine ⟨hbatch, ?_⟩
        rw [hbatch.build_eq, hempty, List.append_nil]
        have hidle := h.idle_of_alone hc hload hnot
        exact h.idle _ _ hidle
    · exact h.tasks id' d hd
  · intro companyId source hidle
    rw [hdbs]
    exact h.idle companyId source (hidle.of_replace hc htask (fun batch _ _ => hnot batch))

theorem Once.insert {s' : System} {id : ℕ} {c : Consumer} (h : Once s) (hs' : Complete s')
    (hc : s.task id = some c) (hphase : c.phase = .inserting batch)
    (hdbs : s'.dbs = (s.setDb c.companyId ((s.dbs c.companyId).insertEvents
      (buildAuditEventBatch c.source batch))).dbs)
    (htask : ∀ id', s'.task id' = if id' = id then some { c with phase := .advancing batch }
      else s.task id') : Once s' := by
  have hload : c.phase ≠ .loading := hphase.trans_ne (by simp)
  have hnot : ∀ batch, c.phase ≠ .advancing batch := fun _ => hphase.trans_ne (by simp)
  have hbatch := h.tasks id c hc
  rw [hphase] at hbatch
  have hrest : ∀ source, source ≠ c.source →
      ((s.dbs c.companyId).insertEvents (buildAuditEventBatch c.source batch)).eventsOf source
        = (s.dbs c.companyId).eventsOf source := by
    intro source hsrc
    rw [eventsOf_insertEvents, if_neg hsrc, List.append_nil]
  refine ⟨hs', ?_, ?_, ?_⟩
  · refine h.alone_replace hc hload htask (fun d hd _ => ?_)
    obtain rfl := Option.some.inj hd
    exact ⟨rfl, rfl⟩
  · intro id' d hd
    rw [htask] at hd
    split at hd
    · obtain rfl := Option.some.inj hd
      rw [hdbs, System.dbs_setDb, if_pos rfl]
      refine ⟨⟨hbatch.nonempty, hbatch.le, hbatch.feed⟩, ?_⟩
      rw [eventsOf_insertEvents, if_pos rfl, h.idle _ _ (h.idle_of_alone hc hload hnot)]
      exact hbatch.build_eq.symm
    · next hid => exact h.others hc hload hdbs (fun _ => rfl) (fun _ _ => rfl) hrest hd hid
  · intro companyId source hidle
    have hother : ¬ (companyId = c.companyId ∧ source = c.source) := by
      rintro ⟨rfl, rfl⟩
      refine hidle id { c with phase := .advancing batch } batch ?_ rfl rfl rfl
      rw [htask, if_pos rfl]
    have hold := h.idle companyId source (hidle.of_replace hc htask (fun batch _ _ => hnot batch))
    rw [hdbs, System.dbs_setDb]
    split
    · next hco =>
        rw [hco] at hold
        rw [hrest source (fun hsrc => hother ⟨hco, hsrc⟩)]
        exact hold
    · exact hold

theorem Once.advanceCursor {s' : System} {id : ℕ} {c : Consumer} {updatedAt : Time} (h : Once s)
    (hs' : Complete s') (hc : s.task id = some c) (hphase : c.phase = .advancing batch)
    (hdbs : s'.dbs = (s.setDb c.companyId ((s.dbs c.companyId).setCursor c.source
      ⟨lastStamp batch, updatedAt⟩)).dbs)
    (htask : ∀ id', s'.task id' = if id' = id then c.next else s.task id') : Once s' := by
  have hload : c.phase ≠ .loading := hphase.trans_ne (by simp)
  have hdone := h.tasks id c hc
  rw [hphase] at hdone
  have hrest : ∀ source, source ≠ c.source →
      ((s.dbs c.companyId).setCursor c.source ⟨lastStamp batch, updatedAt⟩).loadCursor source
        = (s.dbs c.companyId).loadCursor source := by
    intro source hsrc
    rw [loadCursor_setCursor, if_neg hsrc]
  refine ⟨hs', ?_, ?_, ?_⟩
  · exact h.alone_replace hc hload htask (fun d hd hne => absurd (Consumer.next_phase hd) hne)
  · intro id' d hd
    rw [htask] at hd
    split at hd
    · rw [Consumer.next_phase hd]
      trivial
    · next hid => exact h.others hc hload hdbs (fun _ => rfl) hrest (fun _ _ => rfl) hd hid
  · intro companyId source hidle
    rw [hdbs, System.dbs_setDb]
    by_cases hthis : companyId = c.companyId ∧ source = c.source
    · obtain ⟨rfl, rfl⟩ := hthis
      rw [if_pos rfl, loadCursor_setCursor, if_pos rfl]
      exact hdone.2
    · have hold := h.idle companyId source
        (hidle.of_replace hc htask (fun batch hco hsrc => absurd ⟨hco.symm, hsrc.symm⟩ hthis))
      split
      · next hco =>
          rw [hco] at hold
          rw [hrest source (fun hsrc => hthis ⟨hco, hsrc⟩)]
          exact hold
      · exact hold

/-- **Every step that is serialised keeps it.** -/
theorem Once.step (h : Once s) (hop : Serialised s op) : Once (s.step cfg op) := by
  obtain ⟨hfree, hstops, hnodup⟩ := hop
  have hs' : Complete (s.step cfg op) := h.complete.step op
  cases System.step_effect cfg s op with
  | quiet hdbs hnew hkept =>
      refine h.quiet hs' hdbs hnew (fun id c batch hc hphase => ?_)
      refine (hkept id c batch hc hphase).imp_right (fun hstop => ?_)
      by_contra hne
      exact hstops id c batch hc hphase hne hstop
  | commit companyId source change hc hdbs htask => exact h.commit hs' hc hdbs htask
  | load id c hload hc hphase hdbs htask =>
      exact h.load hs' (hfree id c hload hc) hc hphase hdbs htask
  | fetch id c since answer phase hfetch hc hphase hvalid hne hnext hdbs htask =>
      exact h.fetch hs' (hnodup id answer hfetch) hc hphase hvalid hne hnext hdbs htask
  | insert id c batch hc hphase hdbs htask => exact h.insert hs' hc hphase hdbs htask
  | advanceCursor id c batch hc hphase hdbs htask =>
      exact h.advanceCursor hs' hc hphase hdbs htask

theorem once_of_reached {clock : Time}
    (h : Runs.Reached (System.step cfg) Serialised (System.init clock) s) : Once s :=
  h.invariant (once_init clock) (fun _ _ hs hop => hs.step hop)

/-- The rows of a source are those of the first changes of its feed. -/
theorem Once.exists_eventsOf (h : Once s) (companyId : String) (source : Source) :
    ∃ v, (s.dbs companyId).eventsOf source
      = buildAuditEventBatch source (upTo ((s.dbs companyId).feed source) v) := by
  by_cases hidle : Idle s companyId source
  · exact ⟨_, h.idle companyId source hidle⟩
  · obtain ⟨id, c, batch, hc, rfl, rfl, hphase⟩ : ∃ id c batch, s.task id = some c ∧
        c.companyId = companyId ∧ c.source = source ∧ c.phase = .advancing batch := by
      simpa [Idle] using hidle
    have hdone := h.tasks id c hc
    rw [hphase] at hdone
    exact ⟨_, hdone.2⟩

/-- The rows of one change. -/
theorem filter_build_upTo (hfeed : FeedOk feed) (hc : c ∈ feed) (v : ℕ) :
    (buildAuditEventBatch source (upTo feed v)).filter
        (fun e => decide (e.versionstamp = c.versionstamp))
      = if c.versionstamp ≤ v then buildAuditEventBatch source [c] else [] := by
  rw [filter_build, upTo, List.filter_comm, filter_feed_eq hfeed hc]
  split
  · next hle => simp [hle]
  · next hle =>
      simp only [List.filter_cons, List.filter_nil, decide_eq_true_eq, if_neg hle]
      rfl

/-- What a step does to a cursor. -/
theorem Once.loadCursor_le (h : Once s) (cfg : Config) (op : Op) (companyId : String)
    (source : Source) : (s.dbs companyId).loadCursor source
      ≤ ((s.step cfg op).dbs companyId).loadCursor source := by
  cases System.step_effect cfg s op with
  | quiet hdbs _ _ => rw [hdbs]
  | commit co src change hc hdbs htask =>
      rw [hdbs, System.dbs_setDb]
      split
      · next hco => rw [hco, MirrorDb.commit, MirrorDb.loadCursor, MirrorDb.loadCursor]
      · rfl
  | load id c _ hc hphase hdbs htask => rw [hdbs]
  | fetch id c since answer phase _ hc hphase hvalid hne hnext hdbs htask => rw [hdbs]
  | insert id c batch hc hphase hdbs htask =>
      rw [hdbs, System.dbs_setDb]
      split
      · next hco => rw [hco, MirrorDb.insertEvents, MirrorDb.loadCursor, MirrorDb.loadCursor]
      · rfl
  | advanceCursor id c batch hc hphase hdbs htask =>
      have hdone := h.tasks id c hc
      rw [hphase] at hdone
      rw [hdbs, System.dbs_setDb]
      split
      · next hco =>
          rw [hco, loadCursor_setCursor]
          split
          · next hsrc =>
              rw [hsrc]
              exact hdone.1.le
          · exact le_refl _
      · exact le_refl _

/-- **Serialised, the mirror has no duplicates**: in every state that serialised steps lead
to, the rows of a change are there once or not at all, and the next step sets no cursor
back. -/
theorem once_of_serialised {clock : Time}
    (h : Runs.Reached (System.step cfg) Serialised (System.init clock) s) (companyId : String)
    (source : Source) :
    (∀ c ∈ (s.dbs companyId).feed source,
      let rows := ((s.dbs companyId).eventsOf source).filter
        (fun e => decide (e.versionstamp = c.versionstamp))
      rows = [] ∨ rows = buildAuditEventBatch source [c]) ∧
    ∀ op, (s.dbs companyId).loadCursor source ≤ ((s.step cfg op).dbs companyId).loadCursor source := by
  have honce := once_of_reached h
  refine ⟨fun c hc => ?_, fun op => honce.loadCursor_le cfg op companyId source⟩
  obtain ⟨v, hv⟩ := honce.exists_eventsOf companyId source
  rw [hv]
  simp only [filter_build_upTo ((honce.complete.dbs companyId).feed source) hc v]
  split
  · exact Or.inr rfl
  · exact Or.inl rfl

/-- A step that loads nothing and stops nobody is serialised. -/
theorem serialised_of_plain (s : System) (hload : ∀ id, op ≠ .load id) (hfails : ∀ id, op ≠ .fails id)
    (hcrash : ∀ pod, op ≠ .crash pod) (hfetch : ∀ id answer, op = .fetch id answer → answer.Nodup) :
    Serialised s op := by
  refine ⟨fun id _ h => absurd h (hload id), fun id c batch _ _ _ hstop => ?_, hfetch⟩
  rcases hstop with h | ⟨call, h, _⟩
  · exact hfails id h
  · exact hcrash call.pod h

theorem mirroredOnce_once :
    let s := mirroredOnce.foldl (System.step ⟨true, some 500⟩) (System.init 0)
    let rows := ((s.dbs "acme").eventsOf .knowledgeEntity).filter
      (fun e => decide (e.versionstamp = 7))
    rows = [] ∨ rows = buildAuditEventBatch .knowledgeEntity [oneChange] := by
  have h : Runs.Reached (System.step ⟨true, some 500⟩) Serialised (System.init 0)
      (mirroredOnce.foldl (System.step ⟨true, some 500⟩) (System.init 0)) := by
    simp only [mirroredOnce, List.foldl_cons, List.foldl_nil]
    refine .next _ (.next _ (.next _ (.next _ (.next _ (.next _ .start ?_) ?_) ?_) ?_) ?_) ?_
    · exact serialised_of_plain _ nofun nofun nofun nofun
    · exact serialised_of_plain _ nofun nofun nofun nofun
    · -- the consumer that loads is the only one
      refine ⟨fun id c hop _ id' c' hid hc' => ?_, fun id c batch _ _ _ hstop => ?_, nofun⟩
      · obtain rfl := Op.load.inj hop
        have hold := hc'.symm.trans ((System.task_setCall _ 0 id' _).trans (if_neg hid))
        cases hold
      · rcases hstop with hop | ⟨_, hop, _⟩ <;> cases hop
    · refine serialised_of_plain _ nofun nofun nofun (fun id answer hop => ?_)
      obtain rfl := (Op.fetch.inj hop).2
      exact List.nodup_singleton _
    · exact serialised_of_plain _ nofun nofun nofun nofun
    · exact serialised_of_plain _ nofun nofun nofun nofun
  exact (once_of_serialised h "acme" .knowledgeEntity).1 oneChange (by decide +kernel)

/-! ## Two consumers at once -/

/-- A change of one fact. -/
def factChange (versionstamp : ℕ) : Change where
  versionstamp := versionstamp
  changes := [[("update", .image [("id", .value "knowledge_fact:1")])]]

/-- A tick on one pod has fetched, when operators drain on two others. -/
def drainedMeanwhile : List Op :=
  [.commit "acme" .knowledgeEntity (factChange 1), .tick 0 "a#1" ["acme"], .acquire 0,
    .nextTenant 0, .load 0, .fetch 0 [factChange 1],
    .drainNow 1 "b#1" ["acme"], .nextTenant 1, .load 1, .fetch 1 [factChange 1], .insert 1,
    .advanceCursor 1, .commit "acme" .knowledgeEntity (factChange 2),
    .drainNow 2 "c#1" ["acme"], .nextTenant 2, .load 2, .fetch 2 [factChange 2], .insert 2,
    .advanceCursor 2, .insert 0]

/-- The first change is there twice, and the tick sets the cursor back. -/
theorem inserted_twice :
    let s := drainedMeanwhile.foldl (System.step ⟨true, some 500⟩) (System.init 0)
    System.Reachable ⟨true, some 500⟩ 0 s ∧
    factChange 1 ∈ (s.dbs "acme").feed .knowledgeEntity ∧
    ((s.dbs "acme").eventsOf .knowledgeEntity).filter (fun e => decide (e.versionstamp = 1))
      = buildAuditEventBatch .knowledgeEntity [factChange 1, factChange 1] ∧
    (s.dbs "acme").loadCursor .knowledgeEntity = 2 ∧
    ((s.step ⟨true, some 500⟩ (.advanceCursor 0)).dbs "acme").loadCursor .knowledgeEntity = 1 := by
  refine ⟨Runs.reached_foldl Runs.Reached.start drainedMeanwhile, ?_, ?_, ?_, ?_⟩
  · decide +kernel
  · decide +kernel
  · decide +kernel
  · decide +kernel

end Brain.Audit
