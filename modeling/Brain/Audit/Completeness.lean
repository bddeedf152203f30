/-
The mirror is complete up to its cursor.

A consumer works on what it has loaded and fetched, while writers commit, and other
consumers insert rows and overwrite the cursor. Nothing gets lost by that: whatever
cursor a consumer has loaded, the changes up to it are mirrored (`Mirrored`), changes
that are committed later come after it (`Settled`), and a batch is sorted, so a cursor at
its end leaves no gap (`mem_nextBatch_of_le`). Hence the changes at or below a stored
cursor are mirrored, in every state (`mirrored_of_reached`).
-/
import Brain.Audit.ChangefeedConsumer

set_option autoImplicit false

namespace Brain.Audit

variable {cfg : Config} {s : System} {op : Op} {db : MirrorDb} {source : Source} {v w : ℕ}
  {feed changes batch : List Change} {c d change : Change}

/-! ## Batches -/

theorem sliceTo_prefix {α : Type*} (limit : Option ℤ) (l : List α) : sliceTo limit l <+: l := by
  unfold sliceTo
  split
  · exact List.nil_prefix
  · split <;> exact List.take_prefix _ _

theorem isPrefix_nextBatch (limit : Option ℤ) (changes : List Change) :
    nextBatch limit changes
      <+: changes.mergeSort (fun a b => decide (a.versionstamp ≤ b.versionstamp)) :=
  sliceTo_prefix _ _

theorem mem_of_mem_nextBatch {limit : Option ℤ} (h : c ∈ nextBatch limit changes) : c ∈ changes :=
  List.mem_mergeSort.mp ((isPrefix_nextBatch limit changes).subset h)

theorem pairwise_mergeSort_stamps (changes : List Change) :
    (changes.mergeSort (fun a b => decide (a.versionstamp ≤ b.versionstamp))).Pairwise
      (fun a b => a.versionstamp ≤ b.versionstamp) := by
  have h : (changes.mergeSort (fun a b => decide (a.versionstamp ≤ b.versionstamp))).Pairwise
      (fun a b => decide (a.versionstamp ≤ b.versionstamp) = true) := by
    apply List.pairwise_mergeSort
    · intro a b c hab hbc
      rw [decide_eq_true_eq] at hab hbc ⊢
      omega
    · intro a b
      rw [Bool.or_eq_true, decide_eq_true_eq, decide_eq_true_eq]
      omega
  exact h.imp (fun hab => of_decide_eq_true hab)

/-- The stamp of a batch is that of one of its changes. -/
theorem exists_lastStamp (hne : batch ≠ []) : ∃ c ∈ batch, c.versionstamp = lastStamp batch := by
  refine ⟨batch.getLast hne, List.getLast_mem hne, ?_⟩
  rw [lastStamp, List.getLast?_eq_some_getLast hne, Option.map_some, Option.getD_some]

/-- **A batch has no gap**: what is fetched and not above its last change is in it. -/
theorem mem_nextBatch_of_le {limit : Option ℤ}
    (hdistinct : ∀ a ∈ changes, ∀ b ∈ changes, a.versionstamp = b.versionstamp → a = b)
    (hne : nextBatch limit changes ≠ []) (hc : c ∈ changes)
    (hle : c.versionstamp ≤ lastStamp (nextBatch limit changes)) : c ∈ nextBatch limit changes := by
  obtain ⟨rest, hrest⟩ := isPrefix_nextBatch limit changes
  have hsort := pairwise_mergeSort_stamps changes
  have hmem : c ∈ changes.mergeSort (fun a b => decide (a.versionstamp ≤ b.versionstamp)) :=
    List.mem_mergeSort.mpr hc
  rw [← hrest] at hsort hmem
  rcases List.mem_append.mp hmem with h | h
  · exact h
  · -- behind the batch it is not below the last change, so it is that change
    obtain ⟨l, hl, hstamp⟩ := exists_lastStamp hne
    have hge := (List.pairwise_append.mp hsort).2.2 l hl c h
    have heq : c.versionstamp = l.versionstamp := by omega
    rw [hdistinct c hc l (mem_of_mem_nextBatch hl) heq]
    exact hl

theorem mem_fetchChanges {since : ℕ} {answer : List Change} :
    c ∈ fetchChanges since answer ↔ c ∈ answer ∧ (since = 0 ∨ since < c.versionstamp) := by
  unfold fetchChanges
  split
  · next hpos =>
      rw [List.mem_filter, decide_eq_true_eq]
      constructor
      · rintro ⟨ha, hlt⟩
        exact ⟨ha, Or.inr hlt⟩
      · rintro ⟨ha, h0 | hlt⟩
        · omega
        · exact ⟨ha, hlt⟩
  · next hpos =>
      have h0 : since = 0 := by omega
      simp [h0]

/-! ## The feed -/

/-- Versionstamps are positive, and increase. -/
structure FeedOk (feed : List Change) : Prop where
  pos : ∀ c ∈ feed, 0 < c.versionstamp
  increasing : feed.Pairwise (fun a b => a.versionstamp < b.versionstamp)

theorem commits_iff : commits feed change = true ↔
    0 < change.versionstamp ∧ ∀ d ∈ feed, d.versionstamp < change.versionstamp := by
  simp only [commits, Bool.and_eq_true, decide_eq_true_eq, List.all_eq_true]

theorem FeedOk.append (h : FeedOk feed) (hc : commits feed change = true) :
    FeedOk (feed ++ [change]) := by
  obtain ⟨hpos, hlt⟩ := commits_iff.mp hc
  constructor
  · intro d hd
    rcases List.mem_append.mp hd with hd | hd
    · exact h.pos d hd
    · rw [List.mem_singleton.mp hd]
      exact hpos
  · rw [List.pairwise_append]
    refine ⟨h.increasing, List.pairwise_singleton _ _, fun a ha b hb => ?_⟩
    rw [List.mem_singleton.mp hb]
    exact hlt a ha

theorem FeedOk.eq_of_stamp_eq (h : FeedOk feed) (hc : c ∈ feed) (hd : d ∈ feed)
    (heq : c.versionstamp = d.versionstamp) : c = d := by
  have hnd : (feed.map Change.versionstamp).Nodup :=
    List.pairwise_map.mpr (h.increasing.imp (fun hab => Nat.ne_of_lt hab))
  exact List.inj_on_of_nodup_map hnd hc hd heq

/-- No change that comes later is at or below `v`. -/
def Settled (feed : List Change) (v : ℕ) : Prop :=
  ∀ change, commits feed change = true → v < change.versionstamp

theorem settled_zero : Settled feed 0 := fun _ h => (commits_iff.mp h).1

theorem settled_of_mem (h : c ∈ feed) : Settled feed c.versionstamp :=
  fun _ hc => (commits_iff.mp hc).2 c h

theorem settled_lastStamp (hne : batch ≠ []) (hsub : ∀ c ∈ batch, c ∈ feed) :
    Settled feed (lastStamp batch) := by
  obtain ⟨c, hc, hstamp⟩ := exists_lastStamp hne
  rw [← hstamp]
  exact settled_of_mem (hsub c hc)

theorem Settled.append (h : Settled feed v) (d : Change) : Settled (feed ++ [d]) v := by
  intro change hc
  obtain ⟨hpos, hlt⟩ := commits_iff.mp hc
  exact h change (commits_iff.mpr ⟨hpos, fun e he => hlt e (List.mem_append_left _ he)⟩)

/-! ## What is mirrored -/

/-- All items of the change have been inserted. -/
def InMirror (db : MirrorDb) (source : Source) (c : Change) : Prop :=
  buildAuditEventBatch source [c] <:+: db.events

/-- The changes up to `v` are mirrored. -/
def Mirrored (db : MirrorDb) (source : Source) (v : ℕ) : Prop :=
  ∀ c ∈ db.feed source, c.versionstamp ≤ v → InMirror db source c

theorem InMirror.insertEvents (h : InMirror db source c) (rows : List EventRow) :
    InMirror (db.insertEvents rows) source c :=
  h.trans (List.prefix_append db.events rows).isInfix

theorem Mirrored.insertEvents (h : Mirrored db source v) (rows : List EventRow) :
    Mirrored (db.insertEvents rows) source v :=
  fun c hc hle => (h c hc hle).insertEvents rows

/-- The rows of a change are among those of its batch. -/
theorem inMirror_insertEvents_of_mem (hc : c ∈ batch) :
    InMirror (db.insertEvents (buildAuditEventBatch source batch)) source c := by
  obtain ⟨before, after, rfl⟩ := List.append_of_mem hc
  refine ⟨db.events ++ buildAuditEventBatch source before, buildAuditEventBatch source after, ?_⟩
  simp only [MirrorDb.insertEvents, buildAuditEventBatch, List.flatMap_append, List.flatMap_cons,
    List.flatMap_nil, List.append_nil, List.append_assoc]

theorem feed_commit (db : MirrorDb) (source source' : Source) (change : Change) :
    (db.commit source' change).feed source
      = if source = source' then db.feed source ++ [change] else db.feed source := by
  simp only [MirrorDb.commit, Function.update_apply]
  split
  · next h => rw [h]
  · rfl

theorem mem_feed_commit {source' : Source}
    (h : c ∈ (db.commit source' change).feed source) :
    c ∈ db.feed source ∨ (source = source' ∧ c = change) := by
  rw [feed_commit] at h
  split at h
  · next hs =>
      rcases List.mem_append.mp h with h | h
      · exact Or.inl h
      · exact Or.inr ⟨hs, List.mem_singleton.mp h⟩
  · exact Or.inl h

theorem Settled.commit (h : Settled (db.feed source) v) (source' : Source) (change : Change) :
    Settled ((db.commit source' change).feed source) v := by
  rw [feed_commit]
  split
  · exact h.append change
  · exact h

/-- A change that is committed now is above what is settled. -/
theorem Mirrored.commit {source' : Source} (h : Mirrored db source v)
    (hs : Settled (db.feed source) v) (hc : commits (db.feed source') change = true) :
    Mirrored (db.commit source' change) source v := by
  intro d hd hle
  rcases mem_feed_commit hd with hd | ⟨rfl, rfl⟩
  · exact h d hd hle
  · have hlt := hs d hc
    omega

/-- What a consumer may rely on, in each of its phases. -/
def PhaseOk (db : MirrorDb) (source : Source) : Phase → Prop
  | .loading => True
  | .fetching since => Mirrored db source since ∧ Settled (db.feed source) since
  | .inserting batch => batch ≠ [] ∧ (∀ c ∈ batch, c ∈ db.feed source) ∧
      ∀ c ∈ db.feed source, c.versionstamp ≤ lastStamp batch → c ∈ batch ∨ InMirror db source c
  | .advancing batch => Mirrored db source (lastStamp batch) ∧
      Settled (db.feed source) (lastStamp batch)

theorem PhaseOk.insertEvents {phase : Phase} (h : PhaseOk db source phase) (rows : List EventRow) :
    PhaseOk (db.insertEvents rows) source phase := by
  cases phase with
  | loading => trivial
  | fetching since => exact ⟨h.1.insertEvents rows, h.2⟩
  | inserting batch =>
      exact ⟨h.1, h.2.1, fun c hc hle => (h.2.2 c hc hle).imp_right (·.insertEvents rows)⟩
  | advancing batch => exact ⟨h.1.insertEvents rows, h.2⟩

theorem PhaseOk.commit {phase : Phase} {source' : Source} (h : PhaseOk db source phase)
    (hc : commits (db.feed source') change = true) :
    PhaseOk (db.commit source' change) source phase := by
  cases phase with
  | loading => trivial
  | fetching since => exact ⟨h.1.commit h.2 hc, h.2.commit source' change⟩
  | inserting batch =>
      obtain ⟨hne, hsub, hcover⟩ := h
      have hsub' : ∀ c ∈ batch, c ∈ (db.commit source' change).feed source := by
        intro c hcb
        rw [feed_commit]
        split
        · exact List.mem_append_left _ (hsub c hcb)
        · exact hsub c hcb
      refine ⟨hne, hsub', fun d hd hle => ?_⟩
      rcases mem_feed_commit hd with hd | ⟨rfl, rfl⟩
      · exact hcover d hd hle
      · have hlt := settled_lastStamp hne hsub d hc
        omega
  | advancing batch => exact ⟨h.1.commit h.2 hc, h.2.commit source' change⟩

/-- A fetch, whatever was answered. -/
theorem phaseOk_of_fetch {since : ℕ} {answer : List Change} {limit : Option ℤ}
    (hfeed : FeedOk (db.feed source)) (h : PhaseOk db source (.fetching since))
    (hvalid : ValidAnswer (db.feed source) since answer)
    (hne : nextBatch limit (fetchChanges since answer) ≠ []) :
    PhaseOk db source (.inserting (nextBatch limit (fetchChanges since answer))) := by
  have hsub : ∀ c ∈ fetchChanges since answer, c ∈ db.feed source :=
    fun c hc => hvalid.1 c (mem_fetchChanges.mp hc).1
  refine ⟨hne, fun c hc => hsub c (mem_of_mem_nextBatch hc), fun c hc hle => ?_⟩
  by_cases hold : c.versionstamp ≤ since
  · exact Or.inr (h.1 c hc hold)
  · left
    have hnew : c ∈ fetchChanges since answer :=
      mem_fetchChanges.mpr ⟨hvalid.2 c hc (by omega), Or.inr (by omega)⟩
    exact mem_nextBatch_of_le
      (fun a ha b hb => hfeed.eq_of_stamp_eq (hsub a ha) (hsub b hb)) hne hnew hle

/-- A batch without rows is mirrored as it is. -/
theorem phaseOk_of_no_rows (h : PhaseOk db source (.inserting batch))
    (hempty : buildAuditEventBatch source batch = []) : PhaseOk db source (.advancing batch) := by
  obtain ⟨hne, hsub, hcover⟩ := h
  refine ⟨fun c hc hle => ?_, settled_lastStamp hne hsub⟩
  rcases hcover c hc hle with hmem | hdone
  · have hin : InMirror (db.insertEvents (buildAuditEventBatch source batch)) source c :=
      inMirror_insertEvents_of_mem hmem
    rw [hempty] at hin
    simpa [InMirror, MirrorDb.insertEvents] using hin
  · exact hdone

/-- After the insert the whole batch is. -/
theorem phaseOk_of_insert (h : PhaseOk db source (.inserting batch)) :
    PhaseOk (db.insertEvents (buildAuditEventBatch source batch)) source (.advancing batch) := by
  obtain ⟨hne, hsub, hcover⟩ := h
  refine ⟨fun c hc hle => ?_, settled_lastStamp hne hsub⟩
  rcases hcover c hc hle with hmem | hdone
  · exact inMirror_insertEvents_of_mem hmem
  · exact hdone.insertEvents _

/-! ## Every run -/

/-- The tables of a tenant: the feed is in order, and mirrored up to each cursor. -/
structure DbOk (db : MirrorDb) : Prop where
  feed : ∀ source, FeedOk (db.feed source)
  mirrored : ∀ source, Mirrored db source (db.loadCursor source)
  settled : ∀ source, Settled (db.feed source) (db.loadCursor source)

theorem DbOk.commit {source' : Source} (h : DbOk db)
    (hc : commits (db.feed source') change = true) : DbOk (db.commit source' change) := by
  refine ⟨fun source => ?_, fun source => (h.mirrored source).commit (h.settled source) hc,
    fun source => (h.settled source).commit source' change⟩
  rw [feed_commit]
  split
  · next hs => exact (h.feed source).append (hs ▸ hc)
  · exact h.feed source

theorem DbOk.insertEvents (h : DbOk db) (rows : List EventRow) : DbOk (db.insertEvents rows) :=
  ⟨h.feed, fun source => (h.mirrored source).insertEvents rows, h.settled⟩

theorem loadCursor_setCursor (db : MirrorDb) (source source' : Source) (row : CursorRow) :
    (db.setCursor source' row).loadCursor source
      = if source = source' then row.lastVersionstamp else db.loadCursor source := by
  simp only [MirrorDb.setCursor, MirrorDb.loadCursor, Function.update_apply]
  split
  · rfl
  · rfl

theorem DbOk.setCursor {source' : Source} {row : CursorRow} (h : DbOk db)
    (hm : Mirrored db source' row.lastVersionstamp)
    (hs : Settled (db.feed source') row.lastVersionstamp) : DbOk (db.setCursor source' row) := by
  refine ⟨h.feed, fun source => ?_, fun source => ?_⟩
  · rw [loadCursor_setCursor]
    split
    · next hsrc => exact hsrc ▸ hm
    · exact h.mirrored source
  · rw [loadCursor_setCursor]
    split
    · next hsrc => exact hsrc ▸ hs
    · exact h.settled source

/-- The invariant of the system. -/
structure Complete (s : System) : Prop where
  dbs : ∀ companyId, DbOk (s.dbs companyId)
  tasks : ∀ id c, s.task id = some c → PhaseOk (s.dbs c.companyId) c.source c.phase

theorem complete_init (clock : Time) : Complete (System.init clock) := by
  refine ⟨fun companyId => ⟨fun source => ⟨?_, List.Pairwise.nil⟩, ?_,
    fun source => settled_zero⟩, ?_⟩
  · rintro c ⟨⟩
  · rintro source c ⟨⟩
  · rintro id c ⟨⟩

/-- A step on one tenant's tables, which keeps what consumers rely on. -/
theorem Complete.setDb {s' : System} {companyId : String} {db' : MirrorDb} (h : Complete s)
    (hdbs : s'.dbs = (s.setDb companyId db').dbs) (hdb : DbOk db')
    (hkeep : ∀ source phase, PhaseOk (s.dbs companyId) source phase → PhaseOk db' source phase)
    (htasks : ∀ id c, s'.task id = some c → s.task id = some c ∨
      PhaseOk (s'.dbs c.companyId) c.source c.phase) : Complete s' := by
  constructor
  · intro co
    rw [hdbs, System.dbs_setDb]
    split
    · exact hdb
    · exact h.dbs co
  · intro id c hc
    rcases htasks id c hc with hold | hok
    · have hphase := h.tasks id c hold
      rw [hdbs, System.dbs_setDb]
      split
      · next hco => exact hkeep _ _ (hco ▸ hphase)
      · exact hphase
    · exact hok

/-- A step that leaves the tables. -/
theorem Complete.of_dbs {s' : System} (h : Complete s) (hdbs : s'.dbs = s.dbs)
    (htasks : ∀ id c, s'.task id = some c → s.task id = some c ∨
      PhaseOk (s.dbs c.companyId) c.source c.phase) : Complete s' := by
  constructor
  · intro co
    rw [hdbs]
    exact h.dbs co
  · intro id c hc
    rw [hdbs]
    rcases htasks id c hc with hold | hok
    · exact h.tasks id c hold
    · exact hok

theorem phaseOk_loading : PhaseOk db source .loading := trivial

/-- **Every step keeps it.** -/
theorem Complete.step (h : Complete s) (op : Op) : Complete (s.step cfg op) := by
  cases System.step_effect cfg s op with
  | quiet hdbs hnew _ =>
      refine h.of_dbs hdbs (fun id c hc => ?_)
      rcases hnew id c hc with hold | hphase
      · exact Or.inl hold
      · right
        rw [hphase]
        exact phaseOk_loading
  | commit companyId source change hc hdbs htask =>
      refine h.setDb hdbs ((h.dbs companyId).commit hc) (fun _ _ hp => hp.commit hc)
        (fun id c ht => ?_)
      rw [htask] at ht
      exact Or.inl ht
  | load id c hop hc hphase hdbs htask =>
      refine h.of_dbs hdbs (fun id' d hd => ?_)
      rw [htask] at hd
      split at hd
      · obtain rfl := Option.some.inj hd
        exact Or.inr ⟨(h.dbs c.companyId).mirrored c.source, (h.dbs c.companyId).settled c.source⟩
      · exact Or.inl hd
  | fetch id c since answer phase hop hc hphase hvalid hne hnext hdbs htask =>
      refine h.of_dbs hdbs (fun id' d hd => ?_)
      rw [htask] at hd
      split at hd
      · obtain rfl := Option.some.inj hd
        have hfetch := h.tasks id c hc
        rw [hphase] at hfetch
        have hready := phaseOk_of_fetch ((h.dbs c.companyId).feed c.source) hfetch hvalid hne
        rcases hnext with rfl | ⟨rfl, hempty⟩
        · exact Or.inr hready
        · exact Or.inr (phaseOk_of_no_rows hready hempty)
      · exact Or.inl hd
  | insert id c batch hc hphase hdbs htask =>
      have hready := h.tasks id c hc
      rw [hphase] at hready
      refine h.setDb hdbs ((h.dbs c.companyId).insertEvents _) (fun _ _ hp => hp.insertEvents _)
        (fun id' d hd => ?_)
      rw [htask] at hd
      split at hd
      · obtain rfl := Option.some.inj hd
        right
        rw [hdbs, System.dbs_setDb, if_pos rfl]
        exact phaseOk_of_insert hready
      · exact Or.inl hd
  | advanceCursor id c batch hc hphase hdbs htask =>
      have hdone := h.tasks id c hc
      rw [hphase] at hdone
      refine h.setDb hdbs ((h.dbs c.companyId).setCursor hdone.1 hdone.2) (fun _ phase hp => ?_)
        (fun id' d hd => ?_)
      · -- the cursor is not what a phase relies on
        cases phase <;> exact hp
      · rw [htask] at hd
        split at hd
        · right
          rw [Consumer.next_phase hd]
          exact phaseOk_loading
        · exact Or.inl hd

theorem complete_of_reached {C : System → Op → Prop} {clock : Time}
    (h : Runs.Reached (System.step cfg) C (System.init clock) s) : Complete s :=
  h.invariant (complete_init clock) (fun _ op hs _ => hs.step op)

/-- **The mirror loses nothing**: in every state that any interleaving leads to, the rows of
each change at or below the stored cursor of its source are in `audit_event`. -/
theorem mirrored_of_reached {clock : Time} (h : s.Reachable cfg clock) (companyId : String)
    (source : Source) {row : CursorRow} (hrow : (s.dbs companyId).cursor source = some row)
    {c : Change} (hc : c ∈ (s.dbs companyId).feed source)
    (hle : c.versionstamp ≤ row.lastVersionstamp) :
    buildAuditEventBatch source [c] <:+: (s.dbs companyId).events := by
  refine ((complete_of_reached h).dbs companyId).mirrored source c hc ?_
  rw [MirrorDb.loadCursor, hrow]
  exact hle

/-- The change of one fact. -/
def oneChange : Change where
  versionstamp := 7
  changes := [[("update", .image [("id", .value "knowledge_fact:1")])]]

/-- A consumer mirrors it. -/
def mirroredOnce : List Op :=
  [.commit "acme" .knowledgeEntity oneChange, .consumeForTenant 0 "a#1" "acme", .load 0,
    .fetch 0 [oneChange], .insert 0, .advanceCursor 0]

theorem oneChange_mirrored :
    buildAuditEventBatch .knowledgeEntity [oneChange]
      <:+: ((mirroredOnce.foldl (System.step ⟨true, some 500⟩) (System.init 0)).dbs "acme").events := by
  have hrow : (((mirroredOnce.foldl (System.step ⟨true, some 500⟩) (System.init 0)).dbs "acme").cursor
      .knowledgeEntity).map CursorRow.lastVersionstamp = some 7 := by decide +kernel
  obtain ⟨row, hrow, hstamp⟩ := Option.map_eq_some_iff.mp hrow
  refine mirrored_of_reached (Runs.reached_foldl Runs.Reached.start mirroredOnce) "acme"
    .knowledgeEntity hrow ?_ ?_
  · decide +kernel
  · rw [hstamp]
    exact le_refl 7

end Brain.Audit
