/-
`forget` called again after calls that failed on the way.

The deletes of a call are statements of their own, so a call that fails between two of
them leaves the first ones (`failedForget`). The next call starts over: it looks for the
entity again, and collects the identifiers of the facts and edges that are still there.
Until the entity is deleted it can finish the work, but for the audit rows and the emits
of facts and edges that it no longer finds; after that it does not get past its first
check (`completes_iff`).
-/
import Brain.Entities.Forget

set_option autoImplicit false

namespace Brain

/-! ## Calls that fail -/

/-- The deletes of a call, in their order. -/
def forgetDeletes (call : ForgetCall) (db : TenantDb) : List (TenantDb → TenantDb) :=
  let ids := db.recordIds call.entityId
  [deleteFacts call.entityId, deleteEdges call.entityId, deleteEntity call.entityId,
    deleteAuditEvents ids, deleteDreamEmits ids,
    deleteDebugTraces call.companyId (RecordId.entity call.entityId).text,
    deleteArtifacts call.entityId, deleteDeadLetters call.entityId,
    deleteExternalRefs call.entityId]

/-- The store that a call leaves that fails after `n` of its deletes. -/
def failedForget (call : ForgetCall) (db : TenantDb) (n : ℕ) : TenantDb :=
  if db.HasEntity call.entityId then
    ((forgetDeletes call db).take n).foldl (fun db delete => delete db) db
  else db

/-- The store after several of them. -/
def failedForgets (call : ForgetCall) (ns : List ℕ) (db : TenantDb) : TenantDb :=
  ns.foldl (failedForget call) db

section Failed

variable {hmac : String → String} {call : ForgetCall} {db : TenantDb}

/-- **A call is its deletes**, and the tombstone. -/
theorem forget_eq_failedForget (he : db.HasEntity call.entityId)
    (hfree : db.HashFree hmac call.companyId call.entityId) :
    (forget hmac call db).2
      = { failedForget call db 9 with forgotten := db.forgotten ++ [tombstone hmac call db] } := by
  have hall : failedForget call db 9
      = erased call.companyId call.entityId (db.recordIds call.entityId) db := by
    rw [failedForget, if_pos he, ← erased_eq]
    rfl
  rw [forget_of_succeeds he hfree, hall]

theorem failedForget_of_not_hasEntity (he : ¬ db.HasEntity call.entityId) (n : ℕ) :
    failedForget call db n = db := if_neg he

@[simp] theorem failedForget_zero : failedForget call db 0 = db := by
  rw [failedForget]
  split <;> rfl

theorem failedForget_one (he : db.HasEntity call.entityId) :
    failedForget call db 1 = deleteFacts call.entityId db := if_pos he

theorem failedForget_two (he : db.HasEntity call.entityId) :
    failedForget call db 2 = deleteEdges call.entityId (deleteFacts call.entityId db) := if_pos he

theorem not_hasEntity_deleteEntity (e : EntityId) (db : TenantDb) :
    ¬ (deleteEntity e db).HasEntity e := by
  intro h
  obtain ⟨x, hx⟩ := Option.isSome_iff_exists.mp h
  have hne := (KeyedTable.get?_deleteWhere_eq_some.mp hx).2
  simp at hne

/-- A call that has deleted the entity before it fails leaves none, and no later call finds
one. -/
theorem not_hasEntity_failedForget {n : ℕ} (hn : 3 ≤ n) :
    ¬ (failedForget call db n).HasEntity call.entityId := by
  by_cases he : db.HasEntity call.entityId
  · obtain ⟨m, rfl⟩ := Nat.exists_eq_add_of_le' hn
    rw [failedForget, if_pos he]
    -- the deletes that follow do not touch the table
    have hkeep : ∀ (l : List (TenantDb → TenantDb)) (db : TenantDb),
        (∀ d ∈ l, ∀ db, (d db).entities = db.entities) →
          (l.foldl (fun db delete => delete db) db).entities = db.entities := by
      intro l
      induction l with
      | nil => exact fun db _ => rfl
      | cons d l ih =>
          intro db hl
          rw [List.foldl_cons, ih _ (fun d hd => hl d (List.mem_cons_of_mem _ hd))]
          exact hl d List.mem_cons_self db
    have hsplit : (forgetDeletes call db).take (m + 3)
        = deleteFacts call.entityId :: deleteEdges call.entityId :: deleteEntity call.entityId ::
          ((forgetDeletes call db).drop 3).take m := rfl
    have hrest := hkeep (((forgetDeletes call db).drop 3).take m)
      (deleteEntity call.entityId (deleteEdges call.entityId (deleteFacts call.entityId db))) (by
        intro d hd db'
        have hmem := List.mem_of_mem_take hd
        simp only [forgetDeletes, List.drop_succ_cons, List.drop_zero, List.mem_cons,
          List.not_mem_nil, or_false] at hmem
        rcases hmem with rfl | rfl | rfl | rfl | rfl | rfl <;> rfl)
    rw [hsplit, List.foldl_cons, List.foldl_cons, List.foldl_cons, Store.HasEntity, hrest]
    exact not_hasEntity_deleteEntity _ _
  · rwa [failedForget_of_not_hasEntity he]

theorem not_hasEntity_failedForgets {ns : List ℕ} :
    ∀ {db : TenantDb}, ¬ db.HasEntity call.entityId → failedForgets call ns db = db := by
  induction ns with
  | nil => exact fun _ => rfl
  | cons n ns ih =>
      intro db he
      rw [failedForgets, List.foldl_cons, failedForget_of_not_hasEntity he, ← failedForgets]
      exact ih he

/-- One failure that late is enough. -/
theorem not_hasEntity_of_late {ns : List ℕ} :
    ∀ {db : TenantDb} {n : ℕ}, n ∈ ns → 3 ≤ n →
      ¬ (failedForgets call ns db).HasEntity call.entityId := by
  induction ns with
  | nil => exact fun hn => absurd hn List.not_mem_nil
  | cons m ns ih =>
      intro db n hn h3
      rw [failedForgets, List.foldl_cons, ← failedForgets]
      rcases List.mem_cons.mp hn with rfl | hn
      -- without the entity the calls after it change nothing
      · rw [not_hasEntity_failedForgets (not_hasEntity_failedForget h3)]
        exact not_hasEntity_failedForget h3
      · exact ih hn h3

/-! ## Calls that fail early -/

theorem deleteFacts_deleteFacts (e : EntityId) (db : TenantDb) :
    deleteFacts e (deleteFacts e db) = deleteFacts e db := by
  -- the second delete finds no fact, so it marks no artifact
  have hnone : (deleteFacts e db).factIdsOf e = [] := by
    rw [TenantDb.factIdsOf, deleteFacts, KeyedTable.select_deleteWhere, List.map_nil]
  have hart : (deleteFacts e (deleteFacts e db)).artifacts = (deleteFacts e db).artifacts :=
    if_pos (by rw [hnone]; rfl)
  have hfacts : (deleteFacts e (deleteFacts e db)).facts = (deleteFacts e db).facts :=
    KeyedTable.deleteWhere_deleteWhere db.facts (fun _ f => f.entityId == e)
  exact TenantDb.ext hfacts rfl rfl rfl rfl rfl hart rfl rfl rfl rfl

theorem deleteEdges_deleteEdges (e : EntityId) (db : TenantDb) :
    deleteEdges e (deleteEdges e db) = deleteEdges e db := by
  have hedges : (deleteEdges e (deleteEdges e db)).edges = (deleteEdges e db).edges :=
    KeyedTable.deleteWhere_deleteWhere db.edges (fun _ x => x.in_ == e || x.out == e)
  exact TenantDb.ext rfl rfl rfl rfl hedges rfl rfl rfl rfl rfl rfl

theorem deleteFacts_deleteEdges (e : EntityId) (db : TenantDb) :
    deleteFacts e (deleteEdges e db) = deleteEdges e (deleteFacts e db) := rfl

/-- What the deletes of facts and of edges both leave alone, an early failure leaves alone. -/
theorem read_failedForget {α : Type} (read : TenantDb → α)
    (hfacts : ∀ db, read (deleteFacts call.entityId db) = read db)
    (hedges : ∀ db, read (deleteEdges call.entityId db) = read db) {n : ℕ} (hn : n ≤ 2) :
    read (failedForget call db n) = read db := by
  by_cases he : db.HasEntity call.entityId
  · interval_cases n
    · rw [failedForget_zero]
    · rw [failedForget_one he, hfacts]
    · rw [failedForget_two he, hedges, hfacts]
  · rw [failedForget_of_not_hasEntity he]

theorem hasEntity_failedForget {n : ℕ} (hn : n ≤ 2) :
    (failedForget call db n).HasEntity call.entityId ↔ db.HasEntity call.entityId := by
  have hread : (failedForget call db n).entities = db.entities :=
    read_failedForget (fun db => db.entities) (fun _ => rfl) (fun _ => rfl) hn
  rw [Store.HasEntity, Store.HasEntity, hread]

/-- Of two calls that fail early the later failure counts. -/
theorem failedForget_failedForget (he : db.HasEntity call.entityId) {n m : ℕ} (hn : n ≤ 2)
    (hm : m ≤ 2) :
    failedForget call (failedForget call db n) m = failedForget call db (max n m) := by
  have he' := (hasEntity_failedForget hn).mpr he
  -- a failure before the first delete, after the facts, or after the edges
  interval_cases n
  · rw [failedForget_zero, Nat.zero_max]
  · interval_cases m
    · exact failedForget_zero
    · rw [failedForget_one he', failedForget_one he, deleteFacts_deleteFacts]
      exact (failedForget_one he).symm
    · rw [failedForget_two he', failedForget_one he, deleteFacts_deleteFacts]
      exact (failedForget_two he).symm
  · interval_cases m
    · exact failedForget_zero
    · rw [failedForget_one he', failedForget_two he, deleteFacts_deleteEdges,
        deleteFacts_deleteFacts]
      exact (failedForget_two he).symm
    · rw [failedForget_two he', failedForget_two he, deleteFacts_deleteEdges,
        deleteFacts_deleteFacts, deleteEdges_deleteEdges]
      exact (failedForget_two he).symm

theorem failedForgets_of_early {ns : List ℕ} :
    ∀ {db : TenantDb} {m : ℕ}, db.HasEntity call.entityId → m ≤ 2 → (∀ n ∈ ns, n ≤ 2) →
      failedForgets call ns (failedForget call db m) = failedForget call db (ns.foldl max m) := by
  induction ns with
  | nil => exact fun _ _ _ => rfl
  -- the calls so far are one that failed at `m`; the next one makes it `max m n`
  | cons n ns ih =>
      intro db m he hm hns
      have hn := hns n List.mem_cons_self
      rw [failedForgets, List.foldl_cons, failedForget_failedForget he hm hn, ← failedForgets,
        ih he (Nat.max_le.mpr ⟨hm, hn⟩) (fun k hk => hns k (List.mem_cons_of_mem _ hk)),
        List.foldl_cons]

/-- A later call still deletes all that it finds, and of what it can find by a link nothing
is left. -/
theorem erased_failedForget (he : db.HasEntity call.entityId) {m : ℕ} (hm : m ≤ 2)
    (companyId : String) (ids : List String) :
    erased companyId call.entityId ids (failedForget call db m)
      = erased companyId call.entityId ids db := by
  interval_cases m
  · rw [failedForget_zero]
  · rw [failedForget_one he, ← erased_eq, ← erased_eq, deleteFacts_deleteFacts]
  · rw [failedForget_two he, ← erased_eq, ← erased_eq, deleteFacts_deleteEdges,
      deleteFacts_deleteFacts, deleteEdges_deleteEdges]

/-- The records of an entity that are gone when its facts, or its facts and its edges, are. -/
def TenantDb.lostRecords (db : TenantDb) (e : EntityId) (m : ℕ) : List RecordId :=
  (if 1 ≤ m then (db.factIdsOf e).map .fact else []) ++
    (if 2 ≤ m then (db.edgeIdsOf e).map .edge else [])

/-- The others. -/
def TenantDb.keptRecords (db : TenantDb) (e : EntityId) (m : ℕ) : List RecordId :=
  .entity e :: ((if 1 ≤ m then [] else (db.factIdsOf e).map .fact) ++
    (if 2 ≤ m then [] else (db.edgeIdsOf e).map .edge))

theorem recordsOf_failedForget (he : db.HasEntity call.entityId) {m : ℕ} (hm : m ≤ 2) :
    (failedForget call db m).recordsOf call.entityId = db.keptRecords call.entityId m := by
  have hfacts : (deleteFacts call.entityId db).factIdsOf call.entityId = [] := by
    rw [TenantDb.factIdsOf, deleteFacts, KeyedTable.select_deleteWhere, List.map_nil]
  have hedges : (deleteEdges call.entityId (deleteFacts call.entityId db)).edgeIdsOf call.entityId
      = [] := by
    rw [TenantDb.edgeIdsOf, deleteEdges, KeyedTable.select_deleteWhere, List.map_nil]
  interval_cases m
  · rw [failedForget_zero]
    rfl
  · rw [failedForget_one he, TenantDb.recordsOf, hfacts]
    rfl
  · rw [failedForget_two he, TenantDb.recordsOf, hedges]
    have hfacts' : (deleteEdges call.entityId (deleteFacts call.entityId db)).factIdsOf
        call.entityId = [] := hfacts
    rw [hfacts']
    rfl

theorem mem_recordsOf_iff_lost_or_kept {e : EntityId} {m : ℕ} {r : RecordId} :
    r ∈ db.recordsOf e ↔ r ∈ db.lostRecords e m ∨ r ∈ db.keptRecords e m := by
  -- a list that one condition puts on either side
  have hsplit : ∀ (c : Prop) [Decidable c] (l : List RecordId),
      r ∈ l ↔ r ∈ (if c then l else []) ∨ r ∈ (if c then [] else l) := by
    intro c _ l
    by_cases hc : c <;> simp [hc]
  rw [TenantDb.recordsOf, TenantDb.lostRecords, TenantDb.keptRecords, List.mem_cons,
    List.mem_cons, List.mem_append, List.mem_append, List.mem_append,
    hsplit (1 ≤ m) ((db.factIdsOf e).map .fact), hsplit (2 ≤ m) ((db.edgeIdsOf e).map .edge)]
  tauto

theorem forgotten_failedForget {m : ℕ} (hm : m ≤ 2) :
    (failedForget call db m).forgotten = db.forgotten :=
  read_failedForget (fun db => db.forgotten) (fun _ => rfl) (fun _ => rfl) hm

/-! ## What is found by a name -/

/-- The letter by which the tables of the graph differ. -/
theorem RecordId.text_letter (r : RecordId) :
    r.text.toList[11]?
      = some (match r with | .entity _ => 'n' | .fact _ => 'a' | .edge _ => 'd') := by
  have happend : ∀ table key : String, 11 < table.toList.length →
      (table ++ key).toList[11]? = table.toList[11]? := by
    intro table key hlen
    rw [String.toList_append, List.getElem?_append_left hlen]
  cases r with
  | entity e => exact happend "knowledge_entity:" (toString e) (by decide)
  | fact i => exact happend "knowledge_fact:" (toString i) (by decide)
  | edge j => exact happend "knowledge_edge:" (toString j) (by decide)

theorem text_ne_of_lost_of_kept {e : EntityId} {m : ℕ} {r r' : RecordId}
    (hr : r ∈ db.lostRecords e m) (hr' : r' ∈ db.keptRecords e m) : r.text ≠ r'.text := by
  intro h
  have hletter := congrArg (fun s : String => s.toList[11]?) h
  rw [RecordId.text_letter, RecordId.text_letter] at hletter
  unfold TenantDb.lostRecords at hr
  unfold TenantDb.keptRecords at hr'
  -- the tables of what is lost and of what is kept are different ones in each case
  by_cases h1 : 1 ≤ m <;> by_cases h2 : 2 ≤ m <;>
    simp only [h1, h2, if_true, if_false, List.mem_append, List.mem_cons, List.mem_map,
      List.not_mem_nil, or_false, List.append_nil, List.nil_append] at hr hr'
  · rcases hr with ⟨i, _, rfl⟩ | ⟨j, _, rfl⟩ <;> subst hr' <;> simp at hletter
  · obtain ⟨i, _, rfl⟩ := hr
    rcases hr' with rfl | ⟨j, _, rfl⟩ <;> simp at hletter
  · omega

/-- The names of the records of an entity are those of the lost ones and of the others. -/
theorem contains_recordIds (e : EntityId) (m : ℕ) (s : String) :
    (db.recordIds e).contains s
      = (((db.lostRecords e m).map RecordId.text).contains s ||
          ((db.keptRecords e m).map RecordId.text).contains s) := by
  rw [Bool.eq_iff_iff, Bool.or_eq_true, List.contains_iff_mem, List.contains_iff_mem,
    List.contains_iff_mem, TenantDb.recordIds, List.mem_map, List.mem_map, List.mem_map]
  constructor
  · rintro ⟨r, hr, rfl⟩
    rcases mem_recordsOf_iff_lost_or_kept.mp hr with h | h
    · exact Or.inl ⟨r, h, rfl⟩
    · exact Or.inr ⟨r, h, rfl⟩
  · rintro (⟨r, h, rfl⟩ | ⟨r, h, rfl⟩)
    · exact ⟨r, mem_recordsOf_iff_lost_or_kept.mpr (Or.inl h), rfl⟩
    · exact ⟨r, mem_recordsOf_iff_lost_or_kept.mpr (Or.inr h), rfl⟩

theorem namedIn_recordIds (e : EntityId) (m : ℕ) (a : AuditEvent) :
    namedIn (db.recordIds e) a
      = (namedIn ((db.lostRecords e m).map RecordId.text) a ||
          namedIn ((db.keptRecords e m).map RecordId.text) a) :=
  contains_recordIds e m a.recordId

theorem emittedFor_recordIds (e : EntityId) (m : ℕ) (d : DreamEmit) :
    emittedFor (db.recordIds e) d
      = (emittedFor ((db.lostRecords e m).map RecordId.text) d ||
          emittedFor ((db.keptRecords e m).map RecordId.text) d) := by
  have hany : ∀ o : Option String, o.any (db.recordIds e).contains
      = (o.any ((db.lostRecords e m).map RecordId.text).contains ||
          o.any ((db.keptRecords e m).map RecordId.text).contains) := by
    intro o
    cases o with
    | none => rfl
    | some s => exact contains_recordIds e m s
  rw [emittedFor, emittedFor, emittedFor, hany, hany]
  simp only [Bool.or_assoc, Bool.or_left_comm]

/-- Dropping what `q` finds is dropping what `p` or `q` finds, if `p` finds nothing more. -/
theorem filter_not_eq_iff {α : Type} {l : List α} {p q r : α → Bool}
    (hr : ∀ a, r a = (p a || q a)) :
    l.filter (fun a => !q a) = l.filter (fun a => !r a) ↔
      ∀ a ∈ l, p a = true → q a = true := by
  constructor
  · intro h a ha hp
    by_contra hq
    -- what `p` finds and `q` does not stays on the left and goes on the right
    have hmem : a ∈ l.filter (fun a => !q a) := List.mem_filter.mpr ⟨ha, by simpa using hq⟩
    rw [h, List.mem_filter, hr, hp] at hmem
    simp at hmem
  · intro h
    apply List.filter_congr
    intro a ha
    rw [hr]
    cases hp : p a with
    | false => rfl
    | true => rw [h a ha hp, Bool.or_self]

/-! ## When a later call completes the erasure -/

/-- A tombstone without its counters and its time. -/
def ForgottenEntity.bare (x : ForgottenEntity) : ForgottenEntity :=
  { x with factsDeleted := 0, edgesDeleted := 0, auditEventsDeleted := 0, forgottenAt := 0 }

/-- A database up to the counters and times of its tombstones. -/
def TenantDb.bare (db : TenantDb) : TenantDb :=
  { db with forgotten := db.forgotten.map ForgottenEntity.bare }

/-- After calls that failed, a call at the instant `now` succeeds, and leaves what the
first one would have left. -/
structure Completes (hmac : String → String) (call : ForgetCall) (db : TenantDb) (ns : List ℕ)
    (now : Time) : Prop where
  succeeds : ∃ r, (forget hmac { call with now := now } (failedForgets call ns db)).1 = .ok r
  same : (forget hmac { call with now := now } (failedForgets call ns db)).2.bare
    = (forget hmac call db).2.bare
  once : ((forget hmac { call with now := now } (failedForgets call ns db)).2.forgotten.filter
    (fun x => x.entityIdHash == entityIdHash hmac call.companyId call.entityId)).length = 1

/-- No audit row names a record that is gone, and an emit that names one names one that is
not as well. -/
structure TenantDb.NamesNoLost (db : TenantDb) (e : EntityId) (m : ℕ) : Prop where
  audit : ∀ a ∈ db.auditEvents, namedIn ((db.lostRecords e m).map RecordId.text) a = false
  emits : ∀ d ∈ db.dreamEmits, emittedFor ((db.lostRecords e m).map RecordId.text) d = true →
    emittedFor ((db.keptRecords e m).map RecordId.text) d = true

/-- What the last call leaves, when the others failed early. -/
theorem forget_failedForget (he : db.HasEntity call.entityId)
    (hfree : db.HashFree hmac call.companyId call.entityId) {m : ℕ} (hm : m ≤ 2) (now : Time) :
    (forget hmac { call with now := now } (failedForget call db m)).2
      = { erased call.companyId call.entityId
            ((db.keptRecords call.entityId m).map RecordId.text) db with
          forgotten := db.forgotten ++
            [tombstone hmac { call with now := now } (failedForget call db m)] } := by
  have he' : (failedForget call db m).HasEntity call.entityId := (hasEntity_failedForget hm).mpr he
  have hfree' : (failedForget call db m).HashFree hmac call.companyId call.entityId := by
    rw [TenantDb.HashFree, forgotten_failedForget hm]
    exact hfree
  rw [@forget_of_succeeds hmac { call with now := now } _ he' hfree']
  dsimp only
  -- the last call lists only the records that are still there
  rw [erased_failedForget he hm, forgotten_failedForget hm, TenantDb.recordIds,
    recordsOf_failedForget he hm]

/-- Two erasures from one store agree exactly if they find the same audit rows and emits. -/
theorem erased_eq_iff {e : EntityId} {m : ℕ} (companyId : String) :
    erased companyId e ((db.keptRecords e m).map RecordId.text) db
        = erased companyId e (db.recordIds e) db ↔ db.NamesNoLost e m := by
  have haudit : (erased companyId e ((db.keptRecords e m).map RecordId.text) db).auditEvents
        = (erased companyId e (db.recordIds e) db).auditEvents ↔
      ∀ a ∈ db.auditEvents, namedIn ((db.lostRecords e m).map RecordId.text) a = true →
        namedIn ((db.keptRecords e m).map RecordId.text) a = true :=
    filter_not_eq_iff (namedIn_recordIds e m)
  have hemits : (erased companyId e ((db.keptRecords e m).map RecordId.text) db).dreamEmits
        = (erased companyId e (db.recordIds e) db).dreamEmits ↔
      ∀ d ∈ db.dreamEmits, emittedFor ((db.lostRecords e m).map RecordId.text) d = true →
        emittedFor ((db.keptRecords e m).map RecordId.text) d = true :=
    filter_not_eq_iff (emittedFor_recordIds e m)
  constructor
  · intro h
    refine ⟨fun a ha => ?_, hemits.mp (congrArg TenantDb.dreamEmits h)⟩
    by_contra hlost
    rw [Bool.not_eq_false] at hlost
    -- the row would name a lost record and another one
    have hkept := haudit.mp (congrArg TenantDb.auditEvents h) a ha hlost
    rw [namedIn, List.contains_iff_mem, List.mem_map] at hlost hkept
    obtain ⟨r, hr, hra⟩ := hlost
    obtain ⟨r', hr', hra'⟩ := hkept
    exact text_ne_of_lost_of_kept hr hr' (hra.trans hra'.symm)
  · rintro ⟨ha, hd⟩
    refine TenantDb.ext rfl rfl rfl rfl rfl rfl rfl ?_ (hemits.mpr hd) rfl rfl
    refine haudit.mpr (fun a hmem hlost => ?_)
    rw [ha a hmem] at hlost
    cases hlost

theorem foldl_max_le {ns : List ℕ} (h : ∀ n ∈ ns, n ≤ 2) : ns.foldl max 0 ≤ 2 := by
  have hgo : ∀ (l : List ℕ) (m : ℕ), m ≤ 2 → (∀ n ∈ l, n ≤ 2) → l.foldl max m ≤ 2 := by
    intro l
    induction l with
    | nil => exact fun m hm _ => hm
    | cons n l ih =>
        intro m hm hl
        exact ih _ (Nat.max_le.mpr ⟨hm, hl n List.mem_cons_self⟩)
          (fun k hk => hl k (List.mem_cons_of_mem _ hk))
  exact hgo ns 0 (by omega) h

/-- **When a later call completes the erasure**: no failed call has deleted the entity, and
no audit row and no emit is found by the name of a deleted fact or edge only. -/
theorem completes_iff {result : ForgetResult} (hok : (forget hmac call db).1 = .ok result)
    (ns : List ℕ) (now : Time) :
    Completes hmac call db ns now ↔
      (∀ n ∈ ns, n ≤ 2) ∧ db.NamesNoLost call.entityId (ns.foldl max 0) := by
  obtain ⟨he, hfree⟩ := forget_succeeds_iff.mp ⟨result, hok⟩
  have hfirst := forget_of_succeeds he hfree
  have hlast : (∀ n ∈ ns, n ≤ 2) →
      (forget hmac { call with now := now } (failedForgets call ns db)).2
        = { erased call.companyId call.entityId
              ((db.keptRecords call.entityId (ns.foldl max 0)).map RecordId.text) db with
            forgotten := db.forgotten ++ [tombstone hmac { call with now := now }
              (failedForget call db (ns.foldl max 0))] } := by
    intro hearly
    have hall := failedForgets_of_early he (Nat.zero_le 2) hearly
    rw [failedForget_zero] at hall
    rw [hall]
    exact forget_failedForget he hfree (foldl_max_le hearly) now
  constructor
  · intro h
    have hearly : ∀ n ∈ ns, n ≤ 2 := by
      intro n hn
      by_contra hlate
      -- after a late failure the entity is gone and the last call is a 404
      exact not_hasEntity_of_late hn (by omega) (forget_succeeds_iff.mp h.succeeds).1
    refine ⟨hearly, (erased_eq_iff call.companyId).mp ?_⟩
    have hsame := h.same
    rw [hlast hearly, hfirst] at hsame
    -- the other tables agree anyway; the audit rows and the emits say what is asked
    have haudit := congrArg TenantDb.auditEvents hsame
    have hemits := congrArg TenantDb.dreamEmits hsame
    exact TenantDb.ext rfl rfl rfl rfl rfl rfl rfl haudit hemits rfl rfl
  · rintro ⟨hearly, hnames⟩
    have hm := foldl_max_le hearly
    have hstore := (erased_eq_iff call.companyId).mpr hnames
    have hall := failedForgets_of_early he (Nat.zero_le 2) hearly
    rw [failedForget_zero] at hall
    refine ⟨?_, ?_, ?_⟩
    · refine forget_succeeds_iff.mpr ⟨?_, ?_⟩
      · rw [hall]
        exact (hasEntity_failedForget hm).mpr he
      · rw [hall, TenantDb.HashFree, forgotten_failedForget hm]
        exact hfree
    · rw [hlast hearly, hfirst, hstore, TenantDb.bare, TenantDb.bare]
      dsimp only
      rw [List.map_append, List.map_append]
      rfl
    · rw [hlast hearly]
      dsimp only
      -- no tombstone of the entity before the last call, and one after it
      have hnone : db.forgotten.filter (fun x =>
          x.entityIdHash == entityIdHash hmac call.companyId call.entityId) = [] := by
        rw [List.filter_eq_nil_iff]
        intro x hx
        simpa using hfree x hx
      have hone : [tombstone hmac { call with now := now }
          (failedForget call db (ns.foldl max 0))].filter (fun x =>
            x.entityIdHash == entityIdHash hmac call.companyId call.entityId)
          = [tombstone hmac { call with now := now }
              (failedForget call db (ns.foldl max 0))] :=
        List.filter_cons_of_pos (beq_self_eq_true _)
      rw [List.filter_append, hnone, hone]
      rfl

end Failed

/-! ## A failure on the way -/

/-- A person with one fact, whose creation has been mirrored. -/
def mirroredDb : TenantDb where
  entities := KeyedTable.empty.insert { type := "person", canonicalName := "Ann" }
  facts := KeyedTable.empty.insert
    { entityId := 0, predicate := "phone", object := "555", confidence := .full, validFrom := 0,
      recordedAt := 0, source := {} }
  auditEvents := [
    { source := "knowledge_fact", recordId := "knowledge_fact:0", op := "create",
      versionstamp := 1, after := some { entityId := some 0 } }]

/-- The erasure of the person. -/
def forgetAnn : ForgetCall where
  companyId := "acme"
  entityId := 0
  dto := { reason := .gdpr_request, requestId := "r1" }
  now := 1

theorem forget_mirroredDb : (forget id forgetAnn mirroredDb).1 = .ok
    { entityIdHash := "hmac:acme/knowledge_entity:0", factsDeleted := 1, edgesDeleted := 0,
      auditEventsDeleted := 1, forgottenAt := 1 } := by rfl

/-- Failing before the first delete. -/
theorem completes_iff_mirroredDb :
    Completes id forgetAnn mirroredDb [0] 2 ↔
      (∀ n ∈ [0], n ≤ 2) ∧ mirroredDb.NamesNoLost 0 0 :=
  completes_iff forget_mirroredDb [0] 2

/-- **A call that fails once the entity is deleted** cannot be made up for; one that fails
once the fact is deleted leaves the audit row of the fact for good. -/
theorem not_completes_after_failure :
    (∃ r, (forget id forgetAnn mirroredDb).1 = .ok r) ∧
      ¬ Completes id forgetAnn mirroredDb [3] 2 ∧ ¬ Completes id forgetAnn mirroredDb [1] 2 := by
  refine ⟨⟨_, forget_mirroredDb⟩, ?_, ?_⟩
  · rintro ⟨⟨r, hr⟩, _, _⟩
    have hgone : (forget id { forgetAnn with now := 2 } (failedForgets forgetAnn [3] mirroredDb)).1
        = .error (.notFound "Entity 0 not found") := by rfl
    rw [hgone] at hr
    cases hr
  -- the audit row names the fact, which the second call does not find any more
  · rintro ⟨_, hsame, _⟩
    have hrows : (forget id { forgetAnn with now := 2 }
        (failedForgets forgetAnn [1] mirroredDb)).2.auditEvents.length = 1 := by rfl
    have hnone : (forget id forgetAnn mirroredDb).2.auditEvents.length = 0 := by rfl
    have hlen := congrArg (fun db => db.auditEvents.length) hsame
    have hbare : ∀ db : TenantDb, db.bare.auditEvents.length = db.auditEvents.length := fun _ => rfl
    rw [hbare, hbare, hrows, hnone] at hlen
    cases hlen

end Brain
