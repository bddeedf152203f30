/-
Concurrent calls of `upsertEntityByExternalRef`.

A call looks its key up and, if nobody has it, creates the entity and its row in
`entity_external_ref` in one transaction, all of it inside `retryOnUniqueViolation`
(`src/src/db/surreal.service.ts`). What protects the key is the UNIQUE index: the
transaction of a call whose key has been taken since it looked is turned back, and
its next attempt finds what the other one has created.

In every interleaving the database grows by rows that belong together
(`Grown`): new entities and new references stand for each other, one for a key.
-/
import Brain.Ingest.IngestLink
import Brain.Lib.Optimistic

set_option autoImplicit false

namespace Brain

/-- The arguments of a call, `content` being what `factory` returns. -/
structure UpsertCall where
  key : String
  content : KnowledgeEntity

/-- The transaction: both rows. -/
def createWithRef (s : Store) (c : UpsertCall) : EntityId × Store :=
  (s.entities.next,
    { s with entities := s.entities.insert c.content
             externalRefs := s.externalRefs ++ [(c.key, s.entities.next)] })

section Protocol

variable {ι : Type*}

/-- `retryOnUniqueViolation` around the lookup and the transaction. The environment of
a commit is the error that is not retried, if there is one. -/
def upsertProtocol (calls : ι → UpsertCall) :
    Optimistic.Protocol ι (Option DbError) Store DbError EntityId where
  attempts := 7
  -- a call that found its key has no transaction; the others need the key to be free
  valid i snap cur := (lookupExternalRef snap (calls i).key).isSome ||
    (lookupExternalRef cur (calls i).key).isNone
  body i failure snap cur :=
    match failure with
    | some e => .error e
    | none =>
        match lookupExternalRef snap (calls i).key with
        | some fast => .ok (fast, cur)
        | none => .ok (createWithRef cur (calls i))
  finish _ _ s := s

/-- A call on its own does what `upsertEntityByExternalRef` says. -/
theorem body_upsertProtocol (calls : ι → UpsertCall) (i : ι) (s : Store) :
    (upsertProtocol calls).body i none s s
      = .ok (upsertEntityByExternalRef s (calls i).key (calls i).content) := by
  simp only [upsertProtocol, upsertEntityByExternalRef]
  cases lookupExternalRef s (calls i).key with
  | none => rfl
  | some e => rfl

/-- The call has its result. -/
def Returns (w : Optimistic.World ι Store DbError EntityId) (i : ι) (e : EntityId) : Prop :=
  w.phase i = .committed e ∨ w.phase i = .returned e

end Protocol

/-! ## The rows of the two tables -/

theorem lookupExternalRef_append (refs : List (String × EntityId)) (s : Store) (k : String) :
    lookupExternalRef { s with externalRefs := s.externalRefs ++ refs } k
      = (lookupExternalRef s k).or ((refs.find? (fun r => r.1 == k)).map Prod.snd) := by
  rw [lookupExternalRef, lookupExternalRef, List.find?_append]
  cases s.externalRefs.find? (fun r => r.1 == k) with
  | none => rfl
  | some r => rfl

theorem lookupExternalRef_createWithRef (s : Store) (c : UpsertCall) (k : String) :
    lookupExternalRef (createWithRef s c).2 k
      = (lookupExternalRef s k).or (if c.key = k then some s.entities.next else none) := by
  have h := lookupExternalRef_append [(c.key, s.entities.next)] s k
  have hrefs : lookupExternalRef (createWithRef s c).2 k
      = lookupExternalRef { s with externalRefs := s.externalRefs ++ [(c.key, s.entities.next)] } k :=
    rfl
  rw [hrefs, h]
  congr 1
  by_cases hk : c.key = k
  · simp [hk]
  · have hne : (c.key == k) = false := by simpa using hk
    simp [hne, hk]

/-- A key that is not found stands in no row. -/
theorem not_mem_of_lookup_none {s : Store} {k : String} (h : lookupExternalRef s k = none)
    (e : EntityId) : (k, e) ∉ s.externalRefs := by
  intro hmem
  rw [lookupExternalRef, Option.map_eq_none_iff, List.find?_eq_none] at h
  have hne := h (k, e) hmem
  simp at hne

/-- A key that is found stands in the row that it is found in. -/
theorem mem_of_lookup_some {s : Store} {k : String} {e : EntityId}
    (h : lookupExternalRef s k = some e) : (k, e) ∈ s.externalRefs := by
  obtain ⟨r, hr, he⟩ := Option.map_eq_some_iff.mp h
  have hk : r.1 = k := by simpa using List.find?_some hr
  have hmem := List.mem_of_find?_eq_some hr
  rwa [← hk, ← he]

/-! ## What interleavings make of the database -/

/-- `s` is `s₀` with entities and their references added, one for a key that was free. -/
structure Grown (keys : String → Prop) (s₀ s : Store) (new : List (String × EntityId)) : Prop where
  refs : s.externalRefs = s₀.externalRefs ++ new
  distinct : (new.map Prod.fst).Nodup
  free : ∀ p ∈ new, lookupExternalRef s₀ p.1 = none
  asked : ∀ p ∈ new, keys p.1
  made : ∀ e, s.HasEntity e ↔ s₀.HasEntity e ∨ e ∈ new.map Prod.snd
  fresh : ∀ p ∈ new, ¬ s₀.HasEntity p.2
  next : s₀.entities.next ≤ s.entities.next

section Growth

variable {keys : String → Prop} {s₀ s : Store} {new : List (String × EntityId)}

theorem Grown.refl (s : Store) : Grown keys s s [] where
  refs := (List.append_nil _).symm
  distinct := List.nodup_nil
  free := by simp
  asked := by simp
  made := by simp
  fresh := by simp
  next := Nat.le_refl _

/-- A created entity is one more, under a new identifier. -/
theorem hasEntity_createWithRef {s : Store} {c : UpsertCall} {e : EntityId} :
    (createWithRef s c).2.HasEntity e ↔ s.HasEntity e ∨ e = s.entities.next := by
  have hget : (createWithRef s c).2.entities.get? e
      = if e = s.entities.next then some c.content else s.entities.get? e := KeyedTable.get?_insert ..
  rw [Store.HasEntity, hget, Store.HasEntity]
  by_cases he : e = s.entities.next
  · simp [he]
  · rw [if_neg he]
    simp [he]

theorem lt_next_of_hasEntity {s : Store} {e : EntityId} (h : s.HasEntity e) :
    e < s.entities.next := by
  obtain ⟨r, hr⟩ := Option.isSome_iff_exists.mp h
  exact KeyedTable.get?_lt_next hr

/-- One transaction that goes through. -/
theorem Grown.create (h : Grown keys s₀ s new) {c : UpsertCall} (hc : keys c.key)
    (hfree : lookupExternalRef s c.key = none) :
    Grown keys s₀ (createWithRef s c).2 (new ++ [(c.key, s.entities.next)]) := by
  have hnot : ∀ e, (c.key, e) ∉ s₀.externalRefs ++ new := by
    intro e
    rw [← h.refs]
    exact not_mem_of_lookup_none hfree e
  have hkey : c.key ∉ new.map Prod.fst := by
    intro hmem
    obtain ⟨p, hp, hpk⟩ := List.mem_map.mp hmem
    exact hnot p.2 (List.mem_append_right _ (hpk ▸ hp))
  have hfree₀ : lookupExternalRef s₀ c.key = none := by
    cases hl : lookupExternalRef s₀ c.key with
    | none => rfl
    | some e => exact absurd (List.mem_append_left _ (mem_of_lookup_some hl)) (hnot e)
  refine ⟨?_, ?_, ?_, ?_, ?_, ?_, ?_⟩
  · show s.externalRefs ++ [(c.key, s.entities.next)] = _
    rw [h.refs, List.append_assoc]
  · rw [List.map_append, List.nodup_append]
    refine ⟨h.distinct, by simp, ?_⟩
    intro a ha b hb hab
    rw [List.map_singleton, List.mem_singleton] at hb
    rw [hab, hb] at ha
    exact hkey ha
  · intro p hp
    rcases List.mem_append.mp hp with hp | hp
    · exact h.free p hp
    · rw [List.mem_singleton.mp hp]
      exact hfree₀
  · intro p hp
    rcases List.mem_append.mp hp with hp | hp
    · exact h.asked p hp
    · rw [List.mem_singleton.mp hp]
      exact hc
  · intro e
    rw [hasEntity_createWithRef, h.made e, List.map_append, List.mem_append, List.map_singleton,
      List.mem_singleton, or_assoc]
  · intro p hp hold
    rcases List.mem_append.mp hp with hp | hp
    · exact h.fresh p hp hold
    · rw [List.mem_singleton.mp hp] at hold
      exact absurd (lt_next_of_hasEntity hold) (Nat.not_lt.mpr h.next)
  · show s₀.entities.next ≤ s.entities.next + 1
    exact Nat.le_succ_of_le h.next

end Growth

/-- `e` was created, with a row for `k` that refers to it. -/
def CreatedFor (s₀ s : Store) (k : String) (e : EntityId) : Prop :=
  s.HasEntity e ∧ ¬ s₀.HasEntity e ∧ (k, e) ∈ s.externalRefs ∧ (k, e) ∉ s₀.externalRefs

theorem Grown.createdFor_iff {keys : String → Prop} {s₀ s : Store} {new : List (String × EntityId)}
    (h : Grown keys s₀ s new) {k : String} {e : EntityId} :
    CreatedFor s₀ s k e ↔ (k, e) ∈ new := by
  constructor
  · rintro ⟨_, _, hmem, hold⟩
    rw [h.refs, List.mem_append] at hmem
    exact hmem.resolve_left hold
  · intro hmem
    refine ⟨(h.made e).mpr (Or.inr (List.mem_map_of_mem hmem)), h.fresh _ hmem, ?_,
      not_mem_of_lookup_none (h.free _ hmem) e⟩
    rw [h.refs]
    exact List.mem_append_right _ hmem

/-- A key has one row among the new ones. -/
theorem Grown.unique {keys : String → Prop} {s₀ s : Store} {new : List (String × EntityId)}
    (h : Grown keys s₀ s new) {k : String} {e e' : EntityId} (he : (k, e) ∈ new)
    (he' : (k, e') ∈ new) : e = e' :=
  congrArg Prod.snd (List.inj_on_of_nodup_map h.distinct he he' rfl)

section Interleavings

variable {ι : Type*} [DecidableEq ι] {calls : ι → UpsertCall} {db₀ : Store}
  {w : Optimistic.World ι Store DbError EntityId}

/-- What is carried along an interleaving: the database has grown, and what a call has
found or created is what its key stands for. -/
structure KeysSettled (calls : ι → UpsertCall) (db₀ : Store)
    (w : Optimistic.World ι Store DbError EntityId) : Prop where
  grown : ∃ new, Grown (fun k => ∃ i, (calls i).key = k) db₀ w.db new
  seen : ∀ i n snap e, w.phase i = .running n snap →
    lookupExternalRef snap (calls i).key = some e → lookupExternalRef w.db (calls i).key = some e
  result : ∀ i e, Returns w i e → lookupExternalRef w.db (calls i).key = some e

/-- A call moves to another phase, and the database keeps what it had. -/
theorem KeysSettled.update (h : KeysSettled calls db₀ w) (i : ι) (ph : Optimistic.Phase Store DbError EntityId)
    {db : Store} (hgrown : ∃ new, Grown (fun k => ∃ i, (calls i).key = k) db₀ db new)
    (hkeep : ∀ k e, lookupExternalRef w.db k = some e → lookupExternalRef db k = some e)
    (hrun : ∀ n snap e, ph = .running n snap → lookupExternalRef snap (calls i).key = some e →
      lookupExternalRef db (calls i).key = some e)
    (hres : ∀ e, ph = .committed e ∨ ph = .returned e →
      lookupExternalRef db (calls i).key = some e) :
    KeysSettled calls db₀ { db := db, phase := Function.update w.phase i ph } := by
  refine ⟨hgrown, ?_, ?_⟩
  · intro j n snap e hj hsnap
    change Function.update w.phase i ph j = _ at hj
    by_cases hji : j = i
    · subst hji
      rw [Function.update_self] at hj
      exact hrun n snap e hj hsnap
    · rw [Function.update_of_ne hji] at hj
      exact hkeep _ _ (h.seen j n snap e hj hsnap)
  · intro j e hj
    change Function.update w.phase i ph j = _ ∨ Function.update w.phase i ph j = _ at hj
    by_cases hji : j = i
    · subst hji
      rw [Function.update_self] at hj
      exact hres e hj
    · rw [Function.update_of_ne hji] at hj
      exact hkeep _ _ (h.result j e hj)

/-- A call that is turned back, or fails, leaves everything as it is. -/
theorem KeysSettled.turnedBack (h : KeysSettled calls db₀ w) (i : ι) {ph : Optimistic.Phase Store DbError EntityId}
    (hph : ∀ n snap e, ph ≠ .running n snap ∧ ph ≠ .committed e ∧ ph ≠ .returned e) :
    KeysSettled calls db₀ { w with phase := Function.update w.phase i ph } := by
  refine h.update i ph h.grown (fun _ _ hk => hk) ?_ ?_
  · intro n snap e hrun _
    exact absurd hrun (hph n snap e).1
  · rintro e (hc | hr)
    · exact absurd hc (hph 0 db₀ e).2.1
    · exact absurd hr (hph 0 db₀ e).2.2

omit [DecidableEq ι] in
theorem retry_phase (calls : ι → UpsertCall) (m n : ℕ) (snap : Store) (e : EntityId) :
    (upsertProtocol calls).retry m ≠ .running n snap ∧
      (upsertProtocol calls).retry m ≠ .committed e ∧
      (upsertProtocol calls).retry m ≠ .returned e := by
  unfold Optimistic.Protocol.retry
  split <;> simp

/-- What the commit of a call makes of it: its transaction goes through only if its
key is free, and one that has found its key has none. -/
theorem KeysSettled.commit (h : KeysSettled calls db₀ w) (i : ι) (failure : Option DbError) {n : ℕ}
    {snap : Store} (hphase : w.phase i = .running n snap) :
    KeysSettled calls db₀ ((upsertProtocol calls).step w (.commit i failure)) := by
  simp only [Optimistic.Protocol.step, hphase]
  cases failure with
  | some error =>
      exact h.turnedBack i (fun _ _ _ => ⟨by simp, by simp, by simp⟩)
  | none =>
      cases hfast : lookupExternalRef snap (calls i).key with
      | some fast =>
          -- the lookup found the key: nothing is written
          have hfound := h.seen i n snap fast hphase hfast
          simp only [upsertProtocol, hfast, Option.isSome_some, Bool.true_or, if_true]
          refine h.update i _ h.grown (fun _ _ hk => hk) (fun _ _ _ hrun => by cases hrun) ?_
          rintro e (hc | hr)
          · cases hc
            exact hfound
          · cases hr
      | none =>
          simp only [upsertProtocol, hfast, Option.isSome_none, Bool.false_or]
          cases hcur : lookupExternalRef w.db (calls i).key with
          | some e =>
              -- the UNIQUE index turns the transaction back
              exact h.turnedBack i (retry_phase calls n)
          | none =>
              obtain ⟨new, hnew⟩ := h.grown
              refine h.update i _ ⟨_, hnew.create ⟨i, rfl⟩ hcur⟩ ?_
                (fun _ _ _ hrun => by cases hrun) ?_
              · intro k e hk
                rw [lookupExternalRef_createWithRef, hk, Option.some_or]
              · rintro e (hc | hr)
                · cases hc
                  rw [lookupExternalRef_createWithRef, hcur, Option.none_or, if_pos rfl]
                  rfl
                · cases hr

/-- **One event keeps it.** -/
theorem KeysSettled.step (h : KeysSettled calls db₀ w) (ev : Optimistic.Event ι (Option DbError)) :
    KeysSettled calls db₀ ((upsertProtocol calls).step w ev) := by
  cases ev with
  | start i =>
      simp only [Optimistic.Protocol.step]
      split
      · refine h.update i _ h.grown (fun _ _ hk => hk) ?_ ?_
        · intro n snap e hrun hsnap
          cases hrun
          exact hsnap
        · rintro e (hc | hr)
          · cases hc
          · cases hr
      · exact h
  | abort i =>
      simp only [Optimistic.Protocol.step]
      split
      · exact h.turnedBack i (retry_phase calls _)
      · exact h
  | finish i =>
      simp only [Optimistic.Protocol.step]
      split
      · next r hphase =>
          refine h.update i _ h.grown (fun _ _ hk => hk) (fun n snap e hrun => by cases hrun) ?_
          rintro e (hc | hr)
          · cases hc
          · cases hr
            exact h.result i r (Or.inl hphase)
      · exact h
  | commit i failure =>
      cases hphase : w.phase i with
      | running n snap => exact h.commit i failure hphase
      | waiting n => simpa only [Optimistic.Protocol.step, hphase] using h
      | committed r => simpa only [Optimistic.Protocol.step, hphase] using h
      | returned r => simpa only [Optimistic.Protocol.step, hphase] using h
      | threw e => simpa only [Optimistic.Protocol.step, hphase] using h
      | exhausted => simpa only [Optimistic.Protocol.step, hphase] using h

/-- It holds in every interleaving. -/
theorem keysSettled_of_interleaving (h : (upsertProtocol calls).Reaches (fun _ _ _ => True) db₀ w) :
    KeysSettled calls db₀ w := by
  refine Runs.Reached.invariant h ⟨⟨[], Grown.refl db₀⟩, ?_, ?_⟩ (fun _ ev hw _ => hw.step ev)
  · intro i n snap e hrun
    simp [Optimistic.World.init] at hrun
  · rintro i e (hc | hr)
    · simp [Optimistic.World.init] at hc
    · simp [Optimistic.World.init] at hr

/-- **Resolve-or-create is atomic.** Of any number of concurrent calls, in every
interleaving, those with one key that return have one result; for a key that was free
and of which a call has returned exactly one entity has been created, and for a key
that was taken none; and every entity that was created has its reference. -/
theorem upsert_atomic (h : (upsertProtocol calls).Reaches (fun _ _ _ => True) db₀ w) :
    (∀ i j e e', (calls i).key = (calls j).key → Returns w i e → Returns w j e' → e = e') ∧
      (∀ i e, Returns w i e → lookupExternalRef db₀ (calls i).key = none →
        ∀ e', CreatedFor db₀ w.db (calls i).key e' ↔ e' = e) ∧
      (∀ k e, lookupExternalRef db₀ k = some e → ∀ e', ¬ CreatedFor db₀ w.db k e') ∧
      (∀ k e e', CreatedFor db₀ w.db k e → CreatedFor db₀ w.db k e' → e = e') ∧
      ∀ e, w.db.HasEntity e → ¬ db₀.HasEntity e → ∃ i, CreatedFor db₀ w.db (calls i).key e := by
  have hset := keysSettled_of_interleaving h
  obtain ⟨new, hnew⟩ := hset.grown
  refine ⟨?_, ?_, ?_, ?_, ?_⟩
  · intro i j e e' hkey hi hj
    have hie := hset.result i e hi
    rw [hkey, hset.result j e' hj] at hie
    exact (Option.some.inj hie).symm
  · intro i e hi hfree e'
    have hmem : ((calls i).key, e) ∈ new := by
      have hrow := mem_of_lookup_some (hset.result i e hi)
      rw [hnew.refs, List.mem_append] at hrow
      exact hrow.resolve_left (not_mem_of_lookup_none hfree e)
    rw [hnew.createdFor_iff]
    exact ⟨fun he' => hnew.unique he' hmem, fun he' => he' ▸ hmem⟩
  · intro k e hk e' hcreated
    rw [hnew.free _ (hnew.createdFor_iff.mp hcreated)] at hk
    cases hk
  · intro k e e' he he'
    exact hnew.unique (hnew.createdFor_iff.mp he) (hnew.createdFor_iff.mp he')
  · intro e he hold
    obtain ⟨p, hp, hpe⟩ := List.mem_map.mp (((hnew.made e).mp he).resolve_left hold)
    obtain ⟨i, hi⟩ := hnew.asked p hp
    refine ⟨i, hnew.createdFor_iff.mpr ?_⟩
    rw [hi, ← hpe]
    exact hp

end Interleavings

/-- Calls for the example: all of one key. -/
def roomCalls (_ : ℕ) : UpsertCall :=
  { key := "rent__17", content := { type := "other", canonicalName := "17" } }

/-- Two of them: both look before either creates, and the second one looks again. -/
def roomRace : Optimistic.World ℕ Store DbError EntityId :=
  [.start 0, .start 1, .commit 0 none, .commit 1 none, .start 1, .commit 1 none].foldl
    (upsertProtocol roomCalls).step (.init .empty)

/-- The second one finds the entity of the first. -/
theorem upsert_atomic_roomRace :
    Returns roomRace 0 0 ∧ Returns roomRace 1 0 ∧
      ∀ e, CreatedFor .empty roomRace.db "rent__17" e ↔ e = 0 := by
  have h0 : Returns roomRace 0 0 := Or.inl rfl
  have h1 : Returns roomRace 1 0 := Or.inl rfl
  have hrace : (upsertProtocol roomCalls).Reaches (fun _ _ _ => True) .empty roomRace :=
    Optimistic.Protocol.reaches_foldl Store.empty _
  have h := upsert_atomic hrace
  exact ⟨h0, h1, h.2.1 0 0 h0 rfl⟩

end Brain
