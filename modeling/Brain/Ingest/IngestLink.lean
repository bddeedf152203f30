/-
`src/src/ingest/ingest.service.ts`: `ingestLink`, which declares an edge between two
entities. A link of kind `identity_of` also merges: the entity at its end gets
`mergedInto`, a pointer to the entity at its start.

A record that does not exist reads as one without `mergedInto`, and an UPDATE of it
writes nothing. To `Lib.Forest` the pointers are `Store.mergedInto`, and a merge is a
`repoint` of the loser (`mergedInto_mergeEntity`); looking up or creating the ends
changes no pointer.
-/
import Brain.Ingest.IngestService
import Brain.Lib.Forest

set_option autoImplicit false

namespace Brain

abbrev EdgeId := ℕ

/-- The tenant database with its edges. -/
structure GraphStore extends Store where
  edges : KeyedTable KnowledgeEdge := .empty

/-- `IngestLinkDto`; the `source` of an edge has no reader. -/
structure IngestLinkDto where
  from_ : EntityRef
  to_ : EntityRef
  kind : String
  weight : Option Confidence := none

/-- What `ingestLink` throws. -/
inductive LinkError where
  | badRequest (message : String)
deriving DecidableEq, Repr

/-- What `ingestLink` returns. -/
structure LinkResult where
  edgeId : EdgeId
  fromEntityId : EntityId
  toEntityId : EntityId
  kind : String
deriving DecidableEq, Repr

/-! ## The call -/

/-- `resolveOrCreateBareRef`. -/
def resolveOrCreateBareRef (s : Store) (ref : EntityRef) : EntityId × Store :=
  match ref with
  | .entity e => (e, s)
  | .external vertical id =>
      let refKey := externalRefKey vertical id
      upsertEntityByExternalRef s refKey
        { type := "other", canonicalName := id, externalRefs := [(refKey, id)] }

/-- `SELECT mergedInto FROM $e`. -/
def Store.mergedInto (s : Store) (e : EntityId) : Option EntityId :=
  (s.entities.get? e).bind (fun r => r.mergedInto)

/-- The loop of the cycle guard from `cursor` on: whether it comes to `toId` within
`hops` hops. -/
def comesTo (s : Store) (toId : EntityId) : ℕ → EntityId → Bool
  | 0, _ => false
  | hops + 1, cursor =>
      match s.mergedInto cursor with
      | none => false
      | some next => if next = toId then true else comesTo s toId hops next

/-- How far the guard looks. -/
def GUARD_HOPS : ℕ := 32

/-- The RELATE. UNIQUE on `(in, out, kind)` makes the second one find the first. -/
def relate (edges : KeyedTable KnowledgeEdge) (from_ to_ : EntityId) (kind : String)
    (weight : Confidence) : EdgeId × KeyedTable KnowledgeEdge :=
  match edges.select (fun _ e => e.in_ == from_ && e.out == to_ && e.kind == kind) with
  | q :: _ => (q.1, edges)
  | [] => (edges.next, edges.insert { in_ := from_, out := to_, kind := kind, weight := weight })

/-- The `dbMerge` on the loser. -/
def mergeEntity (s : Store) (now : Time) (toId fromId : EntityId) : Store :=
  { s with entities := s.entities.update toId
            (fun r => { r with mergedAt := some now, mergedInto := some fromId }) }

/-- The two ends of a link, with the store in which they are found. -/
def linkEnds (s : Store) (dto : IngestLinkDto) : (EntityId × EntityId) × Store :=
  let start := resolveOrCreateBareRef s dto.from_
  let finish := resolveOrCreateBareRef start.2 dto.to_
  ((start.1, finish.1), finish.2)

/-- What the guard says against a link, if anything. -/
def linkRejection (s : Store) (dto : IngestLinkDto) (fromId toId : EntityId) : Option LinkError :=
  if dto.kind = "identity_of" then
    if fromId = toId then
      some (.badRequest "identity_of cannot merge an entity into itself")
    else if comesTo s toId GUARD_HOPS fromId then
      some (.badRequest
        "identity_of would create a merge cycle (survivor already resolves to the loser)")
    else none
  else none

/-- `ingestLink`. -/
def ingestLink (now : Time) (g : GraphStore) (dto : IngestLinkDto) :
    Except LinkError LinkResult × GraphStore :=
  let ends := linkEnds g.toStore dto
  let fromId := ends.1.1
  let toId := ends.1.2
  match linkRejection ends.2 dto fromId toId with
  | some e => (.error e, { toStore := ends.2, edges := g.edges })
  | none =>
      let edge := relate g.edges fromId toId dto.kind (dto.weight.getD .full)
      let merged := if dto.kind = "identity_of" then mergeEntity ends.2 now toId fromId else ends.2
      (.ok { edgeId := edge.1, fromEntityId := fromId, toEntityId := toId, kind := dto.kind },
        { toStore := merged, edges := edge.2 })

/-! ## What the guard sees -/

open Forest

theorem comesTo_iff {s : Store} {toId : EntityId} {hops : ℕ} {cursor : EntityId} :
    comesTo s toId hops cursor = true ↔
      ∃ n, 0 < n ∧ n ≤ hops ∧ ancestor s.mergedInto n cursor = some toId := by
  induction hops generalizing cursor with
  | zero =>
      simp only [comesTo, Bool.false_eq_true, false_iff]
      rintro ⟨n, hn, hle, _⟩
      omega
  | succ hops ih =>
      cases hnext : s.mergedInto cursor with
      | none =>
          simp only [comesTo, hnext, Bool.false_eq_true, false_iff]
          rintro ⟨n, hn, _, hto⟩
          obtain ⟨m, rfl⟩ := Nat.exists_eq_succ_of_ne_zero (Nat.ne_of_gt hn)
          rw [ancestor_succ_of_none hnext] at hto
          cases hto
      | some next =>
          simp only [comesTo, hnext]
          -- the loop meets the loser at its first step, or goes on from `next`
          by_cases heq : next = toId
          · rw [if_pos heq]
            refine ⟨fun _ => ⟨1, Nat.one_pos, by omega, ?_⟩, fun _ => rfl⟩
            rw [ancestor_succ_of_some hnext, ancestor_zero, heq]
          · rw [if_neg heq, ih]
            constructor
            · rintro ⟨n, hn, hle, hto⟩
              exact ⟨n + 1, by omega, by omega, by rw [ancestor_succ_of_some hnext, hto]⟩
            · rintro ⟨n, hn, hle, hto⟩
              obtain ⟨m, rfl⟩ := Nat.exists_eq_succ_of_ne_zero (Nat.ne_of_gt hn)
              rw [ancestor_succ_of_some hnext] at hto
              have hm : m ≠ 0 := by
                rintro rfl
                exact heq (Option.some.inj hto)
              exact ⟨m, Nat.pos_of_ne_zero hm, by omega, hto⟩

/-- `toId` is on the chain of `fromId`, further up than the guard looks. -/
def BeyondGuard (s : Store) (fromId toId : EntityId) : Prop :=
  ∃ n, GUARD_HOPS < n ∧ ancestor s.mergedInto n fromId = some toId

/-- What the guard lets through leads back only beyond its reach. -/
theorem leads_iff_of_accepted {s : Store} {dto : IngestLinkDto} {fromId toId : EntityId}
    (hkind : dto.kind = "identity_of") (h : linkRejection s dto fromId toId = none) :
    Leads s.mergedInto fromId toId ↔ BeyondGuard s fromId toId := by
  rw [linkRejection, if_pos hkind] at h
  split at h
  · cases h
  · next hne =>
      split at h
      · cases h
      · next hguard =>
          rw [comesTo_iff] at hguard
          constructor
          · rintro ⟨n, hn⟩
            refine ⟨n, ?_, hn⟩
            -- within its reach the guard would have met the loser
            by_contra hle
            have hpos : n ≠ 0 := by
              rintro rfl
              exact hne (Option.some.inj hn)
            exact hguard ⟨n, Nat.pos_of_ne_zero hpos, Nat.le_of_not_lt hle, hn⟩
          · rintro ⟨n, _, hn⟩
            exact ⟨n, hn⟩

/-! ## What the call does to the pointers -/

/-- `e` is the record of an entity. -/
def Store.HasEntity (s : Store) (e : EntityId) : Prop := (s.entities.get? e).isSome = true

instance (s : Store) (e : EntityId) : Decidable (s.HasEntity e) :=
  inferInstanceAs (Decidable ((s.entities.get? e).isSome = true))

theorem hasEntity_of_mergedInto {s : Store} {a b : EntityId} (h : s.mergedInto a = some b) :
    s.HasEntity a := by
  obtain ⟨r, hr, _⟩ := Option.bind_eq_some_iff.mp h
  rw [Store.HasEntity, hr]
  rfl

/-- Looking an entity up, or creating it, leaves the others as they are. -/
theorem get?_upsertEntityByExternalRef (s : Store) (key : String) (content : KnowledgeEntity)
    (e : EntityId) :
    (upsertEntityByExternalRef s key content).2.entities.get? e = s.entities.get? e ∨
      s.entities.get? e = none ∧
        (upsertEntityByExternalRef s key content).2.entities.get? e = some content := by
  unfold upsertEntityByExternalRef
  split
  · exact Or.inl rfl
  · by_cases he : e = s.entities.next
    · exact Or.inr ⟨by rw [he, KeyedTable.get?_next], by rw [he]; exact KeyedTable.get?_insert_next ..⟩
    · refine Or.inl ?_
      show (s.entities.insert content).get? e = s.entities.get? e
      rw [KeyedTable.get?_insert, if_neg he]

/-- A reference is resolved to an entity that was there, or to a new one without
`mergedInto`. -/
theorem get?_resolveOrCreateBareRef (s : Store) (ref : EntityRef) (e : EntityId) :
    (resolveOrCreateBareRef s ref).2.entities.get? e = s.entities.get? e ∨
      s.entities.get? e = none ∧
        ∃ r, (resolveOrCreateBareRef s ref).2.entities.get? e = some r ∧ r.mergedInto = none := by
  cases ref with
  | entity i => exact Or.inl rfl
  | external vertical id =>
      rcases get?_upsertEntityByExternalRef s (externalRefKey vertical id)
        { type := "other", canonicalName := id,
          externalRefs := [(externalRefKey vertical id, id)] } e with h | ⟨h, h'⟩
      · exact Or.inl h
      · exact Or.inr ⟨h, _, h', rfl⟩

theorem mergedInto_resolveOrCreateBareRef (s : Store) (ref : EntityRef) :
    (resolveOrCreateBareRef s ref).2.mergedInto = s.mergedInto := by
  funext e
  rcases get?_resolveOrCreateBareRef s ref e with h | ⟨h, r, h', hr⟩
  · rw [Store.mergedInto, Store.mergedInto, h]
  · rw [Store.mergedInto, Store.mergedInto, h, h', Option.bind_some, Option.bind_none, hr]

theorem hasEntity_resolveOrCreateBareRef {s : Store} (ref : EntityRef) {e : EntityId}
    (he : s.HasEntity e) : (resolveOrCreateBareRef s ref).2.HasEntity e := by
  rcases get?_resolveOrCreateBareRef s ref e with h | ⟨h, _⟩
  · rwa [Store.HasEntity, h]
  · rw [Store.HasEntity, h] at he
    cases he

@[simp] theorem mergedInto_linkEnds (s : Store) (dto : IngestLinkDto) :
    (linkEnds s dto).2.mergedInto = s.mergedInto := by
  rw [linkEnds, mergedInto_resolveOrCreateBareRef, mergedInto_resolveOrCreateBareRef]

theorem hasEntity_linkEnds {s : Store} (dto : IngestLinkDto) {e : EntityId} (he : s.HasEntity e) :
    (linkEnds s dto).2.HasEntity e :=
  hasEntity_resolveOrCreateBareRef _ (hasEntity_resolveOrCreateBareRef _ he)

theorem hasEntity_mergeEntity {s : Store} {now : Time} {toId fromId e : EntityId} :
    (mergeEntity s now toId fromId).HasEntity e ↔ s.HasEntity e := by
  rw [Store.HasEntity, Store.HasEntity, mergeEntity, KeyedTable.get?_update]
  by_cases he : e = toId
  · rw [if_pos he, Option.isSome_map]
  · rw [if_neg he]

/-- **A merge overwrites the pointer of the loser**, if there is one to merge. -/
theorem mergedInto_mergeEntity (s : Store) (now : Time) (toId fromId : EntityId) :
    (mergeEntity s now toId fromId).mergedInto
      = if s.HasEntity toId then repoint s.mergedInto toId fromId else s.mergedInto := by
  funext e
  have hget : (mergeEntity s now toId fromId).entities.get? e
      = if e = toId then (s.entities.get? e).map
          (fun r => { r with mergedAt := some now, mergedInto := some fromId })
        else s.entities.get? e := KeyedTable.get?_update ..
  by_cases he : e = toId
  · subst he
    rw [if_pos rfl] at hget
    cases hr : s.entities.get? e with
    | none =>
        -- an UPDATE of a record that does not exist writes nothing
        have hno : ¬ s.HasEntity e := by
          rw [Store.HasEntity, hr]
          exact Bool.false_ne_true
        rw [if_neg hno, Store.mergedInto, Store.mergedInto, hget, hr, Option.map_none]
    | some r =>
        have hyes : s.HasEntity e := by
          rw [Store.HasEntity, hr]
          rfl
        rw [if_pos hyes, repoint_self, Store.mergedInto, hget, hr, Option.map_some, Option.bind_some]
  · rw [if_neg he] at hget
    have hrow : (mergeEntity s now toId fromId).mergedInto e = s.mergedInto e := by
      rw [Store.mergedInto, Store.mergedInto, hget]
    rw [hrow]
    split
    · rw [repoint_of_ne he]
    · rfl

end Brain
