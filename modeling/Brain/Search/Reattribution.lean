/-
Where re-attribution takes the retrieved rows.

`identity-merge.ts` reads what the owners of the rows were merged into, and re-keys
each row onto that entity. A row of a merged owner ends one hop further and the others
stay (`seatOf_reattributed`); so does one whose pointer leads to no entity.
-/
import Brain.Ingest.IdentityMerge
import Brain.Search.Provenance

set_option autoImplicit false

namespace Brain

/-- Where re-attribution takes a fact of `owner`. -/
def Store.attributedTo (s : Store) (owner : EntityId) : EntityId := (s.mergedInto owner).getD owner

/-- The same where a pointer may lead to no entity: the fact stays with its owner then. -/
def Store.seatOf (s : Store) (owner : EntityId) : EntityId :=
  ((s.mergedInto owner).filter (fun m => (s.entities.get? m).isSome)).getD owner

section Reattribution

variable {s : Store} {rows : List FusedRow} {row : FusedRow} {f : KnowledgeFact}

theorem seatOf_eq_survivor {owner m : EntityId} (hptr : s.mergedInto owner = some m)
    (hm : s.HasEntity m) : s.seatOf owner = m := by
  have hsome : (s.entities.get? m).isSome = true := hm
  rw [Store.seatOf, hptr, Option.filter_some, if_pos hsome, Option.getD_some]

theorem seatOf_eq_self {owner : EntityId}
    (h : ∀ m, s.mergedInto owner = some m → ¬ s.HasEntity m) : s.seatOf owner = owner := by
  unfold Store.seatOf
  cases hptr : s.mergedInto owner with
  | none => rfl
  | some m =>
      have hnone : ¬ (s.entities.get? m).isSome = true := h m hptr
      rw [Option.filter_some, if_neg hnone, Option.getD_none]

/-- A fact stays with its owner or goes to what the owner was merged into. -/
theorem seatOf_cases (s : Store) (owner : EntityId) :
    s.seatOf owner = owner ∨ s.mergedInto owner = some (s.seatOf owner) := by
  by_cases h : ∃ m, s.mergedInto owner = some m ∧ s.HasEntity m
  · obtain ⟨m, hptr, hm⟩ := h
    exact Or.inr (by rw [seatOf_eq_survivor hptr hm, hptr])
  · exact Or.inl (seatOf_eq_self (fun m hptr hm => h ⟨m, hptr, hm⟩))

theorem seatOf_eq_attributedTo (hp : PointersExist s) (owner : EntityId) :
    s.seatOf owner = s.attributedTo owner := by
  unfold Store.attributedTo
  cases hptr : s.mergedInto owner with
  | none => exact seatOf_eq_self (fun m hm => by rw [hptr] at hm; cases hm)
  | some m => exact seatOf_eq_survivor hptr (hp owner m hptr)

/-- The inlined entity of a row says what its owner was merged into. -/
theorem RowOf.merged {r : FactRow} (h : RowOf s f r) :
    r.entity.bind (fun ent => ent.mergedInto) = s.mergedInto f.entityId := by
  rw [h.entity, rowEntity, Store.mergedInto]
  cases s.entities.get? f.entityId with
  | none => rfl
  | some ent => rfl

/-- A survivor that some row points at is hydrated, under its own identifier. -/
theorem get?_hydrateSurvivors {m : EntityId} (hm : s.HasEntity m) (hrow : row ∈ rows)
    (hptr : row.entity.bind (fun ent => ent.mergedInto) = some m) :
    ∃ sv, (hydrateSurvivors s rows).get? m = some sv ∧ sv.id = m := by
  obtain ⟨r, hr⟩ := Option.isSome_iff_exists.mp hm
  have hid : m ∈ rows.filterMap (fun r => r.entity.bind (fun ent => ent.mergedInto)) :=
    List.mem_filterMap.mpr ⟨row, hrow, hptr⟩
  cases hget : (hydrateSurvivors s rows).get? m with
  | none =>
      -- the query would have returned its record
      have hkey := InsertionMap.get?_eq_none_iff.mp hget
      rw [hydrateSurvivors, InsertionMap.mem_keys_ofList] at hkey
      refine absurd (List.mem_map.mpr ⟨(m, survivor (m, r)), ?_, rfl⟩) hkey
      refine List.mem_map.mpr ⟨(m, r), KeyedTable.mem_select.mpr ⟨hr, ?_⟩, rfl⟩
      exact List.contains_iff_mem.mpr hid
  | some sv =>
      have hmem := InsertionMap.mem_entries_ofList (InsertionMap.mem_of_get? hget)
      obtain ⟨q, _, hq⟩ := List.mem_map.mp hmem
      rw [Prod.mk.injEq] at hq
      exact ⟨sv, rfl, by rw [← hq.2, ← hq.1]; rfl⟩

/-- A row comes out as it was, or re-keyed. -/
theorem reattributed_cases {survivors : InsertionMap EntityId Survivor}
    (h : row ∈ reattributeMerged rows survivors) :
    row ∈ rows ∨ ∃ r ∈ rows, ∃ sv, row = r.onto sv := by
  unfold reattributeMerged at h
  split at h
  · exact Or.inl h
  · obtain ⟨r, hr, hout⟩ := List.mem_filterMap.mp h
    split at hout
    · cases hout
      exact Or.inl hr
    · obtain ⟨sv, _, rfl⟩ := Option.map_eq_some_iff.mp hout
      exact Or.inr ⟨r, hr, sv, rfl⟩

/-- What is hydrated exists. -/
theorem hasEntity_of_hydrateSurvivors {m : EntityId} {sv : Survivor}
    (h : (hydrateSurvivors s rows).get? m = some sv) : s.HasEntity m ∧ sv.id = m := by
  have hmem := InsertionMap.mem_entries_ofList (InsertionMap.mem_of_get? h)
  obtain ⟨⟨i, r⟩, hq, heq⟩ := List.mem_map.mp hmem
  rw [Prod.mk.injEq] at heq
  obtain ⟨rfl, rfl⟩ := heq
  exact ⟨Option.isSome_iff_exists.mpr ⟨r, (KeyedTable.mem_select.mp hq).1⟩, rfl⟩

/-- **Re-attribution goes one hop**, to an entity that exists. -/
theorem seatOf_reattributed {P : KnowledgeFact → Prop}
    (hrows : ∀ row ∈ rows, ∃ f, RowOf s f row.toFactRow ∧ P f)
    (h : row ∈ reattributeMerged rows (hydrateSurvivors s rows)) :
    ∃ f, s.facts.get? row.id = some f ∧ row.predicate = f.predicate ∧
      row.entityId = s.seatOf f.entityId ∧ P f := by
  -- a row that stays as it is has an owner without a survivor
  have hkept : ∀ row ∈ rows,
      (∀ m, row.entity.bind (fun ent => ent.mergedInto) = some m → ¬ s.HasEntity m) →
      ∃ f, s.facts.get? row.id = some f ∧ row.predicate = f.predicate ∧
        row.entityId = s.seatOf f.entityId ∧ P f := by
    intro row hrow hnone
    obtain ⟨f, hf, hP⟩ := hrows row hrow
    rw [hf.merged] at hnone
    exact ⟨f, hf.stored, hf.predicate, by rw [seatOf_eq_self hnone, hf.entityId], hP⟩
  unfold reattributeMerged at h
  split at h
  · next hsize =>
      refine hkept row h (fun m hptr hm => ?_)
      obtain ⟨sv, hsv, _⟩ := get?_hydrateSurvivors hm h hptr
      have hpos := List.length_pos_of_mem (InsertionMap.mem_of_get? hsv)
      exact absurd hsize (Nat.ne_of_gt hpos)
  · obtain ⟨orig, horig, hout⟩ := List.mem_filterMap.mp h
    split at hout
    · next hnone =>
        cases hout
        exact hkept row horig (fun m hptr => by rw [hnone] at hptr; cases hptr)
    · next m hptr =>
        obtain ⟨f, hf, hP⟩ := hrows orig horig
        obtain ⟨sv, hsv, rfl⟩ := Option.map_eq_some_iff.mp hout
        obtain ⟨hm, hid⟩ := hasEntity_of_hydrateSurvivors hsv
        refine ⟨f, hf.stored, hf.predicate, ?_, hP⟩
        rw [seatOf_eq_survivor (hf.merged ▸ hptr) hm]
        exact hid

/-- **The rows that the caller may see** are of facts that pass the WHERE, each with the
entity that re-attribution took it to. -/
theorem seatOf_visibleRows {env : SearchEnv} {db : SearchDb} {dto : SearchRequest}
    {scopes : List BrainScope} (h : row ∈ visibleRows env db dto scopes) :
    ∃ f, db.store.facts.get? row.id = some f ∧ row.predicate = f.predicate ∧
      row.entityId = db.store.seatOf f.entityId ∧ admits (requestWhere env dto none) f = true :=
  seatOf_reattributed (admitted_retrieve env db dto scopes) (List.mem_filter.mp h).1

/-- Where pointers are to entities that exist, the hop is that of `attributedTo`. -/
theorem mem_visibleRows {env : SearchEnv} {db : SearchDb} {dto : SearchRequest}
    {scopes : List BrainScope} (hp : PointersExist db.store)
    (h : row ∈ visibleRows env db dto scopes) :
    ∃ f, db.store.facts.get? row.id = some f ∧ row.predicate = f.predicate ∧
      row.entityId = db.store.attributedTo f.entityId := by
  obtain ⟨f, hf, hpred, hseat, _⟩ := seatOf_visibleRows h
  exact ⟨f, hf, hpred, by rw [hseat, seatOf_eq_attributedTo hp]⟩

end Reattribution

end Brain
