/-
How many facts of each entity the graph path is given.

The loop of `fetchFactsForEntities` keeps sixteen facts of each entity, but the query before it
returns two hundred rows of all entities together. So an entity has the sixteen most recently
recorded ones that pass the WHERE, or all of them, exactly if as many, or all, are among the
newest two hundred of the whole set (`fetchFactsForEntities_per_entity_iff`). A neighbour whose
one fact is older than two hundred facts of a busy seed has none (`quiet_entity_starved`).
-/
import Brain.Search.GraphRetrieveDb
import Brain.Lib.StableSort

set_option autoImplicit false

namespace Brain.FactCap

section Fetch

variable (now : Time) (t : KeyedTable KnowledgeFact) (entityIds : List EntityId)
  (predicateHints : List String) (asOf : Option Time)

/-- The facts of the set that pass the WHERE, the most recently recorded first. -/
def admissible : List (FactId × KnowledgeFact) :=
  (t.rows.insertionSort newestFirst).filter
    (fun q => graphFactsWhere now entityIds predicateHints asOf q.2)

/-- Those of one entity. -/
def admissibleOf (e : EntityId) : List (FactId × KnowledgeFact) :=
  (admissible now t entityIds predicateHints asOf).filter (fun q => decide (q.2.entityId = e))

/-- `factsByEntity.get(e) ?? []`. -/
def rowsOf (groups : List (List GraphFactRow)) (e : EntityId) : List GraphFactRow :=
  (groups.find? (fun g => decide (g.head?.map GraphFactRow.entityId = some e))).getD []

/-- Each entity of the set has exactly its sixteen newest admissible facts, or all of them. -/
def CappedPerEntity : Prop :=
  ∀ e ∈ entityIds, rowsOf (fetchFactsForEntities now t entityIds predicateHints asOf) e
    = ((admissibleOf now t entityIds predicateHints asOf e).take 16).map toGraphFactRow

/-- Of each entity as many admissible facts, or all of them, are among the two hundred newest
ones of the whole set. -/
def WithinTwoHundred : Prop :=
  ∀ e ∈ entityIds,
    16 ≤ ((admissible now t entityIds predicateHints asOf).take 200).countP
        (fun q => decide (q.2.entityId = e)) ∨
      ∀ q ∈ (admissible now t entityIds predicateHints asOf).drop 200, q.2.entityId ≠ e

variable {now t entityIds predicateHints asOf}

/-- No fact of an entity is newer than one that stands before it. -/
theorem pairwise_admissibleOf (e : EntityId) :
    (admissibleOf now t entityIds predicateHints asOf e).Pairwise newestFirst := by
  have hsorted : (t.rows.insertionSort newestFirst).Pairwise newestFirst :=
    StableSort.pairwise_greatestFirst (fun q : FactId × KnowledgeFact => q.2.recordedAt) t.rows
  exact (hsorted.filter _).filter _

/-- Facts that are left out are no newer than those that are taken. -/
theorem recordedAt_le_of_left_out {e : EntityId} {q q' : FactId × KnowledgeFact}
    (hq : q ∈ (admissibleOf now t entityIds predicateHints asOf e).take 16)
    (hq' : q' ∈ (admissibleOf now t entityIds predicateHints asOf e).drop 16) :
    q'.2.recordedAt ≤ q.2.recordedAt := by
  have hsorted : (admissibleOf now t entityIds predicateHints asOf e).Pairwise newestFirst :=
    pairwise_admissibleOf e
  rw [← List.take_append_drop 16 (admissibleOf now t entityIds predicateHints asOf e),
    List.pairwise_append] at hsorted
  exact hsorted.2.2 q hq q' hq'

/-- What an entity is given: the first sixteen of its facts among the two hundred. -/
theorem rowsOf_fetch (e : EntityId) :
    rowsOf (fetchFactsForEntities now t entityIds predicateHints asOf) e
      = ((((admissible now t entityIds predicateHints asOf).take 200).filter
          (fun q => decide (q.2.entityId = e))).take 16).map toGraphFactRow := by
  have hhead : ∀ g : List (FactId × KnowledgeFact),
      ((g.take 16).map toGraphFactRow).head?.map GraphFactRow.entityId
        = g.head?.map (fun q => q.2.entityId) := by
    intro g
    cases g with
    | nil => rfl
    | cons q g => rfl
  have hgroup := Grouping.getD_find?_groups (fun q : FactId × KnowledgeFact => q.2.entityId)
    ((admissible now t entityIds predicateHints asOf).take 200) e
  rw [← hgroup, rowsOf, fetchFactsForEntities, List.find?_map]
  -- the entries of the map are found by the entity of their first rows
  have hfind : ((fun g : List GraphFactRow => decide (g.head?.map GraphFactRow.entityId = some e)) ∘
      fun group : List (FactId × KnowledgeFact) => (group.take 16).map toGraphFactRow)
      = fun g => decide (g.head?.map (fun q => q.2.entityId) = some e) :=
    funext (fun g => by rw [Function.comp_apply, hhead])
  rw [hfind]
  show (Option.map _ (List.find? _ (Grouping.groups _
    ((admissible now t entityIds predicateHints asOf).take 200)))).getD [] = _
  cases List.find? (fun g : List (FactId × KnowledgeFact) =>
      decide (g.head?.map (fun q => q.2.entityId) = some e))
      (Grouping.groups (fun q => q.2.entityId)
        ((admissible now t entityIds predicateHints asOf).take 200)) with
  | none => rfl
  | some g => rfl

end Fetch

/-- **When the cap is one of each entity**: exactly if of each entity as many admissible facts,
or all of them, are among the two hundred newest ones of the set. -/
theorem fetchFactsForEntities_per_entity_iff (now : Time) (t : KeyedTable KnowledgeFact)
    (entityIds : List EntityId) (predicateHints : List String) (asOf : Option Time) :
    CappedPerEntity now t entityIds predicateHints asOf ↔
      WithinTwoHundred now t entityIds predicateHints asOf := by
  refine forall₂_congr (fun e _ => ?_)
  rw [rowsOf_fetch, admissibleOf]
  constructor
  · -- lists of different lengths are not the same
    intro h
    have hlength := congrArg List.length h
    rw [List.length_map, List.length_map] at hlength
    exact Grouping.of_length_take_filter hlength
  · intro h
    rw [Grouping.take_filter_take h]

/-! ## A busy seed -/

/-- A fact of an entity. -/
def plainFact (e : EntityId) (recordedAt : Time) : KnowledgeFact where
  entityId := e
  predicate := "role"
  object := "cto"
  confidence := .full
  validFrom := 0
  recordedAt := recordedAt
  source := {}

/-- As many facts of entity 0, and an older one of entity 1. -/
def busyRows (n : ℕ) : List (FactId × KnowledgeFact) :=
  (List.range n).map (fun i => (i, plainFact 0 2)) ++ [(n, plainFact 1 1)]

theorem ids_busyRows (n : ℕ) : (busyRows n).map Prod.fst = List.range (n + 1) := by
  have hids : (List.range n).map (Prod.fst ∘ fun i => (i, plainFact 0 2)) = List.range n :=
    List.map_id _
  rw [busyRows, List.map_append, List.map_map, List.range_succ, hids, List.map_singleton]

def busyTable (n : ℕ) : KeyedTable KnowledgeFact where
  rows := busyRows n
  next := n + 1
  ordered := by
    rw [ids_busyRows]
    exact List.pairwise_lt_range
  bounded := by
    intro p hp
    have hmem : p.1 ∈ (busyRows n).map Prod.fst := List.mem_map_of_mem hp
    rw [ids_busyRows] at hmem
    exact List.mem_range.mp hmem

theorem of_mem_busyRows {n : ℕ} {q : FactId × KnowledgeFact} (h : q ∈ busyRows n) :
    q.2 = plainFact 0 2 ∨ q.2 = plainFact 1 1 := by
  rcases List.mem_append.mp h with h | h
  · obtain ⟨i, _, rfl⟩ := List.mem_map.mp h
    exact Or.inl rfl
  · rw [List.mem_singleton.mp h]
    exact Or.inr rfl

/-- All of them pass the WHERE, and they stand as the query sorts them. -/
theorem admissible_busyTable (n : ℕ) : admissible 5 (busyTable n) [0, 1] [] none = busyRows n := by
  have hsorted : (busyRows n).Pairwise newestFirst := by
    refine List.pairwise_append.mpr ⟨?_, List.pairwise_singleton _ _, fun q hq q' hq' => ?_⟩
    · rw [List.pairwise_map]
      exact List.pairwise_of_forall (fun _ _ => le_refl (2 : ℤ))
    · obtain ⟨i, _, rfl⟩ := List.mem_map.mp hq
      rw [List.mem_singleton.mp hq']
      show (1 : ℤ) ≤ 2
      decide
  have hpass : ∀ q ∈ busyRows n, graphFactsWhere 5 [0, 1] [] none q.2 = true := by
    intro q hq
    rcases of_mem_busyRows hq with hfact | hfact
    · rw [hfact]
      decide
    · rw [hfact]
      decide
  rw [admissible]
  show ((busyRows n).insertionSort newestFirst).filter _ = busyRows n
  rw [hsorted.insertionSort_eq]
  exact List.filter_eq_self.mpr hpass

/-- The one fact of entity 1 is not returned. -/
theorem quiet_entity_starved :
    ¬ ∀ (now : Time) (t : KeyedTable KnowledgeFact) (entityIds : List EntityId)
        (predicateHints : List String) (asOf : Option Time),
      CappedPerEntity now t entityIds predicateHints asOf := by
  intro h
  have hquiet := congrArg List.length (h 5 (busyTable 200) [0, 1] [] none 1 (by decide))
  have hbusy : (busyRows 200).take 200 = (List.range 200).map (fun i => (i, plainFact 0 2)) := by
    rw [busyRows, List.take_left']
    rw [List.length_map, List.length_range]
  have hnone : ((busyRows 200).take 200).filter (fun q => decide (q.2.entityId = 1)) = [] := by
    rw [hbusy, List.filter_eq_nil_iff]
    intro q hq
    obtain ⟨i, _, rfl⟩ := List.mem_map.mp hq
    show ¬ decide ((0 : ℕ) = 1) = true
    decide
  have hone : (200, plainFact 1 1) ∈
      (busyRows 200).filter (fun q => decide (q.2.entityId = 1)) :=
    List.mem_filter.mpr ⟨List.mem_append_right _ List.mem_cons_self, rfl⟩
  have hpos := List.length_pos_of_mem hone
  rw [rowsOf_fetch, admissibleOf, admissible_busyTable, hnone] at hquiet
  rw [List.length_map, List.length_map, List.length_take, List.length_take,
    List.length_nil] at hquiet
  omega

end Brain.FactCap
