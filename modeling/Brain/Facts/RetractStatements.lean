/-
The writes of `retract` one by one. The service makes them outside a transaction,
so a call that fails on the way leaves those it has already made.

`retractUpdates` lists the writes of a call in their order: the cascade, the root,
the revived predecessors. All of them together are what a call does
(`afterRetract_eq_execAll`), and no row is written twice as long as the root does
not derive from itself (`nodup_retractUpdates`), so what a call that fails after
`n` writes leaves is known row by row (`get?_interruptedRetract`).
-/
import Brain.Facts.FactsService

set_option autoImplicit false

namespace Brain

/-- The rows that the revive of a call selects: the cascade and the root's own
MERGE come before it. -/
def revivedBy (t : KeyedTable KnowledgeFact) (now : Time) (root : FactId) (dto : RetractFactDto)
    (existing : ExistingRow) : List (FactId × KnowledgeFact) :=
  ((cascadeRetract t root now dto.reason).1.update root (retractRow now dto existing)).select
    (fun _ f => isRevivable root f)

/-- The writes of a call, in the order in which it makes them. -/
def retractUpdates (s : Store) (now : Time) (root : FactId) (dto : RetractFactDto)
    (callerScopes : Option (List BrainScope)) : List (FactId × (KnowledgeFact → KnowledgeFact)) :=
  match s.facts.get? root with
  | none => []
  | some row =>
      if retractForbidden row.existingRow callerScopes || row.retractedAt.isSome then []
      else
        (cascadeRetract s.facts root now dto.reason).2.map
            (fun j => (j, cascadeRow now dto.reason)) ++
          (root, retractRow now dto row.existingRow) ::
          (revivedBy s.facts now root dto row.existingRow).map (fun c => (c.1, reviveRow c.2))

/-- The store that a call leaves which fails after `n` of its writes. -/
def interruptedRetract (s : Store) (now : Time) (root : FactId) (dto : RetractFactDto)
    (callerScopes : Option (List BrainScope)) (n : ℕ) : Store :=
  let writes := (retractUpdates s now root dto callerScopes).take n
  { s with facts := s.facts.execAll (KeyedTable.updates writes) }

section Spec

variable {s : Store} {now : Time} {root : FactId} {dto : RetractFactDto}
  {callerScopes : Option (List BrainScope)}

theorem retractUpdates_of_carriesOut (now : Time) (dto : RetractFactDto) {row : KnowledgeFact}
    (hrow : s.facts.get? root = some row)
    (hforb : retractForbidden row.existingRow callerScopes = false)
    (hat : row.retractedAt = none) :
    retractUpdates s now root dto callerScopes
      = (cascadeRetract s.facts root now dto.reason).2.map
            (fun j => (j, cascadeRow now dto.reason)) ++
          (root, retractRow now dto row.existingRow) ::
          (revivedBy s.facts now root dto row.existingRow).map
            (fun c => (c.1, reviveRow c.2)) := by
  simp [retractUpdates, hrow, hforb, hat]

theorem retractUpdates_of_not_carriesOut (h : ¬ CarriesOut s root callerScopes) :
    retractUpdates s now root dto callerScopes = [] := by
  unfold retractUpdates
  cases hrow : s.facts.get? root with
  | none => rfl
  | some row =>
      refine if_pos ?_
      by_contra hnot
      rw [Bool.or_eq_true, not_or] at hnot
      exact h ⟨row, hrow, by simpa using hnot.1, by simpa using hnot.2⟩

/-- **A call is its writes.** -/
theorem afterRetract_eq_execAll :
    (afterRetract s now root dto callerScopes)
      = { s with
          facts := s.facts.execAll
            (KeyedTable.updates (retractUpdates s now root dto callerScopes)) } := by
  by_cases hc : CarriesOut s root callerScopes
  · obtain ⟨row, hrow, hforb, hat⟩ := hc
    have hat' : row.existingRow.retractedAt = none := hat
    have hcas : s.facts.execAll (KeyedTable.updates
        ((cascadeRetract s.facts root now dto.reason).2.map
          (fun j => (j, cascadeRow now dto.reason))))
        = (cascadeRetract s.facts root now dto.reason).1 :=
      (KeyedTable.sweep_eq_execAll
        (fun c f => derivesFrom_cascadeRow c now dto.reason f) s.facts root).symm
    rw [retractUpdates_of_carriesOut now dto hrow hforb hat, KeyedTable.updates, List.map_append,
      KeyedTable.execAll_append, hcas, List.map_cons, KeyedTable.execAll_cons]
    simp only [afterRetract, retract, hrow, hforb, hat', Bool.false_eq_true, if_false,
      reviveSupersededBy, KeyedTable.forEach_eq_execAll, revivedBy]
    rfl
  · rw [afterRetract_of_not_carriesOut hc, retractUpdates_of_not_carriesOut hc]
    rfl

/-- The call that fails after its last write has done everything. -/
theorem interruptedRetract_of_length_le {n : ℕ}
    (h : (retractUpdates s now root dto callerScopes).length ≤ n) :
    interruptedRetract s now root dto callerScopes n
      = afterRetract s now root dto callerScopes := by
  rw [interruptedRetract, List.take_of_length_le h, afterRetract_eq_execAll]

theorem interruptedRetract_of_not_carriesOut (h : ¬ CarriesOut s root callerScopes) (n : ℕ) :
    interruptedRetract s now root dto callerScopes n = s := by
  rw [interruptedRetract, retractUpdates_of_not_carriesOut h, List.take_nil]
  rfl

/-- The revive selects rows that the root superseded and that the cascade has not
reached. -/
theorem mem_revivedBy {existing : ExistingRow} {c : FactId × KnowledgeFact} :
    c ∈ revivedBy s.facts now root dto existing ↔
      c.1 ≠ root ∧ ¬ Derives s.facts root c.1 ∧ s.facts.get? c.1 = some c.2 ∧
        isRevivable root c.2 = true := by
  have hnotRoot : ∀ g : KnowledgeFact, isRevivable root (retractRow now dto existing g) = false := by
    simp [isRevivable, retractRow]
  have hnotCas : ∀ g : KnowledgeFact, isRevivable root (cascadeRow now dto.reason g) = false := by
    simp [isRevivable, cascadeRow]
  rw [revivedBy, KeyedTable.mem_select, KeyedTable.get?_update, cascadeRetract,
    KeyedTable.get?_sweep (fun c f => derivesFrom_cascadeRow c now dto.reason f),
    ← cascadeRetract, ← mem_cascadeRetract_iff s.facts now dto.reason]
  constructor
  · rintro ⟨hget, hrev⟩
    by_cases hi : c.1 = root
    · rw [if_pos hi, Option.map_map, Option.map_eq_some_iff] at hget
      obtain ⟨f, _, hf⟩ := hget
      rw [← hf, Function.comp_apply, hnotRoot] at hrev
      cases hrev
    · rw [if_neg hi, Option.map_eq_some_iff] at hget
      obtain ⟨f, hf, hfc⟩ := hget
      by_cases hmem : c.1 ∈ (cascadeRetract s.facts root now dto.reason).2
      · rw [if_pos hmem] at hfc
        rw [← hfc, hnotCas] at hrev
        cases hrev
      · rw [if_neg hmem] at hfc
        exact ⟨hi, hmem, hfc ▸ hf, hrev⟩
  · rintro ⟨hi, hmem, hget, hrev⟩
    rw [if_neg hi, hget, Option.map_some, if_neg hmem]
    exact ⟨rfl, hrev⟩

/-- **No row is written twice**, unless the root derives from itself. -/
theorem nodup_retractUpdates (now : Time) (dto : RetractFactDto)
    (callerScopes : Option (List BrainScope)) (hirr : ¬ Derives s.facts root root) :
    ((retractUpdates s now root dto callerScopes).map Prod.fst).Nodup := by
  by_cases hc : CarriesOut s root callerScopes
  · obtain ⟨row, hrow, hforb, hat⟩ := hc
    have hids : (retractUpdates s now root dto callerScopes).map Prod.fst
        = (cascadeRetract s.facts root now dto.reason).2 ++
          root :: (revivedBy s.facts now root dto row.existingRow).map Prod.fst := by
      rw [retractUpdates_of_carriesOut now dto hrow hforb hat, List.map_append, List.map_cons,
        List.map_map, List.map_map]
      exact congrArg (· ++ _) (List.map_id _)
    have hcas : ∀ j, j ∈ (cascadeRetract s.facts root now dto.reason).2 → Derives s.facts root j :=
      fun j hj => (mem_cascadeRetract_iff _ _ _).mp hj
    rw [hids, List.nodup_append]
    refine ⟨KeyedTable.nodup_sweep (fun c f => derivesFrom_cascadeRow c now dto.reason f) _ _, ?_,
      ?_⟩
    · rw [List.nodup_cons]
      refine ⟨?_, KeyedTable.nodup_select _ _⟩
      intro hmem
      obtain ⟨c, hcmem, hcr⟩ := List.mem_map.mp hmem
      exact (mem_revivedBy.mp hcmem).1 hcr
    · rintro j hj k hk rfl
      rcases List.mem_cons.mp hk with rfl | hk
      · exact hirr (hcas j hj)
      · obtain ⟨c, hcmem, rfl⟩ := List.mem_map.mp hk
        exact (mem_revivedBy.mp hcmem).2.1 (hcas _ hj)
  · rw [retractUpdates_of_not_carriesOut hc]
    exact List.nodup_nil

/-- A call that fails on the way neither adds nor removes rows. -/
theorem next_interruptedRetract (n : ℕ) :
    (interruptedRetract s now root dto callerScopes n).facts.next = s.facts.next :=
  KeyedTable.next_execAll_updates _ _

/-- **What a call leaves that fails after `n` writes**: each row is as it was, or
is cascaded, or is the retracted root; or it is revived, and then the root is
retracted. -/
theorem interruptedRetract_row_cases (now : Time) (dto : RetractFactDto)
    (callerScopes : Option (List BrainScope)) (hirr : ¬ Derives s.facts root root) (n : ℕ)
    {i : FactId} {f : KnowledgeFact} (hf : s.facts.get? i = some f) :
    (interruptedRetract s now root dto callerScopes n).facts.get? i = some f ∨
    (Derives s.facts root i ∧
      (interruptedRetract s now root dto callerScopes n).facts.get? i
        = some (cascadeRow now dto.reason f)) ∨
    (i = root ∧
      (interruptedRetract s now root dto callerScopes n).facts.get? i
        = some (retractRow now dto f.existingRow f)) ∨
    (isRevivable root f = true ∧
      (interruptedRetract s now root dto callerScopes n).facts.get? i = some (reviveRow f f) ∧
      ∃ r, s.facts.get? root = some r ∧
        (interruptedRetract s now root dto callerScopes n).facts.get? root
          = some (retractRow now dto r.existingRow r)) := by
  by_cases hc : CarriesOut s root callerScopes
  · have hnd := (nodup_retractUpdates now dto callerScopes hirr).sublist ((List.take_sublist n _).map Prod.fst)
    obtain ⟨row, hrow, hforb, hat⟩ := hc
    have hget : ∀ u ∈ (retractUpdates s now root dto callerScopes).take n,
        (interruptedRetract s now root dto callerScopes n).facts.get? u.1
          = (s.facts.get? u.1).map u.2 :=
      fun u hu => KeyedTable.get?_execAll_updates_of_mem hnd hu s.facts
    by_cases hi : i ∈ ((retractUpdates s now root dto callerScopes).take n).map Prod.fst
    · obtain ⟨u, hu, rfl⟩ := List.mem_map.mp hi
      have hui := hget u hu
      rw [hf, Option.map_some] at hui
      have hmem := List.mem_of_mem_take hu
      have hlist := retractUpdates_of_carriesOut now dto hrow hforb hat
      rw [hlist, List.mem_append, List.mem_cons, List.mem_map, List.mem_map] at hmem
      rcases hmem with ⟨j, hj, rfl⟩ | rfl | ⟨c, hcmem, rfl⟩
      · exact Or.inr (Or.inl ⟨(mem_cascadeRetract_iff _ _ _).mp hj, hui⟩)
      · rw [hrow, Option.some.injEq] at hf
        exact Or.inr (Or.inr (Or.inl ⟨rfl, by rw [hui, hf]⟩))
      · obtain ⟨_, hcd, hcf, hrev⟩ := mem_revivedBy.mp hcmem
        rw [hf, Option.some.injEq] at hcf
        refine Or.inr (Or.inr (Or.inr ⟨hcf ▸ hrev, by rw [hui, ← hcf], row, hrow, ?_⟩))
        rw [hlist] at hu hget
        -- the root's own MERGE stands before the first revive
        have hroot := KeyedTable.mem_take_of_mem_take_append ?_ hu
        · rw [hget _ hroot, hrow]
          rfl
        · intro hmem
          obtain ⟨j, hj, hjc⟩ := List.mem_map.mp hmem
          have hjc : j = c.1 := congrArg Prod.fst hjc
          exact hcd (hjc ▸ (mem_cascadeRetract_iff _ _ _).mp hj)
    · left
      rw [interruptedRetract, KeyedTable.get?_execAll_updates_of_not_mem hi, hf]
  · left
    rw [interruptedRetract_of_not_carriesOut hc, hf]

/-- A call that fails on the way does not create rows. -/
theorem get?_of_interruptedRetract {n : ℕ} {i : FactId} {f' : KnowledgeFact}
    (h : (interruptedRetract s now root dto callerScopes n).facts.get? i = some f') :
    ∃ f, s.facts.get? i = some f :=
  KeyedTable.exists_get?_of_execAll_updates h

end Spec

end Brain
