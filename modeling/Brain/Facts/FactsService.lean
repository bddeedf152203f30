/-
`src/src/facts/facts.service.ts`: `retract` with its two helpers `cascadeRetract`
and `reviveSupersededBy`, and `listCompeting`.

The service runs its statements one after the other, outside a transaction. The
only errors it raises itself come before the first write, so a call either
returns a result with the store it leaves, or an error with nothing written.

`get?_retract` says row by row what a carried-out retract does: the root is
retracted, what derives from it is cascaded, what it superseded is revived, and
nothing else moves.
-/
import Brain.Db.KnowledgeFact
import Brain.Lib.Grouping
import Brain.Lib.Sweep

set_option autoImplicit false

namespace Brain

/-- `BrainScope`. -/
inductive BrainScope where
  | read | write | admin | read_pii
deriving DecidableEq, Repr

/-- `RetractedBy.source` of `retract.dto.ts`. -/
inductive RetractSource where
  | human | system
deriving DecidableEq, Repr

def RetractSource.asserted : RetractSource → AssertedBy
  | .human => .human
  | .system => .system

/-- `RetractFactDto`. -/
structure RetractFactDto where
  reason : String
  retractedBy : RetractSource
deriving DecidableEq, Repr

/-- The exceptions that `retract` raises. -/
inductive HttpError where
  | notFound (message : String)
  | forbidden (message : String)
deriving DecidableEq, Repr

/-- `RetractResult`. -/
structure RetractResult where
  factId : FactId
  retractedAt : Time
  cascadedFactIds : List FactId
  revivedFactIds : List FactId
deriving DecidableEq, Repr

/-- `RETRACT_ADMIN_PREDICATES`. -/
def RETRACT_ADMIN_PREDICATES : List String := ["billing_event", "human_declared"]

/-- The columns that `retract` selects. -/
structure ExistingRow where
  status : Status
  retractedAt : Option Time
  validFrom : Time
  predicate : String
  source : FactSource

/-- `existing.validUntil`: the column is not selected, so this is `undefined`
whatever the row holds. -/
def ExistingRow.validUntil (_ : ExistingRow) : Option Time := none

def KnowledgeFact.existingRow (f : KnowledgeFact) : ExistingRow where
  status := f.status
  retractedAt := f.retractedAt
  validFrom := f.validFrom
  predicate := f.predicate
  source := f.source

/-- `retractRequiresAdmin`. -/
def retractRequiresAdmin (existing : ExistingRow) : Bool :=
  if RETRACT_ADMIN_PREDICATES.contains existing.predicate then true
  else existing.source.kind == some "legal"

/-- The admin gate: whether a caller with these scopes is turned away. Callers
without scopes (in-process ones) skip it. -/
def retractForbidden (existing : ExistingRow) (callerScopes : Option (List BrainScope)) : Bool :=
  match callerScopes with
  | none => false
  | some scopes => retractRequiresAdmin existing && !scopes.contains .admin

/-! ## The three writes -/

/-- The MERGE on a cascaded child. -/
def cascadeRow (now : Time) (reason : String) (row : KnowledgeFact) : KnowledgeFact :=
  { row with
    status := .retracted
    retractedAt := some now
    retractedBy := some .cascade
    retractionReason := some ("parent retracted: " ++ reason)
    validUntil := some now }

/-- The MERGE on the retracted fact itself. -/
def retractRow (now : Time) (dto : RetractFactDto) (existing : ExistingRow) (row : KnowledgeFact) :
    KnowledgeFact :=
  { row with
    status := .retracted
    retractedAt := some now
    retractedBy := some dto.retractedBy.asserted
    retractionReason := some dto.reason
    validUntil := some (existing.validUntil.getD now) }

/-- The SET on a revived predecessor; `c` is the row as it was selected. -/
def reviveRow (c row : KnowledgeFact) : KnowledgeFact :=
  { row with
    status := .active
    retractedAt := none
    retractedBy := none
    retractionReason := none
    supersededBy := none
    validUntil := c.priorValidUntil
    priorValidUntil := none }

/-- The `WHERE` of the cascade: an unretracted fact derived from `current`. -/
def derivesFrom (current : FactId) (f : KnowledgeFact) : Bool :=
  f.derivedFrom.contains current && f.retractedAt.isNone

/-- The `WHERE` of the revive: a fact that `retractedId` superseded, and that
nothing else has hidden since. -/
def isRevivable (retractedId : FactId) (f : KnowledgeFact) : Bool :=
  f.supersededBy == some retractedId && f.status == .superseded &&
    f.retractionReason == some "superseded"

/-- `cascadeRetract`. -/
def cascadeRetract (t : KeyedTable KnowledgeFact) (parentFactId : FactId) (now : Time)
    (reason : String) : KeyedTable KnowledgeFact × List FactId :=
  t.sweep derivesFrom (cascadeRow now reason) (t.rows.length + 1) [parentFactId] []

/-- `reviveSupersededBy`. -/
def reviveSupersededBy (t : KeyedTable KnowledgeFact) (retractedFactId : FactId) :
    KeyedTable KnowledgeFact × List FactId :=
  let candidates := t.select (fun _ f => isRevivable retractedFactId f)
  (t.forEach candidates reviveRow, candidates.map Prod.fst)

/-- `retract`, executed at `now`. -/
def retract (s : Store) (now : Time) (factId : FactId) (dto : RetractFactDto)
    (callerScopes : Option (List BrainScope)) : Except HttpError (RetractResult × Store) :=
  match s.facts.get? factId with
  | none => .error (.notFound ("Fact " ++ toString factId ++ " not found"))
  | some row =>
      let existing := row.existingRow
      if retractForbidden existing callerScopes then
        .error (.forbidden ("retract of predicate='" ++ existing.predicate ++
          "' (or legal source) requires brain:admin"))
      else
        match existing.retractedAt with
        -- retracted before: the answer is that retraction, and nothing is written
        | some at_ =>
            .ok ({ factId := factId, retractedAt := at_, cascadedFactIds := [],
                   revivedFactIds := [] }, s)
        | none =>
            let cascaded := cascadeRetract s.facts factId now dto.reason
            let merged := cascaded.1.update factId (retractRow now dto existing)
            let revived := reviveSupersededBy merged factId
            .ok ({ factId := factId, retractedAt := now, cascadedFactIds := cascaded.2,
                   revivedFactIds := revived.2 }, { s with facts := revived.1 })

/-- The store after a call: the errors come before any write. -/
def afterRetract (s : Store) (now : Time) (factId : FactId) (dto : RetractFactDto)
    (callerScopes : Option (List BrainScope)) : Store :=
  match retract s now factId dto callerScopes with
  | .ok (_, s') => s'
  | .error _ => s

/-! ## What a retract does -/

section Spec

variable {s s' : Store} {now : Time} {factId : FactId} {dto : RetractFactDto}
  {callerScopes : Option (List BrainScope)} {res : RetractResult}

theorem derivesFrom_cascadeRow (current : FactId) (now : Time) (reason : String)
    (f : KnowledgeFact) : derivesFrom current (cascadeRow now reason f) = false := by
  simp [derivesFrom, cascadeRow]

theorem isRevivable_iff {f : KnowledgeFact} :
    isRevivable factId f = true ↔
      f.supersededBy = some factId ∧ f.status = .superseded ∧
        f.retractionReason = some "superseded" := by
  simp [isRevivable, and_assoc]

/-- Fact `j` derives, through unretracted facts only, from fact `i`. -/
def Derives (t : KeyedTable KnowledgeFact) (i j : FactId) : Prop :=
  Relation.TransGen (t.Hangs derivesFrom) i j

/-- **The cascade reaches exactly the derived facts**, whatever the shape of the
`derivedFrom` graph. -/
theorem mem_cascadeRetract_iff (t : KeyedTable KnowledgeFact) (now : Time) (reason : String)
    {i j : FactId} : j ∈ (cascadeRetract t i now reason).2 ↔ Derives t i j :=
  KeyedTable.mem_sweep_iff (fun c f => derivesFrom_cascadeRow c now reason f) t i j

/-- Where nothing carries a `derivedFrom`, there is nothing to cascade to. -/
theorem cascadeRetract_eq_nil {t : KeyedTable KnowledgeFact}
    (h : ∀ i f, t.get? i = some f → f.derivedFrom = []) (now : Time) (reason : String)
    (i : FactId) : (cascadeRetract t i now reason).2 = [] := by
  rw [List.eq_nil_iff_forall_not_mem]
  intro j hj
  rw [mem_cascadeRetract_iff] at hj
  obtain ⟨c, _, f, hf, hd⟩ := Relation.TransGen.tail'_iff.mp hj
  simp [derivesFrom, h j f hf] at hd

/-- What a carried-out retract of `root` makes of row `f` under `i`. -/
def retractEffect (cascaded : List FactId) (now : Time) (root : FactId) (dto : RetractFactDto)
    (i : FactId) (f : KnowledgeFact) : KnowledgeFact :=
  if i = root then retractRow now dto f.existingRow f
  else if i ∈ cascaded then cascadeRow now dto.reason f
  else if isRevivable root f then reviveRow f f
  else f

/-- The facts after a carried-out retract, row by row. The root is among the
cascaded rows when it derives from itself; its own MERGE comes later and
overwrites the same columns. -/
theorem get?_revive_merge_cascade (t : KeyedTable KnowledgeFact) (root : FactId)
    {row : KnowledgeFact} (hroot : t.get? root = some row) (i : FactId) :
    (reviveSupersededBy ((cascadeRetract t root now dto.reason).1.update root
        (retractRow now dto row.existingRow)) root).1.get? i
      = (t.get? i).map (retractEffect (cascadeRetract t root now dto.reason).2 now root dto i) := by
  have hcas := KeyedTable.get?_sweep
    (fun c f => derivesFrom_cascadeRow c now dto.reason f) t root i
  rw [reviveSupersededBy, KeyedTable.get?_forEach_select, KeyedTable.get?_update, cascadeRetract,
    hcas]
  cases hf : t.get? i with
  | none => by_cases hi : i = root <;> simp [hi]
  | some f =>
      by_cases hi : i = root
      · -- the root's own MERGE is the last write to it: once retracted, it is not revived
        have hrow : row = f := by
          rw [hi, hroot] at hf
          exact Option.some.inj hf
        have hnot : ∀ g : KnowledgeFact,
            isRevivable root (retractRow now dto row.existingRow g) = false := by
          simp [isRevivable, retractRow]
        simp only [if_pos hi, Option.map_some, hnot, Bool.false_eq_true, if_false, retractEffect,
          ← hrow]
        split <;> rfl
      · -- a cascaded row is not superseded any more
        have hnot : ∀ g : KnowledgeFact, isRevivable root (cascadeRow now dto.reason g) = false := by
          simp [isRevivable, cascadeRow]
        simp only [if_neg hi, Option.map_some, retractEffect]
        split
        · rw [hnot, if_neg Bool.false_ne_true]
        · rfl

/-- **Everything a call can do.** It refuses; or finds the fact retracted already
and does nothing; or carries the retract out. -/
theorem retract_cases (h : retract s now factId dto callerScopes = .ok (res, s')) :
    ∃ row, s.facts.get? factId = some row ∧ retractForbidden row.existingRow callerScopes = false ∧
      ((∃ at_, row.retractedAt = some at_ ∧ s' = s ∧
          res = { factId := factId, retractedAt := at_, cascadedFactIds := [],
                  revivedFactIds := [] }) ∨
        (row.retractedAt = none ∧
          s' = { s with facts := (reviveSupersededBy
            ((cascadeRetract s.facts factId now dto.reason).1.update factId
              (retractRow now dto row.existingRow)) factId).1 } ∧
          res = { factId := factId, retractedAt := now,
                  cascadedFactIds := (cascadeRetract s.facts factId now dto.reason).2,
                  revivedFactIds := (reviveSupersededBy
                    ((cascadeRetract s.facts factId now dto.reason).1.update factId
                      (retractRow now dto row.existingRow)) factId).2 })) := by
  unfold retract at h
  cases hrow : s.facts.get? factId with
  | none => rw [hrow] at h; cases h
  | some row =>
      rw [hrow] at h
      dsimp only at h
      by_cases hforb : retractForbidden row.existingRow callerScopes = true
      · rw [if_pos hforb] at h
        cases h
      · rw [if_neg hforb] at h
        refine ⟨row, rfl, by simpa using hforb, ?_⟩
        have hret : row.existingRow.retractedAt = row.retractedAt := rfl
        rw [hret] at h
        cases hat : row.retractedAt with
        | some at_ =>
            rw [hat] at h
            cases h
            exact Or.inl ⟨at_, rfl, rfl, rfl⟩
        | none =>
            rw [hat] at h
            cases h
            exact Or.inr ⟨rfl, rfl, rfl⟩

/-- Whether a call is carried out: the fact is there, the caller may retract it,
and it is not retracted yet. -/
def CarriesOut (s : Store) (factId : FactId) (callerScopes : Option (List BrainScope)) : Prop :=
  ∃ row, s.facts.get? factId = some row ∧
    retractForbidden row.existingRow callerScopes = false ∧ row.retractedAt = none

/-- A call that is carried out returns what its cascade and its revive found. -/
theorem retract_eq_ok (h : CarriesOut s factId callerScopes) (now : Time)
    (dto : RetractFactDto) :
    ∃ row, s.facts.get? factId = some row ∧
      retract s now factId dto callerScopes = .ok
        ({ factId := factId, retractedAt := now,
           cascadedFactIds := (cascadeRetract s.facts factId now dto.reason).2,
           revivedFactIds := (reviveSupersededBy
             ((cascadeRetract s.facts factId now dto.reason).1.update factId
               (retractRow now dto row.existingRow)) factId).2 },
         afterRetract s now factId dto callerScopes) := by
  obtain ⟨row, hrow, hforb, hret⟩ := h
  have hat : row.existingRow.retractedAt = none := hret
  refine ⟨row, hrow, ?_⟩
  simp only [afterRetract, retract, hrow, hforb, hat, Bool.false_eq_true, if_false]

/-- **The facts after a call.** Row by row for a call that is carried out; any
other call leaves the store alone. -/
theorem get?_retract (now : Time) (dto : RetractFactDto)
    (h : CarriesOut s factId callerScopes) (i : FactId) :
    (afterRetract s now factId dto callerScopes).facts.get? i
      = (s.facts.get? i).map
          (retractEffect (cascadeRetract s.facts factId now dto.reason).2 now factId dto i) := by
  obtain ⟨row, hrow, hforb, hret⟩ := h
  have hat : row.existingRow.retractedAt = none := hret
  simp only [afterRetract, retract, hrow, hforb, hat, Bool.false_eq_true, if_false]
  exact get?_revive_merge_cascade s.facts factId hrow i

/-- What a carried-out call makes of a row, case by case. -/
theorem get?_afterRetract_of_get? (dto : RetractFactDto) (hc : CarriesOut s factId callerScopes) (now : Time)
    {i : FactId} {f : KnowledgeFact} (hf : s.facts.get? i = some f) :
    (i = factId → (afterRetract s now factId dto callerScopes).facts.get? i
      = some (retractRow now dto f.existingRow f)) ∧
    (i ≠ factId → Derives s.facts factId i →
      (afterRetract s now factId dto callerScopes).facts.get? i
        = some (cascadeRow now dto.reason f)) ∧
    (i ≠ factId → ¬ Derives s.facts factId i → isRevivable factId f = true →
      (afterRetract s now factId dto callerScopes).facts.get? i = some (reviveRow f f)) ∧
    (i ≠ factId → ¬ Derives s.facts factId i → isRevivable factId f = false →
      (afterRetract s now factId dto callerScopes).facts.get? i = some f) := by
  have hget := get?_retract now dto hc i
  rw [hf, Option.map_some, retractEffect] at hget
  rw [hget]
  refine ⟨?_, ?_, ?_, ?_⟩
  · intro hi
    rw [if_pos hi]
  · intro hi hd
    rw [if_neg hi, if_pos ((mem_cascadeRetract_iff _ _ _).mpr hd)]
  · intro hi hd hrev
    rw [if_neg hi, if_neg (fun h => hd ((mem_cascadeRetract_iff _ _ _).mp h)), if_pos hrev]
  · intro hi hd hrev
    rw [if_neg hi, if_neg (fun h => hd ((mem_cascadeRetract_iff _ _ _).mp h)), hrev,
      if_neg Bool.false_ne_true]

theorem afterRetract_of_not_carriesOut (h : ¬ CarriesOut s factId callerScopes) :
    afterRetract s now factId dto callerScopes = s := by
  unfold afterRetract
  cases hr : retract s now factId dto callerScopes with
  | error e => rfl
  | ok p =>
      obtain ⟨res, s'⟩ := p
      obtain ⟨row, hrow, hforb, ⟨_, _, hs', _⟩ | ⟨hret, _, _⟩⟩ := retract_cases hr
      · exact hs'
      · exact absurd ⟨row, hrow, hforb, hret⟩ h

/-- **Row rule for a retract.** A property of rows that the root keeps, and that
cascading and reviving keep, is kept by the call. -/
theorem afterRetract_rows {P : FactId → KnowledgeFact → Prop}
    (hold : ∀ i f, s.facts.get? i = some f → P i f)
    (hroot : ∀ f, s.facts.get? factId = some f → CarriesOut s factId callerScopes → P factId f →
      P factId (retractRow now dto f.existingRow f))
    (hcas : ∀ i f, s.facts.get? i = some f → CarriesOut s factId callerScopes →
      Derives s.facts factId i → P i f → P i (cascadeRow now dto.reason f))
    (hrev : ∀ i f, isRevivable factId f = true → P i f → P i (reviveRow f f))
    (i : FactId) (f : KnowledgeFact)
    (hf : (afterRetract s now factId dto callerScopes).facts.get? i = some f) : P i f := by
  by_cases hc : CarriesOut s factId callerScopes
  · rw [get?_retract _ _ hc, Option.map_eq_some_iff] at hf
    obtain ⟨g, hg, rfl⟩ := hf
    unfold retractEffect
    split
    · next hi =>
        subst hi
        exact hroot g hg hc (hold i g hg)
    · split
      · next hmem => exact hcas i g hg hc ((mem_cascadeRetract_iff _ _ _).mp hmem) (hold i g hg)
      · split
        · next hr => exact hrev i g hr (hold i g hg)
        · exact hold i g hg
  · rw [afterRetract_of_not_carriesOut hc] at hf
    exact hold i f hf

/-- A call never removes a fact and never moves it to another key. -/
theorem get?_afterRetract {i : FactId} {f : KnowledgeFact} (hf : s.facts.get? i = some f) :
    ∃ g, (afterRetract s now factId dto callerScopes).facts.get? i = some g ∧ g.key = f.key := by
  by_cases hc : CarriesOut s factId callerScopes
  · rw [get?_retract _ _ hc, hf]
    refine ⟨_, rfl, ?_⟩
    unfold retractEffect
    split
    · rfl
    · split
      · rfl
      · split <;> rfl
  · rw [afterRetract_of_not_carriesOut hc]
    exact ⟨f, hf, rfl⟩

end Spec

/-! ## Listing what competes -/

/-- `CompetingFactRecord`. -/
structure CompetingFactRecord where
  factId : FactId
  entityId : EntityId
  predicate : String
  object : String
  confidence : Confidence
  validFrom : Time
  validUntil : Option Time
  recordedAt : Time
  source : FactSource
deriving DecidableEq

def toCompetingFactRecord (q : FactId × KnowledgeFact) : CompetingFactRecord where
  factId := q.1
  entityId := q.2.entityId
  predicate := q.2.predicate
  object := q.2.object
  confidence := q.2.confidence
  validFrom := q.2.validFrom
  validUntil := q.2.validUntil
  recordedAt := q.2.recordedAt
  source := q.2.source

/-- `CompetingFactGroup`; its key is the entity and the predicate. -/
structure CompetingFactGroup where
  key : FactKey
  facts : List CompetingFactRecord
deriving DecidableEq

/-- `ListCompetingResult`. -/
structure ListCompetingResult where
  entityId : EntityId
  asOf : Option Time
  groups : List CompetingFactGroup
deriving DecidableEq

/-- The WHERE of `listCompeting`. -/
def competingWhere (entityId : EntityId) (predicate : Option String) (asOf : Option Time)
    (f : KnowledgeFact) : Bool :=
  f.entityId == entityId && f.status == .competing &&
    -- the empty string is falsy
    predicate.all (fun p => p.isEmpty || f.predicate == p) &&
    match asOf with
    | some t =>
        decide (f.recordedAt ≤ t) &&
          (match f.retractedAt with
            | none => true
            | some r => decide (t < r))
    | none => f.retractedAt.isNone

/-- `ORDER BY predicate ASC, recordedAt ASC`. -/
def byPredicate (p q : FactId × KnowledgeFact) : Prop :=
  p.2.predicate < q.2.predicate ∨
    p.2.predicate = q.2.predicate ∧ p.2.recordedAt ≤ q.2.recordedAt

instance : DecidableRel byPredicate := fun p q => by
  unfold byPredicate
  exact inferInstance

/-- The rows of `listCompeting`. -/
def competingRows (t : KeyedTable KnowledgeFact) (entityId : EntityId)
    (predicate : Option String) (asOf : Option Time) : List (FactId × KnowledgeFact) :=
  (t.rows.insertionSort byPredicate).filter (fun q => competingWhere entityId predicate asOf q.2)

/-- `listCompeting`. -/
def listCompeting (s : Store) (entityId : EntityId) (predicate : Option String)
    (asOf : Option Time) : ListCompetingResult where
  entityId := entityId
  asOf := asOf
  groups :=
    (Grouping.groups (fun r : CompetingFactRecord => (r.entityId, r.predicate))
      ((competingRows s.facts entityId predicate asOf).map toCompetingFactRecord)).map
      (fun facts => { key := (entityId, (facts.map (fun r => r.predicate)).headD ""), facts := facts })

end Brain
