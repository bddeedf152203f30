/-
`src/src/ai/embedder/reindex-embeddings.service.ts`: the facts of the tenants are read page by
page and embedded anew, while others insert and forget facts. Every query to the database is a
step of its own, and what embeds and updates succeeds. `Brain.Facts.TenantLife` has a call of
`reindexTenant` as one operation that reaches some rows; this is about which.

A page is addressed by the number of facts read so far. A fact whose id is behind those read can
come before that place only if more of the read facts have gone than have come in front of the
last of them, so that in a run where this is never the case when the loop is at its head, no fact
that stays is missed. A page has the length of the batch also if less is left of the cap; the cap
is kept in a run where no page that is read is longer than the rest of it (`run_covers_and_caps`).
-/
import Brain.Lib.OffsetPaging
import Brain.Lib.Runs
import Brain.Db.KnowledgeFact

set_option autoImplicit false

namespace Brain.Reindex

open Runs OffsetPaging

variable {Id : Type} [LinearOrder Id]

/-! ## 1. The tables -/

/-- A row of `knowledge_fact`: the columns that are read or written here. -/
structure FactRow (Id : Type) where
  id : Id
  entityId : EntityId
  predicate : String
  object : String
  embedding : List ℚ

/-- The facts of a tenant, `ORDER BY id`. -/
structure FactTable (Id : Type) [LinearOrder Id] where
  rows : List (FactRow Id)
  ordered : (rows.map FactRow.id).Pairwise (· < ·)

namespace FactTable

/-- The ids of the facts. -/
def ids (t : FactTable Id) : List Id := t.rows.map FactRow.id

/-- `UPDATE $id SET embedding = $embedding`; nothing happens if the fact is gone. -/
def setEmbedding (t : FactTable Id) (id : Id) (embedding : List ℚ) : FactTable Id where
  rows := t.rows.map (fun row => if row.id = id then { row with embedding := embedding } else row)
  ordered := by
    have hids : (t.rows.map (fun row => if row.id = id then { row with embedding := embedding }
        else row)).map FactRow.id = t.rows.map FactRow.id := by
      rw [List.map_map]
      refine List.map_congr_left (fun row _ => ?_)
      simp only [Function.comp]
      split <;> rfl
    rw [hids]
    exact t.ordered

/-- A fact is inserted under an id that is not taken. -/
def insert (t : FactTable Id) (row : FactRow Id) : FactTable Id where
  rows := if row.id ∈ t.rows.map FactRow.id then t.rows
    else t.rows.filter (fun r => decide (r.id < row.id)) ++
      row :: t.rows.filter (fun r => decide (row.id < r.id))
  ordered := by
    split
    · exact t.ordered
    · have hrows := List.pairwise_map.mp t.ordered
      rw [List.map_append, List.map_cons, List.pairwise_append, List.pairwise_cons,
        List.pairwise_map, List.pairwise_map]
      refine ⟨hrows.filter _, ⟨fun i hi => ?_, hrows.filter _⟩, fun i hi j hj => ?_⟩
      · obtain ⟨r, hr, rfl⟩ := List.mem_map.mp hi
        exact of_decide_eq_true (List.mem_filter.mp hr).2
      · obtain ⟨r, hr, rfl⟩ := List.mem_map.mp hi
        have hlow := of_decide_eq_true (List.mem_filter.mp hr).2
        rcases List.mem_cons.mp hj with rfl | hj
        · exact hlow
        · obtain ⟨r', hr', rfl⟩ := List.mem_map.mp hj
          exact hlow.trans (of_decide_eq_true (List.mem_filter.mp hr').2)

/-- `EntitiesService.forget` deletes the facts of an entity. -/
def forget (t : FactTable Id) (entityId : EntityId) : FactTable Id where
  rows := t.rows.filter (fun row => decide (row.entityId ≠ entityId))
  ordered := t.ordered.sublist (List.filter_sublist.map FactRow.id)

end FactTable

/-! ## 2. The service -/

/-- Where `reindexTenant` is. -/
inductive Point (Id : Type) where
  | loopHead
  /-- In the loop over the rows of a page, at the one with this number. -/
  | atRow (page : List (FactRow Id)) (i : ℕ)
  /-- The loop has been left by a `break`. -/
  | broken
  /-- The condition of the loop was false. -/
  | capped

/-- A call of `reindexTenant`, with the ids of the UPDATEs that it has sent. -/
structure TenantRun (Id : Type) where
  companyId : String
  remaining : ℕ
  offset : ℕ := 0
  factsScanned : ℕ := 0
  factsUpdated : ℕ := 0
  updates : List Id := []
  point : Point Id := .loopHead

/-- The database and a call of `run`. -/
structure RunState (Id : Type) [LinearOrder Id] where
  tables : String → FactTable Id
  /-- The tenants that the loop has not come to. -/
  tenants : List String
  factsScanned : ℕ := 0
  factsUpdated : ℕ := 0
  current : Option (TenantRun Id) := none

/-- What can happen next. -/
inductive Act (Id : Type) where
  /-- The service goes on to its next query. -/
  | proceed
  | insert (companyId : String) (row : FactRow Id)
  | forget (companyId : String) (entityId : EntityId)

section Service

variable (embedMany : List String → List (List ℚ)) (batchSize maxFacts : ℕ)

/-- `batch`. -/
def TenantRun.batch (r : TenantRun Id) : ℕ := min batchSize r.remaining

/-- The texts of a page. -/
def texts (page : List (FactRow Id)) : List String :=
  page.map (fun row => row.predicate ++ ": " ++ row.object)

/-- The next query of `reindexTenant`, not in a dry run. -/
def TenantRun.step (t : FactTable Id) (r : TenantRun Id) : TenantRun Id × FactTable Id :=
  match r.point with
  | .loopHead =>
      if r.factsScanned < r.remaining then
        let page := (t.rows.drop r.offset).take (r.batch batchSize)
        if page.length = 0 then ({ r with point := .broken }, t)
        else
          ({ r with factsScanned := r.factsScanned + page.length, point := .atRow page 0 }, t)
      else ({ r with point := .capped }, t)
  | .atRow page i =>
      match page[i]? with
      | some row =>
          ({ r with
              factsUpdated := r.factsUpdated + 1
              updates := r.updates ++ [row.id]
              point := .atRow page (i + 1) },
            t.setEmbedding row.id ((embedMany (texts page)).getD i []))
      | none =>
          ({ r with
              offset := r.offset + page.length
              point := if page.length < r.batch batchSize then .broken else .loopHead }, t)
  | .broken => (r, t)
  | .capped => (r, t)

/-- `reindexTenant` is about to return. -/
def TenantRun.Over (r : TenantRun Id) : Prop := r.point = .broken ∨ r.point = .capped

instance (r : TenantRun Id) : Decidable r.Over := by
  unfold TenantRun.Over
  cases r.point with
  | loopHead => exact isFalse (by rintro (h | h) <;> cases h)
  | atRow page i => exact isFalse (by rintro (h | h) <;> cases h)
  | broken => exact isTrue (.inl rfl)
  | capped => exact isTrue (.inr rfl)

/-- The next step of `run`. -/
def RunState.proceed (s : RunState Id) : RunState Id :=
  match s.current with
  | none =>
      match s.tenants with
      | [] => s
      | companyId :: tenants =>
          { s with
            tenants := tenants
            current := some { companyId := companyId, remaining := maxFacts - s.factsScanned } }
  | some r =>
      if r.Over then
        let factsScanned := s.factsScanned + r.factsScanned
        { s with
          factsScanned := factsScanned
          factsUpdated := s.factsUpdated + r.factsUpdated
          tenants := if maxFacts ≤ factsScanned then [] else s.tenants
          current := none }
      else
        let next := r.step embedMany batchSize (s.tables r.companyId)
        { s with
          tables := Function.update s.tables r.companyId next.2
          current := some next.1 }

/-- A step of the system. -/
def step (s : RunState Id) (a : Act Id) : RunState Id :=
  match a with
  | .proceed => s.proceed embedMany batchSize maxFacts
  | .insert companyId row =>
      { s with tables := Function.update s.tables companyId ((s.tables companyId).insert row) }
  | .forget companyId entityId =>
      { s with tables := Function.update s.tables companyId ((s.tables companyId).forget entityId) }

/-! ## 3. What is asked of a run -/

/-- `run` before its first step. -/
def RunState.start (tables : String → FactTable Id) (tenants : List String) : RunState Id where
  tables := tables
  tenants := tenants

/-- A call of `reindexTenant` is under way. -/
def Running (s : RunState Id) : Prop := ∃ r, s.current = some r ∧ ¬ r.Over

/-- The call has come to its end, and the cap has not cut it short: no fact is left. -/
def Complete (s : RunState Id) (r : TenantRun Id) : Prop :=
  r.point = .broken ∨ (r.point = .capped ∧ (s.tables r.companyId).rows.length ≤ r.offset)

/-- **Nothing is missed** where the steps meet a condition: a fact that is there from the first
step of a call of `reindexTenant` to the last is updated, if the call is complete. -/
def MissesNothing (C : RunState Id → Act Id → Prop) : Prop :=
  ∀ (s₁ s₂ : RunState Id) (companyId : String) (remaining : ℕ) (r : TenantRun Id) (x : Id),
    s₁.current = some { companyId := companyId, remaining := remaining } →
      x ∈ (s₁.tables companyId).ids →
        Reached (step embedMany batchSize maxFacts) (fun s a => Running s ∧ C s a ∧
          x ∈ ((step embedMany batchSize maxFacts s a).tables companyId).ids) s₁ s₂ →
          s₂.current = some r → Complete s₂ r → x ∈ r.updates

/-- The number of facts that have been updated. -/
def processed (s : RunState Id) : ℕ :=
  s.factsUpdated + (s.current.map TenantRun.factsUpdated).getD 0

/-- **The cap is kept** where the steps meet a condition. -/
def KeepsCap (C : RunState Id → Act Id → Prop) : Prop :=
  ∀ (tables : String → FactTable Id) (tenants : List String) (s : RunState Id),
    Reached (step embedMany batchSize maxFacts) C (.start tables tenants) s →
      processed s ≤ maxFacts

/-- When the loop is at its head, as many facts as the offset are not behind those updated. -/
def HeadUnshifted (s : RunState Id) (a : Act Id) : Prop :=
  match a with
  | .proceed => ∀ r, s.current = some r → r.point = .loopHead →
      Unshifted (s.tables r.companyId).ids r.offset r.updates
  | _ => True

/-- A page that is read is not longer than the rest of the cap. -/
def PageFits (s : RunState Id) (a : Act Id) : Prop :=
  match a with
  | .proceed => ∀ r, s.current = some r → r.point = .loopHead → r.factsScanned < r.remaining →
      min (r.batch batchSize) ((s.tables r.companyId).rows.length - r.offset)
        ≤ r.remaining - r.factsScanned
  | _ => True

end Service

/-! ## 4. A step of `reindexTenant` -/

section Tenant

variable {embedMany : List String → List (List ℚ)} {batchSize maxFacts : ℕ}
  {t : FactTable Id} {r : TenantRun Id}

/-- The page that is read next. -/
def TenantRun.nextPage (batchSize : ℕ) (t : FactTable Id) (r : TenantRun Id) : List (FactRow Id) :=
  (t.rows.drop r.offset).take (r.batch batchSize)

theorem ids_nextPage (batchSize : ℕ) (t : FactTable Id) (r : TenantRun Id) : (r.nextPage batchSize t).map FactRow.id
    = page t.ids r.offset (r.batch batchSize) := by
  rw [TenantRun.nextPage, List.map_take, List.map_drop]
  rfl

/-- What a step of `reindexTenant` does. -/
theorem TenantRun.step_cases (embedMany : List String → List (List ℚ)) (batchSize : ℕ)
    (t : FactTable Id) (h : ¬ r.Over) :
    (r.point = .loopHead ∧ r.factsScanned < r.remaining ∧ r.nextPage batchSize t = [] ∧
        r.step embedMany batchSize t = ({ r with point := .broken }, t)) ∨
      (r.point = .loopHead ∧ r.factsScanned < r.remaining ∧
        r.step embedMany batchSize t =
          ({ r with factsScanned := r.factsScanned + (r.nextPage batchSize t).length
                    point := .atRow (r.nextPage batchSize t) 0 }, t)) ∨
      (r.point = .loopHead ∧ r.step embedMany batchSize t = ({ r with point := .capped }, t)) ∨
      (∃ page i row, r.point = .atRow page i ∧ page[i]? = some row ∧
        r.step embedMany batchSize t =
          ({ r with factsUpdated := r.factsUpdated + 1
                    updates := r.updates ++ [row.id]
                    point := .atRow page (i + 1) },
            t.setEmbedding row.id ((embedMany (texts page)).getD i []))) ∨
      (∃ page i, r.point = .atRow page i ∧ page.length ≤ i ∧
        r.step embedMany batchSize t =
          ({ r with offset := r.offset + page.length
                    point := if page.length < r.batch batchSize then .broken else .loopHead },
            t)) := by
  cases hpoint : r.point with
  | loopHead =>
      by_cases hlt : r.factsScanned < r.remaining
      · by_cases hpage : (r.nextPage batchSize t).length = 0
        · refine .inl ⟨rfl, hlt, List.length_eq_zero_iff.mp hpage, ?_⟩
          rw [TenantRun.nextPage] at hpage
          simp only [TenantRun.step, hpoint, if_pos hlt, if_pos hpage]
        · refine .inr (.inl ⟨rfl, hlt, ?_⟩)
          rw [TenantRun.nextPage] at hpage
          simp only [TenantRun.step, hpoint, if_pos hlt, if_neg hpage]
          rfl
      · refine .inr (.inr (.inl ⟨rfl, ?_⟩))
        simp only [TenantRun.step, hpoint, if_neg hlt]
  | atRow page i =>
      cases hrow : page[i]? with
      | some row =>
          refine .inr (.inr (.inr (.inl ⟨page, i, row, rfl, hrow, ?_⟩)))
          simp only [TenantRun.step, hpoint, hrow]
      | none =>
          refine .inr (.inr (.inr (.inr ⟨page, i, rfl, List.getElem?_eq_none_iff.mp hrow, ?_⟩)))
          simp only [TenantRun.step, hpoint, hrow]
  | broken => exact absurd (.inl hpoint) h
  | capped => exact absurd (.inr hpoint) h

/-- A step keeps the tenant and the rest of the cap. -/
theorem TenantRun.step_keeps (h : ¬ r.Over) :
    (r.step embedMany batchSize t).1.companyId = r.companyId ∧
      (r.step embedMany batchSize t).1.remaining = r.remaining := by
  rcases TenantRun.step_cases embedMany batchSize t h with ⟨_, _, _, hstep⟩ | ⟨_, _, hstep⟩ |
    ⟨_, hstep⟩ | ⟨_, _, _, _, _, hstep⟩ | ⟨_, _, _, _, hstep⟩
  all_goals
    rw [hstep]
    exact ⟨rfl, rfl⟩

/-! ## 5. Nothing is missed -/

/-- **The invariant of a fact**: it is not skipped, and updated when the call is complete. -/
def OnCourse (batchSize : ℕ) (x : Id) (t : FactTable Id) (r : TenantRun Id) : Prop :=
  match r.point with
  | .loopHead => Passed x r.updates
  | .atRow page i => ∃ read, r.updates = read ++ (page.take i).map FactRow.id ∧
      Passed x (read ++ page.map FactRow.id) ∧
        (page.length < r.batch batchSize → x ∈ read ++ page.map FactRow.id)
  | .broken => x ∈ r.updates
  | .capped => t.rows.length ≤ r.offset → x ∈ r.updates

/-- As long as the call is under way, the invariant does not depend on the table. -/
theorem OnCourse.of_not_over {x : Id} {t' : FactTable Id} (h : OnCourse batchSize x t r)
    (hover : ¬ r.Over) : OnCourse batchSize x t' r := by
  unfold OnCourse at h ⊢
  cases hpoint : r.point with
  | loopHead => simpa only [hpoint] using h
  | atRow page i => simpa only [hpoint] using h
  | broken => exact absurd (.inl hpoint) hover
  | capped => exact absurd (.inr hpoint) hover

theorem OnCourse.passed {x : Id} (h : OnCourse batchSize x t r) (hpoint : r.point = .loopHead) :
    Passed x r.updates := by
  simpa only [OnCourse, hpoint] using h

/-- Within a page, what has been updated is what was before it and its first rows. -/
theorem OnCourse.atRow {x : Id} (h : OnCourse batchSize x t r) {page : List (FactRow Id)} {i : ℕ}
    (hpoint : r.point = .atRow page i) :
    ∃ read, r.updates = read ++ (page.take i).map FactRow.id ∧
      Passed x (read ++ page.map FactRow.id) ∧
        (page.length < r.batch batchSize → x ∈ read ++ page.map FactRow.id) := by
  simpa only [OnCourse, hpoint] using h

/-- **A step keeps a fact on course** that is there. -/
theorem OnCourse.next (embedMany : List String → List (List ℚ)) (hbatch : 1 ≤ batchSize) {x : Id} (h : OnCourse batchSize x t r)
    (hover : ¬ r.Over) (hx : x ∈ t.ids)
    (hhead : r.point = .loopHead → Unshifted t.ids r.offset r.updates) :
    OnCourse batchSize x (r.step embedMany batchSize t).2 (r.step embedMany batchSize t).1 := by
  rcases TenantRun.step_cases embedMany batchSize t hover with ⟨hpoint, hlt, hpage, hstep⟩ |
    ⟨hpoint, hlt, hstep⟩ | ⟨hpoint, hstep⟩ | ⟨page, i, row, hpoint, hrow, hstep⟩ |
    ⟨page, i, hpoint, hi, hstep⟩
  · -- an empty page is shorter than the batch
    have hshort := ((h.passed hpoint).next (r.batch batchSize) t.ordered (hhead hpoint) hx).2
    have hids := ids_nextPage batchSize t r
    rw [hpage, List.map_nil] at hids
    rw [← FactTable.ids, ← hids, List.append_nil] at hshort
    rw [hstep]
    refine hshort ?_
    rw [List.length_nil, TenantRun.batch]
    omega
  · -- a page is read
    have hnext := (h.passed hpoint).next (r.batch batchSize) t.ordered (hhead hpoint) hx
    rw [← FactTable.ids, ← ids_nextPage, List.length_map] at hnext
    rw [hstep]
    refine ⟨r.updates, ?_, hnext⟩
    rw [List.take_zero, List.map_nil, List.append_nil]
  · -- the cap ends the loop
    rw [hstep]
    intro hend
    refine (h.passed hpoint).mem_of_end t.ordered (hhead hpoint) hx ?_
    rw [List.length_map]
    exact hend
  · -- a row is updated
    obtain ⟨read, hupdates, hpassed, hshort⟩ := h.atRow hpoint
    rw [hstep]
    refine ⟨read, ?_, hpassed, hshort⟩
    rw [hupdates, List.take_add_one, hrow, List.map_append, List.append_assoc]
    rfl
  · -- the page is done: all of its rows have been updated
    obtain ⟨read, hupdates, hpassed, hshort⟩ := h.atRow hpoint
    rw [List.take_of_length_le hi] at hupdates
    rw [← hupdates] at hpassed hshort
    rw [hstep]
    by_cases hlt : page.length < r.batch batchSize
    · simp only [OnCourse, if_pos hlt]
      exact hshort hlt
    · simp only [OnCourse, if_neg hlt]
      exact hpassed

/-! ## 6. The cap -/

/-- How many rows of the page have not been updated. -/
def TenantRun.unwritten (r : TenantRun Id) : ℕ :=
  match r.point with
  | .atRow page i => page.length - i
  | _ => 0

/-- **The invariant of the cap**: what has been read is within it, and more than what has been
updated by the rows that are left of the page. -/
structure WithinCap (r : TenantRun Id) : Prop where
  scanned_le : r.factsScanned ≤ r.remaining
  updated_le : r.factsUpdated + r.unwritten ≤ r.factsScanned

theorem WithinCap.next (h : WithinCap r) (hover : ¬ r.Over)
    (hfits : r.point = .loopHead → r.factsScanned < r.remaining →
      min (r.batch batchSize) (t.rows.length - r.offset) ≤ r.remaining - r.factsScanned) :
    WithinCap (r.step embedMany batchSize t).1 := by
  obtain ⟨hscanned, hupdated⟩ := h
  rcases TenantRun.step_cases embedMany batchSize t hover with ⟨hpoint, hlt, hpage, hstep⟩ |
    ⟨hpoint, hlt, hstep⟩ | ⟨hpoint, hstep⟩ | ⟨page, i, row, hpoint, hrow, hstep⟩ |
    ⟨page, i, hpoint, hi, hstep⟩
  · rw [hstep]
    simp only [TenantRun.unwritten, hpoint] at hupdated
    exact ⟨hscanned, hupdated⟩
  · -- a page is read: it fits by the condition
    have hlen : (r.nextPage batchSize t).length
        = min (r.batch batchSize) (t.rows.length - r.offset) := by
      rw [TenantRun.nextPage, List.length_take, List.length_drop]
    have := hfits hpoint hlt
    rw [hstep]
    simp only [TenantRun.unwritten, hpoint] at hupdated
    constructor
    · dsimp only
      omega
    · simp only [TenantRun.unwritten]
      omega
  · rw [hstep]
    simp only [TenantRun.unwritten, hpoint] at hupdated
    exact ⟨hscanned, hupdated⟩
  · -- a row is updated: one more, and one less to come
    have hlt := (List.getElem?_eq_some_iff.mp hrow).1
    rw [hstep]
    simp only [TenantRun.unwritten, hpoint] at hupdated
    refine ⟨hscanned, ?_⟩
    simp only [TenantRun.unwritten]
    omega
  · rw [hstep]
    simp only [TenantRun.unwritten, hpoint] at hupdated
    refine ⟨hscanned, ?_⟩
    by_cases hshort : page.length < r.batch batchSize
    · simp only [TenantRun.unwritten, if_pos hshort]
      omega
    · simp only [TenantRun.unwritten, if_neg hshort]
      omega

end Tenant

/-! ## 7. Whole runs -/

section Runs

variable {embedMany : List String → List (List ℚ)} {batchSize maxFacts : ℕ} {s : RunState Id}

/-- What the service does next. -/
theorem proceed_cases (embedMany : List String → List (List ℚ)) (batchSize maxFacts : ℕ)
    (s : RunState Id) :
    (s.current = none ∧ s.tenants = [] ∧ s.proceed embedMany batchSize maxFacts = s) ∨
      (∃ companyId tenants, s.current = none ∧ s.tenants = companyId :: tenants ∧
        s.proceed embedMany batchSize maxFacts = { s with
          tenants := tenants
          current := some { companyId := companyId, remaining := maxFacts - s.factsScanned } }) ∨
      (∃ r, s.current = some r ∧ r.Over ∧
        s.proceed embedMany batchSize maxFacts = { s with
          factsScanned := s.factsScanned + r.factsScanned
          factsUpdated := s.factsUpdated + r.factsUpdated
          tenants := if maxFacts ≤ s.factsScanned + r.factsScanned then [] else s.tenants
          current := none }) ∨
      (∃ r, s.current = some r ∧ ¬ r.Over ∧
        s.proceed embedMany batchSize maxFacts = { s with
          tables := Function.update s.tables r.companyId
            (r.step embedMany batchSize (s.tables r.companyId)).2
          current := some (r.step embedMany batchSize (s.tables r.companyId)).1 }) := by
  cases hcurrent : s.current with
  | none =>
      cases htenants : s.tenants with
      | nil => exact .inl ⟨rfl, rfl, by simp only [RunState.proceed, hcurrent, htenants]⟩
      | cons companyId tenants =>
          exact .inr (.inl ⟨companyId, tenants, rfl, rfl,
            by simp only [RunState.proceed, hcurrent, htenants]⟩)
  | some r =>
      by_cases hover : r.Over
      · exact .inr (.inr (.inl ⟨r, rfl, hover,
          by simp only [RunState.proceed, hcurrent, if_pos hover]⟩))
      · exact .inr (.inr (.inr ⟨r, rfl, hover,
          by simp only [RunState.proceed, hcurrent, if_neg hover]⟩))

/-- A fact that is there, of the tenant whose facts are read, is on course. -/
def Watched (batchSize : ℕ) (companyId : String) (x : Id) (s : RunState Id) : Prop :=
  x ∈ (s.tables companyId).ids ∧ ∃ r, s.current = some r ∧ r.companyId = companyId ∧
    OnCourse batchSize x (s.tables companyId) r

theorem Watched.next (hbatch : 1 ≤ batchSize) {companyId : String} {x : Id} {a : Act Id}
    (h : Watched batchSize companyId x s) (hrun : Running s) (hhead : HeadUnshifted s a)
    (hthere : x ∈ ((step embedMany batchSize maxFacts s a).tables companyId).ids) :
    Watched batchSize companyId x (step embedMany batchSize maxFacts s a) := by
  obtain ⟨hx, r, hcurrent, rfl, hcourse⟩ := h
  obtain ⟨r', hcurrent', hover⟩ := hrun
  obtain rfl : r = r' := Option.some_inj.mp (hcurrent.symm.trans hcurrent')
  refine ⟨hthere, ?_⟩
  cases a with
  | proceed =>
      rcases proceed_cases embedMany batchSize maxFacts s with ⟨hnone, _⟩ | ⟨_, _, hnone, _⟩ |
        ⟨r', hr', hover', _⟩ | ⟨r', hr', _, hproceed⟩
      · rw [hcurrent] at hnone
        cases hnone
      · rw [hcurrent] at hnone
        cases hnone
      · obtain rfl : r = r' := Option.some_inj.mp (hcurrent.symm.trans hr')
        exact absurd hover' hover
      · obtain rfl : r = r' := Option.some_inj.mp (hcurrent.symm.trans hr')
        refine ⟨(r.step embedMany batchSize (s.tables r.companyId)).1, ?_,
          (TenantRun.step_keeps hover).1, ?_⟩
        · rw [step, hproceed]
        · have hnext := hcourse.next embedMany hbatch hover hx
            (hhead r hcurrent)
          rw [step, hproceed]
          simp only [Function.update_self]
          exact hnext
  | insert companyId row => exact ⟨r, hcurrent, rfl, hcourse.of_not_over hover⟩
  | forget companyId entityId => exact ⟨r, hcurrent, rfl, hcourse.of_not_over hover⟩

/-- **No fact that stays is missed**, as long as no fact is shifted before the offset. -/
theorem missesNothing (embedMany : List String → List (List ℚ)) (maxFacts : ℕ)
    (hbatch : 1 ≤ batchSize) :
    MissesNothing embedMany batchSize maxFacts (HeadUnshifted : RunState Id → Act Id → Prop) := by
  intro s₁ s₂ companyId remaining r x hstart hx hreached hcurrent hcomplete
  -- at the beginning nothing has been read, so nothing has been skipped
  have hwatched : Watched batchSize companyId x s₂ := by
    refine hreached.invariant ⟨hx, _, hstart, rfl, ?_⟩ (fun s a h hC => ?_)
    · exact .inr (fun l hl => absurd hl List.not_mem_nil)
    · exact h.next hbatch hC.1 hC.2.1 hC.2.2
  obtain ⟨_, r', hr', hcompany, hcourse⟩ := hwatched
  obtain rfl : r = r' := Option.some_inj.mp (hcurrent.symm.trans hr')
  rcases hcomplete with hbroken | ⟨hcapped, hend⟩
  · simpa only [OnCourse, hbroken] using hcourse
  · simp only [OnCourse, hcapped] at hcourse
    exact hcourse (hcompany ▸ hend)

/-- The invariant of the cap over the tenants. -/
structure RunWithinCap (maxFacts : ℕ) (s : RunState Id) : Prop where
  scanned_le : s.factsScanned ≤ maxFacts
  updated_le : s.factsUpdated ≤ s.factsScanned
  current : ∀ r, s.current = some r → r.remaining = maxFacts - s.factsScanned ∧ WithinCap r

theorem RunWithinCap.next {a : Act Id} (h : RunWithinCap maxFacts s)
    (hfits : PageFits batchSize s a) :
    RunWithinCap maxFacts (step embedMany batchSize maxFacts s a) := by
  cases a with
  | proceed =>
      rw [step]
      rcases proceed_cases embedMany batchSize maxFacts s with ⟨_, _, hproceed⟩ |
        ⟨companyId, tenants, _, _, hproceed⟩ | ⟨r, hr, _, hproceed⟩ | ⟨r, hr, hover, hproceed⟩
      · rw [hproceed]
        exact h
      · rw [hproceed]
        refine ⟨h.scanned_le, h.updated_le, fun r hr => ?_⟩
        obtain rfl := Option.some_inj.mp hr
        exact ⟨rfl, Nat.zero_le _, le_refl 0⟩
      · -- a call returns
        obtain ⟨hremaining, hwithin⟩ := h.current r hr
        have := h.scanned_le
        have := h.updated_le
        have := hwithin.scanned_le
        have := hwithin.updated_le
        rw [hproceed]
        refine ⟨?_, ?_, fun r' hr' => by cases hr'⟩
        · dsimp only
          omega
        · dsimp only
          omega
      · -- a call goes on
        obtain ⟨hremaining, hwithin⟩ := h.current r hr
        rw [hproceed]
        refine ⟨h.scanned_le, h.updated_le, fun r' hr' => ?_⟩
        obtain rfl := Option.some_inj.mp hr'
        refine ⟨?_, hwithin.next hover (hfits r hr)⟩
        rw [(TenantRun.step_keeps hover).2, hremaining]
  | insert companyId row => exact ⟨h.scanned_le, h.updated_le, h.current⟩
  | forget companyId entityId => exact ⟨h.scanned_le, h.updated_le, h.current⟩

/-- **The cap is kept**, as long as no page is longer than the rest of it. -/
theorem keepsCap (embedMany : List String → List (List ℚ)) (batchSize maxFacts : ℕ) :
    KeepsCap embedMany batchSize maxFacts
      (PageFits batchSize : RunState Id → Act Id → Prop) := by
  intro tables tenants s hreached
  have hwithin : RunWithinCap maxFacts s :=
    hreached.invariant ⟨Nat.zero_le _, le_refl 0, fun r hr => by cases hr⟩
      (fun s a h hfits => h.next hfits)
  have := hwithin.scanned_le
  have := hwithin.updated_le
  rw [processed]
  cases hcurrent : s.current with
  | none =>
      simp only [Option.map_none, Option.getD_none]
      omega
  | some r =>
      obtain ⟨hremaining, hr⟩ := hwithin.current r hcurrent
      have := hr.scanned_le
      have := hr.updated_le
      simp only [Option.map_some, Option.getD_some]
      omega

/-- **Coverage and cap of a run** whose steps all meet their condition. -/
theorem run_covers_and_caps (embedMany : List String → List (List ℚ)) (batchSize maxFacts : ℕ)
    (hbatch : 1 ≤ batchSize) :
    MissesNothing embedMany batchSize maxFacts
        (HeadUnshifted : RunState Id → Act Id → Prop) ∧
      KeepsCap embedMany batchSize maxFacts (PageFits batchSize : RunState Id → Act Id → Prop) :=
  ⟨missesNothing embedMany maxFacts hbatch, keepsCap embedMany batchSize maxFacts⟩

end Runs

/-! ## 8. Two runs -/

/-- Embeddings of no dimension. -/
def emptyEmbeddings (texts : List String) : List (List ℚ) := texts.map (fun _ => [])

/-- The theorem above for pages of one fact. -/
theorem run_covers_and_caps_single :
    MissesNothing emptyEmbeddings 1 10 (HeadUnshifted : RunState ℕ → Act ℕ → Prop) ∧
      KeepsCap emptyEmbeddings 1 10 (PageFits 1 : RunState ℕ → Act ℕ → Prop) :=
  run_covers_and_caps emptyEmbeddings 1 10 (le_refl 1)

/-- A tenant with as many facts, each about an entity of its own. -/
def numberedFacts (n : ℕ) : FactTable ℕ where
  rows := (List.range n).map (fun i =>
    { id := i, entityId := i, predicate := "likes", object := "tea", embedding := [] })
  ordered := by
    rw [List.map_map]
    exact List.pairwise_map.mpr List.pairwise_lt_range

/-- The call for a tenant with two facts has begun. -/
def twoFacts : RunState ℕ where
  tables := fun _ => numberedFacts 2
  tenants := []
  current := some { companyId := "acme", remaining := 10 }

/-- The first of two facts is forgotten after it has been read: the second one stands before the
offset, and is missed. -/
theorem forgotten_fact_shifts_page :
    ¬ MissesNothing emptyEmbeddings 1 10 (fun (_ : RunState ℕ) (_ : Act ℕ) => True) := by
  intro h
  have hreached : Reached (step emptyEmbeddings 1 10) (fun s a => Running s ∧ True ∧
      1 ∈ ((step emptyEmbeddings 1 10 s a).tables "acme").ids) twoFacts
      ([.proceed, .proceed, .proceed, .forget "acme" 0, .proceed].foldl
        (step emptyEmbeddings 1 10) twoFacts) := by
    simp only [List.foldl_cons, List.foldl_nil]
    refine .next _ (.next _ (.next _ (.next _ (.next _ .start ?_) ?_) ?_) ?_) ?_
    all_goals exact ⟨⟨_, rfl, by decide⟩, trivial, by decide⟩
  have hmem := h _ _ "acme" 10 _ 1 rfl (by decide) hreached rfl (.inl rfl)
  revert hmem
  decide

/-- Of a cap of five, the first page of three leaves two, and the second one has three again. -/
theorem page_exceeds_cap :
    ¬ KeepsCap emptyEmbeddings 3 5 (fun (_ : RunState ℕ) (_ : Act ℕ) => True) := by
  intro h
  have hcap := h (fun _ => numberedFacts 6) ["acme"] _
    (reached_foldl .start (List.replicate 10 .proceed))
  revert hcap
  decide

/-- A run that misses a fact, and one that updates more facts than its cap. -/
theorem reindex_misses_and_exceeds :
    ¬ MissesNothing emptyEmbeddings 1 10 (fun (_ : RunState ℕ) (_ : Act ℕ) => True) ∧
      ¬ KeepsCap emptyEmbeddings 3 5 (fun (_ : RunState ℕ) (_ : Act ℕ) => True) :=
  ⟨forgotten_fact_shifts_page, page_exceeds_cap⟩

end Brain.Reindex
