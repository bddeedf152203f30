/-
`src/src/procedural/procedural-memory.service.ts`: rules of behaviour, the third kind of memory.

A procedure is recorded once and never rewritten, and the one thing that can happen to it later is
that it is retired, once (`Kept`). What is matched are the best of those that are not: by the
similarity of their triggers to the query, and by their priority among equals.

What the embedder makes of a text is given with the call, since it may be another embedder each
time. The database returns rows of one priority in any order, and `match` sorts what it gets.
-/
import Brain.Db.KnowledgeFact
import Brain.Lib.Table
import Brain.Lib.TopRows
import Mathlib.Data.Prod.Lex

set_option autoImplicit false

namespace Brain.ProceduralMemory

open TopRows

/-! ## 1. The table -/

/-- A row of `procedural_memory`; `J` are objects of JSON. -/
structure Procedure (J : Type) where
  trigger : String
  triggerEmbedding : List ℚ
  action : String
  priority : ℤ
  decayHalfLifeDays : Option ℤ
  source : J
  createdAt : Time
  retiredAt : Option Time := none

abbrev Table (J : Type) := KeyedTable (Procedure J)

/-- The tails of the record ids, the default of `source`, and the square root. -/
structure Env (J : Type) where
  tail : ℕ → List Char
  tail_injective : Function.Injective tail
  operator : J
  sqrt : ℚ → ℚ

structure RecordProcedureArgs (J : Type) where
  trigger : String
  action : String
  priority : Option ℤ := none
  decayHalfLifeDays : Option ℤ := none
  source : Option J := none

structure ProcedureRecord (J : Type) where
  procedureId : List Char
  trigger : String
  action : String
  priority : ℤ
  decayHalfLifeDays : Option ℤ
  source : J
  createdAt : Time
  retiredAt : Option Time

inductive Failure where
  /-- The embedder throws, or the database turns a row down. -/
  | failed
  | notFound (message : List Char)

def tablePrefix : List Char := "procedural_memory:".toList

variable {J : Type}

section Service

variable (env : Env J)

/-- `String(row.id)`. -/
def idText (i : ℕ) : List Char := tablePrefix ++ env.tail i

def mapRow (row : ℕ × Procedure J) : ProcedureRecord J where
  procedureId := idText env row.1
  trigger := row.2.trigger
  action := row.2.action
  priority := row.2.priority
  decayHalfLifeDays := row.2.decayHalfLifeDays
  source := row.2.source
  createdAt := row.2.createdAt
  retiredAt := row.2.retiredAt

def record (t : Table J) (now : Time) (embedding : Option (List ℚ)) (args : RecordProcedureArgs J) :
    Except Failure (ProcedureRecord J) × Table J :=
  match embedding with
  | none => (.error .failed, t)
  | some triggerEmbedding =>
      -- `ASSERT $value >= 0`
      if args.priority.getD 100 < 0 then (.error .failed, t)
      else
        let row : Procedure J :=
          { trigger := args.trigger
            triggerEmbedding := triggerEmbedding
            action := args.action
            priority := args.priority.getD 100
            decayHalfLifeDays := args.decayHalfLifeDays
            source := args.source.getD env.operator
            createdAt := now }
        (.ok (mapRow env (t.next, row)), t.insert row)

/-- The tail of an id that is given with or without the name of the table. -/
def tailOf (procedureIdRaw : List Char) : List Char :=
  if tablePrefix.isPrefixOf procedureIdRaw then procedureIdRaw.drop tablePrefix.length
  else procedureIdRaw

/-- The row that `retire` is about, if it is not retired. -/
def live (t : Table J) (procedureIdRaw : List Char) : Option (ℕ × Procedure J) :=
  t.rows.find? (fun row => decide (env.tail row.1 = tailOf procedureIdRaw)
    && row.2.retiredAt.isNone)

def retire (t : Table J) (now : Time) (procedureIdRaw : List Char) :
    Except Failure (List Char × Time) × Table J :=
  match live env t procedureIdRaw with
  | none => (.error (.notFound ("Procedural memory ".toList ++ procedureIdRaw ++
      " not found (or already retired)".toList)), t)
  | some row => (.ok (idText env row.1, now),
      t.update row.1 (fun p => { p with retiredAt := some now }))

/-! ### Reads -/

def vectorNorm (v : List ℚ) : ℚ := env.sqrt (v.map (fun x => x * x)).sum

def cosineSimilarity (a b : List ℚ) (aNorm : ℚ) : ℚ :=
  if a.length ≠ b.length ∨ aNorm = 0 then 0
  else if vectorNorm env b = 0 then 0
  else (List.zipWith (fun x y => x * y) a b).sum / (aNorm * vectorNorm env b)

structure MatchedProcedure (J : Type) extends ProcedureRecord J where
  similarity : ℚ

/-- The loop of `match` over the rows of the query. -/
def scored (queryEmbedding : List ℚ) (minSim : ℚ) (procs : List (ℕ × Procedure J)) :
    List (MatchedProcedure J) :=
  procs.filterMap (fun p =>
    let sim := cosineSimilarity env queryEmbedding p.2.triggerEmbedding
      (vectorNorm env queryEmbedding)
    if sim < minSim then none else some { toProcedureRecord := mapRow env p, similarity := sim })

/-- What the matches are sorted by: their similarity, and then their priority, where 0 is urgent. -/
def rank (m : MatchedProcedure J) : ℚ ×ₗ ℤ := toLex (m.similarity, -m.priority)

/-- `match`, on the rows that the query has returned. -/
def matchProcedures (queryEmbedding : List ℚ) (limit : Option ℕ) (minSimilarity : Option ℚ)
    (procs : List (ℕ × Procedure J)) : List (MatchedProcedure J) :=
  ((scored env queryEmbedding (minSimilarity.getD (4 / 10)) procs).insertionSort
    (fun a b => rank b ≤ rank a)).take (limit.getD 5)

/-- `WHERE retiredAt IS NONE`, unless retired procedures are asked for. -/
def rowsOf (t : Table J) (includeRetired : Bool) : List (ℕ × Procedure J) :=
  t.select (fun _ p => includeRetired || p.retiredAt.isNone)

/-- What `SELECT .. WHERE retiredAt IS NONE ORDER BY priority ASC` may return. -/
def Fetched (t : Table J) (procs : List (ℕ × Procedure J)) : Prop :=
  procs.Perm (rowsOf t false) ∧ procs.Pairwise (fun p q => p.2.priority ≤ q.2.priority)

/-- The columns of `ORDER BY priority ASC, createdAt DESC`. -/
def listOrder (row : ℕ × Procedure J) : ℤ ×ₗ ℤ := toLex (-row.2.priority, row.2.createdAt)

/-- What `list` may return. -/
def Listed (t : Table J) (limit : Option ℕ) (includeRetired : Bool)
    (out : List (ProcedureRecord J)) : Prop :=
  ∃ rows, IsTop listOrder (limit.getD 50) (rowsOf t includeRetired) rows ∧
    out = rows.map (mapRow env)

end Service

/-! ## 2. Runs -/

inductive Op (J : Type) where
  | record (now : Time) (embedding : Option (List ℚ)) (args : RecordProcedureArgs J)
  | retire (now : Time) (procedureIdRaw : List Char)

def step (env : Env J) (t : Table J) : Op J → Table J
  | .record now embedding args => (record env t now embedding args).2
  | .retire now procedureIdRaw => (retire env t now procedureIdRaw).2

def run (env : Env J) (ops : List (Op J)) : Table J := ops.foldl (step env) .empty

/-- What becomes of a procedure: it is retired once, if at all, and nothing else changes. -/
structure Kept (p p' : Procedure J) : Prop where
  rule : p' = { p with retiredAt := p'.retiredAt }
  retired : p.retiredAt ≠ none → p'.retiredAt = p.retiredAt

section Runs

variable {env : Env J} {t : Table J} {p p' p'' : Procedure J} {i : ℕ} {raw : List Char}

theorem Kept.refl (p : Procedure J) : Kept p p := ⟨rfl, fun _ => rfl⟩

theorem Kept.trans (h : Kept p p') (h' : Kept p' p'') : Kept p p'' := by
  refine ⟨?_, fun hp => ?_⟩
  · have hrule := h'.rule
    rw [h.rule] at hrule
    exact hrule
  · have hp' := h.retired hp
    rw [h'.retired (hp' ▸ hp), hp']

/-- The row that `retire` finds. -/
theorem live_eq_some {row : ℕ × Procedure J} (h : live env t raw = some row) :
    t.get? row.1 = some row.2 ∧ env.tail row.1 = tailOf raw ∧ row.2.retiredAt = none := by
  have hmatch := List.find?_some h
  rw [Bool.and_eq_true, decide_eq_true_iff, Option.isNone_iff_eq_none] at hmatch
  exact ⟨KeyedTable.mem_rows_iff.mp (List.mem_of_find?_eq_some h), hmatch.1, hmatch.2⟩

/-- And where it finds none, the row of the id is retired, or there is none. -/
theorem live_eq_none_iff (hp : t.get? i = some p) (hi : env.tail i = tailOf raw) :
    live env t raw = none ↔ p.retiredAt ≠ none := by
  constructor
  · intro h hlive
    have hmiss := List.find?_eq_none.mp h (i, p) (KeyedTable.mem_rows_iff.mpr hp)
    simp [hi, hlive] at hmiss
  · intro hretired
    cases h : live env t raw with
    | none => rfl
    | some row =>
        obtain ⟨hget, htail, hnone⟩ := live_eq_some h
        obtain rfl : row.1 = i := env.tail_injective (htail.trans hi.symm)
        rw [hp] at hget
        obtain rfl := Option.some.inj hget
        exact absurd hnone hretired

theorem step_kept (op : Op J) (hp : t.get? i = some p) :
    ∃ p', (step env t op).get? i = some p' ∧ Kept p p' := by
  cases op with
  | record now embedding args =>
      refine ⟨p, ?_, .refl p⟩
      simp only [step, record]
      split
      · exact hp
      · split
        · exact hp
        · have hlt := KeyedTable.get?_lt_next hp
          rw [KeyedTable.get?_insert, if_neg (by omega)]
          exact hp
  | retire now raw =>
      simp only [step, retire]
      split
      · exact ⟨p, hp, .refl p⟩
      · next row hrow =>
          obtain ⟨hget, _, hlive⟩ := live_eq_some hrow
          rw [KeyedTable.get?_update]
          split
          · next hi =>
              subst hi
              rw [hget] at hp
              obtain rfl := Option.some.inj hp
              exact ⟨_, by rw [hget]; rfl, rfl, fun hretired => absurd hlive hretired⟩
          · exact ⟨p, hp, .refl p⟩

/-- **A procedure stays what it is.** -/
theorem foldl_kept (ops : List (Op J)) (hp : t.get? i = some p) :
    ∃ p', (ops.foldl (step env) t).get? i = some p' ∧ Kept p p' := by
  induction ops generalizing t p with
  | nil => exact ⟨p, hp, .refl p⟩
  | cons op ops ih =>
      obtain ⟨p', hp', hkept⟩ := step_kept op hp
      obtain ⟨p'', hp'', hkept'⟩ := ih hp'
      exact ⟨p'', hp'', hkept.trans hkept'⟩

end Runs

end Brain.ProceduralMemory
