/-
The life of a fact across the services: which columns a row carries in which
status, over every run of ingests, retracts and dreams runs.

No schema rule ties the bookkeeping columns (`supersededBy`, `priorValidUntil`,
`retractedAt`, `retractedBy`, `retractionReason`) to the status; that an active
row carries none of them, and that a superseded row points at a later fact of the
same key, is an invariant of the operations (`Bookkeeping`). It is what makes a
retract undo the supersede it follows (`retract_undoes_supersede`).
-/
import Brain.Ingest.IngestService
import Brain.Facts.FactsService
import Brain.Dreams.Resolver
import Brain.Lib.Runs

set_option autoImplicit false

namespace Brain

/-- An operation on the facts of a tenant. -/
inductive Op where
  | ingest (env : DbEnv) (a : ResolveArgs)
  | retract (now : Time) (factId : FactId) (dto : RetractFactDto)
      (callerScopes : Option (List BrainScope))
  | dreams (judge : Judge) (cfg : DreamsConfig) (now : Time)

/-- The store after an operation, whether it succeeds or throws. -/
def execOp (fns : SurrealFns) (s : Store) : Op → Store
  | .ingest env a => afterResolve fns env s a
  | .retract now factId dto callerScopes => afterRetract s now factId dto callerScopes
  | .dreams judge cfg now => (dreamsRun judge cfg now s).2

@[simp] theorem execOp_dreams (fns : SurrealFns) (s : Store) (judge : Judge) (cfg : DreamsConfig)
    (now : Time) : execOp fns s (.dreams judge cfg now) = s :=
  dreamsRun_store judge cfg now s

/-- The stores that operations which each meet `C` lead to from the empty one. -/
abbrev Reaches (fns : SurrealFns) (C : Store → Op → Prop) (s : Store) : Prop :=
  Runs.Reached (execOp fns) C Store.empty s

/-- A sequence of calls is a run. -/
theorem reaches_ingestAll {fns : SurrealFns} {C : Store → Op → Prop} (calls : List ResolveCall)
    (hC : ∀ s, ∀ c ∈ calls, C s (Op.ingest c.env c.args)) :
    Reaches fns C (ingestAll fns .empty calls) := by
  induction calls using List.reverseRecOn with
  | nil => exact Runs.Reached.start
  | append_singleton calls c ih =>
      rw [ingestAll_append]
      exact Runs.Reached.next (Op.ingest c.env c.args)
        (ih (fun s d hd => hC s d (List.mem_append_left _ hd))) (hC _ c (by simp))

/-! ## Which columns a row carries -/

/-- The columns of row `f` under `i` fit its status; `t` is the table it is in. -/
structure Kept (t : KeyedTable KnowledgeFact) (i : FactId) (f : KnowledgeFact) : Prop where
  underived : f.derivedFrom = []
  uncompacted : f.status ≠ .compacted
  /-- An open row carries no bookkeeping. -/
  fresh : f.status = .active ∨ f.status = .competing →
    f.retractedAt = none ∧ f.retractionReason = none ∧ f.retractedBy = none ∧
      f.supersededBy = none ∧ f.priorValidUntil = none
  /-- A superseded row points at a later fact of its key. -/
  superseded : f.status = .superseded →
    f.retractedAt = none ∧ f.retractionReason = some "superseded" ∧
      ∃ g h, f.supersededBy = some g ∧ i < g ∧ t.get? g = some h ∧ h.key = f.key
  retracted : f.status = .retracted → f.retractedAt ≠ none

/-- Every row of the table is kept. -/
def Bookkeeping (t : KeyedTable KnowledgeFact) : Prop := ∀ i f, t.get? i = some f → Kept t i f

section Invariant

variable {fns : SurrealFns} {env : DbEnv} {a : ResolveArgs} {s : Store}
  {t t' : KeyedTable KnowledgeFact} {i : FactId} {f : KnowledgeFact}

/-- A row stays kept while the facts it may point at stay where they are. -/
theorem Kept.mono (h : Kept t i f)
    (hstay : ∀ g r, t.get? g = some r → ∃ r', t'.get? g = some r' ∧ r'.key = r.key) :
    Kept t' i f := by
  refine ⟨h.underived, h.uncompacted, h.fresh, fun hst => ?_, h.retracted⟩
  obtain ⟨hat, hreason, g, r, hg, hlt, hr, hkey⟩ := h.superseded hst
  obtain ⟨r', hr', hkey'⟩ := hstay g r hr
  exact ⟨hat, hreason, g, r', hg, hlt, hr', hkey'.trans hkey⟩

/-- An active row is open. -/
theorem Kept.active_fields (h : Kept t i f) (hact : f.isActive = true) :
    f.retractedAt = none ∧ f.retractionReason = none ∧ f.retractedBy = none ∧
      f.supersededBy = none ∧ f.priorValidUntil = none :=
  h.fresh (Or.inl (KnowledgeFact.isActive_iff.mp hact).1)

/-- What a superseded row points at is there: a later fact of its key. -/
theorem Bookkeeping.get?_of_supersededBy (h : Bookkeeping t) (hf : t.get? i = some f)
    (hst : f.status = .superseded) {g : FactId} (hg : f.supersededBy = some g) :
    i < g ∧ ∃ r, t.get? g = some r ∧ r.key = f.key := by
  obtain ⟨_, _, g', r, hg', hlt, hr, hkey⟩ := (h i f hf).superseded hst
  rw [hg] at hg'
  rw [Option.some.inj hg']
  exact ⟨hlt, r, hr, hkey⟩

/-- So it does not point at a fact that is yet to come. -/
theorem Bookkeeping.supersededBy_ne_next (h : Bookkeeping t) (hf : t.get? i = some f)
    (hst : f.status = .superseded) : f.supersededBy ≠ some t.next := by
  intro hg
  obtain ⟨_, r, hr, _⟩ := h.get?_of_supersededBy hf hst hg
  rw [KeyedTable.get?_next] at hr
  cases hr

/-- An ingest keeps the books. -/
theorem Bookkeeping.ingest (h : Bookkeeping s.facts) :
    Bookkeeping (afterResolve fns env s a).facts := by
  apply afterResolve_rows
  · intro i f hf
    exact (h i f hf).mono (fun g r hr => get?_afterResolve hr)
  · intro c _
    exact ⟨⟨rfl, by simp [ResolveArgs.newRow], fun _ => ⟨rfl, rfl, rfl, rfl, rfl⟩,
        by simp [ResolveArgs.newRow], by simp [ResolveArgs.newRow]⟩,
      fun _ => ⟨rfl, by simp [competeRow], fun _ => ⟨rfl, rfl, rfl, rfl, rfl⟩,
        by simp [competeRow], by simp [competeRow]⟩⟩
  · -- a loser was active, and the fact it points at is the new one
    intro i f hmem hk
    obtain ⟨hf, hcomp⟩ := competes_of_mem_losers hmem
    obtain ⟨hkey, hact⟩ := ResolveArgs.isCandidate_iff.mp (ResolveArgs.isCandidate_of_competes hcomp)
    obtain ⟨g, hg, hgk⟩ := get?_next_afterResolve hmem
    refine ⟨hk.underived, by simp [supersedeRow], by simp [supersedeRow], fun _ => ?_,
      by simp [supersedeRow]⟩
    exact ⟨(KnowledgeFact.isActive_iff.mp hact).2, rfl, s.facts.next, g, rfl,
      KeyedTable.get?_lt_next hf, hg, hgk.trans hkey.symm⟩
  · intro i f hcomp _ hk
    obtain ⟨_, hact⟩ := ResolveArgs.isCandidate_iff.mp (ResolveArgs.isCandidate_of_competes hcomp)
    exact ⟨hk.underived, by simp [competeRow], fun _ => hk.active_fields hact,
      by simp [competeRow], by simp [competeRow]⟩

/-- A retract keeps the books. -/
theorem Bookkeeping.retract (h : Bookkeeping s.facts) (now : Time) (factId : FactId)
    (dto : RetractFactDto) (callerScopes : Option (List BrainScope)) :
    Bookkeeping (afterRetract s now factId dto callerScopes).facts := by
  apply afterRetract_rows
  · intro i f hf
    exact (h i f hf).mono (fun g r hr => get?_afterRetract hr)
  · intro f _ _ hk
    exact ⟨hk.underived, by simp [retractRow], by simp [retractRow], by simp [retractRow],
      by simp [retractRow]⟩
  · intro i f _ _ _ hk
    exact ⟨hk.underived, by simp [cascadeRow], by simp [cascadeRow], by simp [cascadeRow],
      by simp [cascadeRow]⟩
  · intro i f _ hk
    exact ⟨hk.underived, by simp [reviveRow], fun _ => ⟨rfl, rfl, rfl, rfl, rfl⟩,
      by simp [reviveRow], by simp [reviveRow]⟩

/-- Every operation keeps the books. -/
theorem Bookkeeping.execOp (h : Bookkeeping s.facts) (op : Op) :
    Bookkeeping (execOp fns s op).facts := by
  cases op with
  | ingest env a => exact h.ingest
  | retract now factId dto callerScopes => exact h.retract now factId dto callerScopes
  | dreams judge cfg now =>
      rw [execOp_dreams]
      exact h

/-- **The books are kept in every store that is reached.** -/
theorem bookkeeping_of_reaches {C : Store → Op → Prop} (h : Reaches fns C s) :
    Bookkeeping s.facts :=
  h.invariant (P := fun s => Bookkeeping s.facts) (fun i f hf => by cases hf)
    (fun s op hs _ => hs.execOp op)

end Invariant

/-! ## A retract where nothing is derived -/

section Retract

variable {s : Store} {now : Time} {root i : FactId} {dto : RetractFactDto}
  {callerScopes : Option (List BrainScope)} {f f' : KnowledgeFact}

/-- Nothing that these operations record is derived from anything, so a retract
touches its root and the facts that the root superseded. -/
theorem Bookkeeping.get?_retract (hbook : Bookkeeping s.facts)
    (hc : CarriesOut s root callerScopes) (i : FactId) :
    (afterRetract s now root dto callerScopes).facts.get? i
      = (s.facts.get? i).map (retractEffect [] now root dto i) := by
  rw [Brain.get?_retract _ _ hc, cascadeRetract_eq_nil (fun i f hf => (hbook i f hf).underived)]

/-- Where a row after a carried-out retract comes from. -/
theorem Bookkeeping.retract_row_cases (hbook : Bookkeeping s.facts)
    (hc : CarriesOut s root callerScopes)
    (hf' : (afterRetract s now root dto callerScopes).facts.get? i = some f') :
    ∃ f, s.facts.get? i = some f ∧
      ((i = root ∧ f' = retractRow now dto f.existingRow f) ∨
        (i ≠ root ∧ isRevivable root f = true ∧ f' = reviveRow f f) ∨
        (i ≠ root ∧ isRevivable root f = false ∧ f' = f)) := by
  rw [hbook.get?_retract hc, Option.map_eq_some_iff] at hf'
  obtain ⟨f, hf, rfl⟩ := hf'
  refine ⟨f, hf, ?_⟩
  unfold retractEffect
  by_cases hi : i = root
  · exact Or.inl ⟨hi, by rw [if_pos hi]⟩
  · rw [if_neg hi, if_neg List.not_mem_nil]
    by_cases hr : isRevivable root f = true
    · exact Or.inr (Or.inl ⟨hi, hr, by rw [if_pos hr]⟩)
    · exact Or.inr (Or.inr ⟨hi, by simpa using hr, by rw [if_neg hr]⟩)

end Retract

/-! ## Retract undoes supersede -/

section Undo

variable {fns : SurrealFns} {env : DbEnv} {a : ResolveArgs} {s : Store} {i : FactId}
  {f : KnowledgeFact}

/-- Reviving the row that a supersede has just written gives the row before it,
as long as that row carried no bookkeeping. -/
theorem reviveRow_supersedeRow (newId : FactId) (validFrom : Time) (hact : f.isActive = true)
    (hk : Kept s.facts i f) :
    reviveRow (supersedeRow newId validFrom f f) (supersedeRow newId validFrom f f) = f := by
  obtain ⟨hst, _⟩ := KnowledgeFact.isActive_iff.mp hact
  obtain ⟨hat, hreason, hby, hsup, hprior⟩ := hk.active_fields hact
  cases f
  simp only at hst hat hreason hby hsup hprior
  subst hst hat hreason hby hsup hprior
  rfl

/-- In a settled table, what the new fact can revive is exactly what lost to it. -/
theorem isRevivable_settled (hbook : Bookkeeping s.facts) (hf : s.facts.get? i = some f) :
    isRevivable s.facts.next (settleRow fns s.facts.next a f) = true ↔
      a.competes fns f = true := by
  unfold settleRow
  by_cases hc : a.competes fns f = true
  · simp [hc, isRevivable, supersedeRow]
  · rw [if_neg hc, isRevivable_iff]
    refine ⟨?_, fun h => absurd h hc⟩
    rintro ⟨hptr, hst, _⟩
    exact absurd hptr (hbook.supersededBy_ne_next hf hst)

/-- **Retract undoes supersede.** Right after an ingest that superseded, an
authorised retract of its fact cascades to nothing, revives exactly the facts that
the ingest superseded, and leaves every other fact as it was before the ingest. -/
theorem retract_undoes_supersede {C : Store → Op → Prop} (hs : Reaches fns C s) {s' : Store}
    {n : FactId} {supersededFactIds : List FactId} {v : Verdict}
    (hres : resolveFact fns env s a = .ok (.superseded n supersededFactIds v, s'))
    (now : Time) (dto : RetractFactDto) (callerScopes : Option (List BrainScope))
    (hauth : ∀ row, s'.facts.get? n = some row →
      retractForbidden row.existingRow callerScopes = false) :
    ∃ res s'', retract s' now n dto callerScopes = .ok (res, s'') ∧
      res.revivedFactIds = supersededFactIds ∧ res.cascadedFactIds = [] ∧
      ∀ i, i ≠ n → s''.facts.get? i = s.facts.get? i := by
  have hbook := bookkeeping_of_reaches hs
  have hafter : afterResolve fns env s a = s' := by rw [afterResolve, hres]
  have hbook' : Bookkeeping s'.facts := hafter ▸ hbook.ingest
  rcases resolveFact_cases hres with ⟨_, hr, _⟩ | ⟨c, _, _, hs', hr⟩ | ⟨_, _, _, _, _, _, _, _, _, hr⟩
  · cases hr
  · obtain ⟨_, hr⟩ | ⟨q, l, hql, _, hr⟩ := hr
    · cases hr
    · cases hr
      have hfacts : s'.facts = settledFacts fns env a c s.facts := by rw [hs']
      have hnew : s'.facts.get? s.facts.next = some (a.newRow env c) := by
        rw [hfacts, get?_settledFacts, if_pos rfl]
      have hold : ∀ i, i ≠ s.facts.next →
          s'.facts.get? i = (s.facts.get? i).map (settleRow fns s.facts.next a) := by
        intro i hi
        rw [hfacts, get?_settledFacts, if_neg hi]
      -- the root of the retract is the new fact, which is there and not retracted yet
      have hcarry : CarriesOut s' s.facts.next callerScopes :=
        ⟨_, hnew, hauth _ hnew, rfl⟩
      -- nothing derives from it, since these operations record no derivations
      have hcas : (cascadeRetract s'.facts s.facts.next now dto.reason).2 = [] :=
        cascadeRetract_eq_nil (fun i f hf => (hbook' i f hf).underived) _ _ _
      obtain ⟨row, hrow, hret⟩ := retract_eq_ok hcarry now dto
      refine ⟨_, _, hret, ?_, hcas, ?_⟩
      · -- the revived ids are the ids of what lost
        show ((_ : KeyedTable KnowledgeFact).select _).map Prod.fst = _
        rw [← hql, resolveCompeting_eq]
        apply KeyedTable.keys_select_congr
        intro i
        rw [KeyedTable.get?_update, cascadeRetract, KeyedTable.get?_sweep
          (fun c f => derivesFrom_cascadeRow c now dto.reason f), ← cascadeRetract, hcas]
        by_cases hi : i = s.facts.next
        · rw [if_pos hi, hi, hnew, KeyedTable.get?_next]
          simp [isRevivable, retractRow]
        · rw [if_neg hi, hold i hi]
          cases hf : s.facts.get? i with
          | none => simp
          | some f => simpa using isRevivable_settled hbook hf
      · -- every other row: what lost is revived as it was, the rest is untouched
        intro i hi
        rw [get?_retract _ _ hcarry, hcas, hold i hi, Option.map_map]
        cases hf : s.facts.get? i with
        | none => rfl
        | some f =>
            have hrev : isRevivable s.facts.next (settleRow fns s.facts.next a f) = true ↔
                a.competes fns f = true := isRevivable_settled hbook hf
            simp only [Option.map_some, Function.comp_apply, retractEffect, if_neg hi,
              List.not_mem_nil, if_false]
            by_cases hc : a.competes fns f = true
            · have hact := (ResolveArgs.isCandidate_iff.mp
                (ResolveArgs.isCandidate_of_competes hc)).2
              rw [if_pos (hrev.mpr hc), settleRow, if_pos hc,
                reviveRow_supersedeRow _ _ hact (hbook i f hf)]
            · rw [if_neg (fun h => hc (hrev.mp h)), settleRow, if_neg hc]
  · cases hr

/-- An address replaced by mistake and taken back. -/
theorem retract_undoes_supersede_address :
    ∃ res s'', retract (ingestAll .atRecording .empty [addressFrom 0, addressFrom 10]) 20 1
        { reason := "typo", retractedBy := .human } (some [.write]) = .ok (res, s'') ∧
      res.revivedFactIds = [0] ∧ res.cascadedFactIds = [] ∧
      ∀ i, i ≠ 1 → s''.facts.get? i
        = (ingestAll .atRecording .empty [addressFrom 0]).facts.get? i := by
  have hs : Reaches .atRecording (fun _ _ => True)
      (ingestAll .atRecording .empty [addressFrom 0]) :=
    reaches_ingestAll [addressFrom 0] (fun _ _ _ => trivial)
  have hres : resolveFact .atRecording (addressFrom 10).env
      (ingestAll .atRecording .empty [addressFrom 0]) (addressFrom 10).args
      = .ok (.superseded 1 [0] _, ingestAll .atRecording .empty [addressFrom 0, addressFrom 10]) :=
    rfl
  exact retract_undoes_supersede hs hres 20 { reason := "typo", retractedBy := .human }
    (some [.write]) (by decide +kernel)

end Undo

end Brain
