/-
`fn::resolve_fact` as of `src/src/db/migrations/0034_supersede_no_retracted_at_fix.surql`,
with the functions it calls: `fn::intervals_overlap` (0009), `fn::source_key_of`
(0022) and `fn::source_trust_for` (0017).

A call runs in one transaction, so it is a function from a store to a result and
a store, or an error that leaves the store alone. It is cut where the source
reads and where it writes: `resolveCompeting` is `$competing`, `resolveWrite` is
everything from the CREATE on. `resolveFrom` reads one store and writes another,
which is what a transaction that commits later than its snapshot does;
`resolveFact` is the case where the two are the same.

What a call does to the table is said once, by `resolveFact_cases`: the rows that
compete are rewritten in place and the new row is appended. Every invariant of
the later modules is derived from that.
-/
import Brain.Ingest.ConflictResolver

set_option autoImplicit false

namespace Brain

/-- The database's own functions and operators, as far as the resolver calls them. -/
structure SurrealFns where
  pow : ℚ → ℚ → ℚ
  e : ℚ
  /-- `/` between two integers. -/
  div : ℤ → ℤ → ℚ
  cosine : List ℚ → List ℚ → ℚ
  castString : ℚ → String

/-- The functions at the points where the examples below use them: on facts that
are resolved at the instant they were recorded, and on embeddings that are either
equal or have nothing in common. -/
def SurrealFns.atRecording : SurrealFns where
  pow _ y := if y = 0 then 1 else 0
  e := 2718281828 / 1000000000
  div a b := ((a / b : ℤ) : ℚ)
  cosine u v := if u = v then 1 else 0
  castString q := toString q

/-- What a call reads besides its arguments and the facts. -/
structure DbEnv where
  now : Time
  sourceTrust : List SourceTrustRow

namespace Fn

/-- `fn::intervals_overlap`. -/
def intervalsOverlap (aFrom : Time) (aUntil : Option Time) (bFrom : Time) (bUntil : Option Time) :
    Bool :=
  Span.overlaps ⟨aFrom, aUntil⟩ ⟨bFrom, bUntil⟩

/-- `fn::source_key_of`. -/
def sourceKeyOf (source : FactSource) : String :=
  match source.vertical with
  | none => "system_seed"
  | some v => v ++ ":" ++ source.recorder.getD "_"

/-- `fn::source_trust_for`: the learned rate, once it rests on 8 samples. -/
def sourceTrustFor (env : DbEnv) (sourceKey : String) : ℚ :=
  match env.sourceTrust.find? (fun row => row.sourceKey == sourceKey) with
  | none => 5 / 10
  | some row => if row.sampleCount < 8 then 5 / 10 else row.agreementRate

/-- `math::max` of the list `x :: xs`. -/
def mathMax (x : ℚ) (xs : List ℚ) : ℚ := xs.foldl max x

end Fn

/-- The parameters of `fn::resolve_fact`, in its order. -/
structure ResolveArgs where
  entityId : EntityId
  predicate : String
  object : String
  objectMeta : Option String := none
  embedding : List ℚ := []
  confidence : ℚ
  validFrom : Time
  validUntil : Option Time := none
  source : FactSource := {}
  sourceTrust : ℚ
  semantics : Semantics
  similarityThreshold : ℚ
  wConfidence : ℚ
  wSourceTrust : ℚ
  wRecency : ℚ
  wAuthority : ℚ
  rejectThreshold : ℚ
  marginForSupersede : ℚ
deriving DecidableEq

namespace ResolveArgs

def key (a : ResolveArgs) : FactKey := (a.entityId, a.predicate)

def span (a : ResolveArgs) : Span Time := ⟨a.validFrom, a.validUntil⟩

/-- `$new_score`. -/
def newScore (a : ResolveArgs) : ℚ :=
  a.wConfidence * a.confidence + a.wSourceTrust * a.sourceTrust + a.wRecency * 1 + a.wAuthority * 0

/-- The reject gate; only bitemporal predicates have one. -/
def rejects (a : ResolveArgs) : Bool :=
  a.semantics == .bitemporal && decide (a.newScore < a.rejectThreshold)

/-- The `WHERE` of `$candidates`. -/
def isCandidate (a : ResolveArgs) (f : KnowledgeFact) : Bool :=
  decide (f.key = a.key) && f.isActive

/-- Whether a candidate is kept in `$competing`. -/
def contests (fns : SurrealFns) (a : ResolveArgs) (f : KnowledgeFact) : Bool :=
  match a.semantics with
  | .append_only => false
  | .single_active => true
  | .bitemporal =>
      (match f.embedding with
        | none => false
        | some e => decide (a.similarityThreshold ≤ fns.cosine e a.embedding))
      && Fn.intervalsOverlap f.validFrom f.validUntil a.validFrom a.validUntil

/-- The rows of `$competing`. -/
def competes (fns : SurrealFns) (a : ResolveArgs) (f : KnowledgeFact) : Bool :=
  a.isCandidate f && a.contests fns f

/-- The row that the CREATE writes, once the ASSERT on `confidence` holds. -/
def newRow (env : DbEnv) (a : ResolveArgs) (confidence : Confidence) : KnowledgeFact where
  entityId := a.entityId
  predicate := a.predicate
  object := a.object
  objectMeta := a.objectMeta
  confidence := confidence
  validFrom := a.validFrom
  validUntil := a.validUntil
  recordedAt := env.now
  source := a.source
  embedding := some a.embedding
  status := .active

end ResolveArgs

/-! ## The verdict between the new fact and its strongest opponent -/

/-- The four weighted components and their total. -/
structure ScoreComponents where
  total : ℚ
  confidence : ℚ
  sourceTrust : ℚ
  recency : ℚ
  authority : ℚ
deriving DecidableEq, Repr

/-- `$score_breakdown`. -/
structure ScoreBreakdown where
  winner : ScoreComponents
  loser : ScoreComponents
  margin : ℚ
deriving DecidableEq, Repr

/-- `$dominant_dim`. -/
inductive Dimension where
  | confidence | source_trust | recency | authority
deriving DecidableEq, Repr

/-- `$slot_delta`. -/
structure SlotDelta where
  predicate : Bool
  object : Bool
  validFrom : Bool
  source : Bool
deriving DecidableEq, Repr

/-- What a SUPERSEDED and a COMPETING result say about the decision. -/
structure Verdict where
  scoreBreakdown : ScoreBreakdown
  dominantDimension : Dimension
  slotDelta : SlotDelta
  bestOpponentId : FactId
deriving DecidableEq, Repr

/-- `IngestOutcome`. -/
inductive IngestOutcome where
  | INSERTED | SUPERSEDED | COMPETING | REJECTED
deriving DecidableEq, Repr

/-- What `fn::resolve_fact` returns. -/
inductive ResolveResult where
  | rejected (reason : String)
  | inserted (factId : FactId)
  | superseded (factId : FactId) (supersededFactIds : List FactId) (verdict : Verdict)
  | competing (factId : FactId) (competingFactIds : List FactId) (verdict : Verdict)
deriving DecidableEq, Repr

def ResolveResult.outcome : ResolveResult → IngestOutcome
  | .rejected _ => .REJECTED
  | .inserted _ => .INSERTED
  | .superseded _ _ _ => .SUPERSEDED
  | .competing _ _ _ => .COMPETING

namespace ResolveArgs

/-- A row of `$scored`: the components of a prior fact. Its recency decays with
the whole seconds since it was recorded. -/
def scoreRow (fns : SurrealFns) (env : DbEnv) (a : ResolveArgs) (f : KnowledgeFact) :
    ScoreComponents :=
  let scConfidence := a.wConfidence * f.confidence.1
  let scSourceTrust := a.wSourceTrust * Fn.sourceTrustFor env (Fn.sourceKeyOf f.source)
  let scRecency := a.wRecency *
    fns.pow fns.e (fns.div (-((env.now - f.recordedAt) / 1000)) 31536000)
  let scAuthority := a.wAuthority * 0
  { total := scConfidence + scSourceTrust + scRecency + scAuthority
    confidence := scConfidence
    sourceTrust := scSourceTrust
    recency := scRecency
    authority := scAuthority }

/-- The `score` column of `$scored`. -/
def score (fns : SurrealFns) (env : DbEnv) (a : ResolveArgs) (f : KnowledgeFact) : ℚ :=
  (a.scoreRow fns env f).total

/-- `$best_opp_score` of the competing rows `q :: l`. -/
def bestOppScore (fns : SurrealFns) (env : DbEnv) (a : ResolveArgs) (q : FactId × KnowledgeFact)
    (l : List (FactId × KnowledgeFact)) : ℚ :=
  Fn.mathMax (a.score fns env q.2) (l.map (fun p => a.score fns env p.2))

/-- `$best_opp`: the first competing row with that score. -/
def bestOpp (fns : SurrealFns) (env : DbEnv) (a : ResolveArgs) (q : FactId × KnowledgeFact)
    (l : List (FactId × KnowledgeFact)) : FactId × KnowledgeFact :=
  ((q :: l).find? (fun p => a.score fns env p.2 == a.bestOppScore fns env q l)).getD q

/-- `$winner_components`, with `$new_score` as the total. -/
def winnerComponents (a : ResolveArgs) : ScoreComponents where
  total := a.newScore
  confidence := a.wConfidence * a.confidence
  sourceTrust := a.wSourceTrust * a.sourceTrust
  recency := a.wRecency * 1
  authority := a.wAuthority * 0

/-- `$dominant_dim`: the component in which the two differ most. -/
def dominantDimension (w l : ScoreComponents) : Dimension :=
  let absConf := |w.confidence - l.confidence|
  let absSt := |w.sourceTrust - l.sourceTrust|
  let absRec := |w.recency - l.recency|
  let absAuth := |w.authority - l.authority|
  let maxAbs := Fn.mathMax absConf [absSt, absRec, absAuth]
  if maxAbs = absConf then .confidence
  else if maxAbs = absSt then .source_trust
  else if maxAbs = absRec then .recency
  else .authority

/-- Everything the result says about the strongest opponent. -/
def verdict (fns : SurrealFns) (env : DbEnv) (a : ResolveArgs) (q : FactId × KnowledgeFact)
    (l : List (FactId × KnowledgeFact)) : Verdict :=
  let best := a.bestOpp fns env q l
  let loser := { a.scoreRow fns env best.2 with total := a.bestOppScore fns env q l }
  { scoreBreakdown :=
      { winner := a.winnerComponents
        loser := loser
        margin := a.newScore - a.bestOppScore fns env q l }
    dominantDimension := dominantDimension a.winnerComponents loser
    slotDelta :=
      { predicate := best.2.predicate != a.predicate
        object := best.2.object != a.object
        validFrom := best.2.validFrom != a.validFrom
        source := best.2.source != a.source }
    bestOpponentId := best.1 }

/-- `$supersede`. -/
def supersedes (fns : SurrealFns) (env : DbEnv) (a : ResolveArgs) (q : FactId × KnowledgeFact)
    (l : List (FactId × KnowledgeFact)) : Bool :=
  a.semantics == .single_active ||
    decide (a.bestOppScore fns env q l + a.marginForSupersede ≤ a.newScore)

end ResolveArgs

/-! ## The call -/

/-- The SET of the supersede loop. `loser` is the row as `$competing` holds it,
`row` the row that is updated. -/
def supersedeRow (newId : FactId) (validFrom : Time) (loser row : KnowledgeFact) : KnowledgeFact :=
  { row with
    status := .superseded
    retractionReason := some "superseded"
    retractedBy := some .system
    supersededBy := some newId
    priorValidUntil := loser.validUntil
    validUntil := some validFrom }

/-- `SET status = 'competing'`. -/
def competeRow (row : KnowledgeFact) : KnowledgeFact := { row with status := .competing }

/-- `$competing`, read from the facts `t`. -/
def resolveCompeting (fns : SurrealFns) (a : ResolveArgs) (t : KeyedTable KnowledgeFact) :
    List (FactId × KnowledgeFact) :=
  (t.select (fun _ f => a.isCandidate f)).filter (fun q => a.contests fns q.2)

/-- The call from the CREATE on, with `$competing` given. -/
def resolveWrite (fns : SurrealFns) (env : DbEnv) (a : ResolveArgs)
    (competing : List (FactId × KnowledgeFact)) (s : Store) :
    Except DbError (ResolveResult × Store) :=
  match assertConfidence a.confidence with
  -- the CREATE fails, and with it the transaction
  | none => .error (.assertFailed "confidence")
  | some c =>
      let newId := s.facts.next
      let created := s.facts.insert (a.newRow env c)
      match competing with
      | [] => .ok (.inserted newId, { s with facts := created })
      | q :: l =>
          let loserIds := (q :: l).map Prod.fst
          if a.supersedes fns env q l then
            -- `FOR $loser IN $competing`
            .ok (.superseded newId loserIds (a.verdict fns env q l),
              { s with facts := created.forEach (q :: l) (supersedeRow newId a.validFrom) })
          else
            -- one UPDATE of `$new.id`, one `WHERE id IN $loser_ids`
            .ok (.competing newId loserIds (a.verdict fns env q l),
              { s with facts := (created.update newId competeRow).modify
                        (fun i _ => loserIds.contains i) competeRow })

/-- `fn::resolve_fact` reading the facts `snap` and writing to the store `s`. -/
def resolveFrom (fns : SurrealFns) (env : DbEnv) (snap : KeyedTable KnowledgeFact) (s : Store)
    (a : ResolveArgs) : Except DbError (ResolveResult × Store) :=
  if a.rejects then
    -- nothing is created but a row of `ingest_dead_letter`
    .ok (.rejected "low_score",
      { s with deadLetters := s.deadLetters ++
          [{ entityId := a.entityId, predicate := a.predicate, object := a.object,
             source := a.source, reason := "low_score: " ++ fns.castString a.newScore }] })
  else
    resolveWrite fns env a (resolveCompeting fns a snap) s

/-- `fn::resolve_fact`. -/
def resolveFact (fns : SurrealFns) (env : DbEnv) (s : Store) (a : ResolveArgs) :
    Except DbError (ResolveResult × Store) :=
  resolveFrom fns env s.facts s a

/-- The store after a call: a call that throws is rolled back. -/
def afterResolve (fns : SurrealFns) (env : DbEnv) (s : Store) (a : ResolveArgs) : Store :=
  match resolveFact fns env s a with
  | .ok (_, s') => s'
  | .error _ => s

/-! ## What a call does -/

section Spec

variable {fns : SurrealFns} {env : DbEnv} {s s' : Store} {a : ResolveArgs} {r : ResolveResult}

theorem ResolveArgs.isCandidate_iff {f : KnowledgeFact} :
    a.isCandidate f = true ↔ f.key = a.key ∧ f.isActive = true := by
  simp [isCandidate]

theorem ResolveArgs.isCandidate_of_competes {f : KnowledgeFact} (h : a.competes fns f = true) :
    a.isCandidate f = true := (Bool.and_eq_true_iff.mp h).1

/-- Under `single_active` every candidate competes. -/
theorem ResolveArgs.competes_single (h : a.semantics = .single_active) (f : KnowledgeFact) :
    a.competes fns f = a.isCandidate f := by
  simp [competes, contests, h]

/-- `$competing` in one selection. -/
theorem resolveCompeting_eq (t : KeyedTable KnowledgeFact) :
    resolveCompeting fns a t = t.select (fun _ f => a.competes fns f) :=
  KeyedTable.filter_select t (fun _ f => a.isCandidate f) (fun _ f => a.contests fns f)

/-- A `single_active` call competes with the active facts on its key. -/
theorem resolveCompeting_single (hsem : a.semantics = .single_active) (s : Store) :
    resolveCompeting fns a s.facts = s.activeOn a.key := by
  rw [resolveCompeting_eq]
  unfold Store.activeOn
  congr 1
  funext _ f
  rw [ResolveArgs.competes_single hsem]
  rfl

/-- An `append_only` call competes with nothing. -/
theorem resolveCompeting_append (hsem : a.semantics = .append_only)
    (t : KeyedTable KnowledgeFact) : resolveCompeting fns a t = [] := by
  rw [resolveCompeting, List.filter_eq_nil_iff]
  intro q _
  simp [ResolveArgs.contests, hsem]

/-- The table after a call that leaves the new row active: what competed is
superseded, and the new row is appended. -/
def settledFacts (fns : SurrealFns) (env : DbEnv) (a : ResolveArgs) (c : Confidence)
    (t : KeyedTable KnowledgeFact) : KeyedTable KnowledgeFact :=
  (t.modify (fun _ f => a.competes fns f) (fun f => supersedeRow t.next a.validFrom f f)).insert
    (a.newRow env c)

/-- What a settling call makes of a row that was there. -/
def settleRow (fns : SurrealFns) (newId : FactId) (a : ResolveArgs) (f : KnowledgeFact) :
    KnowledgeFact :=
  if a.competes fns f then supersedeRow newId a.validFrom f f else f

theorem get?_settledFacts (c : Confidence) (t : KeyedTable KnowledgeFact) (i : FactId) :
    (settledFacts fns env a c t).get? i
      = if i = t.next then some (a.newRow env c)
        else (t.get? i).map (settleRow fns t.next a) := by
  rw [settledFacts, KeyedTable.get?_insert, KeyedTable.next_modify, KeyedTable.get?_modify]
  rfl

theorem key_settleRow (newId : FactId) (f : KnowledgeFact) :
    (settleRow fns newId a f).key = f.key := by
  unfold settleRow
  split <;> rfl

/-- What has become of a row that was there before. -/
theorem get?_settledFacts_of_get? {c : Confidence} {t : KeyedTable KnowledgeFact} {i : FactId}
    {f : KnowledgeFact} (hf : t.get? i = some f) :
    (settledFacts fns env a c t).get? i = some (settleRow fns t.next a f) := by
  have hne : i ≠ t.next := Nat.ne_of_lt (KeyedTable.get?_lt_next hf)
  rw [get?_settledFacts, if_neg hne, hf, Option.map_some]

/-- Where a row of a settled table comes from: it is the new one, or it competed and
is superseded, or it is as it was. -/
theorem settledFacts_cases {c : Confidence} {t : KeyedTable KnowledgeFact} {i : FactId}
    {f' : KnowledgeFact} (hf' : (settledFacts fns env a c t).get? i = some f') :
    (i = t.next ∧ f' = a.newRow env c) ∨
    (∃ f, t.get? i = some f ∧ a.competes fns f = true ∧
      f' = supersedeRow t.next a.validFrom f f) ∨
    (t.get? i = some f' ∧ a.competes fns f' = false) :=
  KeyedTable.get?_insert_modify_cases hf'

/-- The table after a call that ends in a contest: what competed and the new row
are all competing. -/
def contestedFacts (fns : SurrealFns) (env : DbEnv) (a : ResolveArgs) (c : Confidence)
    (t : KeyedTable KnowledgeFact) : KeyedTable KnowledgeFact :=
  (t.modify (fun _ f => a.competes fns f) competeRow).insert (competeRow (a.newRow env c))

/-- What a call that ends in a contest makes of a row that was there. -/
def contestRow (fns : SurrealFns) (a : ResolveArgs) (f : KnowledgeFact) : KnowledgeFact :=
  if a.competes fns f then competeRow f else f

theorem get?_contestedFacts (c : Confidence) (t : KeyedTable KnowledgeFact) (i : FactId) :
    (contestedFacts fns env a c t).get? i
      = if i = t.next then some (competeRow (a.newRow env c))
        else (t.get? i).map (contestRow fns a) := by
  rw [contestedFacts, KeyedTable.get?_insert, KeyedTable.next_modify, KeyedTable.get?_modify]
  rfl

theorem key_contestRow (f : KnowledgeFact) : (contestRow fns a f).key = f.key := by
  unfold contestRow
  split <;> rfl

theorem get?_contestedFacts_of_get? {c : Confidence} {t : KeyedTable KnowledgeFact} {i : FactId}
    {f : KnowledgeFact} (hf : t.get? i = some f) :
    (contestedFacts fns env a c t).get? i = some (contestRow fns a f) := by
  have hne : i ≠ t.next := Nat.ne_of_lt (KeyedTable.get?_lt_next hf)
  rw [get?_contestedFacts, if_neg hne, hf, Option.map_some]

/-- Where a row of a contested table comes from: it is the new one, or it competed
and still does, or it is as it was. -/
theorem contestedFacts_cases {c : Confidence} {t : KeyedTable KnowledgeFact} {i : FactId}
    {f' : KnowledgeFact} (hf' : (contestedFacts fns env a c t).get? i = some f') :
    (i = t.next ∧ f' = competeRow (a.newRow env c)) ∨
    (∃ f, t.get? i = some f ∧ a.competes fns f = true ∧ f' = competeRow f) ∨
    (t.get? i = some f' ∧ a.competes fns f' = false) :=
  KeyedTable.get?_insert_modify_cases hf'

/-- Without competitors the new row is all that is written. -/
theorem settledFacts_of_no_competing {c : Confidence} {t : KeyedTable KnowledgeFact}
    (h : resolveCompeting fns a t = []) :
    settledFacts fns env a c t = t.insert (a.newRow env c) := by
  rw [resolveCompeting_eq, KeyedTable.select_eq_nil_iff] at h
  rw [settledFacts]
  congr 1
  refine KeyedTable.ext_get? (fun i => ?_) rfl
  rw [KeyedTable.get?_modify]
  cases hf : t.get? i with
  | none => rfl
  | some f => simp [h i f hf]

/-- The supersede branch as the source writes it: create, then loop over the losers. -/
theorem forEach_supersedeRow (c : Confidence) (t : KeyedTable KnowledgeFact) :
    (t.insert (a.newRow env c)).forEach (resolveCompeting fns a t)
        (supersedeRow t.next a.validFrom)
      = settledFacts fns env a c t := by
  have hlt : ∀ q ∈ resolveCompeting fns a t, q.1 < t.next := by
    intro q hq
    rw [resolveCompeting_eq, KeyedTable.mem_select] at hq
    exact KeyedTable.get?_lt_next hq.1
  rw [KeyedTable.forEach_insert _ _ _ _ hlt, resolveCompeting_eq, KeyedTable.forEach_select]
  rfl

/-- The competing branch as the source writes it: create, then one UPDATE of the
new row and one of the losers by their ids. -/
theorem modify_competeRow (c : Confidence) (t : KeyedTable KnowledgeFact) :
    ((t.insert (a.newRow env c)).update t.next competeRow).modify
        (fun i _ => ((resolveCompeting fns a t).map Prod.fst).contains i) competeRow
      = contestedFacts fns env a c t := by
  rw [KeyedTable.update_insert_next, KeyedTable.modify_insert, contestedFacts]
  have hids : ∀ i, ((resolveCompeting fns a t).map Prod.fst).contains i = true ↔
      ∃ f, t.get? i = some f ∧ a.competes fns f = true := by
    intro i
    rw [List.contains_iff_mem, resolveCompeting_eq, KeyedTable.mem_keys_select]
  have hnew : ¬ ((resolveCompeting fns a t).map Prod.fst).contains t.next = true := by
    rw [hids]
    rintro ⟨f, hf, _⟩
    rw [KeyedTable.get?_next] at hf
    cases hf
  rw [if_neg hnew]
  congr 1
  apply KeyedTable.modify_congr
  intro i f hf
  have hiff : ((resolveCompeting fns a t).map Prod.fst).contains i = true ↔
      a.competes fns f = true := by
    rw [hids, hf]
    simp
  by_cases hc : a.competes fns f = true
  · rw [if_pos (hiff.mpr hc), if_pos hc]
  · rw [if_neg (fun h => hc (hiff.mp h)), if_neg hc]

/-- **Everything a successful call can do.** It is rejected and no fact changes;
or it settles, with or without competitors; or it ends in a contest, which only
`bitemporal` predicates have. -/
theorem resolveFact_cases (h : resolveFact fns env s a = .ok (r, s')) :
    (a.rejects = true ∧ r = .rejected "low_score" ∧ s'.facts = s.facts) ∨
    (∃ c, a.rejects = false ∧ assertConfidence a.confidence = some c ∧
      s' = { s with facts := settledFacts fns env a c s.facts } ∧
      (resolveCompeting fns a s.facts = [] ∧ r = .inserted s.facts.next ∨
        ∃ q l, resolveCompeting fns a s.facts = q :: l ∧ a.supersedes fns env q l = true ∧
          r = .superseded s.facts.next ((q :: l).map Prod.fst) (a.verdict fns env q l))) ∨
    (∃ c q l, a.semantics = .bitemporal ∧ a.rejects = false ∧
      assertConfidence a.confidence = some c ∧
      s' = { s with facts := contestedFacts fns env a c s.facts } ∧
      resolveCompeting fns a s.facts = q :: l ∧ a.supersedes fns env q l = false ∧
      r = .competing s.facts.next ((q :: l).map Prod.fst) (a.verdict fns env q l)) := by
  unfold resolveFact resolveFrom resolveWrite at h
  by_cases hrej : a.rejects = true
  · -- the reject gate
    rw [if_pos hrej] at h
    cases h
    exact Or.inl ⟨hrej, rfl, rfl⟩
  · rw [if_neg hrej] at h
    have hrej' : a.rejects = false := by simpa using hrej
    cases hc : assertConfidence a.confidence with
    | none => rw [hc] at h; cases h
    | some c =>
        rw [hc] at h
        cases hcomp : resolveCompeting fns a s.facts with
        | nil =>
            -- inserted, which is settling with nothing to close
            rw [hcomp] at h
            cases h
            refine Or.inr (Or.inl ⟨c, hrej', rfl, ?_, Or.inl ⟨rfl, rfl⟩⟩)
            rw [settledFacts_of_no_competing hcomp]
        | cons q l =>
            simp only [hcomp] at h
            by_cases hsup : a.supersedes fns env q l = true
            · rw [if_pos hsup, ← hcomp, forEach_supersedeRow] at h
              cases h
              exact Or.inr (Or.inl ⟨c, hrej', rfl, rfl, Or.inr ⟨q, l, rfl, hsup, by rw [hcomp]⟩⟩)
            · rw [if_neg hsup, ← hcomp, modify_competeRow] at h
              cases h
              refine Or.inr (Or.inr ⟨c, q, l, ?_, hrej', rfl, rfl, rfl, by simpa using hsup,
                by rw [hcomp]⟩)
              -- the other two semantics never get here: one has no competitors,
              -- the other supersedes whatever there is
              cases hsem : a.semantics with
              | append_only =>
                  rw [resolveCompeting_append hsem] at hcomp
                  cases hcomp
              | single_active => simp [ResolveArgs.supersedes, hsem] at hsup
              | bitemporal => rfl

/-- A call throws exactly when it gets to the CREATE with a confidence that the
ASSERT refuses. -/
theorem resolveFact_error_iff {e : DbError} :
    resolveFact fns env s a = .error e ↔
      a.rejects = false ∧ assertConfidence a.confidence = none ∧ e = .assertFailed "confidence" := by
  unfold resolveFact resolveFrom resolveWrite
  by_cases hrej : a.rejects = true
  · simp [hrej]
  · rw [if_neg hrej]
    cases hc : assertConfidence a.confidence with
    | none => simp [hrej, eq_comm]
    | some c =>
        cases resolveCompeting fns a s.facts with
        | nil => simp
        | cons q l => by_cases hsup : a.supersedes fns env q l = true <;> simp [hsup]

/-- The facts after a `single_active` call: it settles whenever the ASSERT lets
its confidence through. -/
theorem facts_afterResolve_single (hsem : a.semantics = .single_active) :
    (afterResolve fns env s a).facts = match assertConfidence a.confidence with
      | none => s.facts
      | some c => settledFacts fns env a c s.facts := by
  have hrej : a.rejects = false := by simp [ResolveArgs.rejects, hsem]
  unfold afterResolve
  cases h : resolveFact fns env s a with
  | error e => rw [(resolveFact_error_iff.mp h).2.1]
  | ok p =>
      obtain ⟨r, s'⟩ := p
      rcases resolveFact_cases h with ⟨hr, _⟩ | ⟨c, _, hc, hs', _⟩ | ⟨_, _, _, hb, _⟩
      · rw [hrej] at hr
        cases hr
      · rw [hc, hs']
      · rw [hsem] at hb
        cases hb

/-- What a row on the call's own key was before a settling `single_active` call: it
is the new one, it was the active one and is superseded now, or it was closed
before. -/
theorem settled_row_cases (hsem : a.semantics = .single_active) {c : Confidence} {i : FactId}
    {f' : KnowledgeFact} (hf' : (settledFacts fns env a c s.facts).get? i = some f')
    (hk : f'.key = a.key) :
    (i = s.facts.next ∧ f' = a.newRow env c) ∨
    (∃ f, s.facts.get? i = some f ∧ f.key = a.key ∧ f.isActive = true ∧
      f' = supersedeRow s.facts.next a.validFrom f f) ∨
    (s.facts.get? i = some f' ∧ f'.isActive = false) := by
  rcases settledFacts_cases hf' with hnew | ⟨f, hf, hc, rfl⟩ | ⟨hf, hc⟩
  · exact Or.inl hnew
  · obtain ⟨hfk, hact⟩ := ResolveArgs.isCandidate_iff.mp (ResolveArgs.isCandidate_of_competes hc)
    exact Or.inr (Or.inl ⟨f, hf, hfk, hact, rfl⟩)
  · rw [ResolveArgs.competes_single hsem] at hc
    exact Or.inr (Or.inr ⟨hf, by simpa [ResolveArgs.isCandidate, hk] using hc⟩)

/-- After a settling `single_active` call only the new row is active. -/
theorem eq_next_of_settled_active (hsem : a.semantics = .single_active) {c : Confidence}
    {i : FactId} {f' : KnowledgeFact}
    (hf' : (settledFacts fns env a c s.facts).get? i = some f') (hk : f'.key = a.key)
    (hact : f'.isActive = true) : i = s.facts.next := by
  rcases settled_row_cases hsem hf' hk with ⟨hi, _⟩ | ⟨f, _, _, _, rfl⟩ | ⟨_, hna⟩
  · exact hi
  · simp [KnowledgeFact.isActive, supersedeRow] at hact
  · rw [hna] at hact
    cases hact

/-- The facts that a call supersedes, as the state before the call decides. -/
def losers (fns : SurrealFns) (env : DbEnv) (s : Store) (a : ResolveArgs) :
    List (FactId × KnowledgeFact) :=
  if a.rejects || (assertConfidence a.confidence).isNone then []
  else match resolveCompeting fns a s.facts with
    | [] => []
    | q :: l => if a.supersedes fns env q l then q :: l else []

/-- Losers are facts that compete. -/
theorem competes_of_mem_losers {p : FactId × KnowledgeFact} (hp : p ∈ losers fns env s a) :
    s.facts.get? p.1 = some p.2 ∧ a.competes fns p.2 = true := by
  have hmem : p ∈ resolveCompeting fns a s.facts := by
    unfold losers at hp
    split at hp
    · cases hp
    · split at hp
      · cases hp
      · next q l hql =>
          split at hp
          · rw [hql]
            exact hp
          · cases hp
  rw [resolveCompeting_eq] at hmem
  exact KeyedTable.mem_select.mp hmem

/-- **The facts after a call**, three ways: nothing changes; or the losers, which
are all that compete, are superseded by a new active fact; or there are no losers
and all that competes is contested, together with the new fact. -/
theorem afterResolve_cases (fns : SurrealFns) (env : DbEnv) (s : Store) (a : ResolveArgs) :
    ((afterResolve fns env s a).facts = s.facts ∧ losers fns env s a = []) ∨
    (∃ c, assertConfidence a.confidence = some c ∧
      (afterResolve fns env s a).facts = settledFacts fns env a c s.facts ∧
      losers fns env s a = resolveCompeting fns a s.facts) ∨
    (∃ c, a.semantics = .bitemporal ∧ assertConfidence a.confidence = some c ∧
      (afterResolve fns env s a).facts = contestedFacts fns env a c s.facts ∧
      losers fns env s a = [] ∧ resolveCompeting fns a s.facts ≠ []) := by
  unfold afterResolve
  cases h : resolveFact fns env s a with
  | error e =>
      obtain ⟨_, hc, _⟩ := resolveFact_error_iff.mp h
      exact Or.inl ⟨rfl, by simp [losers, hc]⟩
  | ok p =>
      obtain ⟨r, s'⟩ := p
      rcases resolveFact_cases h with
        ⟨hrej, _, hs'⟩ | ⟨c, hrej, hc, hs', hr⟩ | ⟨c, q, l, hb, hrej, hc, hs', hql, hsup, _⟩
      · exact Or.inl ⟨hs', by simp [losers, hrej]⟩
      · refine Or.inr (Or.inl ⟨c, hc, by rw [hs'], ?_⟩)
        rcases hr with ⟨hnil, _⟩ | ⟨q, l, hql, hsup, _⟩
        · simp [losers, hrej, hc, hnil]
        · simp [losers, hrej, hc, hql, hsup]
      · refine Or.inr (Or.inr ⟨c, hb, hc, by rw [hs'], ?_, ?_⟩)
        · simp [losers, hrej, hc, hql, hsup]
        · rw [hql]
          exact List.cons_ne_nil _ _

/-- **Row rule for a call.** A property of rows that the new row has, and that
superseding a loser and contesting a competitor keep, is kept by the call. -/
theorem afterResolve_rows {P : FactId → KnowledgeFact → Prop}
    (hold : ∀ i f, s.facts.get? i = some f → P i f)
    (hnew : ∀ c, assertConfidence a.confidence = some c →
      P s.facts.next (a.newRow env c) ∧
        (a.semantics = .bitemporal → P s.facts.next (competeRow (a.newRow env c))))
    (hsup : ∀ i f, (i, f) ∈ losers fns env s a → P i f →
      P i (supersedeRow s.facts.next a.validFrom f f))
    (hcomp : ∀ i f, a.competes fns f = true → a.semantics = .bitemporal → P i f →
      P i (competeRow f))
    (i : FactId) (f : KnowledgeFact) (hf : (afterResolve fns env s a).facts.get? i = some f) :
    P i f := by
  rcases afterResolve_cases fns env s a with
    ⟨hfacts, _⟩ | ⟨c, hc, hfacts, hlos⟩ | ⟨c, hb, hc, hfacts, _, _⟩
  · rw [hfacts] at hf
    exact hold i f hf
  · rw [hfacts] at hf
    rcases settledFacts_cases hf with ⟨rfl, rfl⟩ | ⟨g, hg, hcg, rfl⟩ | ⟨hf₀, _⟩
    · exact (hnew c hc).1
    · refine hsup i g ?_ (hold i g hg)
      rw [hlos, resolveCompeting_eq, KeyedTable.mem_select]
      exact ⟨hg, hcg⟩
    · exact hold i f hf₀
  · rw [hfacts] at hf
    rcases contestedFacts_cases hf with ⟨rfl, rfl⟩ | ⟨g, hg, hcg, rfl⟩ | ⟨hf₀, _⟩
    · exact (hnew c hc).2 hb
    · exact hcomp i g hcg hb (hold i g hg)
    · exact hold i f hf₀

/-- A call on another key leaves the rows on `k` as they are. -/
theorem get?_of_ingest_other {k : FactKey} (hk : a.key ≠ k) {i : FactId} {f : KnowledgeFact}
    (hf : (afterResolve fns env s a).facts.get? i = some f) (hfk : f.key = k) :
    s.facts.get? i = some f := by
  have hrows : ∀ i f, (afterResolve fns env s a).facts.get? i = some f →
      f.key = k → s.facts.get? i = some f := by
    apply afterResolve_rows (P := fun i f => f.key = k → s.facts.get? i = some f)
    · exact fun i f hf _ => hf
    · exact fun c _ => ⟨fun h => absurd h hk, fun _ h => absurd h hk⟩
    · intro i f hmem _ hfk
      have hcand := ResolveArgs.isCandidate_of_competes (competes_of_mem_losers hmem).2
      exact absurd ((ResolveArgs.isCandidate_iff.mp hcand).1.symm.trans hfk) hk
    · intro i f hcomp _ _ hfk
      have hcand := ResolveArgs.isCandidate_of_competes hcomp
      exact absurd ((ResolveArgs.isCandidate_iff.mp hcand).1.symm.trans hfk) hk
  exact hrows i f hf hfk

/-- A call never removes a fact and never moves it to another key. -/
theorem get?_afterResolve {i : FactId} {f : KnowledgeFact} (hf : s.facts.get? i = some f) :
    ∃ g, (afterResolve fns env s a).facts.get? i = some g ∧ g.key = f.key := by
  rcases afterResolve_cases fns env s a with ⟨hfacts, _⟩ | ⟨c, _, hfacts, _⟩ | ⟨c, _, _, hfacts, _⟩
  · exact ⟨f, by rw [hfacts, hf], rfl⟩
  · rw [hfacts, get?_settledFacts_of_get? hf]
    exact ⟨_, rfl, key_settleRow _ _⟩
  · rw [hfacts, get?_contestedFacts_of_get? hf]
    exact ⟨_, rfl, key_contestRow _⟩

/-- A call with losers stores its new fact under the fresh identifier. -/
theorem get?_next_afterResolve {p : FactId × KnowledgeFact} (hp : p ∈ losers fns env s a) :
    ∃ g, (afterResolve fns env s a).facts.get? s.facts.next = some g ∧ g.key = a.key := by
  rcases afterResolve_cases fns env s a with
    ⟨_, hnil⟩ | ⟨c, _, hfacts, _⟩ | ⟨c, _, _, _, hnil, _⟩
  · rw [hnil] at hp
    cases hp
  · refine ⟨a.newRow env c, ?_, rfl⟩
    rw [hfacts, get?_settledFacts, if_pos rfl]
  · rw [hnil] at hp
    cases hp

end Spec

end Brain
