/-
What the decision log of `synthesize` accounts for.

The log is built from what the confidence floor has kept, at every place of return: one
entry for each fact that was offered to the generator, picked if and only if the
generator cited it. A fact below the floor was retrieved and has no entry. So the log
accounts for all retrieved facts exactly when none of them is dropped.
-/
import Brain.Synthesize.FailClosed

set_option autoImplicit false

namespace Brain

/-- The floor lets the fact pass, or is off. -/
def keptByFloor (floor : Option ℚ) (f : HitFact) : Bool :=
  floor.any (fun x => decide (x ≤ 0)) || passesFloor floor f

/-- What the generator cites of the results, if it replies. -/
def SynthesizeEnv.citedOf (env : SynthesizeEnv) (dto : SynthesizeDto) (results : List SearchHit) :
    List FactId :=
  match env.generated dto results with
  | .error _ => []
  | .ok generated => generated.citedFactIds

/-- A log has one entry for each of the facts, and picks those that were cited among the
facts on offer. -/
structure Accounts (facts : List (SearchHit × HitFact)) (offered cited : List FactId)
    (log : List DecisionLogEntry) : Prop where
  complete : (log.map (fun e => (e.entityId, e.factId))).Perm
    (facts.map (fun p => (p.1.entityId, p.2.factId)))
  picked : ∀ e ∈ log, e.picked = true ↔ e.factId ∈ cited ∧ e.factId ∈ offered

/-- The response to a request with these hits logs every one of their facts. -/
def LogsEveryFact (env : SynthesizeEnv) (dto : SynthesizeDto) (hits : List SearchHit) : Prop :=
  ∃ r log, synthesize env dto = .ok r ∧ r.decisionLog = some log ∧
    Accounts (hitFacts hits)
      (factIndex (applyConformalGuardrail hits env.minCalibratedConfidence)).keys
      (env.citedOf dto.clamped (applyConformalGuardrail hits env.minCalibratedConfidence)) log

section Log

variable {env : SynthesizeEnv} {dto : SynthesizeDto} {results : List SearchHit}

/-! ## The log of some hits -/

theorem map_decisionLogEntries (citedFactIds : List FactId) (facts : List (SearchHit × HitFact)) :
    ∀ seen, (decisionLogEntries citedFactIds facts seen).map (fun e => (e.entityId, e.factId))
      = facts.map (fun p => (p.1.entityId, p.2.factId)) := by
  induction facts with
  | nil => exact fun _ => rfl
  | cons p facts ih =>
      intro seen
      rw [decisionLogEntries, List.map_cons, List.map_cons, ih]
      rfl

theorem picked_decisionLogEntries (citedFactIds : List FactId)
    (facts : List (SearchHit × HitFact)) :
    ∀ seen, ∀ e ∈ decisionLogEntries citedFactIds facts seen,
      e.picked = citedFactIds.contains e.factId := by
  induction facts with
  | nil => exact fun _ e he => absurd he List.not_mem_nil
  | cons p facts ih =>
      intro seen e he
      rcases List.mem_cons.mp he with rfl | he
      · rfl
      · exact ih _ e he

/-- **The log of some hits** has one entry for each of their facts. -/
theorem buildDecisionLog_perm (hits : List SearchHit) (citedFactIds : List FactId) :
    ((buildDecisionLog hits citedFactIds).map (fun e => (e.entityId, e.factId))).Perm
      ((hitFacts hits).map (fun p => (p.1.entityId, p.2.factId))) := by
  rw [← map_decisionLogEntries citedFactIds (hitFacts hits) []]
  exact (List.perm_insertionSort _ _).map _

theorem picked_buildDecisionLog {hits : List SearchHit} {citedFactIds : List FactId}
    {e : DecisionLogEntry} (he : e ∈ buildDecisionLog hits citedFactIds) :
    e.picked = true ↔ e.factId ∈ citedFactIds := by
  have hmem : e ∈ decisionLogEntries citedFactIds (hitFacts hits) [] :=
    (List.perm_insertionSort _ _).mem_iff.mp he
  rw [picked_decisionLogEntries citedFactIds _ [] e hmem, List.contains_iff_mem]

/-! ## The log of a response -/

/-- The identifiers that a citation was resolved for. -/
theorem mem_resolveCitations {citedFactIds : List FactId} {i : FactId} :
    i ∈ (resolveCitations citedFactIds (factIndex results)).map (fun c => c.factId) ↔
      i ∈ citedFactIds ∧ i ∈ (factIndex results).keys := by
  constructor
  · intro h
    obtain ⟨c, hc, rfl⟩ := List.mem_map.mp h
    obtain ⟨j, hj, hget⟩ := List.mem_filterMap.mp hc
    rw [(get?_factIndex hget).1]
    exact ⟨List.mem_eraseDups.mp hj, List.mem_map_of_mem (InsertionMap.mem_of_get? hget)⟩
  · rintro ⟨hcited, hkey⟩
    cases hget : (factIndex results).get? i with
    | none => exact absurd hkey (InsertionMap.get?_eq_none_iff.mp hget)
    | some c =>
        refine List.mem_map.mpr ⟨c, List.mem_filterMap.mpr ⟨i, ?_, hget⟩, (get?_factIndex hget).1⟩
        exact List.mem_eraseDups.mpr hcited

/-- Without an index nothing is resolved. -/
theorem resolveCitations_of_size (citedFactIds : List FactId)
    (h : (factIndex results).size = 0) : resolveCitations citedFactIds (factIndex results) = [] := by
  have hentries : (factIndex results).entries = [] := List.length_eq_zero_iff.mp h
  unfold resolveCitations
  rw [List.filterMap_eq_nil_iff]
  intro i _
  rw [InsertionMap.get?_eq_none_iff, InsertionMap.keys, hentries]
  exact List.not_mem_nil

/-- **The log of a response** is that of what was kept, wherever it returns. -/
theorem decisionLog_afterGuardrail (env : SynthesizeEnv) (dto : SynthesizeDto)
    (results : List SearchHit) (hexplain : dto.explain = true) :
    (afterGuardrail env dto results).decisionLog = some (buildDecisionLog results
      ((resolveCitations (env.citedOf dto results) (factIndex results)).map
        (fun c => c.factId))) := by
  unfold afterGuardrail SynthesizeEnv.citedOf
  dsimp only
  rw [hexplain, if_pos rfl, if_pos rfl]
  split
  · next hempty =>
      rw [List.isEmpty_iff.mp hempty]
      rfl
  · split
    · next hsize => rw [resolveCitations_of_size _ hsize, List.map_nil]
    · cases hgen : env.generated dto results with
      | error e => rfl
      | ok generated =>
          -- the log is made before the answer is looked at
          unfold afterGenerator
          dsimp only
          rw [hexplain, if_pos rfl]
          split
          · rfl
          · split
            · rfl
            · split
              · unfold verifierErrorResult
                split <;> rfl
              · unfold finalizeVerdict
                split
                · rfl
                · dsimp only
                  split <;> rfl

/-! ## What the floor drops -/

theorem hitFacts_guardrail (hits : List SearchHit) (floor : Option ℚ) :
    (hitFacts (applyConformalGuardrail hits floor)).map (fun p => (p.1.entityId, p.2.factId))
      = ((hitFacts hits).filter (fun p => keptByFloor floor p.2)).map
          (fun p => (p.1.entityId, p.2.factId)) := by
  unfold applyConformalGuardrail keptByFloor
  cases hoff : floor.any (fun x => decide (x ≤ 0)) with
  | true => simp
  | false =>
      simp only [Bool.false_or, Bool.false_eq_true, if_false]
      induction hits with
      | nil => rfl
      | cons hit hits ih =>
          unfold hitFacts at *
          simp only [List.map_cons, List.flatMap_cons, List.filter_append, List.map_append]
          rw [← ih]
          have hfilter : ((hit.facts.map (fun f => (hit, f))).filter
              (fun p => passesFloor floor p.2)).map (fun p => (p.1.entityId, p.2.factId))
              = (hit.facts.filter (passesFloor floor)).map (fun f => (hit.entityId, f.factId)) := by
            rw [List.filter_map, List.map_map]
            rfl
          rw [hfilter, List.filter_cons]
          split
          · rw [List.flatMap_cons, List.map_append, List.map_map]
            rfl
          · next hempty =>
              -- a hit of which nothing is kept goes with its facts
              have hnil : hit.facts.filter (passesFloor floor) = [] := by simpa using hempty
              rw [hnil, List.map_nil, List.nil_append]

end Log

/-- **When the log accounts for every retrieved fact**: exactly when the confidence
floor drops none of them, whatever the generator cites and wherever the call returns. -/
theorem logsEveryFact_iff (env : SynthesizeEnv) (dto : SynthesizeDto) (hits : List SearchHit)
    (hsearch : env.search dto.clamped.toSearchRequest = .ok hits) (hexplain : dto.explain = true) :
    LogsEveryFact env dto hits ↔
      ∀ hit ∈ hits, ∀ f ∈ hit.facts, keptByFloor env.minCalibratedConfidence f = true := by
  have hresponse : synthesize env dto = .ok (afterGuardrail env dto.clamped
      (applyConformalGuardrail hits env.minCalibratedConfidence)) := by
    rw [synthesize, hsearch]
  have hlog := decisionLog_afterGuardrail env dto.clamped
    (applyConformalGuardrail hits env.minCalibratedConfidence) hexplain
  -- the log has the facts that are kept, so it has all of them if none is dropped
  have hperm := buildDecisionLog_perm (applyConformalGuardrail hits env.minCalibratedConfidence)
    ((resolveCitations (env.citedOf dto.clamped (applyConformalGuardrail hits
      env.minCalibratedConfidence)) (factIndex (applyConformalGuardrail hits
        env.minCalibratedConfidence))).map (fun c => c.factId))
  rw [hitFacts_guardrail] at hperm
  constructor
  · rintro ⟨r, log, hr, hrlog, hcomplete, _⟩ hit hhit f hf
    rw [hresponse, Except.ok.injEq] at hr
    rw [← hr, hlog, Option.some.injEq] at hrlog
    rw [hrlog] at hperm
    have hlen := (hperm.symm.trans hcomplete).length_eq
    rw [List.length_map, List.length_map, List.length_filter_eq_length_iff] at hlen
    exact hlen (hit, f) (List.mem_flatMap.mpr ⟨hit, hhit, List.mem_map_of_mem hf⟩)
  · intro hkept
    refine ⟨_, _, hresponse, hlog, ?_, fun e he => ?_⟩
    · have hall : (hitFacts hits).filter (fun p => keptByFloor env.minCalibratedConfidence p.2)
          = hitFacts hits := by
        rw [List.filter_eq_self]
        intro p hp
        obtain ⟨hit, hhit, hpf⟩ := List.mem_flatMap.mp hp
        obtain ⟨f, hf, rfl⟩ := List.mem_map.mp hpf
        exact hkept hit hhit f hf
      rwa [hall] at hperm
    · rw [picked_buildDecisionLog he, mem_resolveCitations]

/-- The theorem above for a hit with one fact, above the floor. -/
theorem logsEveryFact_iff_one :
    LogsEveryFact (exampleService [exampleFact 7 (9 / 10)] [7])
        { query := "tier of Ada", explain := true } [exampleHit [exampleFact 7 (9 / 10)]] ↔
      ∀ hit ∈ [exampleHit [exampleFact 7 (9 / 10)]], ∀ f ∈ hit.facts,
        keptByFloor (some (30 / 100)) f = true :=
  logsEveryFact_iff (exampleService [exampleFact 7 (9 / 10)] [7])
    { query := "tier of Ada", explain := true } [exampleHit [exampleFact 7 (9 / 10)]] rfl rfl

/-- A fact with a calibrated confidence of one tenth is retrieved, and not logged. -/
theorem dropped_fact_not_logged :
    ¬ ∀ (env : SynthesizeEnv) (dto : SynthesizeDto) (hits : List SearchHit),
      env.search dto.clamped.toSearchRequest = .ok hits → dto.explain = true →
        LogsEveryFact env dto hits := by
  intro h
  let env := exampleService [exampleFact 7 (9 / 10), exampleFact 8 (1 / 10)] [7]
  let dto : SynthesizeDto := { query := "tier of Ada", explain := true }
  obtain ⟨r, log, hr, hlog, hcomplete, _⟩ := h env dto _ rfl rfl
  have hone : ((synthesize env dto).toOption.bind (fun r => r.decisionLog)).map List.length
      = some 1 := by decide +kernel
  rw [hr, Except.toOption, Option.bind_some, hlog, Option.map_some, Option.some.injEq] at hone
  have htwo := hcomplete.length_eq
  rw [List.length_map, List.length_map, hone] at htwo
  revert htwo
  decide

end Brain
