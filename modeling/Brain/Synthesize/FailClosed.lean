/-
What `synthesize` guarantees about its answer and its citations.

There are nine places at which it returns. Each of them either drops the answer
together with the citations, or returns citations that were resolved against the facts
shown to the generator; in strict mode an answer is left only after the verifier has
supported it, or where it is the sentence that there is no evidence.
-/
import Brain.Lib.Grouping
import Brain.Synthesize.SynthesizeService

set_option autoImplicit false

namespace Brain

/-- The calibrated confidences of the facts are no less than 0. -/
def CalibratedNonneg (hits : List SearchHit) : Prop :=
  ∀ hit ∈ hits, ∀ f ∈ hit.facts, ∀ c, f.breakdown.calibratedConfidence = some c → 0 ≤ c

/-- The citation is of a fact of the results, whose confidence reaches the floor. -/
def Grounded (env : SynthesizeEnv) (results : List SearchHit) (c : Citation) : Prop :=
  ∃ hit ∈ results, ∃ f ∈ hit.facts, c = citationOf hit f ∧
    ∃ floor, env.minCalibratedConfidence = some floor ∧ floor ≤ f.floorScore

/-- What holds of every response: in strict mode an answer is supported or the sentence
that there is no evidence, citations are grounded and distinct, and without an answer
there are none. -/
structure FailClosed (env : SynthesizeEnv) (dto : SynthesizeDto) (r : SynthesizeResult) :
    Prop where
  supported : env.guardrails dto = .strict → ∀ answer, r.answer = some answer →
    isNoEvidence answer = true ∨ callVerifier (env.verify dto.query answer (factLines r.results)
      (env.model dto)) = .ok .supported
  distinct : (r.citations.map (fun c => c.factId)).Nodup
  grounded : ∀ c ∈ r.citations, Grounded env r.results c
  uncited : r.answer = none → r.citations = []

section FailClosed

variable {env : SynthesizeEnv} {dto : SynthesizeDto} {results : List SearchHit}

/-! ## Citations -/

/-- A resolved identifier is that of a fact of the results. -/
theorem get?_factIndex {i : FactId} {c : Citation} (h : (factIndex results).get? i = some c) :
    c.factId = i ∧ ∃ hit ∈ results, ∃ f ∈ hit.facts, c = citationOf hit f := by
  have hmem := InsertionMap.mem_entries_ofList (InsertionMap.mem_of_get? h)
  obtain ⟨⟨hit, f⟩, hp, heq⟩ := List.mem_map.mp hmem
  rw [Prod.mk.injEq] at heq
  obtain ⟨hit', hhit, hf⟩ := List.mem_flatMap.mp hp
  obtain ⟨f', hf', hpair⟩ := List.mem_map.mp hf
  cases hpair
  exact ⟨by rw [← heq.2, ← heq.1]; rfl, hit, hhit, f, hf', heq.2.symm⟩

/-- Citations are distinct: each stands for an identifier that is cited for the first
time. -/
theorem nodup_resolveCitations (citedFactIds : List FactId) (results : List SearchHit) :
    ((resolveCitations citedFactIds (factIndex results)).map (fun c => c.factId)).Nodup := by
  have hsub : ((resolveCitations citedFactIds (factIndex results)).map (fun c => c.factId)).Sublist
      citedFactIds.eraseDups := by
    unfold resolveCitations
    induction citedFactIds.eraseDups with
    | nil => exact List.Sublist.refl _
    | cons i ids ih =>
        rw [List.filterMap_cons]
        cases hget : (factIndex results).get? i with
        | none => exact ih.cons i
        | some c =>
            rw [List.map_cons, (get?_factIndex hget).1]
            exact ih.cons_cons i
  exact (Grouping.nodup_eraseDups citedFactIds).sublist hsub

/-- What the guardrail keeps reaches the floor. -/
theorem floor_le_of_kept {hits : List SearchHit} (hcal : CalibratedNonneg hits)
    {floor : Option ℚ} {hit : SearchHit} {f : HitFact}
    (hhit : hit ∈ applyConformalGuardrail hits floor) (hf : f ∈ hit.facts) :
    ∃ x, floor = some x ∧ x ≤ f.floorScore := by
  unfold applyConformalGuardrail at hhit
  cases floor with
  | none =>
      -- nothing passes a floor that is no number
      obtain ⟨h, _, rfl⟩ := List.mem_map.mp (List.mem_filter.mp hhit).1
      have hpass := (List.mem_filter.mp hf).2
      cases hpass
  | some floor =>
      refine ⟨floor, rfl, ?_⟩
      by_cases hoff : floor ≤ 0
      · -- a floor that is off is no more than 0, and no confidence is less
        have hhit : hit ∈ hits := by
          rwa [Option.any_some, decide_eq_true hoff, if_pos rfl] at hhit
        refine le_trans hoff ?_
        unfold HitFact.floorScore
        cases hc : f.breakdown.calibratedConfidence with
        | none => exact f.confidence.2.1
        | some c => exact hcal hit hhit f hf c hc
      · rw [Option.any_some, decide_eq_false hoff, if_neg Bool.false_ne_true] at hhit
        obtain ⟨h, _, rfl⟩ := List.mem_map.mp (List.mem_filter.mp hhit).1
        exact of_decide_eq_true (List.mem_filter.mp hf).2

/-- Resolved citations are grounded in what the guardrail keeps. -/
theorem grounded_resolveCitations {hits : List SearchHit} (hcal : CalibratedNonneg hits)
    (hkept : results = applyConformalGuardrail hits env.minCalibratedConfidence)
    (citedFactIds : List FactId) :
    ∀ c ∈ resolveCitations citedFactIds (factIndex results), Grounded env results c := by
  intro c hc
  obtain ⟨i, _, hget⟩ := List.mem_filterMap.mp hc
  obtain ⟨_, hit, hhit, f, hf, rfl⟩ := get?_factIndex hget
  obtain ⟨floor, hfloor, hle⟩ := floor_le_of_kept hcal (hkept ▸ hhit) hf
  exact ⟨hit, hhit, f, hf, rfl, floor, hfloor, hle⟩

/-! ## The places of return -/

/-- A response without an answer and without citations. -/
theorem failClosed_of_none {r : SynthesizeResult} (ha : r.answer = none) (hc : r.citations = []) :
    FailClosed env dto r := by
  refine ⟨fun _ answer h => ?_, ?_, fun c h => ?_, fun _ => hc⟩
  · rw [ha] at h
    cases h
  · rw [hc]
    exact List.nodup_nil
  · rw [hc] at h
    cases h

/-- A response with an answer that strict mode admits, and with resolved citations. -/
theorem failClosed_of_some {r : SynthesizeResult} {answer : String} (ha : r.answer = some answer)
    (hstrict : env.guardrails dto = .strict → isNoEvidence answer = true ∨
      callVerifier (env.verify dto.query answer (factLines r.results) (env.model dto))
        = .ok .supported)
    (hd : (r.citations.map (fun c => c.factId)).Nodup)
    (hg : ∀ c ∈ r.citations, Grounded env r.results c) : FailClosed env dto r := by
  refine ⟨fun h a heq => ?_, hd, hg, fun h => ?_⟩
  · rw [ha, Option.some.injEq] at heq
    exact heq ▸ hstrict h
  · rw [ha] at h
    cases h

/-- The return after a verdict. -/
theorem failClosed_finalizeVerdict {verdict : VerifierVerdict} {answer : String}
    {citations : List Citation} {decisionLog : Option (List DecisionLogEntry)}
    (hverdict : callVerifier (env.verify dto.query answer (factLines results) (env.model dto))
      = .ok verdict)
    (hd : (citations.map (fun c => c.factId)).Nodup) (hg : ∀ c ∈ citations, Grounded env results c) :
    FailClosed env dto
      (finalizeVerdict verdict answer citations results (env.guardrails dto) decisionLog) := by
  unfold finalizeVerdict
  split
  · next hs =>
      exact failClosed_of_some rfl (fun _ => Or.inr (hs ▸ hverdict)) hd hg
  · dsimp only
    split
    · next hlenient =>
        refine failClosed_of_some rfl (fun hstrict => ?_) hd hg
        rw [hlenient] at hstrict
        cases hstrict
    · exact failClosed_of_none rfl rfl

/-- The returns after the generator. -/
theorem failClosed_afterGenerator {hits : List SearchHit} (hcal : CalibratedNonneg hits)
    (hkept : results = applyConformalGuardrail hits env.minCalibratedConfidence)
    (generated : GeneratorOutput) :
    FailClosed env dto (afterGenerator env dto results generated) := by
  have hd := nodup_resolveCitations generated.citedFactIds results
  have hg := grounded_resolveCitations hcal hkept generated.citedFactIds
  unfold afterGenerator
  dsimp only
  split
  · next hnone =>
      exact failClosed_of_some rfl (fun _ => Or.inl hnone) List.nodup_nil
        (fun c hc => absurd hc List.not_mem_nil)
  · split
    · next hoff =>
        refine failClosed_of_some rfl (fun hstrict => ?_) hd hg
        rw [hoff] at hstrict
        cases hstrict
    · split
      · -- the verifier has failed
        unfold verifierErrorResult
        split
        · exact failClosed_of_none rfl rfl
        · next hmode => exact failClosed_of_some rfl (fun hstrict => absurd hstrict hmode) hd hg
      · next hverdict => exact failClosed_finalizeVerdict hverdict hd hg

/-- All returns. -/
theorem failClosed_afterGuardrail {hits : List SearchHit} (hcal : CalibratedNonneg hits) :
    FailClosed env dto
      (afterGuardrail env dto (applyConformalGuardrail hits env.minCalibratedConfidence)) := by
  unfold afterGuardrail
  dsimp only
  split
  · exact failClosed_of_none rfl rfl
  · split
    · exact failClosed_of_none rfl rfl
    · split
      · exact failClosed_of_none rfl rfl
      · exact failClosed_afterGenerator hcal rfl _

end FailClosed

/-- **Synthesis is fail-closed**, whatever the search returns and the two models
reply. -/
theorem failClosed_of_synthesize {env : SynthesizeEnv} {dto : SynthesizeDto} {r : SynthesizeResult}
    (hcal : ∀ hits, env.search dto.clamped.toSearchRequest = .ok hits → CalibratedNonneg hits)
    (h : synthesize env dto = .ok r) : FailClosed env dto.clamped r := by
  unfold synthesize at h
  split at h
  · cases h
  · next hits hhits =>
      cases h
      exact failClosed_afterGuardrail (hcal hits hhits)

/-! ## An example -/

/-- A fact with a calibrated confidence, for the example. -/
def exampleFact (i : FactId) (calibrated : ℚ) : HitFact where
  factId := i
  predicate := "tier"
  object := "gold"
  confidence := .full
  validFrom := 0
  validUntil := none
  status := .active
  score := some 1
  breakdown := { fusedScore := 1, confidence := 1, calibratedConfidence := some calibrated,
                 decay := 1, predBoost := 1, finalScore := 1, stages := [.hype] }

/-- A hit with the given facts. -/
def exampleHit (facts : List HitFact) : SearchHit where
  entityId := 0
  entityType := "person"
  canonicalName := "Ada"
  externalRefs := []
  facts := facts
  score := 1

/-- A service whose search returns one hit with these facts, whose generator cites the
given ones and whose verifier is satisfied. -/
def exampleService (facts : List HitFact) (citedFactIds : List FactId) : SynthesizeEnv where
  search _ := .ok [exampleHit facts]
  generate _ _ _ _ := .ok (some { answer := some "Gold.", citedFactIds := some citedFactIds })
  verify _ _ _ _ := .ok (some "supported")
  detectLanguage _ := none

/-- The response of the service to a request for its reasons. -/
def exampleResponse (facts : List HitFact) (citedFactIds : List FactId) : SynthesizeResult :=
  afterGuardrail (exampleService facts citedFactIds) { query := "tier of Ada", explain := true }
    (applyConformalGuardrail [exampleHit facts] (some (30 / 100)))

/-- The theorem above for a generator that cites a fact twice, and one that is none. -/
theorem failClosed_of_synthesize_twice :
    FailClosed (exampleService [exampleFact 7 (9 / 10)] [7, 7, 8])
      { query := "tier of Ada", explain := true }
      (exampleResponse [exampleFact 7 (9 / 10)] [7, 7, 8]) := by
  have hresponse : synthesize (exampleService [exampleFact 7 (9 / 10)] [7, 7, 8])
      { query := "tier of Ada", explain := true }
        = .ok (exampleResponse [exampleFact 7 (9 / 10)] [7, 7, 8]) := rfl
  refine failClosed_of_synthesize ?_ hresponse
  intro hits hhits
  cases hhits
  intro hit hhit f hf c hc
  rw [List.mem_singleton.mp hhit] at hf
  rw [List.mem_singleton.mp hf] at hc
  cases hc
  norm_num

end Brain
