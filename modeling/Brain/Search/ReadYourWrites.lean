/-
What a search sees of an ingest and of a retract.

A caller that has ingested a fact and searches finds it, at any time at which the fact
holds, if the search has cut nothing off; and the facts that it has superseded are not
shown any more, whatever the search cuts off (`ingest_then_search`). A fact that is
retracted is gone for good, with everything that derived from it: no operation that the
tenant goes through afterwards brings it back into a search that does not ask for
retracted facts (`retract_then_search`).
-/
import Brain.Facts.History
import Brain.Ingest.IngestService
import Brain.Search.ShortAnswers

set_option autoImplicit false

namespace Brain

/-- The fact that the call has stored. -/
def ResolveResult.factId? : ResolveResult → Option FactId
  | .rejected _ => none
  | .inserted factId => some factId
  | .superseded factId _ _ => some factId
  | .competing factId _ _ => some factId

def ResolveResult.supersededFactIds : ResolveResult → List FactId
  | .superseded _ ids _ => ids
  | _ => []

/-- The row says what was ingested on the entity. -/
structure StoredBy (cfg : IngestConfig) (fact : IngestFactDto) (e : EntityId) (r : ResolveResult)
    (f : KnowledgeFact) : Prop where
  entityId : f.entityId = e
  predicate : f.predicate = fact.predicate
  confidence : f.confidence.1 = (fact.resolveArgs cfg e).confidence
  validFrom : f.validFrom = fact.validFrom
  validUntil : f.validUntil = fact.validUntil
  unretracted : f.retractedAt = none
  embedded : f.embedding ≠ none
  status : f.status = .active ∨ f.status = .competing ∧ r.outcome = .COMPETING
  lang : f.lang = none ∨ f.lang = cfg.detectLanguage fact.object

/-- The request asks for what was ingested on the entity, in a mode that compares embeddings. -/
structure AsksFor (cfg : IngestConfig) (env : SearchEnv) (dto : SearchRequest)
    (fact : IngestFactDto) (e : EntityId) (r : ResolveResult) : Prop where
  lasts : ∀ u, fact.validUntil = some u → dto.asOf.getD env.now < u
  contested : r.outcome = .COMPETING → dto.includeContested = true
  confident : ∀ c, dto.minConfidence = some c → c ≤ (fact.resolveArgs cfg e).confidence
  predicate : dto.predicates ≠ [] → fact.predicate ∈ dto.predicates
  entity : dto.entityIds ≠ [] → e ∈ dto.entityIds
  /-- A language that is not recognised passes every filter. -/
  lang : ∀ l l', resolveLangFilter env dto.clamped = some l →
    cfg.detectLanguage fact.object = some l' → l' = l
  mode : dto.searchMode ≠ .lexical

/-! ## What an ingest has stored -/

section Ingest

variable {cfg : IngestConfig} {denv : DbEnv} {s s' : Store} {fact : IngestFactDto}
  {r : ResolveResult} {i j : FactId}

theorem val_of_assertConfidence {q : ℚ} {c : Confidence} (h : assertConfidence q = some c) :
    c.1 = q := by
  unfold assertConfidence at h
  split at h
  · cases h
    rfl
  · cases h

/-- What `fn::resolve_fact` leaves under the ids that it returns. -/
theorem stored_of_resolveFact {a : ResolveArgs} {fns : SurrealFns}
    (h : resolveFact fns denv s a = .ok (r, s')) :
    (∀ i, r.factId? = some i → ∃ c st, assertConfidence a.confidence = some c ∧
      s'.facts.get? i = some { a.newRow denv c with status := st } ∧
      (st = .active ∨ st = .competing ∧ r.outcome = .COMPETING)) ∧
    (∀ j ∈ r.supersededFactIds, ∃ f, s'.facts.get? j = some f ∧ f.validUntil = some a.validFrom) := by
  have hsettled : ∀ c, (settledFacts fns denv a c s.facts).get? s.facts.next
      = some (a.newRow denv c) := fun c => by rw [get?_settledFacts, if_pos rfl]
  rcases resolveFact_cases h with
    ⟨_, rfl, _⟩ | ⟨c, _, hc, rfl, ⟨_, rfl⟩ | ⟨q, l, hql, _, rfl⟩⟩ | ⟨c, q, l, _, _, hc, rfl, _, _, rfl⟩
  · refine ⟨fun i hi => ?_, fun j hj => absurd hj List.not_mem_nil⟩
    cases hi
  · refine ⟨fun i hi => ?_, fun j hj => absurd hj List.not_mem_nil⟩
    obtain rfl := Option.some.inj hi
    exact ⟨c, .active, hc, hsettled c, Or.inl rfl⟩
  · refine ⟨fun i hi => ?_, fun j hj => ?_⟩
    · obtain rfl := Option.some.inj hi
      exact ⟨c, .active, hc, hsettled c, Or.inl rfl⟩
    · -- each of them has competed
      have hmem : j ∈ (resolveCompeting fns a s.facts).map Prod.fst := hql ▸ hj
      rw [resolveCompeting_eq, KeyedTable.mem_keys_select] at hmem
      obtain ⟨f, hf, hcomp⟩ := hmem
      refine ⟨_, get?_settledFacts_of_get? hf, ?_⟩
      rw [settleRow, if_pos hcomp]
      rfl
  · refine ⟨fun i hi => ?_, fun j hj => absurd hj List.not_mem_nil⟩
    obtain rfl := Option.some.inj hi
    refine ⟨c, .competing, hc, ?_, Or.inr ⟨rfl, rfl⟩⟩
    show (contestedFacts fns denv a c s.facts).get? s.facts.next = _
    rw [get?_contestedFacts, if_pos rfl]
    rfl

/-- The language tag goes to the fact that was inserted, if any. -/
theorem get?_tagLanguage_of_get? (cfg : IngestConfig) {object : String} {f : KnowledgeFact}
    (hf : s.facts.get? j = some f) :
    (tagLanguage cfg r object s).facts.get? j = some f ∨
      (r = .inserted j ∧ (tagLanguage cfg r object s).facts.get? j
        = some { f with lang := cfg.detectLanguage object }) := by
  unfold tagLanguage
  split
  · next factId lang hlang =>
      rw [KeyedTable.get?_update, hlang]
      split
      · next heq =>
          right
          rw [hf, heq]
          exact ⟨rfl, rfl⟩
      · exact Or.inl hf
  · exact Or.inl hf

/-- **What an ingest leaves** under the ids that it returns. -/
theorem stored_of_ingestFact (h : ingestFact cfg denv s fact = (.ok r, s')) :
    (∀ i, r.factId? = some i → ∃ f, s'.facts.get? i = some f ∧
      StoredBy cfg fact (resolveOrCreateEntity s fact.entityRef).1 r f) ∧
    (∀ j ∈ r.supersededFactIds, ∃ f, s'.facts.get? j = some f ∧
      f.validUntil = some fact.validFrom) := by
  unfold ingestFact at h
  split at h
  · cases h
  · split at h
    · next r₁ s₁ hres =>
        obtain ⟨rfl, rfl⟩ : r₁ = r ∧ tagLanguage cfg r₁ fact.object s₁ = s' := by
          cases h
          exact ⟨rfl, rfl⟩
        unfold ingestResolve at hres
        dsimp only at hres
        split at hres
        · next r₂ s₂ hfact =>
            cases hres
            obtain ⟨hnew, hold⟩ := stored_of_resolveFact hfact
            refine ⟨fun i hi => ?_, fun j hj => ?_⟩
            · obtain ⟨c, st, hc, hget, hst⟩ := hnew i hi
              have hconf := val_of_assertConfidence hc
              rcases get?_tagLanguage_of_get? cfg hget with hrow | ⟨_, hrow⟩
              · exact ⟨_, hrow, rfl, rfl, hconf, rfl, rfl, rfl, Option.some_ne_none _, hst,
                  Or.inl rfl⟩
              · exact ⟨_, hrow, rfl, rfl, hconf, rfl, rfl, rfl, Option.some_ne_none _, hst,
                  Or.inr rfl⟩
            · obtain ⟨f, hf, huntil⟩ := hold j hj
              rcases get?_tagLanguage_of_get? cfg hf with hrow | ⟨hins, _⟩
              · exact ⟨f, hrow, huntil⟩
              · rw [hins] at hj
                cases hj
        · cases hres
    · cases h

end Ingest

/-! ## What a search shows of it -/

section Search

variable {cfg : IngestConfig} {env : SearchEnv} {db : SearchDb} {dto : SearchRequest}
  {scopes : List BrainScope} {fact : IngestFactDto} {e : EntityId} {r : ResolveResult}
  {f : KnowledgeFact} {i : FactId}

/-- The WHERE admits what the request asks for. -/
theorem StoredBy.admitted (hf : StoredBy cfg fact e r f) (h : AsksFor cfg env dto fact e r)
    (hbegan : fact.validFrom ≤ dto.asOf.getD env.now) : admits (dto.where_ env) f = true := by
  have hstatus : f.status ≠ .compacted ∧ f.status ≠ .superseded := by
    rcases hf.status with hst | ⟨hst, _⟩ <;> rw [hst] <;> exact ⟨by decide, by decide⟩
  rw [← hf.validFrom] at hbegan
  have hlasts : ∀ u, f.validUntil = some u → dto.asOf.getD env.now < u :=
    fun u hu => h.lasts u (hf.validUntil ▸ hu)
  refine List.all_eq_true.mpr (fun clause hclause => ?_)
  simp only [SearchRequest.where_, requestWhere, buildBaseWhere, List.mem_append, or_assoc]
    at hclause
  rcases hclause with hc | hc | hc | hc | hc | hc | hc
  · split at hc
    · cases hc
    · rw [List.mem_singleton.mp hc, notRetractedClause, hf.unretracted]
      rfl
  · split at hc
    · cases hc
    · next hreq =>
        have hne : f.status ≠ .competing := by
          rcases hf.status with hst | ⟨_, hout⟩
          · rw [hst]
            decide
          · exact absurd (h.contested hout) hreq
        rw [List.mem_singleton.mp hc]
        simpa [notContestedClause] using hne
  · split at hc
    · cases hc
    · next c hreq =>
        rw [List.mem_singleton.mp hc, minConfidenceClause, hf.confidence]
        exact decide_eq_true (h.confident c hreq)
  · split at hc
    · cases hc
    · next hreq =>
        have hmem := h.predicate (fun heq => hreq (List.isEmpty_iff.mpr heq))
        rw [List.mem_singleton.mp hc, predicatesClause, hf.predicate]
        exact List.contains_iff_mem.mpr hmem
  · split at hc
    · cases hc
    · next hreq =>
        have hmem := h.entity (fun heq => hreq (List.isEmpty_iff.mpr heq))
        rw [List.mem_singleton.mp hc, entityIdsClause, hf.entityId]
        exact List.contains_iff_mem.mpr hmem
  · split at hc
    · cases hc
    · next l hreq =>
        split at hc
        · cases hc
        · rw [List.mem_singleton.mp hc, langClause]
          rcases hf.lang with hnone | hsome
          · rw [hnone]
            rfl
          · cases hdet : cfg.detectLanguage fact.object with
            | none =>
                rw [hsome, hdet]
                rfl
            | some l' =>
                rw [hsome, hdet, h.lang l l' hreq hdet, beq_self_eq_true]
                rfl
  · split at hc
    · next t hreq =>
        have hat : dto.asOf = some t := hreq
        rw [hat] at hbegan hlasts
        rw [List.mem_singleton.mp hc, asOfClause, hf.unretracted]
        cases hu : f.validUntil with
        | none => simpa [hstatus.1] using hbegan
        | some u =>
            have hlt : t < u := hlasts u hu
            simpa [hstatus.1, hlt] using hbegan
    · next hreq =>
        have hat : dto.asOf = none := hreq
        rw [hat] at hbegan hlasts
        split at hc
        · cases hc
        · rw [List.mem_singleton.mp hc, currentClause]
          cases hu : f.validUntil with
          | none => simpa [hstatus] using hbegan
          | some u =>
              have hlt : env.now < u := hlasts u hu
              simpa [hstatus, hlt] using hbegan

/-- A fact that has ended is not shown at a later time. -/
theorem not_shown_of_ended {hit : SearchHit} (hhit : hit ∈ search env db dto scopes) {u : Time}
    (hf : db.store.facts.get? i = some f) (huntil : f.validUntil = some u)
    (hu : u ≤ dto.asOf.getD env.now) (hstale : dto.asOf = none → dto.includeStale = false) :
    i ∉ hit.facts.map (fun x => x.factId) := by
  intro hmem
  obtain ⟨x, hx, rfl⟩ := List.mem_map.mp hmem
  obtain ⟨hasked, _⟩ := asked_of_mem_search hhit x hx f hf
  have hholds : f.span.holds (dto.asOf.getD env.now) = true := by
    cases hat : dto.asOf with
    | none => exact (hasked.current hat (hstale hat)).1
    | some t => exact (hasked.asOf t hat).1
  rw [Span.holds_iff] at hholds
  exact absurd (hholds.2 u huntil) (not_lt.mpr hu)

/-- **An ingest and a search**: let a call have stored the store that is searched.
(1) Of the facts that it has superseded none is shown, at any time from the beginning of
the new one on, as long as stale facts are not asked for. (2) The fact itself is found when
the request asks for it and nothing is cut off. -/
theorem ingest_then_search (cfg : IngestConfig) (denv : DbEnv) (s : Store) (fact : IngestFactDto)
    (r : ResolveResult) (env : SearchEnv) (hp : RerankersPermute env) (db : SearchDb)
    (hingest : ingestFact cfg denv s fact = (.ok r, db.store)) (dto : SearchRequest)
    (scopes : List BrainScope) (hbegan : fact.validFrom ≤ dto.asOf.getD env.now) :
    ((dto.asOf = none → dto.includeStale = false) → ∀ j ∈ r.supersededFactIds,
      ∀ hit ∈ search env db dto scopes, j ∉ hit.facts.map (fun x => x.factId)) ∧
    ∀ e, e = (resolveOrCreateEntity s fact.entityRef).1 → AsksFor cfg env dto fact e r →
      scopeAllows scopes fact.predicate = true → CutsNothing env db dto scopes →
      (∀ m, db.store.mergedInto e = some m → db.store.HasEntity m) →
      ∀ i, r.factId? = some i → ∃ hit ∈ search env db dto scopes,
        hit.entityId = db.store.attributedTo e ∧ (dto.outputShape = .full →
          i ∈ hit.facts.map (fun x => x.factId) ∨ hit.facts.length = 5) := by
  obtain ⟨hnew, hold⟩ := stored_of_ingestFact hingest
  refine ⟨fun hstale j hj hit hhit => ?_, ?_⟩
  · obtain ⟨f, hf, huntil⟩ := hold j hj
    exact not_shown_of_ended hhit hf huntil hbegan hstale
  · rintro e rfl hasks hallow hcuts hthere i hi
    obtain ⟨f, hf, hstored⟩ := hnew i hi
    rw [← hstored.entityId] at hthere ⊢
    exact hcuts.exists_hit hp hf (hstored.admitted hasks hbegan) (hstored.predicate ▸ hallow)
      (Or.inl ⟨hasks.mode, hstored.embedded⟩) hthere

end Search

/-- A mention of where ada lives. -/
def livesIn (city : String) (validFrom : Time) : IngestFactDto where
  entityRef := .external "rent" "ada"
  predicate := "city"
  object := city
  validFrom := validFrom

/-- The tenant after she has moved from London to Berlin. -/
def moveToBerlin : Except IngestError ResolveResult × Store :=
  let denv : DbEnv := { now := 0, sourceTrust := [] }
  let cfg : IngestConfig := .uniform .single_active
  ingestFact cfg denv (ingestFact cfg denv .empty (livesIn "London" 0)).2 (livesIn "Berlin" 10)

/-- What the search for her shows. -/
theorem ingest_then_search_move : ∃ r, moveToBerlin.1 = .ok r ∧ r.factId? = some 1 ∧
    r.supersededFactIds = [0] ∧
    ∀ db : SearchDb, db = { store := moveToBerlin.2 } →
      (∀ hit ∈ search (matchAllEnv {}) db
          { query := "ada", asOf := some 10, includeContested := true } [],
        0 ∉ hit.facts.map (fun x => x.factId)) ∧
      ∃ hit ∈ search (matchAllEnv {}) db
          { query := "ada", asOf := some 10, includeContested := true } [],
        hit.entityId = 0 ∧
        (1 ∈ hit.facts.map (fun x => x.factId) ∨ hit.facts.length = 5) := by
  have hid : moveToBerlin.1.toOption.bind ResolveResult.factId? = some 1 := by decide +kernel
  have hold : moveToBerlin.1.toOption.map ResolveResult.supersededFactIds = some [0] := by
    decide +kernel
  cases hr : moveToBerlin.1 with
  | error e =>
      rw [hr] at hid
      cases hid
  | ok r =>
      rw [hr] at hid hold
      have hold : r.supersededFactIds = [0] := Option.some.inj hold
      refine ⟨r, rfl, hid, hold, ?_⟩
      rintro db rfl
      obtain ⟨hgone, hfound⟩ := ingest_then_search (.uniform .single_active)
        { now := 0, sourceTrust := [] } (ingestFact (.uniform .single_active)
          { now := 0, sourceTrust := [] } .empty (livesIn "London" 0)).2 (livesIn "Berlin" 10) r
        (matchAllEnv {}) ⟨fun _ h => (by cases h), fun _ h => (by cases h)⟩
        { store := moveToBerlin.2 } (Prod.ext hr rfl)
        { query := "ada", asOf := some 10, includeContested := true } []
        (by decide)
      refine ⟨hgone (fun h => by cases h) 0 (hold ▸ List.mem_singleton_self 0), ?_⟩
      obtain ⟨hit, hhit, hentity, hfact⟩ := hfound 0 (by decide +kernel)
        ⟨fun u hu => (by cases hu), fun _ => rfl, fun c hc => (by cases hc),
          fun h => absurd rfl h, fun h => absurd rfl h, fun l l' _ h => (by cases h),
          (by decide)⟩ (by decide)
        ⟨⟨rfl, rfl, rfl, rfl⟩, (by unfold FitsLegs; decide +kernel), (by decide +kernel),
          fun h => absurd h (by decide)⟩
        (fun m hm => by
          have hnone : moveToBerlin.2.mergedInto 0 = none := by decide +kernel
          rw [hnone] at hm
          cases hm) 1 hid
      have hseat : moveToBerlin.2.attributedTo 0 = 0 := by decide +kernel
      exact ⟨hit, hhit, hentity.trans hseat, hfact rfl⟩

/-! ## After a retract -/

/-- A retract that is carried out reaches its fact and what derives from it. -/
theorem retractedAt_afterRetract {s : Store} {root j : FactId}
    {callerScopes : Option (List BrainScope)} (now : Time) (body : RetractFactDto)
    (hout : CarriesOut s root callerScopes) (hj : j = root ∨ Derives s.facts root j) :
    ∃ f, (afterRetract s now root body callerScopes).facts.get? j = some f ∧
      f.retractedAt ≠ none := by
  by_cases hroot : j = root
  · have ⟨f, hf, _⟩ := hout
    rw [← hroot] at hf
    exact ⟨_, (get?_afterRetract_of_get? body hout now hf).1 hroot, Option.some_ne_none _⟩
  · have hd := hj.resolve_left hroot
    obtain ⟨f, hf⟩ : ∃ f, s.facts.get? j = some f := by
      cases hd with
      | single h => exact ⟨_, h.choose_spec.1⟩
      | tail _ h => exact ⟨_, h.choose_spec.1⟩
    exact ⟨_, (get?_afterRetract_of_get? body hout now hf).2.1 hroot hd, Option.some_ne_none _⟩

/-- **A retract is for good.** What is retracted, and what derived from it, is not shown
after any operations that the tenant goes through then, unless retracted facts are asked
for. -/
theorem retract_then_search {fns : SurrealFns} {C D : Store → TenantOp → Prop} {s s' : Store}
    {root : FactId} {callerScopes : Option (List BrainScope)} (now : Time) (body : RetractFactDto)
    (hs : TenantReaches fns C s) (hout : CarriesOut s root callerScopes)
    (hs' : Runs.Reached (execTenant fns) D (afterRetract s now root body callerScopes) s')
    (env : SearchEnv) (db : SearchDb) (hdb : db.store.facts = s'.facts) (dto : SearchRequest)
    (scopes : List BrainScope) (hreq : dto.includeRetracted = false) :
    ∀ j, j = root ∨ Derives s.facts root j →
      ∀ hit ∈ search env db dto scopes, j ∉ hit.facts.map (fun x => x.factId) := by
  intro j hj hit hhit hmem
  have hbooks := books_of_tenantReaches hs
  have hat := retractedAt_afterRetract now body hout hj
  have hkept : Books s'.facts ∧ ∃ f, s'.facts.get? j = some f ∧ f.retractedAt ≠ none := by
    refine hs'.invariant (P := fun s => Books s.facts ∧ ∃ f, s.facts.get? j = some f ∧
      f.retractedAt ≠ none)
      ⟨@Books.execTenant fns _ hbooks (.fact (.retract now root body callerScopes)), hat⟩ ?_
    rintro s op ⟨hb, f, hf, hne⟩ _
    obtain ⟨f', hf', hcont⟩ := (carries_execTenant hb op).2 j f hf
    refine ⟨hb.execTenant op, f', hf', ?_⟩
    rw [KnowledgeFact.retractedAt_of_ending (hcont.closed hne)]
    exact hne
  obtain ⟨_, f, hf, hne⟩ := hkept
  obtain ⟨x, hx, rfl⟩ := List.mem_map.mp hmem
  obtain ⟨hasked, _⟩ := asked_of_mem_search hhit x hx f (hdb ▸ hf)
  exact hne (hasked.standing hreq)

/-- A tenant with two entities of the names, and the facts of the store. -/
def withNames (s : Store) : SearchDb where
  store :=
    { s with
      entities := (KeyedTable.empty.insert { type := "person", canonicalName := "ada" }).insert
        { type := "person", canonicalName := "bob" } }

/-- An address that is retracted, and another one that is ingested then. -/
theorem retract_then_search_address :
    (search (matchAllEnv {}) (withNames (ingestAll .atRecording .empty [addressFrom 0]))
      { query := "bob" } [.read_pii]).map (fun hit => hit.facts.map (fun x => x.factId)) = [[0]] ∧
    ∀ hit ∈ search (matchAllEnv {}) (withNames (execTenant .atRecording (afterRetract
        (ingestAll .atRecording .empty [addressFrom 0]) 5 0 ⟨"typo", .human⟩ none)
          (.fact (.ingest (addressFrom 0).env (addressFrom 0).args)))) { query := "bob" }
          [.read_pii],
      0 ∉ hit.facts.map (fun x => x.factId) :=
  ⟨by decide +kernel, retract_then_search (C := fun _ _ => True) (D := fun _ _ => True) 5
    ⟨"typo", .human⟩ (tenantReaches_ingestAll _ (fun _ _ => trivial)) ⟨_, rfl, rfl, rfl⟩
    (.next _ .start trivial) (matchAllEnv {}) _ rfl { query := "bob" } [.read_pii] rfl 0
    (Or.inl rfl)⟩

end Brain
