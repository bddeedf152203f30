/-
Who is told what by a cached briefing.

The process serves many callers and tenants from one cache. What an entry shows was
read for the caller who filled it, and later calls that hit it get it whatever they may
see, and whatever has been forgotten since. So the state of the process is followed with
two histories: for each key the call that filled it last, and the facts that have been
erased. A call is safe if what it returns is rendered from facts that its caller may see
and that are not erased; a call that misses always is, and one that hits is exactly if
the entry fits it (`safe_iff_fits`).
-/
import Brain.Entities.Forget
import Brain.Lib.Runs
import Brain.Lib.Statements
import Brain.SummarizeEntity.SummarizeEntityService

set_option autoImplicit false

namespace Brain

/-! ## Histories -/

/-- A call that filled an entry, with what it read. -/
structure BriefingFill where
  companyId : String
  scopes : List BrainScope
  style : SummarizeStyle
  profile : EntityProfile

/-- The tenant databases and the process, with its history. -/
structure BriefingState where
  dbs : String → TenantDb
  cache : InsertionMap String CachedSummary := .empty
  fills : String → Option BriefingFill := fun _ => none
  erased : List (String × FactId) := []

/-- What happens. The writes to the fact and entity tables of a tenant are statements. -/
inductive BriefingOp where
  | summarize (companyId : String) (args : SummarizeArgs) (scopes : List BrainScope)
  | writeFact (companyId : String) (c : KeyedTable.Statement KnowledgeFact)
  | writeEntity (companyId : String) (c : KeyedTable.Statement KnowledgeEntity)
  | forget (call : ForgetCall)

namespace BriefingState

/-- Another database for one tenant. -/
def setDb (h : BriefingState) (companyId : String) (db : TenantDb) : BriefingState :=
  { h with dbs := Function.update h.dbs companyId db }

/-- The call that the answer to a call is rendered by: the one that filled the entry, or
the call itself. -/
def origin (env : SummarizeEnv) (h : BriefingState) (companyId : String) (args : SummarizeArgs)
    (scopes : List BrainScope) : Option BriefingFill :=
  match h.cache.get? (buildCacheKey env companyId args) with
  | some _ => h.fills (buildCacheKey env companyId args)
  | none =>
      match getProfile (h.dbs companyId).toStore (env.recordOf args.entityId)
          (args.asOf.map env.dateOf) scopes with
      | .error _ => none
      | .ok profile =>
          some { companyId := companyId, scopes := scopes,
                 style := args.styleHint.getD .neutral, profile := profile }

/-- The state after a step. -/
def next (env : SummarizeEnv) (hmac : String → String) (h : BriefingState) :
    BriefingOp → BriefingState
  | .summarize companyId args scopes =>
      { h with
        cache := (SummarizeEntityService.summarize env (h.dbs companyId).toStore h.cache companyId
          args scopes).2
        fills := Function.update h.fills (buildCacheKey env companyId args)
          ((h.origin env companyId args scopes).or (h.fills (buildCacheKey env companyId args))) }
  | .writeFact companyId c =>
      h.setDb companyId { h.dbs companyId with facts := c.exec (h.dbs companyId).facts }
  | .writeEntity companyId c =>
      h.setDb companyId { h.dbs companyId with entities := c.exec (h.dbs companyId).entities }
  | .forget call =>
      let db := h.dbs call.companyId
      let after := h.setDb call.companyId (Brain.forget hmac call db).2
      match (Brain.forget hmac call db).1 with
      -- a call that throws may have deleted, but erasure is promised by a call that returns
      | .error _ => after
      | .ok _ =>
          { after with
            erased := (db.factIdsOf call.entityId).map (fun i => (call.companyId, i)) ++ h.erased }

end BriefingState

/-- **A call is safe**: its answer is rendered from a profile that shows only facts that
the caller may see and that have not been erased. -/
def BriefingOp.Safe (env : SummarizeEnv) (h : BriefingState) : BriefingOp → Prop
  | .summarize companyId args scopes =>
      ∀ r, (SummarizeEntityService.summarize env (h.dbs companyId).toStore h.cache companyId args
          scopes).1 = .ok r →
        ∃ fill, h.origin env companyId args scopes = some fill ∧
          r.summary = renderSummary fill.profile fill.style ∧
          ∀ f ∈ topFacts fill.profile.facts,
            scopeAllows scopes f.predicate = true ∧ (fill.companyId, f.factId) ∉ h.erased
  | _ => True

/-- **The entry fits a call that hits it**: of the facts that it shows the caller may see
those that the filling caller might see, and none has been erased since. -/
def BriefingOp.Fits (env : SummarizeEnv) (h : BriefingState) : BriefingOp → Prop
  | .summarize companyId args scopes =>
      ∀ hit fill, h.cache.get? (buildCacheKey env companyId args) = some hit →
        h.fills (buildCacheKey env companyId args) = some fill →
          ∀ f ∈ topFacts fill.profile.facts,
            (scopeAllows fill.scopes f.predicate = true → scopeAllows scopes f.predicate = true) ∧
              (fill.companyId, f.factId) ∉ h.erased
  | _ => True

/-! ## The histories are right -/

/-- What a run keeps. -/
structure BriefingState.Consistent (h : BriefingState) : Prop where
  /-- An entry is the rendering of what its call read. -/
  rendered : ∀ p ∈ h.cache.entries, ∃ fill, h.fills p.1 = some fill ∧
    p.2.summary = renderSummary fill.profile fill.style
  /-- A call reads what its caller may see. -/
  allowed : ∀ key fill, h.fills key = some fill → ∀ f ∈ fill.profile.facts,
    scopeAllows fill.scopes f.predicate = true
  /-- What has been erased is not stored again. -/
  gone : ∀ p ∈ h.erased, p.2 < (h.dbs p.1).facts.next ∧ (h.dbs p.1).facts.get? p.2 = none

section Runs

variable {env : SummarizeEnv} {hmac : String → String} {h : BriefingState}

/-- A statement does not store a row under an old identifier. -/
theorem gone_exec {ρ : Type} {t : KeyedTable ρ} {i : ℕ} (c : KeyedTable.Statement ρ)
    (h : i < t.next ∧ t.get? i = none) : i < (c.exec t).next ∧ (c.exec t).get? i = none := by
  obtain ⟨hlt, hnone⟩ := h
  cases c with
  | create r =>
      refine ⟨Nat.lt_succ_of_lt hlt, ?_⟩
      show (t.insert r).get? i = none
      -- a new row takes the next identifier, and `i` is below it
      rw [KeyedTable.get?_insert, if_neg (Nat.ne_of_lt hlt), hnone]
  | update j f =>
      refine ⟨hlt, ?_⟩
      show (t.update j f).get? i = none
      rw [KeyedTable.get?_update, hnone]
      split <;> rfl
  | updateWhere p f =>
      refine ⟨hlt, ?_⟩
      show (t.modify p f).get? i = none
      rw [KeyedTable.get?_modify, hnone]
      rfl

theorem BriefingState.Consistent.setDb (hc : h.Consistent) {companyId : String} {db : TenantDb}
    (hdb : ∀ i, i < (h.dbs companyId).facts.next ∧ (h.dbs companyId).facts.get? i = none →
      i < db.facts.next ∧ db.facts.get? i = none) : (h.setDb companyId db).Consistent := by
  refine ⟨hc.rendered, hc.allowed, ?_⟩
  rintro ⟨c, i⟩ hp
  have hgone := hc.gone (c, i) hp
  -- erased facts of other tenants are in databases that stay as they are
  by_cases heq : c = companyId
  · subst heq
    rw [BriefingState.setDb]
    simp only [Function.update_self]
    exact hdb i hgone
  · rw [BriefingState.setDb]
    simp only [Function.update_of_ne heq]
    exact hgone

/-- The store of facts after an erasure. -/
theorem gone_forget {call : ForgetCall} {db : TenantDb} {i : FactId}
    (hi : i < db.facts.next ∧ db.facts.get? i = none) :
    i < (forget hmac call db).2.facts.next ∧ (forget hmac call db).2.facts.get? i = none := by
  by_cases he : db.HasEntity call.entityId
  · rw [facts_forget he, KeyedTable.next_deleteWhere, KeyedTable.get?_deleteWhere, hi.2]
    exact ⟨hi.1, rfl⟩
  · rw [forget_of_not_hasEntity he]
    exact hi

theorem gone_of_mem_factIdsOf {call : ForgetCall} {db : TenantDb} {i : FactId}
    (he : db.HasEntity call.entityId) (hi : i ∈ db.factIdsOf call.entityId) :
    i < (forget hmac call db).2.facts.next ∧ (forget hmac call db).2.facts.get? i = none := by
  obtain ⟨f, hf, hfe⟩ := mem_factIdsOf.mp hi
  rw [facts_forget he, KeyedTable.next_deleteWhere, KeyedTable.get?_deleteWhere, hf]
  refine ⟨KeyedTable.get?_lt_next hf, ?_⟩
  rw [Option.filter_some, if_neg (by simp [hfe])]

theorem origin_of_hit {companyId : String} {args : SummarizeArgs} {scopes : List BrainScope}
    {hit : CachedSummary} (hget : h.cache.get? (buildCacheKey env companyId args) = some hit) :
    h.origin env companyId args scopes = h.fills (buildCacheKey env companyId args) := by
  simp only [BriefingState.origin, hget]

theorem origin_of_miss {companyId : String} {args : SummarizeArgs} {scopes : List BrainScope}
    {profile : EntityProfile} (hget : h.cache.get? (buildCacheKey env companyId args) = none)
    (hprofile : getProfile (h.dbs companyId).toStore (env.recordOf args.entityId)
      (args.asOf.map env.dateOf) scopes = .ok profile) :
    h.origin env companyId args scopes
      = some { companyId := companyId, scopes := scopes, style := args.styleHint.getD .neutral,
               profile := profile } := by
  simp only [BriefingState.origin, hget, hprofile]

theorem origin_of_error {companyId : String} {args : SummarizeArgs} {scopes : List BrainScope}
    {e : HttpError} (hget : h.cache.get? (buildCacheKey env companyId args) = none)
    (hprofile : getProfile (h.dbs companyId).toStore (env.recordOf args.entityId)
      (args.asOf.map env.dateOf) scopes = .error e) :
    h.origin env companyId args scopes = none := by
  simp only [BriefingState.origin, hget, hprofile]

/-- The histories stay right when a briefing is asked for. -/
theorem BriefingState.Consistent.summarize (hc : h.Consistent) (companyId : String)
    (args : SummarizeArgs) (scopes : List BrainScope) :
    (h.next env hmac (.summarize companyId args scopes)).Consistent := by
  rw [BriefingState.next]
  cases hget : h.cache.get? (buildCacheKey env companyId args) with
  | some hit =>
      rw [summarize_of_hit hget, origin_of_hit hget]
      -- a hit is filed under the call that filled the entry, which is there already
      have hsame : Function.update h.fills (buildCacheKey env companyId args)
          ((h.fills (buildCacheKey env companyId args)).or
            (h.fills (buildCacheKey env companyId args))) = h.fills := by
        rw [Option.or_self, Function.update_eq_self]
      rw [hsame]
      -- moving an entry to the end changes the order only
      exact ⟨fun p hp => hc.rendered p (InsertionMap.mem_of_mem_touch hget hp), hc.allowed, hc.gone⟩
  | none =>
      cases hprofile : getProfile (h.dbs companyId).toStore (env.recordOf args.entityId)
          (args.asOf.map env.dateOf) scopes with
      | error e =>
          -- nothing is cached for a profile that cannot be read
          rw [summarize_of_error hget hprofile, origin_of_error hget hprofile, Option.none_or,
            Function.update_eq_self]
          exact hc
      | ok profile =>
          rw [summarize_of_miss hget hprofile, origin_of_miss hget hprofile, Option.some_or]
          refine ⟨?_, ?_, hc.gone⟩
          · intro p hp
            dsimp only
            rcases InsertionMap.mem_entries_set (InsertionMap.mem_of_mem_evict hp) with rfl | hmem
            · exact ⟨_, Function.update_self _ _ _, rfl⟩
            · -- an older entry stands under another key
              have hne : p.1 ≠ buildCacheKey env companyId args := by
                intro heq
                have hmem' : (buildCacheKey env companyId args, p.2) ∈ h.cache.entries := by
                  rw [← heq]
                  exact hmem
                rw [InsertionMap.get?_of_mem hmem'] at hget
                cases hget
              rw [Function.update_of_ne hne]
              exact hc.rendered p hmem
          · intro key fill hfill f hf
            dsimp only at hfill
            -- the new entry shows what its own caller may see; the others are as they were
            by_cases hkey : key = buildCacheKey env companyId args
            · rw [hkey, Function.update_self, Option.some.injEq] at hfill
              subst hfill
              exact (mem_facts_of_getProfile hprofile hf).1
            · rw [Function.update_of_ne hkey] at hfill
              exact hc.allowed key fill hfill f hf

/-- **The histories stay right.** -/
theorem BriefingState.Consistent.next (hc : h.Consistent) (op : BriefingOp) :
    (h.next env hmac op).Consistent := by
  cases op with
  | summarize companyId args scopes => exact hc.summarize companyId args scopes
  | writeFact companyId c => exact hc.setDb (fun i hi => gone_exec c hi)
  | writeEntity companyId c => exact hc.setDb (fun i hi => hi)
  | forget call =>
      have hafter : (h.setDb call.companyId (forget hmac call (h.dbs call.companyId)).2).Consistent :=
        hc.setDb (fun i hi => gone_forget hi)
      cases hres : (forget hmac call (h.dbs call.companyId)).1 with
      | error e =>
          simp only [BriefingState.next, hres]
          exact hafter
      | ok r =>
          have he := (forget_succeeds_iff.mp ⟨r, hres⟩).1
          simp only [BriefingState.next, hres]
          refine ⟨hafter.rendered, hafter.allowed, ?_⟩
          intro p hp
          -- what this call erases, and what was erased before
          rcases List.mem_append.mp hp with hp | hp
          · obtain ⟨i, hi, rfl⟩ := List.mem_map.mp hp
            simp only [BriefingState.setDb, Function.update_self]
            exact gone_of_mem_factIdsOf he hi
          · exact hafter.gone p hp

/-! ## Safe calls -/

/-- **A call is safe exactly if the entry that it hits fits it.** -/
theorem safe_iff_fits (hc : h.Consistent) (op : BriefingOp) : op.Safe env h ↔ op.Fits env h := by
  cases op with
  | summarize companyId args scopes =>
      cases hget : h.cache.get? (buildCacheKey env companyId args) with
      | some hit =>
          -- the answer is what the filling call read, so both sides are about its facts
          obtain ⟨fill, hfill, hsummary⟩ := hc.rendered _ (InsertionMap.mem_of_get? hget)
          simp only [BriefingOp.Safe, BriefingOp.Fits, summarize_of_hit hget, origin_of_hit hget,
            hget, hfill]
          constructor
          · intro hsafe hit' fill' hhit' hfill' f hf
            obtain rfl := Option.some.inj hfill'
            obtain ⟨fill', hfill', _, hall⟩ := hsafe _ rfl
            obtain rfl := Option.some.inj hfill'
            exact ⟨fun _ => (hall f hf).1, (hall f hf).2⟩
          · intro hfits r hr
            obtain rfl := Except.ok.inj hr
            refine ⟨fill, rfl, hsummary, fun f hf => ?_⟩
            obtain ⟨hscope, herased⟩ := hfits hit fill rfl rfl f hf
            exact ⟨hscope (hc.allowed _ fill hfill f (mem_of_mem_topFacts hf)), herased⟩
      | none =>
          -- a miss fits, since there is no entry, and is safe, since it reads the database
          have hfits : (BriefingOp.summarize companyId args scopes).Fits env h := by
            intro hit fill hhit
            rw [hget] at hhit
            cases hhit
          refine ⟨fun _ => hfits, fun _ r hr => ?_⟩
          cases hprofile : getProfile (h.dbs companyId).toStore (env.recordOf args.entityId)
              (args.asOf.map env.dateOf) scopes with
          | error e =>
              rw [summarize_of_error hget hprofile] at hr
              cases hr
          | ok profile =>
              rw [summarize_of_miss hget hprofile] at hr
              obtain rfl := Except.ok.inj hr
              refine ⟨_, origin_of_miss hget hprofile, rfl, fun f hf => ?_⟩
              obtain ⟨hscope, g, hg, _⟩ := mem_facts_of_getProfile hprofile (mem_of_mem_topFacts hf)
              refine ⟨hscope, fun herased => ?_⟩
              -- an erased fact is not stored, so no profile shows it
              rw [(hc.gone _ herased).2] at hg
              cases hg
  | writeFact companyId c => exact Iff.rfl
  | writeEntity companyId c => exact Iff.rfl
  | forget call => exact Iff.rfl

/-- A process that has just started. -/
def BriefingState.start (dbs : String → TenantDb) : BriefingState := { dbs := dbs }

theorem consistent_foldl (env : SummarizeEnv) (hmac : String → String) (dbs : String → TenantDb)
    (ops : List BriefingOp) :
    (ops.foldl (BriefingState.next env hmac) (BriefingState.start dbs)).Consistent := by
  have hstart : Runs.Reached (BriefingState.next env hmac) (fun _ _ => True)
      (BriefingState.start dbs) (BriefingState.start dbs) := .start
  -- at the start nothing is cached and nothing has been erased
  refine (Runs.reached_foldl hstart ops).invariant ?_ (fun s op hc _ => hc.next op)
  refine ⟨?_, ?_, ?_⟩
  · intro p hp
    cases hp
  · intro key fill hfill
    cases hfill
  · intro p hp
    cases hp

/-- **When no briefing tells too much**: in a run every call is safe exactly if every call
that hits the cache hits an entry that fits it. -/
theorem briefings_safe_iff (env : SummarizeEnv) (hmac : String → String)
    (dbs : String → TenantDb) (ops : List BriefingOp) :
    (∀ p op, p ++ [op] <+: ops →
        op.Safe env (p.foldl (BriefingState.next env hmac) (BriefingState.start dbs))) ↔
      ∀ p op, p ++ [op] <+: ops →
        op.Fits env (p.foldl (BriefingState.next env hmac) (BriefingState.start dbs)) := by
  constructor
  · intro hsafe p op hp
    exact (safe_iff_fits (consistent_foldl env hmac dbs p) op).mp (hsafe p op hp)
  · intro hfits p op hp
    exact (safe_iff_fits (consistent_foldl env hmac dbs p) op).mpr (hfits p op hp)

end Runs

/-! ## A briefing that is told to others -/

/-- A tenant with a person whose address is on record. -/
def annDb : TenantDb where
  entities := KeyedTable.empty.insert { type := "person", canonicalName := "Ann" }
  facts := KeyedTable.empty.insert
    { entityId := 0, predicate := "address", object := "1 Elm St", confidence := .full,
      validFrom := 0, recordedAt := 0, source := {} }

/-- The names that these runs use. -/
def annEnv : SummarizeEnv := { sha256 := id, recordOf := fun _ => 0, dateOf := fun _ => 0 }

/-- A briefing about the person. -/
def annArgs : SummarizeArgs := { entityId := "0" }

/-- The erasure of the person. -/
def eraseAnn : ForgetCall where
  companyId := "co"
  entityId := 0
  dto := { reason := .gdpr_request, requestId := "r1" }
  now := 1

/-- The state after a caller with both scopes has asked. -/
def askedState : BriefingState :=
  [.summarize "co" annArgs [.read, .read_pii]].foldl (BriefingState.next annEnv id)
    (BriefingState.start (fun _ => annDb))

/-- The state after the person has been forgotten as well. -/
def forgottenState : BriefingState :=
  [.summarize "co" annArgs [.read, .read_pii], .forget eraseAnn].foldl
    (BriefingState.next annEnv id) (BriefingState.start (fun _ => annDb))

/-- What a briefing shows is enough to say that it is not safe. -/
theorem not_safe_of_shows {env : SummarizeEnv} {h : BriefingState} {companyId owner : String}
    {args : SummarizeArgs} {scopes : List BrainScope} {r : SummarizeResult} {f : ProfileFact}
    (hr : (SummarizeEntityService.summarize env (h.dbs companyId).toStore h.cache companyId args
      scopes).1 = .ok r)
    (hshown : (h.origin env companyId args scopes).map
      (fun fill => (fill.companyId, topFacts fill.profile.facts)) = some (owner, [f]))
    (hbad : scopeAllows scopes f.predicate = false ∨ (owner, f.factId) ∈ h.erased) :
    ¬ (BriefingOp.summarize companyId args scopes).Safe env h := by
  intro hsafe
  obtain ⟨fill, hfill, _, hall⟩ := hsafe r hr
  rw [hfill, Option.map_some, Option.some.injEq, Prod.mk.injEq] at hshown
  obtain ⟨hscope, herased⟩ := hall f (by rw [hshown.2]; exact List.mem_singleton_self f)
  -- the one fact that is shown may not be seen, or has been erased
  rcases hbad with hbad | hbad
  · rw [hbad] at hscope
    cases hscope
  · rw [hshown.1] at herased
    exact herased hbad

/-- **Both promises are broken**: a caller without `brain:read_pii` is told the address that
was cached for one with it, and the address is told after the person has been forgotten. -/
theorem address_told_by_cached_briefing :
    ¬ (BriefingOp.summarize "co" annArgs [.read]).Safe annEnv askedState ∧
      ¬ (BriefingOp.summarize "co" annArgs [.read, .read_pii]).Safe annEnv forgottenState := by
  constructor
  · have hr : (SummarizeEntityService.summarize annEnv (askedState.dbs "co").toStore
        askedState.cache "co" annArgs [.read]).1
        = .ok { entityId := 0, summary := "Ann (person): address=1 Elm St.",
                factsConsidered := 1, style := .neutral, asOf := none, cached := true } := by rfl
    exact not_safe_of_shows hr rfl (Or.inl rfl)
  · have hr : (SummarizeEntityService.summarize annEnv (forgottenState.dbs "co").toStore
        forgottenState.cache "co" annArgs [.read, .read_pii]).1
        = .ok { entityId := 0, summary := "Ann (person): address=1 Elm St.",
                factsConsidered := 1, style := .neutral, asOf := none, cached := true } := by rfl
    have herased : forgottenState.erased = [("co", 0)] := by rfl
    refine not_safe_of_shows hr rfl (Or.inr ?_)
    rw [herased]
    exact List.mem_singleton_self _

end Brain
