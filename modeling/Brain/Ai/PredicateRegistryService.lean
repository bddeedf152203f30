/-
`src/src/ai/predicate-registry.service.ts`: the registry of a tenant's predicates,
as far as `policyFor` reads it.

A tenant starts with `CORE_PREDICATES` and may add predicates of its own. The
service answers from a snapshot of the active rows, or, where none is loaded yet,
from the seed. Scopes are plain strings in the registry, so it can ask for one that
no caller holds.
-/
import Brain.Ai.PredicateRegistry
import Brain.Lib.InsertionMap

set_option autoImplicit false

namespace Brain

/-- A scope as tokens and the registry write it. -/
def BrainScope.text : BrainScope → String
  | .read => "brain:read"
  | .write => "brain:write"
  | .admin => "brain:admin"
  | .read_pii => "brain:read_pii"

theorem BrainScope.text_injective : Function.Injective BrainScope.text := by
  intro a b h
  cases a <;> cases b <;> first | rfl | (revert h; decide)

/-- `PredicateStatus`. -/
inductive PredicateStatus where
  | active | proposed | aliased | deprecated
deriving DecidableEq, Repr

/-- A row of `knowledge_predicate`. -/
structure TenantPredicate where
  predicateId : String
  semantics : Semantics
  decayHalfLifeDays : Option ℕ
  piiClass : String
  requiresScope : Option String := none
  status : PredicateStatus := .active

/-- `deserializeFromRow`: the empty string is no scope. -/
def deserializeFromRow (row : TenantPredicate) : TenantPredicate :=
  { row with requiresScope := row.requiresScope.filter (fun scope => !scope.isEmpty) }

/-- `PredicateSnapshot`: the active predicates by their identifiers. -/
structure PredicateSnapshot where
  byId : InsertionMap String TenantPredicate

/-- `loadFresh`. -/
def loadFresh (rows : List TenantPredicate) : PredicateSnapshot where
  byId := .ofList (((rows.map deserializeFromRow).filter
    (fun def_ => def_.status == .active)).map (fun p => (p.predicateId, p)))

/-- An entry of the seed as a row. -/
def PredicateDefinition.toRow (p : PredicateDefinition) : TenantPredicate where
  predicateId := p.predicateId
  semantics := p.semantics
  decayHalfLifeDays := p.decayHalfLifeDays
  piiClass := p.piiClass
  requiresScope := p.requiresScope.map BrainScope.text

/-- `DEFAULT_FALLBACK`. -/
def DEFAULT_FALLBACK : TenantPredicate where
  predicateId := "__default__"
  semantics := .bitemporal
  decayHalfLifeDays := some 60
  piiClass := "none"

/-- `PredicateRegistryService.policyFor`; `cached` is what the cache holds for the
tenant. -/
def tenantPolicyFor (cached : Option PredicateSnapshot) (predicate : String) : TenantPredicate :=
  match cached.bind (fun snapshot => snapshot.byId.get? predicate) with
  | some hit => hit
  | none => ((coreSeed predicate).map PredicateDefinition.toRow).getD DEFAULT_FALLBACK

/-- Whether the registry lets a caller with these scopes see facts with the predicate. -/
def tenantAllows (cached : Option PredicateSnapshot) (scopes : List BrainScope)
    (predicate : String) : Bool :=
  match (tenantPolicyFor cached predicate).requiresScope with
  | none => true
  | some scope => (scopes.map BrainScope.text).contains scope

/-- Before a snapshot is loaded the registry is the seed. -/
theorem tenantAllows_none (scopes : List BrainScope) (predicate : String) :
    tenantAllows none scopes predicate = scopeAllows scopes predicate := by
  have hscope : (tenantPolicyFor none predicate).requiresScope
      = (requiresScope predicate).map BrainScope.text := by
    rw [requiresScope_eq, tenantPolicyFor, Option.bind_none]
    dsimp only
    cases coreSeed predicate with
    | none => rfl
    | some seed => rfl
  rw [tenantAllows, hscope, scopeAllows]
  cases requiresScope predicate with
  | none => rfl
  | some scope =>
      show (scopes.map BrainScope.text).contains scope.text = scopes.contains scope
      rw [Bool.eq_iff_iff, List.contains_iff_mem, List.contains_iff_mem]
      exact List.mem_map_of_injective BrainScope.text_injective

end Brain
