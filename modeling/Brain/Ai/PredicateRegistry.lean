/-
`src/src/ai/predicate-registry-internals/core-seed.ts`: the predicates that every
tenant starts with, and `policyFor` of `src/src/ingest/conflict-resolver.ts`, which
looks a predicate up among them. The columns are those that `policyFor` reads.
-/
import Brain.Entities.EntitiesService
import Brain.Ingest.ConflictResolver

set_option autoImplicit false

namespace Brain

/-- `PredicateDefinition`, as far as `policyFor` reads it. -/
structure PredicateDefinition where
  predicateId : String
  semantics : Semantics
  decayHalfLifeDays : Option ℕ
  piiClass : String
  requiresScope : Option BrainScope := none

/-- `CORE_PREDICATES`. -/
def CORE_PREDICATES : List PredicateDefinition :=
  [{ predicateId := "said", semantics := .append_only, decayHalfLifeDays := some 30,
     piiClass := "text" },
   { predicateId := "name", semantics := .single_active, decayHalfLifeDays := none,
     piiClass := "identifier" },
   { predicateId := "email", semantics := .single_active, decayHalfLifeDays := none,
     piiClass := "identifier" },
   { predicateId := "phone", semantics := .single_active, decayHalfLifeDays := none,
     piiClass := "identifier" },
   { predicateId := "dob", semantics := .single_active, decayHalfLifeDays := none,
     piiClass := "sensitive", requiresScope := some .read_pii },
   { predicateId := "status", semantics := .single_active, decayHalfLifeDays := some 7,
     piiClass := "none" },
   { predicateId := "tier", semantics := .single_active, decayHalfLifeDays := some 30,
     piiClass := "none" },
   { predicateId := "address", semantics := .single_active, decayHalfLifeDays := some 90,
     piiClass := "sensitive", requiresScope := some .read_pii },
   { predicateId := "preference", semantics := .append_only, decayHalfLifeDays := some 90,
     piiClass := "behavioral" },
   { predicateId := "intent", semantics := .append_only, decayHalfLifeDays := some 60,
     piiClass := "behavioral" },
   { predicateId := "complained_about", semantics := .append_only, decayHalfLifeDays := some 90,
     piiClass := "text" },
   { predicateId := "interacted_with", semantics := .append_only, decayHalfLifeDays := some 30,
     piiClass := "behavioral" },
   { predicateId := "brand_voice", semantics := .single_active, decayHalfLifeDays := some 180,
     piiClass := "none" },
   { predicateId := "brand_archetype", semantics := .single_active, decayHalfLifeDays := none,
     piiClass := "none" },
   { predicateId := "tone_of_voice", semantics := .single_active, decayHalfLifeDays := some 180,
     piiClass := "none" },
   { predicateId := "product_description", semantics := .single_active,
     decayHalfLifeDays := some 180, piiClass := "none" },
   { predicateId := "target_audience_segment", semantics := .append_only,
     decayHalfLifeDays := some 90, piiClass := "none" },
   { predicateId := "content_guideline", semantics := .append_only,
     decayHalfLifeDays := some 365, piiClass := "none" },
   { predicateId := "tension_point", semantics := .append_only, decayHalfLifeDays := some 90,
     piiClass := "none" },
   { predicateId := "reference_example", semantics := .append_only, decayHalfLifeDays := none,
     piiClass := "none" },
   { predicateId := "narrative_pillar", semantics := .append_only, decayHalfLifeDays := some 365,
     piiClass := "none" },
   { predicateId := "forbidden_pattern", semantics := .append_only, decayHalfLifeDays := none,
     piiClass := "none" }]

/-- The entry of a predicate. -/
def coreSeed (predicate : String) : Option PredicateDefinition :=
  CORE_PREDICATES.find? (fun p => p.predicateId == predicate)

/-- `policyFor`, less the scope. -/
def policyFor (predicate : String) : PredicatePolicy :=
  match coreSeed predicate with
  | none => DEFAULT_POLICY
  | some seed =>
      { semantics := seed.semantics, decayHalfLifeDays := seed.decayHalfLifeDays,
        piiClass := seed.piiClass }

/-- The scope of `policyFor` is the one that the entry asks for; the default policy
asks for none. -/
theorem requiresScope_eq (predicate : String) :
    requiresScope predicate = (coreSeed predicate).bind (fun seed => seed.requiresScope) := by
  unfold requiresScope coreSeed
  by_cases hdob : predicate = "dob"
  · subst hdob
    decide
  · by_cases haddress : predicate = "address"
    · subst haddress
      decide
    · have hlist : ["dob", "address"].contains predicate = false := by simp [hdob, haddress]
      rw [hlist, if_neg Bool.false_ne_true, eq_comm, Option.bind_eq_none_iff]
      intro seed hseed
      have hid : seed.predicateId = predicate := by simpa using List.find?_some hseed
      have hmem := List.mem_of_find?_eq_some hseed
      -- only two entries ask for a scope
      have hscopes : ∀ p ∈ CORE_PREDICATES,
          p.predicateId = "dob" ∨ p.predicateId = "address" ∨ p.requiresScope = none := by
        decide
      rcases hscopes seed hmem with h | h | h
      · exact absurd (hid.symm.trans h) hdob
      · exact absurd (hid.symm.trans h) haddress
      · exact h

/-- A predicate that asks for a scope has one value at a time. -/
theorem semantics_of_requiresScope {predicate : String} (h : requiresScope predicate ≠ none) :
    (policyFor predicate).semantics = .single_active := by
  unfold requiresScope at h
  by_cases hlist : ["dob", "address"].contains predicate = true
  · rw [List.contains_iff_mem, List.mem_cons, List.mem_singleton] at hlist
    rcases hlist with rfl | rfl
    · decide
    · decide
  · rw [if_neg hlist] at h
    exact absurd rfl h

end Brain
