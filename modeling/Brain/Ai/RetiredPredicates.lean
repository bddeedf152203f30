/-
Predicates that an operator has retired. `deprecate` sets the status and drops the snapshot,
and the active set no longer has the predicate. `canonicalize` then takes it for a novel one:
there is no direct hit, and the row that it proposes is refused by the index, because the
deprecated row is still there. So the answer is the retired predicate itself, unless the
context is close enough to an active predicate (`canonicalId_not_retired_iff`).
-/
import Brain.Ai.StableCanonicalization

set_option autoImplicit false

namespace Brain

/-! ## 1. Retired predicates -/

/-- The predicate is deprecated. -/
def IsDeprecated (rows : List RegistryRow) (p : String) : Prop :=
  ∃ row ∈ rows, row.predicateId = p ∧ row.status = .deprecated

instance (rows : List RegistryRow) (p : String) : Decidable (IsDeprecated rows p) :=
  inferInstanceAs (Decidable (∃ row ∈ rows, row.predicateId = p ∧ row.status = .deprecated))

/-- The predicate is deprecated, or its aliases end in one that is. -/
def Retired (rows : List RegistryRow) (p : String) : Prop :=
  ∃ n d, Forest.ancestor (aliasOf rows) n p = some d ∧ IsDeprecated rows d

section Retired

variable {rows : List RegistryRow} {row : RegistryRow} {p c d : String}

theorem retired_self (h : IsDeprecated rows p) : Retired rows p := ⟨0, p, rfl, h⟩

/-- A deprecated predicate points nowhere. -/
theorem aliasOf_eq_none_of_isDeprecated (h : UniqueIds rows) (hd : IsDeprecated rows d) :
    aliasOf rows d = none := by
  obtain ⟨row, hrow, rfl, hstatus⟩ := hd
  rw [aliasOf_of_mem h hrow, RegistryRow.target, hstatus]
  rfl

theorem not_isDeprecated_of_isActive (h : UniqueIds rows) (hactive : IsActive rows p) :
    ¬ IsDeprecated rows p := by
  obtain ⟨row, hrow, rfl, hstatus⟩ := hactive
  rintro ⟨row', hrow', hid, hstatus'⟩
  rw [List.inj_on_of_nodup_map h hrow' hrow hid, hstatus] at hstatus'
  cases hstatus'

/-- A chain has one end, so a retired predicate resolves to nothing. -/
theorem Retired.not_resolves (hretired : Retired rows p) (h : UniqueIds rows) :
    ¬ Resolves rows p c := by
  obtain ⟨n, d, hn, hd⟩ := hretired
  rintro ⟨m, _, hm, hactive⟩
  have hend : d = c := Forest.Root.unique ⟨⟨n, hn⟩, aliasOf_eq_none_of_isDeprecated h hd⟩
    ⟨⟨m, hm⟩, aliasOf_eq_none_of_isActive h hactive⟩
  rw [hend] at hd
  exact not_isDeprecated_of_isActive h hactive hd

theorem not_retired_of_isActive (h : UniqueIds rows) (hactive : IsActive rows c) :
    ¬ Retired rows c :=
  fun hretired => hretired.not_resolves h (resolves_self hactive)

/-- One more row leaves the retired predicates retired. -/
theorem Retired.append (hretired : Retired rows p) : Retired (rows ++ [row]) p := by
  obtain ⟨n, d, hn, row', hrow', hid, hstatus⟩ := hretired
  have hup : ∀ x y, aliasOf rows x = some y → aliasOf (rows ++ [row]) x = some y :=
    fun _ _ ha => aliasOf_append_of_some ha
  have hn' := Forest.ancestor_mono hup p hn
  exact ⟨n, d, hn', row', List.mem_append_left _ hrow', hid, hstatus⟩

end Retired

/-! ## 2. What an operator does -/

/-- A row with another status. -/
def RegistryRow.withStatus (row : RegistryRow) (status : PredicateStatus) : RegistryRow :=
  { row with status := status }

/-- The rows after `UPDATE ... WHERE predicateId = $pid`. -/
def setStatus (rows : List RegistryRow) (predicateId : String) (status : PredicateStatus) :
    List RegistryRow :=
  rows.map (fun row => if row.predicateId = predicateId then row.withStatus status else row)

theorem predicateIds_setStatus (rows : List RegistryRow) (p : String) (status : PredicateStatus) :
    (setStatus rows p status).map (fun row => row.predicateId)
      = rows.map (fun row => row.predicateId) := by
  rw [setStatus, List.map_map]
  refine List.map_congr_left (fun row _ => ?_)
  show (if row.predicateId = p then row.withStatus status else row).predicateId = row.predicateId
  split <;> rfl

/-- `update` with a patch of the status: nothing where the predicate has no row. -/
def Registry.updateStatus (r : Registry) (predicateId : String) (status : PredicateStatus) :
    Option Registry :=
  if predicateId ∈ r.rows.map (fun row => row.predicateId) then
    some {
      rows := setStatus r.rows predicateId status
      unique := by
        rw [predicateIds_setStatus]
        exact r.unique
      cached := none
      current := fun _ h => by cases h }
  else none

/-- `deprecate`. -/
def Registry.deprecate (r : Registry) (predicateId : String) : Bool × Registry :=
  match r.updateStatus predicateId .deprecated with
  | some next => (true, next)
  | none => (false, r)

/-- What is deprecated with success is retired. -/
theorem retired_deprecate {r : Registry} {p : String} (h : (r.deprecate p).1 = true) :
    Retired (r.deprecate p).2.rows p := by
  unfold Registry.deprecate Registry.updateStatus at h ⊢
  by_cases hmem : p ∈ r.rows.map (fun row => row.predicateId)
  · rw [if_pos hmem]
    obtain ⟨row, hrow, hid⟩ := List.mem_map.mp hmem
    refine retired_self ⟨row.withStatus .deprecated, ?_, hid, rfl⟩
    exact List.mem_map.mpr ⟨row, hrow, if_pos hid⟩
  · rw [if_neg hmem] at h
    cases h

/-! ## 3. Calls on retired predicates -/

section Calls

variable {env : CanonicalizeEnv} {r : Registry} {p : String}

/-- **Calls keep the retired predicates retired.** -/
theorem canonicalizeAll_retired (calls : List CanonicalizeCall) (h : Retired r.rows p) :
    Retired (canonicalizeAll env calls r).rows p :=
  canonicalizeAll_induct (P := fun rows => Retired rows p) (fun _ _ _ hp => hp.append) calls h

/-- An answer other than the predicate of the call is active. -/
theorem isActive_canonicalId (call : CanonicalizeCall)
    (hne : (canonicalize env call r).1.canonicalId ≠ call.predicate) :
    IsActive r.rows (canonicalize env call r).1.canonicalId := by
  rcases canonicalize_cases env call r with
    ⟨c, hc⟩ | ⟨hnone, hembedded, e, he, hreach⟩ | ⟨hnone, hfar⟩
  · rw [(canonicalize_of_resolves env hc).1]
    exact hc.isActive
  · rw [(canonicalize_of_closest call hnone hembedded he hreach).1]
    exact isActive_of_closest he
  · exact absurd (canonicalize_of_far call hnone hfar).1 hne

/-- A call on a retired predicate whose context is close to no active one answers with the
retired predicate. -/
theorem canonicalId_of_retired (call : CanonicalizeCall) (h : Retired r.rows call.predicate)
    (hfar : ¬ (call.embedded = true ∧ WithinThreshold env r.rows call.contextText)) :
    (canonicalize env call r).1.canonicalId = call.predicate := by
  have hnone : ∀ c, ¬ Resolves r.rows call.predicate c := fun c => h.not_resolves r.unique
  exact (canonicalize_of_far call hnone (fun he hw => hfar ⟨he, hw⟩)).1

/-- **Where a fact lands**: under a predicate that is not retired, if and only if the call is not
about a retired one, or its context is close enough to an active one. -/
theorem canonicalId_not_retired_iff (env : CanonicalizeEnv) (call : CanonicalizeCall)
    (r : Registry) :
    ¬ Retired r.rows (canonicalize env call r).1.canonicalId ↔
      (Retired r.rows call.predicate →
        call.embedded = true ∧ WithinThreshold env r.rows call.contextText) := by
  constructor
  · intro hnot hretired
    by_contra hfar
    rw [canonicalId_of_retired call hretired hfar] at hnot
    exact hnot hretired
  · intro hnear hretired
    by_cases hself : (canonicalize env call r).1.canonicalId = call.predicate
    · -- the closest active predicate is not the retired one
      rw [hself] at hretired
      obtain ⟨hembedded, hwithin⟩ := hnear hretired
      obtain ⟨e, he, hreach⟩ := withinThreshold_iff.mp hwithin
      have hnone : ∀ c, ¬ Resolves r.rows call.predicate c :=
        fun c => hretired.not_resolves r.unique
      have hid := (canonicalize_of_closest call hnone hembedded he hreach).1
      rw [hself] at hid
      rw [hid] at hretired
      exact not_retired_of_isActive r.unique (isActive_of_closest he) hretired
    · exact not_retired_of_isActive r.unique (isActive_canonicalId call hself) hretired

/-- A predicate that an operator has just deprecated is where the next fact with it lands. -/
theorem deprecated_predicate_admitted :
    ¬ ∀ (env : CanonicalizeEnv) (call : CanonicalizeCall) (r : Registry) (p : String),
      Retired r.rows p → (canonicalize env call r).1.canonicalId ≠ p := by
  intro hall
  let r := chainRegistry ["favourite_food"] (by decide)
  let call : CanonicalizeCall :=
    { predicate := "favourite_food", contextText := "favourite_food: soup" }
  have hretired : Retired (r.deprecate "favourite_food").2.rows "favourite_food" :=
    retired_deprecate (by decide)
  refine hall plainCanonicalizeEnv call _ "favourite_food" hretired ?_
  decide +kernel

end Calls

end Brain
