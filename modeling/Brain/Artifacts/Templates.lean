/-
The templates of `src/src/artifacts/templates.ts`: what an artifact of each type is compiled
to from the facts of an entity, with its payload, its citations and the facts it is from.

Records are functions of the field name. Most templates are lists of `addSingle` and
`addList` (`FieldSpec`), and what they make of a field depends on the facts of one predicate
only (`field_build`). Gated facts are read by three of the seventeen templates, and two of
them show these facts in fields of their own (`template_cases`).
-/
import Brain.Search.Rewording

set_option autoImplicit false

namespace Brain.Artifacts

/-! ## 1. Compiled artifacts -/

/-- `FactRow`. -/
abbrev FactRow := FactId × KnowledgeFact

/-- `Citation`. -/
structure Citation where
  factId : FactId
  confidence : Confidence
  recordedAt : Time
  source : FactSource
deriving DecidableEq

/-- An entry of `competingFacts` and of `lowConfidenceFacts`. -/
structure FlaggedFact where
  predicate : String
  object : String
  confidence : Confidence
deriving DecidableEq

/-- A value of a payload. -/
inductive Value where
  | text (object : String)
  | texts (objects : List String)
  | flagged (entries : List FlaggedFact)
  | count (n : ℕ)
deriving DecidableEq

/-- The objects of facts that a value contains. -/
def Value.objects : Value → List String
  | .text object => [object]
  | .texts objects => objects
  | .flagged entries => entries.map FlaggedFact.object
  | .count _ => []

/-- `CompiledArtifact`. -/
structure CompiledArtifact where
  payload : String → Option Value
  citations : String → Option (List Citation)
  sourceFactIds : List FactId

/-- `Template`. -/
abbrev Template := List FactRow → CompiledArtifact

def cite (f : FactRow) : Citation where
  factId := f.1
  confidence := f.2.confidence
  recordedAt := f.2.recordedAt
  source := f.2.source

/-- The facts of a predicate, the newest first. -/
def allOf (facts : List FactRow) (predicate : String) : List FactRow :=
  (facts.filter (fun f => f.2.predicate == predicate)).insertionSort newestFirst

def latestSingle (facts : List FactRow) (predicate : String) : Option FactRow :=
  (allOf facts predicate).head?

def empty : CompiledArtifact where
  payload := fun _ => none
  citations := fun _ => none
  sourceFactIds := []

/-- A field, with the facts that it is from. -/
def CompiledArtifact.put (compiled : CompiledArtifact) (fieldName : String) (value : Value)
    (subset : List FactRow) : CompiledArtifact where
  payload := Function.update compiled.payload fieldName (some value)
  citations := Function.update compiled.citations fieldName (some (subset.map cite))
  sourceFactIds := compiled.sourceFactIds ++ subset.map Prod.fst

/-- A field with a number; it cites nothing. -/
def CompiledArtifact.putCount (compiled : CompiledArtifact) (fieldName : String) (n : ℕ) :
    CompiledArtifact :=
  { compiled with payload := Function.update compiled.payload fieldName (some (.count n)) }

/-- The objects of some facts, as a field; no field without facts. -/
def CompiledArtifact.putObjects (compiled : CompiledArtifact) (fieldName : String)
    (subset : List FactRow) : CompiledArtifact :=
  if subset.isEmpty then compiled
  else compiled.put fieldName (.texts (subset.map (fun f => f.2.object))) subset

def addSingle (compiled : CompiledArtifact) (facts : List FactRow)
    (fieldName predicate : String) : CompiledArtifact :=
  match latestSingle facts predicate with
  | none => compiled
  | some f => compiled.put fieldName (.text f.2.object) [f]

def addList (compiled : CompiledArtifact) (facts : List FactRow) (fieldName predicate : String)
    (topN : ℕ+) : CompiledArtifact :=
  compiled.putObjects fieldName ((allOf facts predicate).take topN)

/-- A line of a template. -/
inductive FieldSpec where
  | single (fieldName predicate : String)
  | list (fieldName predicate : String) (topN : ℕ+)
  /-- An iteration of the loop in `identityDossier`. -/
  | every (predicate : String)
deriving DecidableEq

/-- What a line adds. -/
def FieldSpec.add (facts : List FactRow) (compiled : CompiledArtifact) :
    FieldSpec → CompiledArtifact
  | .single fieldName predicate => addSingle compiled facts fieldName predicate
  | .list fieldName predicate topN => addList compiled facts fieldName predicate topN
  | .every predicate => compiled.putObjects predicate (allOf facts predicate)

/-- The template with these lines. -/
def build (specs : List FieldSpec) : Template := fun facts =>
  specs.foldl (FieldSpec.add facts) empty

/-! ## 2. The templates -/

def customerProfile : Template := build [
  .single "name" "name",
  .single "tier" "tier",
  .single "status" "status",
  .single "email" "email",
  .single "phone" "phone",
  .list "recentInteractions" "interacted_with" 5]

/-- The two lists of `supportContext`. -/
def supportSpecs : List FieldSpec := [
  .list "complaints" "complained_about" 10,
  .list "recentUtterances" "said" 10]

def supportContext : Template := fun facts =>
  let complaints := (allOf facts "complained_about").take 10
  let said := (allOf facts "said").take 10
  ((build supportSpecs facts).putCount "complaintCount" complaints.length).putCount
    "utteranceCount" said.length

/-- Facts of any predicate, each with its predicate; no field without facts. -/
def CompiledArtifact.putFlagged (compiled : CompiledArtifact) (fieldName : String)
    (subset : List FactRow) : CompiledArtifact :=
  if subset.isEmpty then compiled
  else
    compiled.put fieldName
      (.flagged (subset.map (fun f => ⟨f.2.predicate, f.2.object, f.2.confidence⟩))) subset

def riskSnapshot : Template := fun facts =>
  let competing := facts.filter (fun f => f.2.status == .competing)
  let lowConf := facts.filter (fun f => decide (f.2.confidence.1 < 1 / 2))
  let c := (empty.putFlagged "competingFacts" competing).putFlagged "lowConfidenceFacts" lowConf
  ((c.putCount "totalActiveFacts" facts.length).putCount "competingCount" competing.length).putCount
    "lowConfidenceCount" lowConf.length

/-- The lines of `identityDossier`. -/
def identitySpecs : List FieldSpec :=
  ["name", "email", "phone", "address", "dob"].map .every

def identityDossier : Template := build identitySpecs

def tenantDossier : Template := build [
  .single "name" "name",
  .single "tier" "tier",
  .single "status" "status",
  .list "rentalHistory" "rented_vehicle" 10,
  .list "paymentEvents" "paid_invoice" 10,
  .list "incidents" "reported_incident" 5,
  .list "preferences" "preference" 5]

def listingCard : Template := build [
  .single "title" "name",
  .single "price" "listed_price",
  .single "status" "status",
  .single "bedrooms" "bedrooms",
  .single "bathrooms" "bathrooms",
  .single "floorArea" "floor_area",
  .list "amenities" "amenity" 20,
  .list "recentViewings" "viewed_by" 10]

def prospectSummary : Template := build [
  .single "name" "name",
  .single "budget" "budget",
  .single "desiredArea" "desired_area",
  .list "viewedListings" "viewed_listing" 10,
  .list "preferences" "preference" 10,
  .list "objections" "complained_about" 5]

def attendeeHistory : Template := build [
  .single "name" "name",
  .single "tier" "tier",
  .list "attendedEvents" "attended_event" 20,
  .list "purchasedTickets" "purchased_ticket" 10,
  .list "preferences" "preference" 5]

/-- The lines of `patientSummary`. -/
def patientSpecs : List FieldSpec := [
  .single "name" "name",
  .single "dob" "dob",
  .single "status" "status",
  .list "medications" "prescribed_medication" 20,
  .list "allergies" "has_allergy" 10,
  .list "recentAppointments" "attended_appointment" 10,
  .list "recentTreatments" "received_treatment" 10,
  .list "concerns" "complained_about" 5]

def patientSummary : Template := build patientSpecs

def orderHistory : Template := build [
  .single "name" "name",
  .single "tier" "tier",
  .single "status" "status",
  .list "recentOrders" "placed_order" 20,
  .list "returns" "returned_item" 10,
  .list "reviews" "reviewed_product" 10]

def memberProfile : Template := build [
  .single "name" "name",
  .single "tier" "tier",
  .single "joinDate" "joined_at",
  .list "attendedMeetups" "attended_meetup" 10,
  .list "contributions" "contributed_to" 10,
  .list "interests" "interested_in" 10]

def learnerProgress : Template := build [
  .single "name" "name",
  .single "currentLevel" "level",
  .list "enrolledCourses" "enrolled_in" 10,
  .list "completedCourses" "completed_course" 20,
  .list "recentScores" "scored" 10,
  .list "tutorNotes" "said" 10,
  .list "strugglingTopics" "complained_about" 5]

def athleteCard : Template := build [
  .single "name" "name",
  .single "team" "plays_for",
  .single "position" "plays_position",
  .list "recentMatches" "played_match" 10,
  .list "trainingSessions" "attended_training" 10,
  .list "achievements" "achieved" 10]

def travelerHistory : Template := build [
  .single "name" "name",
  .single "tier" "tier",
  .list "recentTrips" "completed_trip" 10,
  .list "bookings" "booked_trip" 10,
  .list "destinations" "visited_destination" 20,
  .list "preferences" "preference" 10]

def dinerPreferences : Template := build [
  .single "name" "name",
  .list "dietaryRestrictions" "dietary_restriction" 10,
  .list "favouriteCuisines" "preference" 10,
  .list "recentOrders" "placed_order" 10,
  .list "visitedRestaurants" "visited_restaurant" 10]

def studioBookings : Template := build [
  .single "name" "name",
  .list "recentBookings" "booked_session" 10,
  .list "instruments" "requested_instrument" 5,
  .list "genres" "preference" 5]

def aiUserContext : Template := build [
  .single "name" "name",
  .single "plan" "tier",
  .list "recentPrompts" "said" 20,
  .list "feedback" "rated" 10,
  .list "preferences" "preference" 10]

/-- `TEMPLATES`. -/
def TEMPLATES : List (String × Template) := [
  ("customer_profile", customerProfile),
  ("support_context", supportContext),
  ("risk_snapshot", riskSnapshot),
  ("identity_dossier", identityDossier),
  ("tenant_dossier", tenantDossier),
  ("listing_card", listingCard),
  ("prospect_summary", prospectSummary),
  ("attendee_history", attendeeHistory),
  ("patient_summary", patientSummary),
  ("order_history", orderHistory),
  ("member_profile", memberProfile),
  ("learner_progress", learnerProgress),
  ("athlete_card", athleteCard),
  ("traveler_history", travelerHistory),
  ("diner_preferences", dinerPreferences),
  ("studio_bookings", studioBookings),
  ("ai_user_context", aiUserContext)]

/-- `ARTIFACT_FIELD_TO_PREDICATE`. -/
def ARTIFACT_FIELD_TO_PREDICATE : List (String × String) := [
  ("recentInteractions", "interacted_with"),
  ("complaints", "complained_about"),
  ("recentUtterances", "said"),
  ("competingFacts", "status"),
  ("lowConfidenceFacts", "status"),
  ("rentalHistory", "rented_vehicle"),
  ("paymentEvents", "paid_invoice"),
  ("incidents", "reported_incident"),
  ("preferences", "preference"),
  ("amenities", "amenity"),
  ("recentViewings", "viewed_by"),
  ("viewedListings", "viewed_listing"),
  ("objections", "complained_about"),
  ("attendedEvents", "attended_event"),
  ("purchasedTickets", "purchased_ticket"),
  ("medications", "prescribed_medication"),
  ("allergies", "has_allergy"),
  ("recentAppointments", "attended_appointment"),
  ("recentTreatments", "received_treatment"),
  ("concerns", "complained_about"),
  ("recentOrders", "placed_order"),
  ("returns", "returned_item"),
  ("reviews", "reviewed_product"),
  ("attendedMeetups", "attended_meetup"),
  ("contributions", "contributed_to"),
  ("interests", "interested_in"),
  ("enrolledCourses", "enrolled_in"),
  ("completedCourses", "completed_course"),
  ("recentScores", "scored"),
  ("tutorNotes", "said"),
  ("strugglingTopics", "complained_about"),
  ("recentMatches", "played_match"),
  ("trainingSessions", "attended_training"),
  ("achievements", "achieved"),
  ("recentTrips", "completed_trip"),
  ("bookings", "booked_trip"),
  ("destinations", "visited_destination"),
  ("dietaryRestrictions", "dietary_restriction"),
  ("favouriteCuisines", "preference"),
  ("visitedRestaurants", "visited_restaurant"),
  ("recentBookings", "booked_session"),
  ("instruments", "requested_instrument"),
  ("genres", "preference"),
  ("recentPrompts", "said"),
  ("feedback", "rated")]

/-- `ARTIFACT_FIELD_TO_PREDICATE[field] ?? field`. -/
def fieldPredicate (field : String) : String :=
  (ARTIFACT_FIELD_TO_PREDICATE.lookup field).getD field

/-! ## 3. What the lines of a template make of a field -/

/-- The facts that a caller with these scopes is shown. -/
def visibleTo (scopes : List BrainScope) (facts : List FactRow) : List FactRow :=
  facts.filter (fun f => scopeAllows scopes f.2.predicate)

/-- The objects of some facts, with these facts. -/
def objectsEntry (subset : List FactRow) : Option (Value × List FactRow) :=
  if subset.isEmpty then none else some (.texts (subset.map (fun f => f.2.object)), subset)

namespace FieldSpec

def fieldName : FieldSpec → String
  | .single fieldName _ => fieldName
  | .list fieldName _ _ => fieldName
  | .every predicate => predicate

def predicate : FieldSpec → String
  | .single _ predicate => predicate
  | .list _ predicate _ => predicate
  | .every predicate => predicate

/-- The value that a line gives its field, and the facts that this is from. -/
def entry (facts : List FactRow) : FieldSpec → Option (Value × List FactRow)
  | .single _ predicate =>
      (latestSingle facts predicate).map (fun f => (.text f.2.object, [f]))
  | .list _ predicate topN => objectsEntry ((allOf facts predicate).take topN)
  | .every predicate => objectsEntry (allOf facts predicate)

end FieldSpec

section Put

variable (compiled : CompiledArtifact) (fieldName field : String) (value : Value)
  (subset : List FactRow) (n : ℕ)

theorem put_payload : (compiled.put fieldName value subset).payload field
    = if field = fieldName then some value else compiled.payload field :=
  Function.update_apply ..

theorem put_citations : (compiled.put fieldName value subset).citations field
    = if field = fieldName then some (subset.map cite) else compiled.citations field :=
  Function.update_apply ..

theorem putCount_payload : (compiled.putCount fieldName n).payload field
    = if field = fieldName then some (.count n) else compiled.payload field :=
  Function.update_apply ..

end Put

section Fields

variable {facts : List FactRow} {scopes : List BrainScope} {predicate fieldName : String}
  {compiled : CompiledArtifact} {subset : List FactRow} {value : Value} {spec : FieldSpec}
  {specs : List FieldSpec} {f : FactRow}

theorem scopeAllows_iff : scopeAllows scopes predicate = true ↔
    (isGated predicate = true → .read_pii ∈ scopes) := by
  by_cases hscopes : .read_pii ∈ scopes
  · refine iff_of_true ?_ (fun _ => hscopes)
    rw [scopeAllows, requiresScope]
    split
    · rfl
    · next scope hscope =>
        split at hscope
        · rw [← Option.some.inj hscope, List.contains_iff_mem]
          exact hscopes
        · cases hscope
  · constructor
    · intro hallow hgated
      rw [not_gated_of_scopeAllows hscopes hallow] at hgated
      cases hgated
    · intro h
      refine scopeAllows_of_not_gated ?_
      rw [← Bool.not_eq_true]
      exact fun hgated => hscopes (h hgated)

theorem mem_visibleTo : f ∈ visibleTo scopes facts ↔
    f ∈ facts ∧ scopeAllows scopes f.2.predicate = true := List.mem_filter

theorem mem_allOf : f ∈ allOf facts predicate ↔ f ∈ facts ∧ f.2.predicate = predicate := by
  rw [allOf, List.mem_insertionSort, List.mem_filter, beq_iff_eq]

/-- All facts of a predicate are visible, or none. -/
theorem allOf_visibleTo : allOf (visibleTo scopes facts) predicate =
    if scopeAllows scopes predicate then allOf facts predicate else [] := by
  have hfilter : (visibleTo scopes facts).filter (fun f => f.2.predicate == predicate)
      = if scopeAllows scopes predicate then
          facts.filter (fun f => f.2.predicate == predicate) else [] := by
    rw [visibleTo, List.filter_filter]
    split
    · next hallow =>
        refine List.filter_congr (fun f _ => ?_)
        by_cases hf : f.2.predicate = predicate
        · rw [hf, hallow, Bool.and_true]
        · simp [hf]
    · next hallow =>
        rw [List.filter_eq_nil_iff]
        intro f _ hf
        simp only [Bool.and_eq_true, beq_iff_eq] at hf
        rw [hf.1] at hf
        exact hallow hf.2
  rw [allOf, hfilter]
  split
  · rfl
  · rfl

theorem objectsEntry_eq_none : objectsEntry subset = none ↔ subset = [] := by
  rw [objectsEntry, ← List.isEmpty_iff]
  split
  · next h => exact iff_of_true rfl h
  · next h => exact iff_of_false (fun hnone => by cases hnone) h

theorem of_objectsEntry {subset' : List FactRow}
    (h : objectsEntry subset = some (value, subset')) :
    subset' = subset ∧ subset ≠ [] ∧ value = .texts (subset.map (fun f => f.2.object)) := by
  rw [objectsEntry] at h
  split at h
  · cases h
  · next hne =>
      cases h
      exact ⟨rfl, fun hnil => hne (by rw [hnil]; rfl), rfl⟩

theorem putObjects_eq : compiled.putObjects fieldName subset =
    (objectsEntry subset).elim compiled (fun p => compiled.put fieldName p.1 p.2) := by
  rw [CompiledArtifact.putObjects, objectsEntry]
  split
  · rfl
  · rfl

/-- A line adds its entry, if it has one. -/
theorem FieldSpec.add_eq : spec.add facts compiled =
    (spec.entry facts).elim compiled (fun p => compiled.put spec.fieldName p.1 p.2) := by
  cases spec with
  | single fieldName predicate =>
      rw [FieldSpec.add, addSingle, FieldSpec.entry]
      cases latestSingle facts predicate with
      | none => rfl
      | some f => rfl
  | list fieldName predicate topN => exact putObjects_eq
  | every predicate => exact putObjects_eq

/-- An entry is there if the facts of the predicate are visible, and then it is the same. -/
theorem FieldSpec.entry_visibleTo : spec.entry (visibleTo scopes facts) =
    if scopeAllows scopes spec.predicate then spec.entry facts else none := by
  cases spec with
  | single fieldName predicate =>
      rw [FieldSpec.entry, FieldSpec.predicate, latestSingle, allOf_visibleTo]
      split
      · rfl
      · rfl
  | list fieldName predicate topN =>
      rw [FieldSpec.entry, FieldSpec.predicate, allOf_visibleTo]
      split
      · rfl
      · rw [List.take_nil]
        rfl
  | every predicate =>
      rw [FieldSpec.entry, FieldSpec.predicate, allOf_visibleTo]
      split
      · rfl
      · rfl

theorem allOf_eq_nil : allOf facts predicate = [] ↔ ∀ f ∈ facts, f.2.predicate ≠ predicate := by
  rw [List.eq_nil_iff_forall_not_mem]
  simp only [mem_allOf, not_and, ne_eq]

theorem FieldSpec.entry_eq_none :
    spec.entry facts = none ↔ ∀ f ∈ facts, f.2.predicate ≠ spec.predicate := by
  cases spec with
  | single fieldName predicate =>
      rw [FieldSpec.entry, Option.map_eq_none_iff, latestSingle, List.head?_eq_none_iff,
        allOf_eq_nil, FieldSpec.predicate]
  | list fieldName predicate topN =>
      rw [FieldSpec.entry, objectsEntry_eq_none, List.take_eq_nil_iff, allOf_eq_nil,
        FieldSpec.predicate]
      exact or_iff_right topN.pos.ne'
  | every predicate =>
      rw [FieldSpec.entry, objectsEntry_eq_none, allOf_eq_nil, FieldSpec.predicate]

/-- An entry shows the objects of the facts that it is from, which are of its predicate. -/
theorem FieldSpec.of_entry (h : spec.entry facts = some (value, subset)) :
    subset ≠ [] ∧ value.objects = subset.map (fun f => f.2.object) ∧
      ∀ f ∈ subset, f ∈ facts ∧ f.2.predicate = spec.predicate := by
  cases spec with
  | single fieldName predicate =>
      rw [FieldSpec.entry, Option.map_eq_some_iff] at h
      obtain ⟨f, hf, heq⟩ := h
      cases heq
      refine ⟨List.cons_ne_nil f [], rfl, fun g hg => ?_⟩
      rw [List.mem_singleton.mp hg]
      exact mem_allOf.mp (List.mem_of_head? hf)
  | list fieldName predicate topN =>
      obtain ⟨rfl, hne, rfl⟩ := of_objectsEntry h
      exact ⟨hne, rfl, fun f hf => mem_allOf.mp (List.mem_of_mem_take hf)⟩
  | every predicate =>
      obtain ⟨rfl, hne, rfl⟩ := of_objectsEntry h
      exact ⟨hne, rfl, fun f hf => mem_allOf.mp hf⟩

/-- The entry of a field, by the line that has it. -/
def fieldEntry (specs : List FieldSpec) (facts : List FactRow) (field : String) :
    Option (Value × List FactRow) :=
  (specs.find? (fun spec => spec.fieldName == field)).bind (fun spec => spec.entry facts)

/-- **A field is what the only line with its name makes of it.** -/
theorem field_build (hnodup : (specs.map FieldSpec.fieldName).Nodup) (facts : List FactRow)
    (field : String) :
    (build specs facts).payload field = (fieldEntry specs facts field).map Prod.fst ∧
      (build specs facts).citations field
        = (fieldEntry specs facts field).map (fun p => p.2.map cite) := by
  have hfold : ∀ compiled : CompiledArtifact,
      (specs.foldl (FieldSpec.add facts) compiled).payload field
          = ((fieldEntry specs facts field).map Prod.fst).or (compiled.payload field) ∧
        (specs.foldl (FieldSpec.add facts) compiled).citations field
          = ((fieldEntry specs facts field).map (fun p => p.2.map cite)).or
              (compiled.citations field) := by
    induction specs with
    | nil => exact fun _ => ⟨rfl, rfl⟩
    | cons spec specs ih =>
        intro compiled
        obtain ⟨hnot, hnodup⟩ := List.nodup_cons.mp hnodup
        rw [List.foldl_cons, (ih hnodup _).1, (ih hnodup _).2, FieldSpec.add_eq]
        by_cases hname : spec.fieldName = field
        · -- no other line has the name
          have hrest : fieldEntry specs facts field = none := by
            rw [fieldEntry, List.find?_eq_none.mpr, Option.bind_none]
            intro other hother hsame
            refine hnot ?_
            rw [hname, ← beq_iff_eq.mp hsame]
            exact List.mem_map_of_mem hother
          have hthis : fieldEntry (spec :: specs) facts field = spec.entry facts := by
            simp [fieldEntry, hname]
          rw [hrest, hthis]
          subst hname
          cases spec.entry facts with
          | none => exact ⟨rfl, rfl⟩
          | some p => simp [CompiledArtifact.put]
        · have hthis : fieldEntry (spec :: specs) facts field = fieldEntry specs facts field := by
            simp [fieldEntry, hname]
          rw [hthis]
          cases spec.entry facts with
          | none => exact ⟨rfl, rfl⟩
          | some p => simp [CompiledArtifact.put, Function.update_of_ne (Ne.symm hname)]
  have h := hfold empty
  rw [build, h.1, h.2, empty, Option.or_none, Option.or_none]
  exact ⟨rfl, rfl⟩

end Fields

/-! ## 4. What an artifact is from -/

/-- All that an artifact cites or shows is from facts with `P`. -/
structure From (P : FactRow → Prop) (compiled : CompiledArtifact) : Prop where
  sources : ∀ id ∈ compiled.sourceFactIds, ∃ f, P f ∧ f.1 = id
  citations : ∀ field cites, compiled.citations field = some cites → ∀ c ∈ cites,
    ∃ f, P f ∧ f.1 = c.factId
  objects : ∀ field value, compiled.payload field = some value → ∀ object ∈ value.objects,
    ∃ f, P f ∧ f.2.object = object

section From

variable {P Q : FactRow → Prop} {compiled : CompiledArtifact} {facts subset : List FactRow}
  {value : Value} {specs : List FieldSpec} {n : ℕ}

theorem From.mono (h : From P compiled) (himp : ∀ f, P f → Q f) : From Q compiled where
  sources := fun id hid => (h.sources id hid).imp (fun f hf => ⟨himp f hf.1, hf.2⟩)
  citations := fun field cites hcites c hc =>
    (h.citations field cites hcites c hc).imp (fun f hf => ⟨himp f hf.1, hf.2⟩)
  objects := fun field value hvalue object hobject =>
    (h.objects field value hvalue object hobject).imp (fun f hf => ⟨himp f hf.1, hf.2⟩)

theorem from_empty : From P empty where
  sources := fun _ hid => absurd hid List.not_mem_nil
  citations := fun _ _ hcites => by cases hcites
  objects := fun _ _ hvalue => by cases hvalue

theorem From.put (h : From P compiled) (hsubset : ∀ f ∈ subset, P f)
    (hobjects : value.objects = subset.map (fun f => f.2.object)) (fieldName : String) :
    From P (compiled.put fieldName value subset) where
  sources := by
    intro id hid
    rcases List.mem_append.mp hid with hid | hid
    · exact h.sources id hid
    · obtain ⟨f, hf, rfl⟩ := List.mem_map.mp hid
      exact ⟨f, hsubset f hf, rfl⟩
  citations := by
    intro field cites hcites c hc
    rw [put_citations] at hcites
    split at hcites
    · rw [← Option.some.inj hcites] at hc
      obtain ⟨f, hf, rfl⟩ := List.mem_map.mp hc
      exact ⟨f, hsubset f hf, rfl⟩
    · exact h.citations field cites hcites c hc
  objects := by
    intro field v hv object hobject
    rw [put_payload] at hv
    split at hv
    · rw [← Option.some.inj hv, hobjects] at hobject
      obtain ⟨f, hf, rfl⟩ := List.mem_map.mp hobject
      exact ⟨f, hsubset f hf, rfl⟩
    · exact h.objects field v hv object hobject

theorem From.putCount (h : From P compiled) (fieldName : String) (n : ℕ) :
    From P (compiled.putCount fieldName n) where
  sources := h.sources
  citations := h.citations
  objects := by
    intro field v hv object hobject
    rw [putCount_payload] at hv
    split at hv
    · rw [← Option.some.inj hv] at hobject
      exact absurd hobject List.not_mem_nil
    · exact h.objects field v hv object hobject

theorem From.putFlagged (h : From P compiled) (hsubset : ∀ f ∈ subset, P f)
    (fieldName : String) : From P (compiled.putFlagged fieldName subset) := by
  rw [CompiledArtifact.putFlagged]
  split
  · exact h
  · refine h.put hsubset ?_ fieldName
    rw [Value.objects, List.map_map]
    rfl

/-- The lines of a template show facts of their predicates. -/
theorem from_build (specs : List FieldSpec) (facts : List FactRow) :
    From (fun f => f ∈ facts ∧ ∃ spec ∈ specs, f.2.predicate = spec.predicate)
      (build specs facts) := by
  have hfold : ∀ rest : List FieldSpec, (∀ spec ∈ rest, spec ∈ specs) →
      ∀ compiled, From (fun f => f ∈ facts ∧ ∃ spec ∈ specs, f.2.predicate = spec.predicate)
        compiled →
      From (fun f => f ∈ facts ∧ ∃ spec ∈ specs, f.2.predicate = spec.predicate)
        (rest.foldl (FieldSpec.add facts) compiled) := by
    intro rest
    induction rest with
    | nil => exact fun _ _ h => h
    | cons spec rest ih =>
        intro hrest compiled h
        refine ih (fun other hother => hrest other (List.mem_cons_of_mem _ hother)) _ ?_
        rw [FieldSpec.add_eq]
        cases hentry : spec.entry facts with
        | none => exact h
        | some p =>
            obtain ⟨_, hobjects, hsubset⟩ := FieldSpec.of_entry hentry
            refine h.put (fun f hf => ?_) hobjects spec.fieldName
            exact ⟨(hsubset f hf).1, spec, hrest spec List.mem_cons_self, (hsubset f hf).2⟩
  exact hfold specs (fun _ h => h) empty from_empty

/-- The facts that `riskSnapshot` flags. -/
def Flagged (f : FactRow) : Prop := f.2.status = .competing ∨ f.2.confidence.1 < 1 / 2

theorem from_riskSnapshot (facts : List FactRow) :
    From (fun f => f ∈ facts ∧ Flagged f) (riskSnapshot facts) := by
  have hcompeting : ∀ f ∈ facts.filter (fun f => f.2.status == .competing),
      f ∈ facts ∧ Flagged f := by
    intro f hf
    obtain ⟨hmem, hstatus⟩ := List.mem_filter.mp hf
    exact ⟨hmem, Or.inl (beq_iff_eq.mp hstatus)⟩
  have hlow : ∀ f ∈ facts.filter (fun f => decide (f.2.confidence.1 < 1 / 2)),
      f ∈ facts ∧ Flagged f := by
    intro f hf
    obtain ⟨hmem, hlt⟩ := List.mem_filter.mp hf
    exact ⟨hmem, Or.inr (of_decide_eq_true hlt)⟩
  have hlists := (from_empty.putFlagged hcompeting "competingFacts").putFlagged hlow
    "lowConfidenceFacts"
  exact ((hlists.putCount _ _).putCount _ _).putCount _ _

/-- The sources of lines: the facts of their entries. -/
theorem mem_sourceFactIds_build {spec : FieldSpec} (hspec : spec ∈ specs)
    (hentry : spec.entry facts = some (value, subset)) {f : FactRow} (hf : f ∈ subset) :
    f.1 ∈ (build specs facts).sourceFactIds := by
  have hmono : ∀ (rest : List FieldSpec) (compiled : CompiledArtifact),
      f.1 ∈ compiled.sourceFactIds →
      f.1 ∈ (rest.foldl (FieldSpec.add facts) compiled).sourceFactIds := by
    intro rest
    induction rest with
    | nil => exact fun _ h => h
    | cons other rest ih =>
        intro compiled h
        refine ih _ ?_
        rw [FieldSpec.add_eq]
        cases other.entry facts with
        | none => exact h
        | some p => exact List.mem_append_left _ h
  obtain ⟨before, after, rfl⟩ := List.append_of_mem hspec
  rw [build, List.foldl_append, List.foldl_cons]
  refine hmono after _ ?_
  rw [FieldSpec.add_eq, hentry]
  exact List.mem_append_right _ (List.mem_map_of_mem hf)

theorem mem_sourceFactIds_riskSnapshot {f : FactRow} (hf : f ∈ facts) (hflagged : Flagged f) :
    f.1 ∈ (riskSnapshot facts).sourceFactIds := by
  have hput : ∀ (compiled : CompiledArtifact) (fieldName : String) (l : List FactRow),
      (compiled.putFlagged fieldName l).sourceFactIds
        = compiled.sourceFactIds ++ l.map Prod.fst := by
    intro compiled fieldName l
    rw [CompiledArtifact.putFlagged]
    split
    · next hempty => rw [List.isEmpty_iff.mp hempty, List.map_nil, List.append_nil]
    · rfl
  rw [riskSnapshot, CompiledArtifact.putCount, CompiledArtifact.putCount,
    CompiledArtifact.putCount, hput, hput, List.mem_append, List.mem_append]
  rcases hflagged with hstatus | hlt
  · refine Or.inl (Or.inr (List.mem_map_of_mem (List.mem_filter.mpr ⟨hf, ?_⟩)))
    exact beq_iff_eq.mpr hstatus
  · refine Or.inr (List.mem_map_of_mem (List.mem_filter.mpr ⟨hf, ?_⟩))
    exact decide_eq_true hlt

end From

/-! ## 5. Gated facts in the templates -/

/-- A gated predicate that the template of the type reads. -/
def ReadsGated (artifactType predicate : String) : Prop :=
  isGated predicate = true ∧ (artifactType = "risk_snapshot" ∨ artifactType = "identity_dossier" ∨
    artifactType = "patient_summary" ∧ predicate = "dob")

instance (artifactType predicate : String) : Decidable (ReadsGated artifactType predicate) :=
  inferInstanceAs (Decidable (_ ∧ _))

/-- The type is one of lines with distinct names, in which a field is gated as its predicate
is, and whose gated predicates are these. -/
structure Lines (artifactType : String) (specs : List FieldSpec) : Prop where
  nodup : (specs.map FieldSpec.fieldName).Nodup
  mapped : ∀ spec ∈ specs, isGated (fieldPredicate spec.fieldName) = isGated spec.predicate
  noRisk : artifactType ≠ "risk_snapshot"
  gated : ∀ predicate ∈ ["dob", "address"],
    (∃ spec ∈ specs, spec.predicate = predicate) ↔ ReadsGated artifactType predicate

/-- **The seventeen templates**: lines, with two numbers in one case, or `riskSnapshot`. -/
theorem template_cases {artifactType : String} {template : Template}
    (h : TEMPLATES.lookup artifactType = some template) :
    (∃ specs, Lines artifactType specs ∧ template = build specs) ∨
      (artifactType = "support_context" ∧ Lines artifactType supportSpecs ∧
        template = supportContext) ∨
      (artifactType = "risk_snapshot" ∧ template = riskSnapshot) := by
  have hmem : (artifactType, template) ∈ TEMPLATES := by
    obtain ⟨before, after, hsplit, _⟩ := List.lookup_eq_some_iff.mp h
    rw [hsplit]
    exact List.mem_append_right _ List.mem_cons_self
  simp only [TEMPLATES, List.mem_cons, Prod.mk.injEq, List.not_mem_nil, or_false] at hmem
  rcases hmem with ⟨rfl, rfl⟩ | ⟨rfl, rfl⟩ | ⟨rfl, rfl⟩ | hmem
  · exact Or.inl ⟨_, ⟨by decide, by decide, by decide, by decide⟩, rfl⟩
  · exact Or.inr (Or.inl ⟨rfl, ⟨by decide, by decide, by decide, by decide⟩, rfl⟩)
  · exact Or.inr (Or.inr ⟨rfl, rfl⟩)
  · refine Or.inl ?_
    rcases hmem with ⟨rfl, rfl⟩ | ⟨rfl, rfl⟩ | ⟨rfl, rfl⟩ | ⟨rfl, rfl⟩ | ⟨rfl, rfl⟩ | ⟨rfl, rfl⟩ |
      ⟨rfl, rfl⟩ | ⟨rfl, rfl⟩ | ⟨rfl, rfl⟩ | ⟨rfl, rfl⟩ | ⟨rfl, rfl⟩ | ⟨rfl, rfl⟩ | ⟨rfl, rfl⟩ |
      ⟨rfl, rfl⟩
    all_goals exact ⟨_, ⟨by decide, by decide, by decide, by decide⟩, rfl⟩

/-- A gated fact that the template of the type cites. -/
def CitesGated (artifactType : String) (f : FactRow) : Prop :=
  ReadsGated artifactType f.2.predicate ∧ (artifactType = "risk_snapshot" → Flagged f)

section Gated

variable {artifactType predicate : String} {template : Template} {specs : List FieldSpec}
  {facts : List FactRow} {f : FactRow}

theorem mem_of_isGated (h : isGated predicate = true) : predicate ∈ ["dob", "address"] := by
  rw [isGated, requiresScope] at h
  split at h
  · next hmem => exact List.contains_iff_mem.mp hmem
  · cases h

/-- The gated predicates of the lines are those that the type reads. -/
theorem Lines.readsGated_iff (h : Lines artifactType specs) (hgated : isGated predicate = true) :
    (∃ spec ∈ specs, spec.predicate = predicate) ↔ ReadsGated artifactType predicate :=
  h.gated predicate (mem_of_isGated hgated)

theorem Lines.from_build (h : Lines artifactType specs) (facts : List FactRow) :
    From (fun f => f ∈ facts ∧ (isGated f.2.predicate = true → CitesGated artifactType f))
      (build specs facts) := by
  refine (Artifacts.from_build specs facts).mono ?_
  rintro f ⟨hf, spec, hspec, hpredicate⟩
  refine ⟨hf, fun hgated => ⟨?_, fun hrisk => absurd hrisk h.noRisk⟩⟩
  exact (h.readsGated_iff hgated).mp ⟨spec, hspec, hpredicate.symm⟩

/-- **A template is from facts that are not gated, or that the type is known to cite.** -/
theorem from_template (h : TEMPLATES.lookup artifactType = some template)
    (facts : List FactRow) :
    From (fun f => f ∈ facts ∧ (isGated f.2.predicate = true → CitesGated artifactType f))
      (template facts) := by
  rcases template_cases h with ⟨specs, hlines, rfl⟩ | ⟨_, hlines, rfl⟩ | ⟨rfl, rfl⟩
  · exact hlines.from_build facts
  · exact ((hlines.from_build facts).putCount _ _).putCount _ _
  · refine (from_riskSnapshot facts).mono ?_
    rintro f ⟨hf, hflagged⟩
    exact ⟨hf, fun hgated => ⟨⟨hgated, Or.inl rfl⟩, fun _ => hflagged⟩⟩

theorem Lines.gated_source (h : Lines artifactType specs) (hf : f ∈ facts)
    (hcites : CitesGated artifactType f) :
    ∃ g ∈ facts, isGated g.2.predicate = true ∧ g.1 ∈ (build specs facts).sourceFactIds := by
  have hgated := hcites.1.1
  obtain ⟨spec, hspec, hpredicate⟩ := (h.readsGated_iff hgated).mpr hcites.1
  cases hentry : spec.entry facts with
  | none => exact absurd hpredicate.symm (FieldSpec.entry_eq_none.mp hentry f hf)
  | some p =>
      obtain ⟨hne, _, hsubset⟩ := FieldSpec.of_entry hentry
      obtain ⟨g, hg⟩ := List.exists_mem_of_ne_nil _ hne
      refine ⟨g, (hsubset g hg).1, ?_, mem_sourceFactIds_build hspec hentry hg⟩
      rw [(hsubset g hg).2, hpredicate]
      exact hgated

/-- Where a gated fact is to be cited, one is among the sources. -/
theorem gated_source (h : TEMPLATES.lookup artifactType = some template) (hf : f ∈ facts)
    (hcites : CitesGated artifactType f) :
    ∃ g ∈ facts, isGated g.2.predicate = true ∧ g.1 ∈ (template facts).sourceFactIds := by
  rcases template_cases h with ⟨specs, hlines, rfl⟩ | ⟨_, hlines, rfl⟩ | ⟨rfl, rfl⟩
  · exact hlines.gated_source hf hcites
  · exact hlines.gated_source hf hcites
  · exact ⟨f, hf, hcites.1.1, mem_sourceFactIds_riskSnapshot hf (hcites.2 rfl)⟩

end Gated

end Brain.Artifacts
