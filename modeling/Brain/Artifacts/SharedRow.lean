/-
`src/src/artifacts/artifacts.service.ts`, call by call: `getArtifact` and `recompileArtifact`
for one entity and one type. The row is compiled from what its caller may see, and is then
returned to callers of all scopes, less the fields whose predicate asks for a scope that they
lack (`shapeForReturn`).

Two properties are asked of the answers that come from a clean and fresh row. A caller
without `brain:read_pii` is to learn nothing of gated facts (`leakFree_iff`), and everyone is
to get what their own view of the facts compiles to (`transparent_iff`). Both depend on the
caller that the row was compiled for, and on the gated facts that the template reads.
-/
import Brain.Artifacts.ArtifactsService
import Brain.Artifacts.Templates
import Brain.Lib.Runs

set_option autoImplicit false

namespace Brain.Artifacts

/-! ## 1. The service -/

/-- What `fetchCached` returns: the row of the entity and the type. -/
structure ArtifactRow where
  payload : String → Option Value
  citations : String → Option (List Citation)
  sourceFactIds : List FactId
  builtAt : Time
  staleAfterMs : ℤ := 300000
  dirty : Bool := false

/-- `KnowledgeArtifact`; an `artifactId` is made of the entity and the number of sources. -/
structure KnowledgeArtifact where
  artifactId : EntityId × ℕ
  entityId : EntityId
  artifactType : String
  payload : String → Option Value
  citations : String → Option (List Citation)
  builtAt : Time
  freshFor : ℤ
  sourceFactIds : List FactId

/-- `compile`; it throws on a type without a template. -/
def compile (artifactType : String) (facts : List FactRow) : Option CompiledArtifact :=
  (TEMPLATES.lookup artifactType).map (fun template =>
    let out := template facts
    { out with sourceFactIds := out.sourceFactIds.eraseDups })

/-- `restricted`, of a field that cites something. -/
def restricted (scopes : List BrainScope) (field : String) : Bool :=
  !scopeAllows scopes (fieldPredicate field)

/-- `cites && cites.length > 0`. -/
def hasCites (citations : String → Option (List Citation)) (field : String) : Bool :=
  (citations field).any (fun cites => !cites.isEmpty)

def filteredPayload (payload : String → Option Value)
    (citations : String → Option (List Citation)) (scopes : List BrainScope) (field : String) :
    Option Value :=
  if hasCites citations field && restricted scopes field then none else payload field

def filteredCitations (payload : String → Option Value)
    (citations : String → Option (List Citation)) (scopes : List BrainScope) (field : String) :
    Option (List Citation) :=
  if (payload field).isSome && hasCites citations field && !restricted scopes field then
    citations field
  else none

def shapeForReturn (cached : ArtifactRow) (fullSelf : EntityId) (scopes : List BrainScope)
    (ageMs : ℤ) (artifactType : String) : KnowledgeArtifact where
  artifactId := (fullSelf, cached.sourceFactIds.length)
  entityId := fullSelf
  artifactType := artifactType
  payload := filteredPayload cached.payload cached.citations scopes
  citations := filteredCitations cached.payload cached.citations scopes
  builtAt := cached.builtAt
  freshFor := max 0 (cached.staleAfterMs - ageMs)
  sourceFactIds := cached.sourceFactIds

/-- The row that `upsertArtifact` leaves. -/
def upsertArtifact (row : Option ArtifactRow) (compiled : CompiledArtifact)
    (expectedDirty : Bool) (dbNow : Time) : ArtifactRow :=
  match row with
  | some row =>
      { row with
        payload := compiled.payload
        citations := compiled.citations
        sourceFactIds := compiled.sourceFactIds
        builtAt := dbNow
        dirty := if row.dirty = expectedDirty then false else row.dirty }
  | none =>
      { payload := compiled.payload
        citations := compiled.citations
        sourceFactIds := compiled.sourceFactIds
        builtAt := dbNow }

/-- A call of `recompileArtifact`, or of `getArtifact`: the scopes of the caller, and what the
clocks of the service and of the database say. -/
structure Call where
  recompile : Bool
  scopes : List BrainScope
  now : Time
  dbNow : Time

/-- The row that the call can be answered from: clean and fresh. -/
def Call.cached (call : Call) (row : Option ArtifactRow) : Option ArtifactRow :=
  if call.recompile then none
  else row.filter (fun cached =>
    !cached.dirty && decide (call.now - cached.builtAt < cached.staleAfterMs))

/-- The tenant, with the row, and with the scopes of the caller whose view it was compiled
from. These are stored nowhere; they are for the statements only. -/
structure World where
  db : TenantDb
  row : Option ArtifactRow := none
  builtFor : List BrainScope := []

/-- The row that a call on an entity is answered from. -/
def World.served (w : World) (entityId : EntityId) (call : Call) : Option ArtifactRow :=
  if w.db.HasEntity entityId then call.cached w.row else none

/-- A call: what it returns, unless it throws, and what it leaves. -/
def World.call (w : World) (entityId : EntityId) (artifactType : String) (call : Call) :
    Option KnowledgeArtifact × World :=
  if w.db.HasEntity entityId then
    match call.cached w.row with
    | some cached =>
        (some (shapeForReturn cached entityId call.scopes (call.now - cached.builtAt) artifactType),
          w)
    | none =>
        match compile artifactType (fetchActiveFacts w.db entityId call.scopes) with
        | some compiled =>
            let stored := upsertArtifact w.row compiled ((w.row.map ArtifactRow.dirty).getD false)
              call.dbNow
            let ageMs := if call.recompile then 0 else call.now - stored.builtAt
            (some (shapeForReturn stored entityId call.scopes ageMs artifactType),
              { w with row := some stored, builtFor := call.scopes })
        | none => (none, w)
  else (none, w)

/-- What happens to the tenant. -/
inductive Event where
  | call (call : Call)
  /-- Whatever is written to the facts of the entity; the event of migration 0004 marks the
  row. -/
  | write (db : TenantDb)

/-- The world after an event. -/
def exec (entityId : EntityId) (artifactType : String) (w : World) : Event → World
  | .call call => (w.call entityId artifactType call).2
  | .write db => { w with db := db, row := w.row.map (fun row => { row with dirty := true }) }

/-- The facts that an artifact is compiled from, for all eyes. -/
def activeFacts (db : TenantDb) (entityId : EntityId) : List FactRow :=
  (db.facts.select (fun _ f => f.entityId == entityId && f.retractedAt.isNone)).insertionSort
    newestFirst

theorem fetchActiveFacts_eq (db : TenantDb) (entityId : EntityId) (scopes : List BrainScope) :
    fetchActiveFacts db entityId scopes = visibleTo scopes (activeFacts db entityId) := rfl

/-- The row is what the template makes of these facts. -/
structure Holds (template : Template) (facts : List FactRow) (row : ArtifactRow) : Prop where
  payload : row.payload = (template facts).payload
  citations : row.citations = (template facts).citations
  sources : ∀ id, id ∈ row.sourceFactIds ↔ id ∈ (template facts).sourceFactIds

/-- A clean row is what the template makes of the view that it was compiled from. -/
def RowOk (entityId : EntityId) (artifactType : String) (w : World) : Prop :=
  ∀ row, w.row = some row → row.dirty = false →
    ∃ template, TEMPLATES.lookup artifactType = some template ∧
      Holds template (fetchActiveFacts w.db entityId w.builtFor) row

section Calls

variable {entityId : EntityId} {artifactType : String} {w : World} {call : Call}
  {compiled : CompiledArtifact} {facts : List FactRow} {row : ArtifactRow}

theorem of_compile (h : compile artifactType facts = some compiled) :
    ∃ template, TEMPLATES.lookup artifactType = some template ∧
      compiled.payload = (template facts).payload ∧
      compiled.citations = (template facts).citations ∧
      ∀ id, id ∈ compiled.sourceFactIds ↔ id ∈ (template facts).sourceFactIds := by
  obtain ⟨template, htemplate, rfl⟩ := Option.map_eq_some_iff.mp h
  exact ⟨template, htemplate, rfl, rfl, fun id => List.mem_eraseDups⟩

theorem holds_upsert {template : Template} {old : Option ArtifactRow} {expectedDirty : Bool}
    {dbNow : Time} (hpayload : compiled.payload = (template facts).payload)
    (hcitations : compiled.citations = (template facts).citations)
    (hsources : ∀ id, id ∈ compiled.sourceFactIds ↔ id ∈ (template facts).sourceFactIds) :
    Holds template facts (upsertArtifact old compiled expectedDirty dbNow) := by
  cases old with
  | none => exact ⟨hpayload, hcitations, hsources⟩
  | some old => exact ⟨hpayload, hcitations, hsources⟩

/-- A call that can be answered from the row returns it. -/
theorem World.call_served (h : w.served entityId call = some row) :
    (w.call entityId artifactType call).1 = some
      (shapeForReturn row entityId call.scopes (call.now - row.builtAt) artifactType) := by
  rw [World.served] at h
  split at h
  · next hentity => rw [World.call, if_pos hentity, h]
  · cases h

/-- **What a call does**: it returns the row that it is served, or it compiles one from the view
of its caller, stores and returns it, or it throws. -/
theorem World.call_cases (w : World) (entityId : EntityId) (artifactType : String) (call : Call) :
    (∃ row ageMs, w.served entityId call = some row ∧ w.call entityId artifactType call
        = (some (shapeForReturn row entityId call.scopes ageMs artifactType), w)) ∨
      (∃ template row ageMs, TEMPLATES.lookup artifactType = some template ∧
        Holds template (fetchActiveFacts w.db entityId call.scopes) row ∧
        w.call entityId artifactType call
          = (some (shapeForReturn row entityId call.scopes ageMs artifactType),
            { w with row := some row, builtFor := call.scopes })) ∨
      w.call entityId artifactType call = (none, w) := by
  unfold World.call World.served
  by_cases hentity : w.db.HasEntity entityId
  · simp only [if_pos hentity]
    cases hcached : call.cached w.row with
    | some cached => exact Or.inl ⟨cached, _, rfl, rfl⟩
    | none =>
        right
        dsimp only
        split
        · next compiled hcompile =>
            obtain ⟨template, htemplate, hpayload, hcitations, hsources⟩ := of_compile hcompile
            refine Or.inl ⟨template, _, _, htemplate, ?_, rfl⟩
            exact holds_upsert hpayload hcitations hsources
        · exact Or.inr rfl
  · exact Or.inr (Or.inr (if_neg hentity))

/-- Calls and writes keep the row to the view that it was compiled from. -/
theorem RowOk.exec (h : RowOk entityId artifactType w) (event : Event) :
    RowOk entityId artifactType (exec entityId artifactType w event) := by
  cases event with
  | write db =>
      intro row hrow hclean
      obtain ⟨old, _, rfl⟩ := Option.map_eq_some_iff.mp hrow
      cases hclean
  | call call =>
      rw [Artifacts.exec]
      rcases w.call_cases entityId artifactType call with ⟨row, ageMs, _, hcall⟩ |
        ⟨template, row, ageMs, htemplate, hholds, hcall⟩ | hcall
      · rw [hcall]
        exact h
      · rw [hcall]
        intro stored hstored _
        rw [← Option.some.inj hstored]
        exact ⟨template, htemplate, hholds⟩
      · rw [hcall]
        exact h

/-- The world after a list of events; at first there is no row. -/
def worldAfter (entityId : EntityId) (artifactType : String) (db : TenantDb)
    (events : List Event) : World :=
  events.foldl (exec entityId artifactType) { db := db }

theorem rowOk_worldAfter (entityId : EntityId) (artifactType : String) (db : TenantDb)
    (events : List Event) :
    RowOk entityId artifactType (worldAfter entityId artifactType db events) := by
  have hfold : ∀ w, RowOk entityId artifactType w →
      RowOk entityId artifactType (events.foldl (Artifacts.exec entityId artifactType) w) := by
    induction events with
    | nil => exact fun _ h => h
    | cons event events ih => exact fun w h => ih _ (h.exec event)
  refine hfold _ ?_
  intro row hrow
  cases hrow

/-- A row that a call is answered from is what the template makes of a view of the facts. -/
theorem RowOk.served (h : RowOk entityId artifactType w)
    (hserved : w.served entityId call = some row) :
    ∃ template, TEMPLATES.lookup artifactType = some template ∧
      Holds template (visibleTo w.builtFor (activeFacts w.db entityId)) row := by
  rw [World.served] at hserved
  split at hserved
  · rw [Call.cached] at hserved
    split at hserved
    · cases hserved
    · obtain ⟨hrow, hfresh⟩ := Option.filter_eq_some_iff.mp hserved
      simp only [Bool.and_eq_true, Bool.not_eq_true'] at hfresh
      exact h row hrow hfresh.1
  · cases hserved

end Calls

/-! ## 2. Gated facts -/

/-- An answer has no identifier of a gated fact, and no text that is not the object of a fact
that everyone may see. -/
structure LeakFree (t : KeyedTable KnowledgeFact) (a : KnowledgeArtifact) : Prop where
  sources : ∀ i f, t.get? i = some f → isGated f.predicate = true → i ∉ a.sourceFactIds
  citations : ∀ i f, t.get? i = some f → isGated f.predicate = true → ∀ field cites,
    a.citations field = some cites → ∀ c ∈ cites, c.factId ≠ i
  payload : ∀ field value, a.payload field = some value → ∀ object ∈ value.objects,
    ∃ i f, t.get? i = some f ∧ isGated f.predicate = false ∧ f.object = object

section Leaks

variable {entityId : EntityId} {artifactType : String} {db : TenantDb} {template : Template}
  {scopes builtFor : List BrainScope} {row : ArtifactRow} {f : FactRow} {ageMs : ℤ}

theorem get?_of_mem_activeFacts (h : f ∈ activeFacts db entityId) :
    db.facts.get? f.1 = some f.2 := by
  rw [activeFacts, List.mem_insertionSort] at h
  exact KeyedTable.mem_rows_iff.mp (List.mem_filter.mp h).1

/-- What is from facts that everyone may see leaks nothing, to whomever it is returned. -/
theorem leakFree_of_from
    (hholds : Holds template (visibleTo builtFor (activeFacts db entityId)) row)
    (hfrom : From (fun f => f ∈ activeFacts db entityId ∧ isGated f.2.predicate = false)
      (template (visibleTo builtFor (activeFacts db entityId)))) :
    LeakFree db.facts (shapeForReturn row entityId scopes ageMs artifactType) := by
  have hungated : ∀ i f, db.facts.get? i = some f → isGated f.predicate = true → ∀ g : FactRow,
      (g ∈ activeFacts db entityId ∧ isGated g.2.predicate = false) → g.1 ≠ i := by
    rintro i f hf hgated g ⟨hg, hnot⟩ rfl
    have hsame : some g.2 = some f := (get?_of_mem_activeFacts hg).symm.trans hf
    rw [Option.some.inj hsame, hgated] at hnot
    cases hnot
  refine ⟨?_, ?_, ?_⟩
  · intro i f hf hgated hi
    obtain ⟨g, hg, hid⟩ := hfrom.sources i ((hholds.sources i).mp hi)
    exact hungated i f hf hgated g hg hid
  · intro i f hf hgated field cites hcites c hc hid
    have hstored : row.citations field = some cites := by
      simp only [shapeForReturn, filteredCitations] at hcites
      split at hcites
      · exact hcites
      · cases hcites
    rw [hholds.citations] at hstored
    obtain ⟨g, hg, hgid⟩ := hfrom.citations field cites hstored c hc
    exact hungated i f hf hgated g hg (hgid.trans hid)
  · intro field value hvalue object hobject
    have hstored : row.payload field = some value := by
      simp only [shapeForReturn, filteredPayload] at hvalue
      split at hvalue
      · cases hvalue
      · exact hvalue
    rw [hholds.payload] at hstored
    obtain ⟨g, hg, hgobject⟩ := hfrom.objects field value hstored object hobject
    exact ⟨g.1, g.2, get?_of_mem_activeFacts hg.1, hg.2, hgobject⟩

/-- With the scope, everything is visible. -/
theorem visibleTo_of_mem (hscopes : .read_pii ∈ scopes) (facts : List FactRow) :
    visibleTo scopes facts = facts :=
  List.filter_eq_self.mpr (fun _ _ => scopeAllows_iff.mpr (fun _ => hscopes))

/-- A row leaks nothing exactly if it was compiled without gated facts, or cites none. -/
theorem leakFree_shape_iff (htemplate : TEMPLATES.lookup artifactType = some template)
    (hholds : Holds template (visibleTo builtFor (activeFacts db entityId)) row) :
    LeakFree db.facts (shapeForReturn row entityId scopes ageMs artifactType) ↔
      (.read_pii ∈ builtFor → ∀ f ∈ activeFacts db entityId, ¬ CitesGated artifactType f) := by
  constructor
  · intro hfree hbuilt f hf hcites
    rw [visibleTo_of_mem hbuilt] at hholds
    obtain ⟨g, hg, hgated, hsource⟩ := gated_source htemplate hf hcites
    exact hfree.sources g.1 g.2 (get?_of_mem_activeFacts hg) hgated
      ((hholds.sources g.1).mpr hsource)
  · intro hnone
    refine leakFree_of_from hholds ((from_template htemplate _).mono ?_)
    rintro f ⟨hf, hcites⟩
    obtain ⟨hmem, hallow⟩ := mem_visibleTo.mp hf
    refine ⟨hmem, ?_⟩
    rw [← Bool.not_eq_true]
    intro hgated
    exact hnone (scopeAllows_iff.mp hallow hgated) f hmem (hcites hgated)

/-- **No answer to a caller without `brain:read_pii` leaks** exactly if, whenever such a
caller is answered from the row, it was compiled for a caller without the scope, or no gated
fact of the entity is one that the type cites. -/
theorem leakFree_iff (entityId : EntityId) (artifactType : String) (db : TenantDb)
    (events : List Event) :
    (∀ p call, p ++ [Event.call call] <+: events → .read_pii ∉ call.scopes →
      ∀ a, ((worldAfter entityId artifactType db p).call entityId artifactType call).1 = some a →
        LeakFree (worldAfter entityId artifactType db p).db.facts a) ↔
    (∀ p call, p ++ [Event.call call] <+: events → .read_pii ∉ call.scopes →
      ((worldAfter entityId artifactType db p).served entityId call).isSome = true →
        .read_pii ∈ (worldAfter entityId artifactType db p).builtFor →
          ∀ f ∈ activeFacts (worldAfter entityId artifactType db p).db entityId,
            ¬ CitesGated artifactType f) := by
  refine forall₄_congr (fun p call _ hscopes => ?_)
  have hok := rowOk_worldAfter entityId artifactType db p
  generalize worldAfter entityId artifactType db p = w at hok ⊢
  constructor
  · intro hfree hserved
    obtain ⟨row, hrow⟩ := Option.isSome_iff_exists.mp hserved
    obtain ⟨template, htemplate, hholds⟩ := hok.served hrow
    exact (leakFree_shape_iff htemplate hholds).mp (hfree _ (World.call_served hrow))
  · intro hnone a ha
    rcases w.call_cases entityId artifactType call with ⟨row, ageMs, hrow, hcall⟩ |
      ⟨template, row, ageMs, htemplate, hholds, hcall⟩ | hcall
    · obtain ⟨template, htemplate, hholds⟩ := hok.served hrow
      rw [hcall, Option.some_inj] at ha
      rw [← ha]
      exact (leakFree_shape_iff htemplate hholds).mpr (hnone (by rw [hrow]; rfl))
    · rw [hcall, Option.some_inj] at ha
      rw [← ha]
      exact (leakFree_shape_iff htemplate hholds).mpr (fun h => absurd h hscopes)
    · rw [hcall] at ha
      cases ha

end Leaks

/-! ## 3. The view of the caller -/

/-- What is returned of `stored` to a caller with these scopes is `own`. -/
structure Shows (scopes : List BrainScope) (stored own : CompiledArtifact) : Prop where
  payload : ∀ field, filteredPayload stored.payload stored.citations scopes field = own.payload field
  citations : ∀ field,
    filteredCitations stored.payload stored.citations scopes field = own.citations field

/-- Rows that are compiled for the one are right for the other: both may see gated facts, or
neither may; or there are none that the type reads; or the row was compiled from all facts,
and the type has fields of their own for the gated ones. -/
def Alike (artifactType : String) (scopes builtFor : List BrainScope) (facts : List FactRow) :
    Prop :=
  (.read_pii ∈ scopes ↔ .read_pii ∈ builtFor) ∨
    (∀ f ∈ facts, ¬ ReadsGated artifactType f.2.predicate) ∨
    (.read_pii ∈ builtFor ∧ artifactType ≠ "risk_snapshot")

section Views

variable {artifactType : String} {scopes builtFor : List BrainScope} {facts : List FactRow}
  {specs : List FieldSpec} {spec : FieldSpec} {field : String} {stored own : CompiledArtifact}

theorem find?_of_mem (hnodup : (specs.map FieldSpec.fieldName).Nodup) (hspec : spec ∈ specs) :
    specs.find? (fun other => other.fieldName == spec.fieldName) = some spec := by
  have hsome : (specs.find? (fun other => other.fieldName == spec.fieldName)).isSome = true :=
    List.find?_isSome.mpr ⟨spec, hspec, beq_iff_eq.mpr rfl⟩
  obtain ⟨other, hother⟩ := Option.isSome_iff_exists.mp hsome
  have hname : other.fieldName = spec.fieldName := by simpa using List.find?_some hother
  rw [hother, List.inj_on_of_nodup_map hnodup (List.mem_of_find?_eq_some hother) hspec hname]

theorem filter_const {α : Type*} (b : Bool) (o : Option α) :
    o.filter (fun _ => b) = if b then o else none := by
  cases o with
  | none => exact (ite_self none).symm
  | some a => exact Option.filter_some

/-- The field of a line is gated as its predicate is. -/
theorem Lines.restricted_eq (h : Lines artifactType specs) (hspec : spec ∈ specs) :
    restricted scopes spec.fieldName = !scopeAllows scopes spec.predicate := by
  have hsame : scopeAllows scopes (fieldPredicate spec.fieldName)
      = scopeAllows scopes spec.predicate := by
    rw [Bool.eq_iff_iff, scopeAllows_iff, scopeAllows_iff, h.mapped spec hspec]
  rw [restricted, hsame]

theorem hasCites_build (h : Lines artifactType specs) (facts : List FactRow) (field : String) :
    hasCites (build specs facts).citations field = (fieldEntry specs facts field).isSome := by
  rw [hasCites, (field_build h.nodup facts field).2]
  cases hentry : fieldEntry specs facts field with
  | none => rfl
  | some p =>
      obtain ⟨spec, _, hspec⟩ := Option.bind_eq_some_iff.mp hentry
      have hne := (FieldSpec.of_entry hspec).1
      simpa [List.isEmpty_iff] using hne

/-- What is returned of a row of lines. -/
theorem filtered_build (h : Lines artifactType specs) (facts : List FactRow) (field : String) :
    filteredPayload (build specs facts).payload (build specs facts).citations scopes field
        = ((fieldEntry specs facts field).filter (fun _ => !restricted scopes field)).map
            Prod.fst ∧
      filteredCitations (build specs facts).payload (build specs facts).citations scopes field
        = ((fieldEntry specs facts field).filter (fun _ => !restricted scopes field)).map
            (fun p => p.2.map cite) := by
  rw [filteredPayload, filteredCitations, hasCites_build h, (field_build h.nodup facts field).1,
    (field_build h.nodup facts field).2]
  cases fieldEntry specs facts field with
  | none => exact ⟨rfl, rfl⟩
  | some p => cases hrestricted : restricted scopes field <;> simp

/-- **Lines show a caller their own view** exactly if what they may see of the predicates was
also seen when the row was compiled. -/
theorem shows_build_iff (h : Lines artifactType specs) :
    Shows scopes (build specs (visibleTo builtFor facts)) (build specs (visibleTo scopes facts)) ↔
      ∀ spec ∈ specs, scopeAllows scopes spec.predicate = true →
        scopeAllows builtFor spec.predicate = true ∨ spec.entry facts = none := by
  have hentry : ∀ spec ∈ specs, ∀ seen : List BrainScope,
      fieldEntry specs (visibleTo seen facts) spec.fieldName
        = if scopeAllows seen spec.predicate then spec.entry facts else none := by
    intro spec hspec seen
    rw [fieldEntry, find?_of_mem h.nodup hspec, Option.bind_some, FieldSpec.entry_visibleTo]
  have hfiltered : ∀ spec ∈ specs,
      (fieldEntry specs (visibleTo builtFor facts) spec.fieldName).filter
          (fun _ => !restricted scopes spec.fieldName)
        = if scopeAllows scopes spec.predicate && scopeAllows builtFor spec.predicate then
            spec.entry facts else none := by
    intro spec hspec
    rw [hentry spec hspec, h.restricted_eq hspec, Bool.not_not, filter_const, ← ite_and]
    simp only [Bool.and_eq_true]
  constructor
  · intro hshows spec hspec hallow
    have hpayload := hshows.payload spec.fieldName
    rw [(filtered_build h _ _).1, (field_build h.nodup _ _).1, hfiltered spec hspec,
      hentry spec hspec, if_pos hallow, hallow, Bool.true_and] at hpayload
    by_cases hbuilt : scopeAllows builtFor spec.predicate = true
    · exact Or.inl hbuilt
    · rw [if_neg hbuilt, Option.map_none, eq_comm, Option.map_eq_none_iff] at hpayload
      exact Or.inr hpayload
  · intro hall
    have hsame : ∀ field, (fieldEntry specs (visibleTo builtFor facts) field).filter
        (fun _ => !restricted scopes field) = fieldEntry specs (visibleTo scopes facts) field := by
      intro field
      cases hfind : specs.find? (fun spec => spec.fieldName == field) with
      | none =>
          rw [fieldEntry, fieldEntry, hfind, Option.bind_none, Option.bind_none,
            Option.filter_none]
      | some spec =>
          have hspec := List.mem_of_find?_eq_some hfind
          have hname : spec.fieldName = field := by simpa using List.find?_some hfind
          subst hname
          rw [hfiltered spec hspec, hentry spec hspec]
          by_cases hallow : scopeAllows scopes spec.predicate = true
          · rw [if_pos hallow, hallow, Bool.true_and]
            rcases hall spec hspec hallow with hbuilt | hnone
            · rw [if_pos hbuilt]
            · rw [hnone, ite_self]
          · rw [if_neg hallow, Bool.eq_false_iff.mpr hallow, Bool.false_and,
              if_neg Bool.false_ne_true]
    refine ⟨fun field => ?_, fun field => ?_⟩
    · rw [(filtered_build h _ _).1, (field_build h.nodup _ _).1, hsame]
    · rw [(filtered_build h _ _).2, (field_build h.nodup _ _).2, hsame]

theorem Lines.shows_iff (h : Lines artifactType specs) :
    Shows scopes (build specs (visibleTo builtFor facts)) (build specs (visibleTo scopes facts)) ↔
      Alike artifactType scopes builtFor facts := by
  rw [shows_build_iff h]
  constructor
  · intro hall
    by_cases hscopes : .read_pii ∈ scopes
    · by_cases hbuilt : .read_pii ∈ builtFor
      · exact Or.inl (iff_of_true hscopes hbuilt)
      · refine Or.inr (Or.inl (fun f hf hreads => ?_))
        obtain ⟨spec, hspec, hpredicate⟩ := (h.readsGated_iff hreads.1).mpr hreads
        rcases hall spec hspec (scopeAllows_iff.mpr (fun _ => hscopes)) with hallow | hnone
        · rw [hpredicate] at hallow
          exact hbuilt (scopeAllows_iff.mp hallow hreads.1)
        · exact FieldSpec.entry_eq_none.mp hnone f hf hpredicate.symm
    · by_cases hbuilt : .read_pii ∈ builtFor
      · exact Or.inr (Or.inr ⟨hbuilt, h.noRisk⟩)
      · exact Or.inl (iff_of_false hscopes hbuilt)
  · intro halike spec hspec hallow
    by_cases hgated : isGated spec.predicate = true
    · have hscopes := scopeAllows_iff.mp hallow hgated
      rcases halike with hiff | hnone | ⟨hbuilt, _⟩
      · exact Or.inl (scopeAllows_iff.mpr (fun _ => hiff.mp hscopes))
      · refine Or.inr (FieldSpec.entry_eq_none.mpr (fun f hf hpredicate => hnone f hf ?_))
        rw [hpredicate]
        exact (h.readsGated_iff hgated).mp ⟨spec, hspec, rfl⟩
      · exact Or.inl (scopeAllows_iff.mpr (fun _ => hbuilt))
    · exact Or.inl (scopeAllows_iff.mpr (fun h => absurd h hgated))

/-- The same number in a field that cites nothing. -/
theorem Shows.putCount (h : Shows scopes stored own) {fieldName : String} {n m : ℕ}
    (hnone : stored.citations fieldName = none) (hown : own.citations fieldName = none)
    (hcount : n = m) :
    Shows scopes (stored.putCount fieldName n) (own.putCount fieldName m) := by
  subst hcount
  have hcites : hasCites stored.citations fieldName = false := by rw [hasCites, hnone]; rfl
  refine ⟨fun field => ?_, fun field => ?_⟩
  · rw [putCount_payload, ← h.payload field, filteredPayload, putCount_payload]
    by_cases hfield : field = fieldName
    · subst hfield
      rw [if_pos rfl, if_pos rfl, CompiledArtifact.putCount, hcites, Bool.false_and,
        if_neg Bool.false_ne_true]
    · rw [if_neg hfield, if_neg hfield]
      rfl
  · have hsame := h.citations field
    by_cases hfield : field = fieldName
    · subst hfield
      rw [filteredCitations, CompiledArtifact.putCount, CompiledArtifact.putCount, hcites, hown,
        Bool.and_false, Bool.false_and, if_neg Bool.false_ne_true]
    · rw [filteredCitations, putCount_payload, if_neg hfield]
      exact hsame

theorem not_readsGated_support (predicate : String) :
    ¬ ReadsGated "support_context" predicate := by
  rintro ⟨_, htype | htype | ⟨htype, _⟩⟩
  · exact absurd htype (by decide)
  · exact absurd htype (by decide)
  · exact absurd htype (by decide)

theorem shows_supportContext (h : Lines "support_context" supportSpecs) :
    Shows scopes (supportContext (visibleTo builtFor facts))
      (supportContext (visibleTo scopes facts)) := by
  have hlines : Shows scopes (build supportSpecs (visibleTo builtFor facts))
      (build supportSpecs (visibleTo scopes facts)) :=
    h.shows_iff.mpr (Or.inr (Or.inl (fun _ _ => not_readsGated_support _)))
  have hnone : ∀ l, (build supportSpecs l).citations "complaintCount" = none ∧
      (build supportSpecs l).citations "utteranceCount" = none := by
    intro l
    rw [(field_build h.nodup l _).2, (field_build h.nodup l _).2]
    exact ⟨rfl, rfl⟩
  have hallOf : ∀ predicate, isGated predicate = false →
      allOf (visibleTo builtFor facts) predicate = allOf (visibleTo scopes facts) predicate := by
    intro predicate hgated
    rw [allOf_visibleTo, allOf_visibleTo, if_pos (scopeAllows_of_not_gated hgated),
      if_pos (scopeAllows_of_not_gated hgated)]
  have hcomplaints := hallOf "complained_about" (by decide)
  have hsaid := hallOf "said" (by decide)
  refine (hlines.putCount (hnone _).1 (hnone _).1 ?_).putCount (hnone _).2 (hnone _).2 ?_
  · rw [hcomplaints]
  · rw [hsaid]

/-- All that is cited is shown, to everyone. -/
def Open (compiled : CompiledArtifact) : Prop :=
  ∀ field cites, compiled.citations field = some cites →
    cites ≠ [] ∧ (compiled.payload field).isSome = true ∧ isGated (fieldPredicate field) = false

theorem open_empty : Open empty := fun _ _ h => by cases h

theorem Open.putFlagged (h : Open stored) {fieldName : String} (subset : List FactRow)
    (hgated : isGated (fieldPredicate fieldName) = false) :
    Open (stored.putFlagged fieldName subset) := by
  rw [CompiledArtifact.putFlagged]
  split
  · exact h
  · next hne =>
      intro field cites hcites
      rw [put_citations] at hcites
      rw [put_payload]
      split at hcites
      · next hfield =>
          rw [if_pos hfield, hfield, ← Option.some.inj hcites]
          refine ⟨fun hnil => hne ?_, rfl, hgated⟩
          rw [List.map_eq_nil_iff.mp hnil, List.isEmpty_nil]
      · next hfield =>
          rw [if_neg hfield]
          exact h field cites hcites

theorem Open.putCount (h : Open stored) (fieldName : String) (n : ℕ) :
    Open (stored.putCount fieldName n) := by
  intro field cites hcites
  obtain ⟨hne, hsome, hgated⟩ := h field cites hcites
  refine ⟨hne, ?_, hgated⟩
  rw [putCount_payload]
  split
  · rfl
  · exact hsome

theorem Open.shows (h : Open stored) : Shows scopes stored stored := by
  refine ⟨fun field => ?_, fun field => ?_⟩
  · rw [filteredPayload, hasCites]
    cases hcites : stored.citations field with
    | none => rfl
    | some cites =>
        rw [restricted, scopeAllows_of_not_gated (h field cites hcites).2.2, Bool.not_true,
          Bool.and_false, if_neg Bool.false_ne_true]
  · rw [filteredCitations, hasCites]
    cases hcites : stored.citations field with
    | none => exact ite_self none
    | some cites =>
        obtain ⟨hne, hsome, hgated⟩ := h field cites hcites
        rw [restricted, scopeAllows_of_not_gated hgated, hsome, if_pos]
        simpa [List.isEmpty_iff] using hne

theorem open_riskSnapshot (facts : List FactRow) : Open (riskSnapshot facts) := by
  have hcompeting : Open (empty.putFlagged "competingFacts"
      (facts.filter (fun f => f.2.status == .competing))) := open_empty.putFlagged _ (by decide)
  exact (((hcompeting.putFlagged _ (by decide)).putCount _ _).putCount _ _).putCount _ _

/-- A caller with the scope sees what is there, and everyone does if nothing is gated. -/
theorem visibleTo_congr (h : Alike "risk_snapshot" scopes builtFor facts) :
    visibleTo builtFor facts = visibleTo scopes facts := by
  refine List.filter_congr (fun f hf => ?_)
  rw [Bool.eq_iff_iff, scopeAllows_iff, scopeAllows_iff]
  rcases h with hiff | hnone | ⟨_, hne⟩
  · rw [hiff]
  · have hgated : ¬ isGated f.2.predicate = true := fun hgated => hnone f hf ⟨hgated, Or.inl rfl⟩
    exact iff_of_true (fun h => absurd h hgated) (fun h => absurd h hgated)
  · exact absurd rfl hne

/-- A snapshot counts all the facts. -/
theorem total_riskSnapshot (facts : List FactRow) :
    (riskSnapshot facts).payload "totalActiveFacts" = some (.count facts.length) := by
  rw [riskSnapshot, putCount_payload, if_neg (by decide), putCount_payload, if_neg (by decide),
    putCount_payload, if_pos rfl]

/-- Of two views of a different size, one lacks a gated fact. -/
theorem alike_of_length (h : (visibleTo builtFor facts).length = (visibleTo scopes facts).length) :
    Alike "risk_snapshot" scopes builtFor facts := by
  have hnone : ∀ seen : List BrainScope, .read_pii ∉ seen →
      (visibleTo seen facts).length = facts.length →
      ∀ f ∈ facts, ¬ ReadsGated "risk_snapshot" f.2.predicate := by
    intro seen hseen hlength f hf hreads
    exact hseen (scopeAllows_iff.mp (List.length_filter_eq_length_iff.mp hlength f hf) hreads.1)
  by_cases hscopes : .read_pii ∈ scopes
  · by_cases hbuilt : .read_pii ∈ builtFor
    · exact Or.inl (iff_of_true hscopes hbuilt)
    · rw [visibleTo_of_mem hscopes] at h
      exact Or.inr (Or.inl (hnone builtFor hbuilt h))
  · by_cases hbuilt : .read_pii ∈ builtFor
    · rw [visibleTo_of_mem hbuilt] at h
      exact Or.inr (Or.inl (hnone scopes hscopes h.symm))
    · exact Or.inl (iff_of_false hscopes hbuilt)

theorem shows_riskSnapshot_iff :
    Shows scopes (riskSnapshot (visibleTo builtFor facts)) (riskSnapshot (visibleTo scopes facts)) ↔
      Alike "risk_snapshot" scopes builtFor facts := by
  constructor
  · intro hshows
    have htotal := hshows.payload "totalActiveFacts"
    rw [(open_riskSnapshot _).shows.payload, total_riskSnapshot, total_riskSnapshot] at htotal
    exact alike_of_length (Value.count.inj (Option.some.inj htotal))
  · intro halike
    rw [visibleTo_congr halike]
    exact (open_riskSnapshot _).shows

/-- **A template shows a caller their own view** exactly if the two are alike. -/
theorem shows_template_iff {template : Template}
    (h : TEMPLATES.lookup artifactType = some template) :
    Shows scopes (template (visibleTo builtFor facts)) (template (visibleTo scopes facts)) ↔
      Alike artifactType scopes builtFor facts := by
  rcases template_cases h with ⟨specs, hlines, rfl⟩ | ⟨rfl, hlines, rfl⟩ | ⟨rfl, rfl⟩
  · exact hlines.shows_iff
  · refine iff_of_true (shows_supportContext hlines) (Or.inr (Or.inl ?_))
    exact fun _ _ => not_readsGated_support _
  · exact shows_riskSnapshot_iff

/-- What is returned of a row, in terms of the template. -/
theorem shape_eq_iff {template : Template} {own : CompiledArtifact} {row : ArtifactRow}
    {entityId : EntityId} {ageMs : ℤ} (hholds : Holds template facts row) :
    ((shapeForReturn row entityId scopes ageMs artifactType).payload = own.payload ∧
      (shapeForReturn row entityId scopes ageMs artifactType).citations = own.citations) ↔
    Shows scopes (template facts) own := by
  rw [shapeForReturn, hholds.payload, hholds.citations, funext_iff, funext_iff]
  exact ⟨fun h => ⟨h.1, h.2⟩, fun h => ⟨h.payload, h.citations⟩⟩

/-- **The row is transparent** exactly if it is only returned to callers whose view is alike
to the one that it was compiled from. -/
theorem transparent_iff (entityId : EntityId) (artifactType : String) (db : TenantDb)
    (events : List Event) :
    (∀ p call, p ++ [Event.call call] <+: events →
      ((worldAfter entityId artifactType db p).served entityId call).isSome = true →
      ∀ a own, ((worldAfter entityId artifactType db p).call entityId artifactType call).1 = some a →
        compile artifactType (fetchActiveFacts (worldAfter entityId artifactType db p).db entityId
          call.scopes) = some own →
        a.payload = own.payload ∧ a.citations = own.citations) ↔
    (∀ p call, p ++ [Event.call call] <+: events →
      ((worldAfter entityId artifactType db p).served entityId call).isSome = true →
      Alike artifactType call.scopes (worldAfter entityId artifactType db p).builtFor
        (activeFacts (worldAfter entityId artifactType db p).db entityId)) := by
  refine forall₄_congr (fun p call _ hserved => ?_)
  have hok := rowOk_worldAfter entityId artifactType db p
  generalize worldAfter entityId artifactType db p = w at hok hserved ⊢
  obtain ⟨row, hrow⟩ := Option.isSome_iff_exists.mp hserved
  obtain ⟨template, htemplate, hholds⟩ := hok.served hrow
  have hown : ∀ own, compile artifactType (fetchActiveFacts w.db entityId call.scopes) = some own →
      (Shows call.scopes (template (visibleTo w.builtFor (activeFacts w.db entityId))) own ↔
        Alike artifactType call.scopes w.builtFor (activeFacts w.db entityId)) := by
    intro own hcompile
    obtain ⟨template', htemplate', hpayload, hcitations, _⟩ := of_compile hcompile
    have hsame : template' = template := Option.some.inj (htemplate'.symm.trans htemplate)
    subst hsame
    rw [← shows_template_iff htemplate, ← fetchActiveFacts_eq w.db entityId call.scopes]
    exact ⟨fun h => ⟨hpayload ▸ h.payload, hcitations ▸ h.citations⟩,
      fun h => ⟨hpayload ▸ h.payload, hcitations ▸ h.citations⟩⟩
  constructor
  · intro htransparent
    have hcompile : compile artifactType (fetchActiveFacts w.db entityId call.scopes) = some _ :=
      Option.map_eq_some_iff.mpr ⟨template, htemplate, rfl⟩
    have hreturned := htransparent _ _ (World.call_served hrow) hcompile
    exact (hown _ hcompile).mp ((shape_eq_iff hholds).mp hreturned)
  · intro halike a own ha hcompile
    rw [World.call_served hrow] at ha
    rw [← Option.some.inj ha]
    exact (shape_eq_iff hholds).mpr ((hown own hcompile).mpr halike)

end Views

/-! ## 4. A row for two callers -/

/-- A person with a date of birth. -/
def bornDb : TenantDb where
  facts := KeyedTable.empty.insert
    { entityId := 0, predicate := "dob", object := "1990-01-01", confidence := .full,
      validFrom := 0, recordedAt := 0, source := {} }
  entities := KeyedTable.empty.insert { type := "person", canonicalName := "ada" }

/-- A call at the same moment as the others. -/
def callOf (scopes : List BrainScope) : Call where
  recompile := false
  scopes := scopes
  now := 0
  dbNow := 0

/-- The dossier that was compiled for a caller with the scope names its sources to one
without. -/
theorem dossier_names_gated_source :
    ¬ ∀ (entityId : EntityId) (artifactType : String) (db : TenantDb) (events p : List Event)
      (call : Call), (TEMPLATES.lookup artifactType).isSome = true →
      p ++ [Event.call call] <+: events → .read_pii ∉ call.scopes →
      ∀ a, ((worldAfter entityId artifactType db p).call entityId artifactType call).1 = some a →
        LeakFree (worldAfter entityId artifactType db p).db.facts a := by
  intro hall
  have hanswer : ((worldAfter 0 "identity_dossier" bornDb [.call (callOf [.read_pii])]).call 0
      "identity_dossier" (callOf [.read])).1.map KnowledgeArtifact.sourceFactIds = some [0] := by
    decide +kernel
  obtain ⟨a, ha, hsources⟩ := Option.map_eq_some_iff.mp hanswer
  have hfree := hall 0 "identity_dossier" bornDb
    ([.call (callOf [.read_pii])] ++ [.call (callOf [.read])]) [.call (callOf [.read_pii])]
    (callOf [.read]) (by decide) (List.prefix_rfl) (by decide) a ha
  have hgated := hfree.sources 0 _ rfl (by decide)
  rw [hsources] at hgated
  exact hgated List.mem_cons_self

/-- The dossier that was compiled for a caller without the scope lacks the date of birth for
one who has it. -/
theorem dossier_lacks_gated_field :
    ¬ ∀ (entityId : EntityId) (artifactType : String) (db : TenantDb) (events p : List Event)
      (call : Call), p ++ [Event.call call] <+: events →
      ((worldAfter entityId artifactType db p).served entityId call).isSome = true →
      ∀ a own, ((worldAfter entityId artifactType db p).call entityId artifactType call).1 = some a →
        compile artifactType (fetchActiveFacts (worldAfter entityId artifactType db p).db entityId
          call.scopes) = some own →
        a.payload = own.payload ∧ a.citations = own.citations := by
  intro hall
  have hanswer : ((worldAfter 0 "identity_dossier" bornDb [.call (callOf [.read])]).call 0
      "identity_dossier" (callOf [.read_pii])).1.map (fun a => a.payload "dob") = some none := by
    decide +kernel
  have hown : (compile "identity_dossier" (fetchActiveFacts bornDb 0 [.read_pii])).map
      (fun own => own.payload "dob") = some (some (.texts ["1990-01-01"])) := by
    decide +kernel
  obtain ⟨a, ha, hnone⟩ := Option.map_eq_some_iff.mp hanswer
  obtain ⟨own, hcompile, hsome⟩ := Option.map_eq_some_iff.mp hown
  have hsame := (hall 0 "identity_dossier" bornDb
    ([.call (callOf [.read])] ++ [.call (callOf [.read_pii])]) [.call (callOf [.read])]
    (callOf [.read_pii]) List.prefix_rfl (by decide +kernel) a own ha hcompile).1
  rw [hsame, hsome] at hnone
  cases hnone

end Brain.Artifacts
