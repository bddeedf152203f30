/-
`src/src/ingest/ingest.service.ts`: the statements of `ingestFact`, `ingestMention` and
`ingestLink`, one after the other.

The three methods have one shape. They find or create the entities that they are about,
one after the other, and then they write: a fact at a time, an edge at a time, a merge.
Embeddings, extraction and the predicate registry stand between the statements, and take
their time; what they come to is in the writes. An entity that is named by its id is not
looked up at all. A call of `ingestFact` or `ingestLink` that nobody comes between does what
the function does (`ingestFact_alone`, `ingestLink_alone`).

Columns that nothing modelled here reads are left out: the alternative embedding and the
entropy of a fact, the source of an edge.
-/
import Brain.Artifacts.ArtifactsService
import Brain.Lib.Runs

set_option autoImplicit false

namespace Brain

/-! ## Requests -/

/-- `ExtractedEntity`. -/
structure ExtractedEntity where
  name : String
  type : String
  canonical : Option String := none

/-- `ExtractedFact`. -/
structure ExtractedFact where
  entityIndex : ℕ
  predicate : String
  object : String
  confidence : ℚ

/-- `ExtractedEdge`. -/
structure ExtractedEdge where
  fromEntityIndex : ℕ
  toEntityIndex : ℕ
  kind : String

/-- `ExtractionResult`. -/
structure ExtractionResult where
  entities : List ExtractedEntity
  facts : List ExtractedFact
  edges : List ExtractedEdge

/-- `KnownEntity`. -/
structure KnownEntity where
  vertical : String
  id : String

/-- `IngestMentionDto`; of its text the extraction is left. -/
structure IngestMentionDto where
  contextRef : FactSource
  knownEntities : List KnownEntity := []
  emittedAt : Time

/-- What the service is constructed with. -/
structure IngestServices where
  ingest : IngestConfig
  /-- `extractor.modelId()`. -/
  modelId : String
  /-- `toLowerCase`. -/
  toLowerCase : String → String
  /-- `string::lowercase` of the database. -/
  lowercase : String → String

/-! ## Entities to find or to create -/

/-- The CONTENT of an entity. -/
structure EntityContent where
  row : KnowledgeEntity
  aliases : List String := []

/-- An entity that a call is about. -/
inductive Lookup where
  /-- By its id. -/
  | known (e : EntityId)
  /-- `upsertEntityByExternalRef`. -/
  | key (key : String) (content : EntityContent)
  /-- By its canonical name, in lower case, or an alias. -/
  | name (target rawName : String) (content : EntityContent)

/-- The reference of `ingestFact` (`resolveOrCreateEntity`) and of `ingestLink`
(`resolveOrCreateBareRef`). -/
def Lookup.ofRef : EntityRef → Lookup
  | .entity e => .known e
  | .external vertical id =>
      let refKey := externalRefKey vertical id
      .key refKey { row :=
        { type := "other", canonicalName := id, externalRefs := [(refKey, id)] } }

/-- `normalizeEntityType`. -/
def normalizeEntityType (t : String) : String :=
  if ["customer", "staff", "asset", "project", "topic", "location", "other"].contains t then t
  else "other"

/-- `resolveOrCreateNamedEntity`. -/
def Lookup.ofExtracted (services : IngestServices) (e : ExtractedEntity)
    (hint : Option KnownEntity) : Lookup :=
  let canonicalName := e.canonical.getD e.name
  match hint with
  | some hint =>
      let hintKey := externalRefKey hint.vertical hint.id
      .key hintKey
        { row := { type := normalizeEntityType e.type, canonicalName := canonicalName,
                   externalRefs := [(hintKey, hint.id)] }
          aliases := [e.name] }
  | none =>
      .name (services.toLowerCase canonicalName) e.name
        { row := { type := normalizeEntityType e.type, canonicalName := canonicalName }
          aliases := [e.name] }

/-! ## Writes -/

/-- The parameters of `fn::resolve_fact`, up to the entity that the fact is about. -/
structure FactArgs where
  args : EntityId → ResolveArgs
  entityId_args : ∀ e, (args e).entityId = e

/-- What a call writes, on the entities that it has found, by their positions. -/
inductive Write where
  | fact (index : ℕ) (fact : FactArgs)
  /-- An edge of a mention. -/
  | edge (from_ to_ : ℕ) (kind : String)
  /-- The cycle guard of a link. -/
  | guard
  /-- The RELATE of a link, from its first entity to its second one. -/
  | relate (kind : String) (weight : Confidence)
  /-- The merge of the second entity into the first one. -/
  | merge

/-- Where a call stands. -/
inductive IngestStage where
  /-- The next lookup comes next, or, after the last one, the next write. -/
  | ready (attempt : ℕ)
  /-- Nothing was found, and the entity is created next. -/
  | creating (attempt : ℕ)
  /-- The loop of the guard. -/
  | guarding (cursor : EntityId) (hops : ℕ)
  /-- The UPDATE with the language comes next. -/
  | tagging (factId : FactId) (lang : String)

/-- A call of one of the three methods. -/
structure IngestRun where
  lookups : List Lookup
  /-- `entityIds`. -/
  resolved : List EntityId := []
  writes : List Write
  stage : IngestStage := .ready 0

/-- `ingestFact`. -/
def ingestFactRun (services : IngestServices) (dto : IngestFactDto) : IngestRun where
  lookups := [Lookup.ofRef dto.entityRef]
  writes := [.fact 0 ⟨dto.resolveArgs services.ingest, fun _ => rfl⟩]

/-- The source of the facts of a mention. -/
def sourceFromContext (services : IngestServices) (dto : IngestMentionDto) : FactSource :=
  { vertical := dto.contextRef.vertical
    eventId := dto.contextRef.eventId
    conversationId := dto.contextRef.conversationId
    messageId := dto.contextRef.messageId
    recorder := some (dto.contextRef.recorder.getD services.modelId) }

/-- `ingestMention`, for what was extracted. -/
def ingestMentionRun (services : IngestServices) (dto : IngestMentionDto)
    (extraction : ExtractionResult) : IngestRun where
  lookups := extraction.entities.mapIdx (fun i e =>
    Lookup.ofExtracted services e dto.knownEntities[i]?)
  writes := extraction.facts.map (fun f => .fact f.entityIndex
      ⟨fun e => extractedFactArgs services.ingest e f.predicate f.object f.confidence dto.emittedAt
        (sourceFromContext services dto), fun _ => rfl⟩) ++
    extraction.edges.map (fun x => .edge x.fromEntityIndex x.toEntityIndex x.kind)

/-- `ingestLink`. -/
def ingestLinkRun (dto : IngestLinkDto) : IngestRun where
  lookups := [Lookup.ofRef dto.from_, Lookup.ofRef dto.to_]
  writes :=
    if dto.kind = "identity_of" then [.guard, .relate dto.kind (dto.weight.getD .full), .merge]
    else [.relate dto.kind (dto.weight.getD .full)]

/-! ## Statements -/

/-- The tables, with the aliases of the entities. -/
structure Tenant extends TenantDb where
  aliases : EntityId → List String := fun _ => []

/-- What a statement depends on besides the tables. -/
structure Outside where
  env : DbEnv
  now : Time
  /-- Which of the entities with a name is answered. -/
  found : Option EntityId := none
  /-- Whether a stored artifact is younger than its `staleAfterMs`. -/
  fresh : Bool := false

/-- `canonicalNameLc = $name OR aliases CONTAINS $rawName`. -/
def Tenant.hasName (db : Tenant) (services : IngestServices) (target rawName : String)
    (e : EntityId) (r : KnowledgeEntity) : Bool :=
  services.lowercase r.canonicalName == target || (db.aliases e).contains rawName

/-- What a lookup answers; of several entities with the name any one may be first. -/
def Lookup.find (services : IngestServices) (x : Outside) (db : Tenant) : Lookup → Option EntityId
  | .known e => some e
  | .key refKey _ => lookupExternalRef db.toStore refKey
  | .name target rawName _ =>
      let named := (db.entities.select (db.hasName services target rawName)).map Prod.fst
      match x.found with
      | some e => if e ∈ named then some e else named.head?
      | none => named.head?

/-- Creates an entity. -/
def Tenant.createEntity (content : EntityContent) (db : Tenant) : Tenant :=
  { db with
    entities := db.entities.insert content.row
    aliases := fun e => if e = db.entities.next then content.aliases else db.aliases e }

/-- The transaction of `upsertEntityByExternalRef`. -/
def Tenant.createWithRef (key : String) (content : EntityContent) (db : Tenant) : Tenant :=
  { db.createEntity content with
    externalRefs := db.externalRefs ++ [(key, db.entities.next)] }

/-- `RETURN fn::resolve_fact(...)`, with the event on the facts that it writes. -/
def Tenant.resolve (fns : SurrealFns) (env : DbEnv) (a : ResolveArgs) (db : Tenant) :
    Except DbError ResolveResult × Tenant :=
  match resolveFact fns env db.toStore a with
  | .error e => (.error e, db)
  | .ok (r, s') =>
      let written : TenantDb := { db.toTenantDb with toStore := s' }
      (.ok r, { db with toTenantDb :=
        match r.outcome with
        | .REJECTED => written
        | _ => invalidateArtifacts a.entityId written })

/-- The UPDATE with the language. -/
def Tenant.tagFact (factId : FactId) (lang : String) (db : Tenant) : Tenant :=
  match db.facts.get? factId with
  | none => db
  | some f =>
      let tagged : TenantDb := { db.toTenantDb with
        facts := db.facts.update factId (fun f => { f with lang := some lang }) }
      { db with toTenantDb := invalidateArtifacts f.entityId tagged }

/-- The RELATE, which finds the edge if it is there. -/
def Tenant.relateEdge (from_ to_ : EntityId) (kind : String) (weight : Confidence) (db : Tenant) :
    Tenant :=
  { db with edges := (relate db.edges from_ to_ kind weight).2 }

/-- The call goes on. -/
def IngestRun.go (run : IngestRun) (writes : List Write) : IngestRun :=
  { run with writes := writes, stage := .ready 0 }

/-- The lookup `rest` came after has come to `e`. -/
def IngestRun.resolve (run : IngestRun) (e : EntityId) (rest : List Lookup) : IngestRun :=
  { run with lookups := rest, resolved := run.resolved ++ [e], stage := .ready 0 }

/-- A write. -/
def IngestRun.write (services : IngestServices) (x : Outside) (run : IngestRun) (w : Write)
    (rest : List Write) (db : Tenant) : Tenant × Option IngestRun :=
  match w with
  | .fact index fact =>
      match run.resolved[index]? with
      | none => (db, some (run.go rest))
      | some e =>
          match db.resolve services.ingest.fns x.env (fact.args e) with
          | (.error _, db) => (db, none)
          | (.ok r, db) =>
              match r, services.ingest.detectLanguage (fact.args e).object with
              | .inserted factId, some lang =>
                  (db, some { run with writes := rest, stage := .tagging factId lang })
              | _, _ => (db, some (run.go rest))
  | .edge i j kind =>
      match run.resolved[i]?, run.resolved[j]? with
      | some from_, some to_ =>
          if from_ = to_ then (db, some (run.go rest))
          else (db.relateEdge from_ to_ kind .full, some (run.go rest))
      | _, _ => (db, some (run.go rest))
  | .guard =>
      match run.resolved with
      | [from_, to_] =>
          if from_ = to_ then (db, none)
          else (db, some { run with writes := rest, stage := .guarding from_ GUARD_HOPS })
      | _ => (db, none)
  | .relate kind weight =>
      match run.resolved with
      | [from_, to_] => (db.relateEdge from_ to_ kind weight, some (run.go rest))
      | _ => (db, none)
  | .merge =>
      match run.resolved with
      | [from_, to_] =>
          ({ db with toStore := mergeEntity db.toStore x.now to_ from_ }, some (run.go rest))
      | _ => (db, none)

/-- The next statement of a call, with what is left of the call. -/
def IngestRun.next (services : IngestServices) (x : Outside) (run : IngestRun) (db : Tenant) :
    Tenant × Option IngestRun :=
  match run.stage with
  | .ready attempt =>
      match run.lookups with
      | lookup :: rest =>
          match lookup.find services x db with
          | some e => (db, some (run.resolve e rest))
          | none => (db, some { run with stage := .creating attempt })
      | [] =>
          match run.writes with
          | [] => (db, none)
          | w :: rest => run.write services x w rest db
  | .creating attempt =>
      match run.lookups with
      | .key refKey content :: rest =>
          match lookupExternalRef db.toStore refKey with
          | none => (db.createWithRef refKey content, some (run.resolve db.entities.next rest))
          -- UNIQUE: the key is taken since, so the lookup comes once more
          | some _ =>
              if attempt + 1 < RETRY_ATTEMPTS then
                (db, some { run with stage := .ready (attempt + 1) })
              else (db, none)
      | .name _ _ content :: rest =>
          (db.createEntity content, some (run.resolve db.entities.next rest))
      | _ => (db, none)
  | .guarding cursor hops =>
      match hops, db.mergedInto cursor with
      | 0, _ => (db, some (run.go run.writes))
      | _ + 1, none => (db, some (run.go run.writes))
      | hops + 1, some next =>
          if run.resolved[1]? = some next then (db, none)
          else (db, some { run with stage := .guarding next hops })
  | .tagging factId lang => (db.tagFact factId lang, some (run.go run.writes))

/-- A statement fails. The edges of a mention are caught one by one; anything else ends
the call. -/
def IngestRun.fail (run : IngestRun) : Option IngestRun :=
  match run.stage, run.lookups, run.writes with
  | .ready _, [], .edge _ _ _ :: rest => some (run.go rest)
  | _, _, _ => none

/-- The entities that the call has found. -/
def IngestRun.Holds (run : IngestRun) (e : EntityId) : Prop := e ∈ run.resolved

/-- The next statement is a lookup, and comes to `e`. -/
def IngestRun.Finds (services : IngestServices) (x : Outside) (db : Tenant) (run : IngestRun)
    (e : EntityId) : Prop :=
  ∃ attempt lookup rest, run.stage = .ready attempt ∧ run.lookups = lookup :: rest ∧
    lookup.find services x db = some e

/-! ## A call that nobody comes between -/

section Alone

variable {services : IngestServices} {x : Outside} {run : IngestRun} {db : Tenant}

theorem toStore_tagFact (factId : FactId) (lang : String) :
    (db.tagFact factId lang).toStore = { db.toStore with
      facts := db.facts.update factId (fun f => { f with lang := some lang }) } := by
  unfold Tenant.tagFact
  split
  · next hnone =>
      rw [KeyedTable.update_of_get?_eq_none hnone]
  · rfl

/-- A reference is found, or the entity created, in one statement or two. -/
theorem alone_ofRef (services : IngestServices) (x : Outside) (db : Tenant) {ref : EntityRef}
    {rest : List Lookup} (hlookups : run.lookups = Lookup.ofRef ref :: rest)
    (hstage : run.stage = .ready 0) :
    ∃ n db', Runs.alone (IngestRun.next services x) n run db
        = (db', some (run.resolve (resolveOrCreateEntity db.toStore ref).1 rest)) ∧
      db'.toStore = (resolveOrCreateEntity db.toStore ref).2 ∧ db'.edges = db.edges := by
  cases ref with
  | entity e =>
      have hnext : run.next services x db = (db, some (run.resolve e rest)) := by
        simp only [IngestRun.next, hstage, hlookups, Lookup.ofRef, Lookup.find]
      exact ⟨1, db, Runs.alone_of_some hnext 0, rfl, rfl⟩
  | external vertical id =>
      simp only [resolveOrCreateEntity, upsertEntityByExternalRef]
      cases hfind : lookupExternalRef db.toStore (externalRefKey vertical id) with
      | some e =>
          have hnext : run.next services x db = (db, some (run.resolve e rest)) := by
            simp only [IngestRun.next, hstage, hlookups, Lookup.ofRef, Lookup.find, hfind]
          exact ⟨1, db, Runs.alone_of_some hnext 0, rfl, rfl⟩
      | none =>
          let content : KnowledgeEntity :=
            { type := "other", canonicalName := id,
              externalRefs := [(externalRefKey vertical id, id)] }
          have hmissing : run.next services x db
              = (db, some { run with stage := .creating 0 }) := by
            simp only [IngestRun.next, hstage, hlookups, Lookup.ofRef, Lookup.find, hfind]
          have hcreate : IngestRun.next services x { run with stage := .creating 0 } db
              = (db.createWithRef (externalRefKey vertical id) { row := content },
                some (run.resolve db.entities.next rest)) := by
            simp only [IngestRun.next, hlookups, Lookup.ofRef, hfind]
            rfl
          exact ⟨2, _, (Runs.alone_of_some hmissing 1).trans (Runs.alone_of_some hcreate 0), rfl,
            rfl⟩

theorem resolve_of_error {fns : SurrealFns} {env : DbEnv} {a : ResolveArgs} {err : DbError}
    (h : resolveFact fns env db.toStore a = .error err) :
    db.resolve fns env a = (.error err, db) := by
  simp only [Tenant.resolve, h]

theorem resolve_of_ok {fns : SurrealFns} {env : DbEnv} {a : ResolveArgs} {r : ResolveResult}
    {s' : Store} (h : resolveFact fns env db.toStore a = .ok (r, s')) :
    ∃ db' : Tenant, db.resolve fns env a = (.ok r, db') ∧ db'.toStore = s' := by
  simp only [Tenant.resolve, h]
  refine ⟨_, rfl, ?_⟩
  split <;> rfl

/-- A fact that is resolved is tagged if it is new and has a language. -/
theorem alone_fact {e : EntityId} {fact : FactArgs} {r : ResolveResult} {db₁ : Tenant}
    (hlookups : run.lookups = []) (hresolved : run.resolved = [e])
    (h : db.resolve services.ingest.fns x.env (fact.args e) = (.ok r, db₁)) :
    ∃ n db', Runs.alone (IngestRun.next services x) n (run.go [.fact 0 fact]) db = (db', none) ∧
      db'.toStore = tagLanguage services.ingest r (fact.args e).object db₁.toStore := by
  have hzero : (run.go [.fact 0 fact]).resolved[0]? = some e := by
    simp [IngestRun.go, hresolved]
  have hnext : IngestRun.next services x (run.go [.fact 0 fact]) db
      = (run.go [.fact 0 fact]).write services x (.fact 0 fact) [] db := by
    simp only [IngestRun.next, IngestRun.go, hlookups]
  have hdone : ∀ db' : Tenant, IngestRun.next services x (run.go []) db' = (db', none) := by
    intro db'
    simp only [IngestRun.next, IngestRun.go, hlookups]
  by_cases htag : ∃ factId lang, r = .inserted factId ∧
      services.ingest.detectLanguage (fact.args e).object = some lang
  · obtain ⟨factId, lang, rfl, hlang⟩ := htag
    have hwrite : IngestRun.next services x (run.go [.fact 0 fact]) db
        = (db₁, some { run.go [] with stage := .tagging factId lang }) := by
      rw [hnext]
      simp only [IngestRun.write, hzero, h, hlang]
      rfl
    have htagged : IngestRun.next services x { run.go [] with stage := .tagging factId lang } db₁
        = (db₁.tagFact factId lang, some (run.go [])) := rfl
    refine ⟨3, db₁.tagFact factId lang, ?_, ?_⟩
    · rw [Runs.alone_of_some hwrite, Runs.alone_of_some htagged, Runs.alone_of_none (hdone _)]
    · rw [toStore_tagFact]
      simp only [tagLanguage, hlang]
  · have hwrite : IngestRun.next services x (run.go [.fact 0 fact]) db
        = (db₁, some (run.go [])) := by
      rw [hnext]
      simp only [IngestRun.write, hzero, h]
      split
      · next factId lang hlang => exact absurd ⟨factId, lang, rfl, hlang⟩ htag
      · rfl
    refine ⟨2, db₁, ?_, ?_⟩
    · rw [Runs.alone_of_some hwrite, Runs.alone_of_none (hdone _)]
    · unfold tagLanguage
      split
      · next factId lang hlang => exact absurd ⟨factId, lang, rfl, hlang⟩ htag
      · rfl

/-- **`ingestFact`** is its statements, one after the other. -/
theorem ingestFact_alone {dto : IngestFactDto}
    (hinterval : dto.validUntil.any (fun u => decide (u ≤ dto.validFrom)) = false) :
    ∃ n db', Runs.alone (IngestRun.next services x) n (ingestFactRun services dto) db
        = (db', none) ∧
      db'.toStore = (ingestFact services.ingest x.env db.toStore dto).2 := by
  have hlookups : (ingestFactRun services dto).lookups = [Lookup.ofRef dto.entityRef] := rfl
  obtain ⟨n, db₁, hsubject, hstore, _⟩ := alone_ofRef services x db hlookups rfl
  set e := (resolveOrCreateEntity db.toStore dto.entityRef).1 with he
  set run₁ := (ingestFactRun services dto).resolve e [] with hrun₁
  suffices hrest : ∃ m db', Runs.alone (IngestRun.next services x) m run₁ db₁ = (db', none) ∧
      db'.toStore = (ingestFact services.ingest x.env db.toStore dto).2 by
    obtain ⟨m, db', hend, hstore'⟩ := hrest
    exact ⟨n + m, db', (Runs.alone_add hsubject m).trans hend, hstore'⟩
  let fact : FactArgs := ⟨dto.resolveArgs services.ingest, fun _ => rfl⟩
  have hgo : run₁ = run₁.go [.fact 0 fact] := rfl
  rw [ingestFact, if_neg (by simp [hinterval]), ingestResolve, ← hstore, ← he]
  cases hres : resolveFact services.ingest.fns x.env db₁.toStore
      (dto.resolveArgs services.ingest e) with
  | error err =>
      have hfails : run₁.next services x db₁ = (db₁, none) := by
        have hzero : run₁.resolved[0]? = some e := rfl
        have hresolve : db₁.resolve services.ingest.fns x.env (fact.args e) = (.error err, db₁) :=
          resolve_of_error hres
        have hnext : run₁.next services x db₁ = run₁.write services x (.fact 0 fact) [] db₁ := rfl
        rw [hnext]
        simp only [IngestRun.write, hzero, hresolve]
      exact ⟨1, db₁, Runs.alone_of_none hfails 0, rfl⟩
  | ok p =>
      obtain ⟨r, s'⟩ := p
      obtain ⟨db₂, hresolve, hdb₂⟩ := resolve_of_ok hres
      have hresolve' : db₁.resolve services.ingest.fns x.env (fact.args e)
          = (.ok r, db₂) := hresolve
      have hresolved : run₁.resolved = [e] := rfl
      obtain ⟨m, db', hend, hstore'⟩ := alone_fact rfl hresolved hresolve'
      refine ⟨m, db', ?_, ?_⟩
      · rw [hgo]
        exact hend
      · rw [hstore', hdb₂]
        rfl

/-- The guard's loop gives the call up exactly if it comes to the loser. -/
theorem alone_guarding (services : IngestServices) (x : Outside) (db : Tenant) {toId : EntityId}
    (hto : run.resolved[1]? = some toId) (hops : ℕ)
    (cursor : EntityId) :
    ∃ n, Runs.alone (IngestRun.next services x) n { run with stage := .guarding cursor hops } db
      = (db, if comesTo db.toStore toId hops cursor then none else some (run.go run.writes)) := by
  induction hops generalizing cursor with
  | zero => exact ⟨1, rfl⟩
  | succ hops ih =>
      cases hnext : db.mergedInto cursor with
      | none =>
          have hstep : IngestRun.next services x
              { run with stage := .guarding cursor (hops + 1) } db
              = (db, some (run.go run.writes)) := by
            simp only [IngestRun.next, hnext]
            rfl
          refine ⟨1, (Runs.alone_of_some hstep 0).trans ?_⟩
          simp only [comesTo, hnext, Bool.false_eq_true, if_false]
          rfl
      | some next =>
          by_cases heq : next = toId
          · have hstep : IngestRun.next services x
                { run with stage := .guarding cursor (hops + 1) } db = (db, none) := by
              simp [IngestRun.next, hnext, hto, heq]
            refine ⟨1, (Runs.alone_of_none hstep 0).trans ?_⟩
            simp [comesTo, hnext, heq]
          · have hstep : IngestRun.next services x
                { run with stage := .guarding cursor (hops + 1) } db
                = (db, some { run with stage := .guarding next hops }) := by
              simp [IngestRun.next, hnext, hto, Ne.symm heq]
            obtain ⟨n, hn⟩ := ih next
            refine ⟨n + 1, (Runs.alone_of_some hstep n).trans (hn.trans ?_)⟩
            simp only [comesTo, hnext, if_neg heq]

theorem relate_alone {from_ to_ : EntityId} (hlookups : run.lookups = [])
    (hresolved : run.resolved = [from_, to_]) (kind : String) (weight : Confidence) :
    Runs.alone (IngestRun.next services x) 2 (run.go [.relate kind weight]) db
      = (db.relateEdge from_ to_ kind weight, none) := by
  have hrelate : IngestRun.next services x (run.go [.relate kind weight]) db
      = (db.relateEdge from_ to_ kind weight, some (run.go [])) := by
    simp [IngestRun.next, IngestRun.write, IngestRun.go, hlookups, hresolved]
  have hdone : ∀ db' : Tenant, IngestRun.next services x (run.go []) db' = (db', none) := by
    simp [IngestRun.next, IngestRun.go, hlookups]
  rw [Runs.alone_of_some hrelate, Runs.alone_of_none (hdone _)]

/-- A link that merges: nothing is written if the guard is against it. -/
theorem merge_alone (services : IngestServices) (x : Outside) (db : Tenant) {from_ to_ : EntityId}
    (hlookups : run.lookups = []) (hresolved : run.resolved = [from_, to_]) (kind : String)
    (weight : Confidence) :
    ∃ n db', Runs.alone (IngestRun.next services x) n
        (run.go [.guard, .relate kind weight, .merge]) db = (db', none) ∧
      db'.toGraphStore =
        if from_ = to_ ∨ comesTo db.toStore to_ GUARD_HOPS from_ = true then db.toGraphStore
        else { toStore := mergeEntity db.toStore x.now to_ from_
               edges := (relate db.edges from_ to_ kind weight).2 } := by
  by_cases hself : from_ = to_
  · have hguard : IngestRun.next services x (run.go [.guard, .relate kind weight, .merge]) db
        = (db, none) := by
      simp [IngestRun.next, IngestRun.write, IngestRun.go, hlookups, hresolved, hself]
    refine ⟨1, db, Runs.alone_of_none hguard 0, ?_⟩
    rw [if_pos (Or.inl hself)]
  · have hguard : IngestRun.next services x (run.go [.guard, .relate kind weight, .merge]) db
        = (db, some { run.go [.relate kind weight, .merge] with
            stage := .guarding from_ GUARD_HOPS }) := by
      simp [IngestRun.next, IngestRun.write, IngestRun.go, hlookups, hresolved, hself]
    have hto : (run.go [.relate kind weight, .merge]).resolved[1]? = some to_ := by
      simp [IngestRun.go, hresolved]
    obtain ⟨n, hloop⟩ := alone_guarding services x db hto GUARD_HOPS from_
    have hstart := (Runs.alone_of_some hguard n).trans hloop
    by_cases hcycle : comesTo db.toStore to_ GUARD_HOPS from_ = true
    · rw [if_pos hcycle] at hstart
      refine ⟨n + 1, db, hstart, ?_⟩
      rw [if_pos (Or.inr hcycle)]
    · rw [if_neg hcycle] at hstart
      have hrelate : IngestRun.next services x (run.go [.relate kind weight, .merge]) db
          = (db.relateEdge from_ to_ kind weight, some (run.go [.merge])) := by
        simp [IngestRun.next, IngestRun.write, IngestRun.go, hlookups, hresolved]
      have hmerge : ∀ db' : Tenant, IngestRun.next services x (run.go [.merge]) db'
          = ({ db' with toStore := mergeEntity db'.toStore x.now to_ from_ },
            some (run.go [])) := by
        simp [IngestRun.next, IngestRun.write, IngestRun.go, hlookups, hresolved]
      have hdone : ∀ db' : Tenant, IngestRun.next services x (run.go []) db' = (db', none) := by
        simp [IngestRun.next, IngestRun.go, hlookups]
      refine ⟨n + 1 + 3, { db.relateEdge from_ to_ kind weight with
        toStore := mergeEntity db.toStore x.now to_ from_ }, ?_, ?_⟩
      · rw [Runs.alone_add hstart]
        exact (Runs.alone_of_some hrelate 2).trans ((Runs.alone_of_some (hmerge _) 1).trans
          (Runs.alone_of_none (hdone _) 0))
      · rw [if_neg (by simp [hself, hcycle])]
        rfl

/-- **`ingestLink`** likewise. -/
theorem ingestLink_alone {dto : IngestLinkDto} :
    ∃ n db', Runs.alone (IngestRun.next services x) n (ingestLinkRun dto) db = (db', none) ∧
      db'.toGraphStore = (ingestLink x.now db.toGraphStore dto).2 := by
  have hlookups : (ingestLinkRun dto).lookups
      = [Lookup.ofRef dto.from_, Lookup.ofRef dto.to_] := rfl
  obtain ⟨n₁, db₁, hfrom, hstore₁, hedges₁⟩ := alone_ofRef services x db hlookups rfl
  set from_ := (resolveOrCreateEntity db.toStore dto.from_).1 with hfrom_
  have hlookups₁ : ((ingestLinkRun dto).resolve from_ [Lookup.ofRef dto.to_]).lookups
      = [Lookup.ofRef dto.to_] := rfl
  obtain ⟨n₂, db₂, hto, hstore₂, hedges₂⟩ := alone_ofRef services x db₁ hlookups₁ rfl
  set to_ := (resolveOrCreateEntity db₁.toStore dto.to_).1 with hto_
  set run₂ := ((ingestLinkRun dto).resolve from_ [Lookup.ofRef dto.to_]).resolve to_ [] with hrun₂
  suffices hrest : ∃ m db', Runs.alone (IngestRun.next services x) m run₂ db₂ = (db', none) ∧
      db'.toGraphStore = (ingestLink x.now db.toGraphStore dto).2 by
    obtain ⟨m, db', hend, hstore'⟩ := hrest
    refine ⟨n₁ + (n₂ + m), db', ?_, hstore'⟩
    rw [Runs.alone_add hfrom, Runs.alone_add hto, hend]
  have hends : linkEnds db.toStore dto = ((from_, to_), db₂.toStore) := by
    rw [hto_, hstore₂, hstore₁]
    rfl
  have hedges : db₂.edges = db.edges := hedges₂.trans hedges₁
  rw [ingestLink, hends]
  dsimp only
  by_cases hkind : dto.kind = "identity_of"
  · have hwrites : run₂ = run₂.go [.guard, .relate dto.kind (dto.weight.getD .full), .merge] := by
      simp [hrun₂, IngestRun.resolve, IngestRun.go, ingestLinkRun, hkind]
    have hlookups₂ : run₂.lookups = [] := rfl
    obtain ⟨n, db', hend, hstore'⟩ :=
      merge_alone services x db₂ hlookups₂ rfl dto.kind (dto.weight.getD .full)
    refine ⟨n, db', ?_, ?_⟩
    · rw [hwrites, hend]
    · rw [hstore', linkRejection, if_pos hkind]
      by_cases hself : from_ = to_
      · rw [if_pos (Or.inl hself), if_pos hself]
        dsimp only
        rw [← hedges]
      · by_cases hcycle : comesTo db₂.toStore to_ GUARD_HOPS from_ = true
        · rw [if_pos (Or.inr hcycle), if_neg hself, if_pos hcycle]
          dsimp only
          rw [← hedges]
        · rw [if_neg (by simp [hself, hcycle]), if_neg hself, if_neg hcycle]
          dsimp only
          rw [if_pos hkind, hedges]
  · have hwrites : run₂ = run₂.go [.relate dto.kind (dto.weight.getD .full)] := by
      simp [hrun₂, IngestRun.resolve, IngestRun.go, ingestLinkRun, hkind]
    refine ⟨2, db₂.relateEdge from_ to_ dto.kind (dto.weight.getD .full), ?_, ?_⟩
    · rw [hwrites]
      exact relate_alone rfl rfl _ _
    · rw [linkRejection, if_neg hkind]
      dsimp only
      rw [if_neg hkind, ← hedges]
      rfl

end Alone

end Brain
