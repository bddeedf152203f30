/-
The tenant database with the tables around the graph: compiled artifacts
(`src/src/db/migrations/0004_knowledge_artifact.surql`), the audit mirror
(`0023_changefeed_audit.surql`), persisted traces (`0024_debug_trace.surql`), the
emits of the dreams runs (`0026_dream_emit.surql`) and the tombstones of forgotten
entities (`0001_baseline.surql`, `0032_forgotten_entity_audit_fields.surql`).

Some of these columns hold links, and some the printed form of a record's
identifier, which is what the services compare with.
-/
import Brain.Ingest.IngestLink

set_option autoImplicit false

namespace Brain

/-- The identifier of a record of one of the three graph tables. -/
inductive RecordId where
  | entity (e : EntityId)
  | fact (i : FactId)
  | edge (j : EdgeId)
deriving DecidableEq, Repr

/-- `String(id)`. -/
def RecordId.text : RecordId → String
  | .entity e => "knowledge_entity:" ++ toString e
  | .fact i => "knowledge_fact:" ++ toString i
  | .edge j => "knowledge_edge:" ++ toString j

/-- A row of `knowledge_artifact`. -/
structure KnowledgeArtifact where
  entityId : EntityId
  artifactType : String
  payload : String
  sourceFactIds : List FactId
  dirty : Bool := false

/-- The structural fields of an `after` image that are links; the others are scalars,
or redacted. -/
structure AuditImage where
  entityId : Option EntityId := none
  supersededBy : Option FactId := none
  in_ : Option EntityId := none
  out : Option EntityId := none
  mergedInto : Option EntityId := none
deriving DecidableEq

/-- A row of `audit_event`. -/
structure AuditEvent where
  source : String
  recordId : String
  op : String
  versionstamp : ℕ
  after : Option AuditImage

/-- A row of `dream_emit`; `detail` repeats the two identifiers. -/
structure DreamEmit where
  runId : String
  kind : String
  subject : Option String
  object : Option String

/-- A row of `debug_trace`; `artifacts` as they are serialised. -/
structure DebugTrace where
  requestId : String
  companyId : Option String
  artifacts : String

/-- A row of `forgotten_entity`. -/
structure ForgottenEntity where
  entityIdHash : String
  reason : String
  requestId : String
  factsDeleted : ℕ
  edgesDeleted : ℕ
  auditEventsDeleted : ℕ
  forgottenBy : String
  forgottenAt : Time

/-- The tenant database. `createdAt` is the column of `knowledge_entity`. -/
structure TenantDb extends GraphStore where
  createdAt : EntityId → Time := fun _ => 0
  artifacts : List KnowledgeArtifact := []
  auditEvents : List AuditEvent := []
  dreamEmits : List DreamEmit := []
  debugTraces : List DebugTrace := []
  forgotten : List ForgottenEntity := []

end Brain
