/-
The interval of a summary and those of its sources.

`createSummaries` sorts a group by the start of its facts and takes both ends of the
summary's interval from the sorted list: the start from the first fact, and the end
from the last one. The first fact starts first, but the last one need not end last:
a source that began earlier and outlived it sticks out of the summary.
-/
import Brain.Compaction.CompactionService
import Brain.Lib.StableSort
import Brain.Search.WhereBuilder

set_option autoImplicit false

namespace Brain

instance : Std.Total byValidFrom := ⟨fun p q => le_total p.2.validFrom q.2.validFrom⟩

instance : IsTrans CandidateFactRow byValidFrom := ⟨fun _ _ _ hpq hqr => le_trans hpq hqr⟩

/-- `q` is the fact of the group that starts last; of those that start with it, it is the
one that the query returned last. -/
def StartsLast (group : List CandidateFactRow) (q : CandidateFactRow) : Prop :=
  StableSort.IsLast byValidFrom group q

section Interval

variable {cfg : CompactionConfig} {now : Time} {group : List CandidateFactRow} {r : KnowledgeFact}

/-- Only one fact starts last. -/
theorem StartsLast.unique {p q : CandidateFactRow} (hp : StartsLast group p)
    (hq : StartsLast group q) : p = q := by
  have hp' := (StableSort.getLast?_insertionSort_iff (r := byValidFrom) group).mpr hp
  have hq' := (StableSort.getLast?_insertionSort_iff (r := byValidFrom) group).mpr hq
  rw [hp'] at hq'
  exact Option.some.inj hq'

end Interval

end Brain
