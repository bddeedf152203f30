/-
How often a fact is summarized.

A run creates the summaries of its candidates and then marks them. What it marks is
no candidate any more, and what it creates has no embedding and is none yet, so
runs that complete never meet a fact twice. A run that fails after its first
summary and before the mark leaves facts that are summarized and still candidates,
and the job is registered with a second attempt.
-/
import Brain.Compaction.CompactionService
import Brain.Facts.Lifecycle

set_option autoImplicit false

namespace Brain

/-- No fact is in the `derivedFrom` of two rows. -/
def SummarizedOnce (t : KeyedTable KnowledgeFact) : Prop :=
  ∀ i f j g, t.get? i = some f → t.get? j = some g →
    ∀ d ∈ f.derivedFrom, d ∈ g.derivedFrom → i = j

/-- What has been summarized is there, and no run will select it again: it is
marked, or has lost its embedding. -/
def Settled (t : KeyedTable KnowledgeFact) : Prop :=
  ∀ i f, t.get? i = some f → ∀ d ∈ f.derivedFrom, ∃ g, t.get? d = some g ∧
    (g.status = .compacted ∨ g.embedding = none)

section Once

variable {cfg : CompactionConfig} {now : Time} {s : Store} {t : KeyedTable KnowledgeFact}

theorem not_isCompactable {cutoff : Time} {f : KnowledgeFact}
    (h : f.status = .compacted ∨ f.embedding = none) : isCompactable cutoff f = false := by
  rcases h with h | h
  · simp [isCompactable, h]
  · simp [isCompactable, h]

/-- A candidate of a settled table has not been summarized. -/
theorem Settled.not_mem_derivedFrom (h : Settled t) {q : CandidateFactRow}
    (hq : q ∈ compactionCandidates cfg now t) {i : FactId} {f : KnowledgeFact}
    (hf : t.get? i = some f) : q.1 ∉ f.derivedFrom := by
  intro hd
  obtain ⟨hget, hcomp⟩ := mem_compactionCandidates hq
  obtain ⟨g, hg, hset⟩ := h i f hf q.1 hd
  rw [hget, Option.some.injEq] at hg
  rw [← hg] at hset
  rw [not_isCompactable hset] at hcomp
  cases hcomp

/-- The members of two summaries of one run are different. -/
theorem summaryRows_disjoint (cfg : CompactionConfig) (now : Time)
    (rows : List CandidateFactRow) (hnd : (rows.map Prod.fst).Nodup) :
    (summaryRows cfg now rows).Pairwise (fun r r' => ∀ d ∈ r.derivedFrom, d ∉ r'.derivedFrom) := by
  have hgroups : (summarizedGroups cfg rows).Pairwise (fun g g' => ∀ x ∈ g, x ∉ g') := by
    unfold summarizedGroups
    split
    · exact (Grouping.pairwise_groups (fun q : CandidateFactRow => q.2.key) rows).filter _
    · exact List.Pairwise.nil
  rw [summaryRows_eq, List.pairwise_filterMap]
  refine List.Pairwise.imp_of_mem ?_ hgroups
  intro g g' hg hg' hdisj r hr r' hr' d hd hd'
  obtain ⟨q, hq, hqd⟩ := (mem_derivedFrom_summaryOf_iff hr).mp hd
  obtain ⟨q', hq', hqd'⟩ := (mem_derivedFrom_summaryOf_iff hr').mp hd'
  have heq : q = q' :=
    List.inj_on_of_nodup_map hnd (mem_of_mem_summarizedGroups hg hq)
      (mem_of_mem_summarizedGroups hg' hq') (hqd.trans hqd'.symm)
  exact hdisj q hq (heq ▸ hq')

/-- Where a row after a run comes from, as far as `derivedFrom` goes. -/
theorem derivedFrom_cases {n : ℕ} {i : FactId} {f' : KnowledgeFact}
    (h : (interruptedCompact cfg now n s).facts.get? i = some f') :
    (∃ f, s.facts.get? i = some f ∧ f'.derivedFrom = f.derivedFrom) ∨
    (s.facts.next ≤ i ∧
      ((summaryRows cfg now (compactionCandidates cfg now s.facts)).take n)[i - s.facts.next]?
        = some f') := by
  rcases interruptedCompact_row_cases h with hf | ⟨f, hf, _, rfl⟩ | hnew
  · exact Or.inl ⟨f', hf, rfl⟩
  · exact Or.inl ⟨f, hf, rfl⟩
  · exact Or.inr hnew

/-- A run on a settled table summarizes nothing twice, wherever it ends. -/
theorem SummarizedOnce.interruptedCompact (h : SummarizedOnce s.facts) (hset : Settled s.facts)
    (cfg : CompactionConfig) (now : Time) (n : ℕ) :
    SummarizedOnce (interruptedCompact cfg now n s).facts := by
  -- an old list and a new one have nothing in common
  have hmixed : ∀ (i : FactId) (f : KnowledgeFact) (k : ℕ) (r : KnowledgeFact),
      s.facts.get? i = some f →
      ((summaryRows cfg now (compactionCandidates cfg now s.facts)).take n)[k]? = some r →
      ∀ d ∈ f.derivedFrom, d ∉ r.derivedFrom := by
    intro i f k r hf hr d hd hd'
    obtain ⟨q, hq, rfl⟩ := mem_candidates_of_mem_derivedFrom (List.mem_of_getElem? hr) hd'
    exact hset.not_mem_derivedFrom hq hf hd
  intro i f j g hf hg d hdf hdg
  rcases derivedFrom_cases hf with ⟨f₀, hf₀, hfd⟩ | ⟨hi, hfi⟩
  · rcases derivedFrom_cases hg with ⟨g₀, hg₀, hgd⟩ | ⟨hj, hgj⟩
    · exact h i f₀ j g₀ hf₀ hg₀ d (hfd ▸ hdf) (hgd ▸ hdg)
    · exact absurd hdg (hmixed i f₀ _ g hf₀ hgj d (hfd ▸ hdf))
  · rcases derivedFrom_cases hg with ⟨g₀, hg₀, hgd⟩ | ⟨hj, hgj⟩
    · exact absurd hdf (hmixed j g₀ _ f hg₀ hfi d (hgd ▸ hdg))
    · -- two new ones: the groups are disjoint, so it is the same place
      have hpair := (summaryRows_disjoint cfg now (compactionCandidates cfg now s.facts)
        nodup_compactionCandidates).sublist (List.take_sublist n _)
      have hsame : i - s.facts.next = j - s.facts.next := by
        obtain ⟨hk, rfl⟩ := List.getElem?_eq_some_iff.mp hfi
        obtain ⟨hl, rfl⟩ := List.getElem?_eq_some_iff.mp hgj
        rw [List.pairwise_iff_getElem] at hpair
        rcases Nat.lt_trichotomy (i - s.facts.next) (j - s.facts.next) with hlt | heq | hgt
        · exact absurd hdg (hpair _ _ hk hl hlt d hdf)
        · exact heq
        · exact absurd hdf (hpair _ _ hl hk hgt d hdg)
      omega

/-- A run that ends before its first summary or after its mark leaves the table
settled. -/
theorem Settled.interruptedCompact (h : Settled s.facts) {n : ℕ}
    (hclean : (summarizedGroups cfg (compactionCandidates cfg now s.facts)).take n = [] ∨
      (summarizedGroups cfg (compactionCandidates cfg now s.facts)).length < n) :
    Settled (interruptedCompact cfg now n s).facts := by
  intro i f' hf' d hd
  rcases derivedFrom_cases hf' with ⟨f, hf, hfd⟩ | ⟨_, hr⟩
  · obtain ⟨g, hg, hset⟩ := h i f hf d (hfd ▸ hd)
    rcases get?_interruptedCompact cfg now n hg with hg' | ⟨_, hg'⟩
    · exact ⟨g, hg', hset⟩
    · exact ⟨compactRow g, hg', Or.inl rfl⟩
  · have hr := List.mem_of_getElem? hr
    rcases hclean with hnil | hlt
    · rw [take_summaryRows, hnil] at hr
      cases hr
    · obtain ⟨q, hq, rfl⟩ := mem_candidates_of_mem_derivedFrom hr hd
      rw [← length_summaryRows cfg now] at hlt
      exact ⟨compactRow q.2, get?_interruptedCompact_marked hlt (List.mem_map_of_mem hq)
        (mem_compactionCandidates hq).1, Or.inl rfl⟩

end Once

end Brain
