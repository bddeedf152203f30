/-
How the merge of several passes counts statements. Facts are clustered by their predicate
and their object; the agreement of a cluster is the fraction of the passes that have a fact
in it, and the merge keeps the first fact of each cluster.

The entity of a fact is not part of its cluster. So two entities with the same value are
one cluster, the merge keeps one of the two facts, and the passes that have either are
counted together.
-/
import Brain.Ai.MultiPass

set_option autoImplicit false

namespace Brain

/-! ## 1. Counting -/

/-- The count of the cluster with a key. -/
def countOf (clusters : InsertionMap String Cluster) (k : String) : ℕ :=
  ((clusters.get? k).map (fun c => c.count)).getD 0

/-- The pass has a fact with this cluster key. -/
def inPass (libs : ExtractorLibs) (k : String) (pass : List PassFact) : Bool :=
  pass.any (fun f => decide (clusterKey libs f = k))

section Count

variable {libs : ExtractorLibs} {k : String}

/-- Writing a cluster changes its own count only. -/
theorem countOf_set (clusters : InsertionMap String Cluster) (key : String) (c : Cluster) :
    countOf (clusters.set key c) k = if key = k then c.count else countOf clusters k := by
  by_cases hk : key = k
  · subst hk
    rw [if_pos rfl, countOf, InsertionMap.get?_set_self, Option.map_some, Option.getD_some]
  · rw [if_neg hk, countOf, InsertionMap.get?_set_of_ne _ _ (Ne.symm hk), countOf]

/-- The first fact of a cluster in a pass adds one to its count. -/
theorem clusterFact_of_new {s : InsertionMap String Cluster × List String} {f : PassFact}
    (hnew : clusterKey libs f ∉ s.2) :
    (clusterFact libs s f).2 = clusterKey libs f :: s.2 ∧
      countOf (clusterFact libs s f).1 k
        = countOf s.1 k + if clusterKey libs f = k then 1 else 0 := by
  unfold clusterFact
  dsimp only
  rw [if_neg hnew]
  cases hget : s.1.get? (clusterKey libs f) with
  | none =>
      refine ⟨rfl, ?_⟩
      rw [countOf_set]
      by_cases hk : clusterKey libs f = k
      · have hzero : countOf s.1 k = 0 := by
          rw [countOf, ← hk, hget]
          rfl
        rw [if_pos hk, if_pos hk, hzero]
      · rw [if_neg hk, if_neg hk, Nat.add_zero]
  | some prior =>
      refine ⟨rfl, ?_⟩
      rw [countOf_set]
      by_cases hk : clusterKey libs f = k
      · have hprior : countOf s.1 k = prior.count := by
          rw [countOf, ← hk, hget]
          rfl
        rw [if_pos hk, if_pos hk, hprior]
      · rw [if_neg hk, if_neg hk, Nat.add_zero]

/-- **A pass counts once for a cluster**, however many facts it has in it. -/
theorem countOf_foldl_clusterFact (pass : List PassFact) :
    ∀ s : InsertionMap String Cluster × List String,
      countOf (pass.foldl (clusterFact libs) s).1 k
        = countOf s.1 k + if k ∉ s.2 ∧ inPass libs k pass = true then 1 else 0 := by
  induction pass with
  | nil => simp [inPass]
  | cons f pass ih =>
      intro s
      rw [List.foldl_cons, ih]
      have hcons : inPass libs k (f :: pass) = (decide (clusterKey libs f = k) || inPass libs k pass) :=
        List.any_cons
      by_cases hseen : clusterKey libs f ∈ s.2
      · have hstep : clusterFact libs s f = s := by
          rw [clusterFact]
          exact if_pos hseen
        rw [hstep, hcons]
        by_cases hk : clusterKey libs f = k
        · rw [hk] at hseen
          simp [hseen]
        · simp [hk]
      · obtain ⟨hmet, hcount⟩ := clusterFact_of_new (k := k) hseen
        rw [hmet, hcount, hcons]
        by_cases hk : clusterKey libs f = k
        · have hnot : k ∉ s.2 := hk ▸ hseen
          simp [hk, hnot]
        · have hne : k ≠ clusterKey libs f := fun heq => hk heq.symm
          simp [hk, hne]

/-- **The count of a cluster** is the number of the passes that have a fact in it. -/
theorem countOf_clusterAcrossPasses (libs : ExtractorLibs) (k : String)
    (passFacts : List (List PassFact)) :
    countOf (clusterAcrossPasses libs passFacts) k = passFacts.countP (inPass libs k) := by
  have hfold : ∀ (passFacts : List (List PassFact)) (clusters : InsertionMap String Cluster),
      countOf (passFacts.foldl (fun clusters pass =>
        (pass.foldl (clusterFact libs) (clusters, [])).1) clusters) k
      = countOf clusters k + passFacts.countP (inPass libs k) := by
    intro passFacts
    induction passFacts with
    | nil => exact fun _ => rfl
    | cons pass passFacts ih =>
        intro clusters
        rw [List.foldl_cons, ih, countOf_foldl_clusterFact, List.countP_cons]
        by_cases hin : inPass libs k pass = true
        · simp [hin]
          omega
        · simp [hin]
  have hempty := hfold passFacts .empty
  rwa [show countOf (.empty : InsertionMap String Cluster) k = 0 from rfl, Nat.zero_add] at hempty

/-- The statistics of a cluster that some pass has a fact in. -/
theorem get?_selfConsistencyByFact {passFacts : List (List PassFact)} {pass : List PassFact}
    (hpass : pass ∈ passFacts) (hin : inPass libs k pass = true) :
    (selfConsistencyByFact libs passFacts).get? k
      = some { entropy := clusterEntropy libs (clusterAcrossPasses libs passFacts)
               agreement := (passFacts.countP (inPass libs k) : ℚ) / passFacts.length } := by
  have hcount := countOf_clusterAcrossPasses libs k passFacts
  have hpos : 0 < passFacts.countP (inPass libs k) := List.countP_pos_iff.mpr ⟨pass, hpass, hin⟩
  have hlength : max passFacts.length 1 = passFacts.length :=
    Nat.max_eq_left (List.length_pos_of_mem hpass)
  cases hget : (clusterAcrossPasses libs passFacts).get? k with
  | none =>
      rw [countOf, hget] at hcount
      have hzero : passFacts.countP (inPass libs k) = 0 := hcount.symm
      omega
  | some info =>
      rw [countOf, hget] at hcount
      have hinfo : info.count = passFacts.countP (inPass libs k) := hcount
      have hmap := InsertionMap.get?_ofList_map (clusterAcrossPasses libs passFacts)
        (fun info : Cluster => FactSelfConsistency.mk
          (clusterEntropy libs (clusterAcrossPasses libs passFacts))
          (info.count / (max passFacts.length 1 : ℕ))) k
      rw [hget, Option.map_some, hinfo, hlength] at hmap
      rw [← hmap, ← hlength]
      rfl

end Count

/-! ## 2. Statements -/

/-- What a fact says: of which entity, and what. -/
structure Statement where
  entity : Option (String × String)
  predicate : String
  object : String
deriving DecidableEq

/-- The statement of a fact whose index is one into the given entities. -/
def statementOf (libs : ExtractorLibs) (entities : List ExtractedEntity) (f : ExtractorFact) :
    Statement where
  entity := (entities[f.entityIndex]?).map (fun e => (e.type, foldedName libs e))
  predicate := f.predicate
  object := normaliseObject libs f.object

/-- The pass makes the statement. -/
def makes (libs : ExtractorLibs) (s : Statement) (r : ExtractorResult) : Bool :=
  r.facts.any (fun f => decide (statementOf libs r.entities f = s))

/-- The fraction of the passes that make a statement. -/
def fractionOf (libs : ExtractorLibs) (passes : List ExtractorResult) (s : Statement) : ℚ :=
  (passes.countP (makes libs s) : ℚ) / passes.length

/-- Every statement of a pass is one of the merge, which says how many of the passes make it. -/
def LosesNothing (libs : ExtractorLibs) (passes : List ExtractorResult) : Prop :=
  ∀ r ∈ passes, ∀ f ∈ r.facts, ∃ m ∈ (mergePasses libs passes).facts,
    statementOf libs (mergePasses libs passes).entities m = statementOf libs r.entities f ∧
    m.extractionAgreement = some (fractionOf libs passes (statementOf libs r.entities f))

/-- Facts of one cluster make one statement. -/
def ClustersAgree (libs : ExtractorLibs) (passes : List ExtractorResult) : Prop :=
  ∀ r ∈ passes, ∀ f ∈ r.facts, ∀ r' ∈ passes, ∀ f' ∈ r'.facts,
    clusterKey libs f.toPassFact = clusterKey libs f'.toPassFact →
      statementOf libs r.entities f = statementOf libs r'.entities f'

section Statements

variable {libs : ExtractorLibs} {passes : List ExtractorResult} {r : ExtractorResult}
  {f g : ExtractorFact}

/-- The cluster of a fact is a part of its statement. -/
theorem clusterKey_eq_of_statementOf_eq {entities entities' : List ExtractedEntity}
    (h : statementOf libs entities f = statementOf libs entities' g) :
    clusterKey libs f.toPassFact = clusterKey libs g.toPassFact := by
  have hpredicate : f.predicate = g.predicate := congrArg Statement.predicate h
  have hobject : normaliseObject libs f.object = normaliseObject libs g.object :=
    congrArg Statement.object h
  simp only [clusterKey, ExtractorFact.toPassFact, hpredicate, hobject]

/-- The statistics do not touch the statement. -/
theorem statementOf_annotate (sc : InsertionMap String FactSelfConsistency)
    (entities : List ExtractedEntity) :
    statementOf libs entities (annotate libs sc f) = statementOf libs entities f := by
  have hsame := toExtractedFact_annotate libs sc f
  simp only [statementOf, hsame]

theorem clusterKey_annotate (sc : InsertionMap String FactSelfConsistency) :
    clusterKey libs (annotate libs sc f).toPassFact = clusterKey libs f.toPassFact :=
  clusterKey_eq_of_statementOf_eq (statementOf_annotate sc [])

/-- **Every cluster has one fact in the merge**, the first one. -/
theorem exists_traced (libs : ExtractorLibs) (hr : r ∈ passes) (hf : f ∈ r.facts) :
    ∃ p ∈ tracedFacts libs passes,
      clusterKey libs p.2.toPassFact = clusterKey libs f.toPassFact := by
  have hmem : (r, f) ∈ passes.flatMap (fun r => r.facts.map (fun f => (r, f))) :=
    List.mem_flatMap.mpr ⟨r, hr, List.mem_map_of_mem hf⟩
  unfold tracedFacts
  exact FirstSeen.exists_mem_firstSeen hmem

/-- The fact of the merge for a cluster. -/
theorem eq_annotate_of_mem {p : ExtractorResult × ExtractorFact} {m : ExtractorFact}
    (hp : p ∈ tracedFacts libs passes) (hm : m ∈ (mergePasses libs passes).facts)
    (hkey : clusterKey libs m.toPassFact = clusterKey libs p.2.toPassFact) :
    m = annotate libs (passStats libs passes) p.2 := by
  rw [facts_mergePasses] at hm
  obtain ⟨q, hq, rfl⟩ := List.mem_map.mp hm
  rw [clusterKey_annotate] at hkey
  rw [FirstSeen.eq_of_mem_firstSeen hq hp hkey]

/-- The agreement of a fact of the merge counts the passes with a fact in its cluster. -/
theorem extractionAgreement_annotate (hr : r ∈ passes) (hf : f ∈ r.facts) :
    (annotate libs (passStats libs passes) f).extractionAgreement
      = some ((passes.countP (fun r => r.facts.any (fun g =>
          decide (clusterKey libs g.toPassFact = clusterKey libs f.toPassFact))) : ℚ)
            / passes.length) := by
  have hany : ∀ r : ExtractorResult,
      inPass libs (clusterKey libs f.toPassFact) (r.facts.map ExtractorFact.toPassFact)
        = r.facts.any (fun g =>
            decide (clusterKey libs g.toPassFact = clusterKey libs f.toPassFact)) := by
    intro r
    rw [inPass, List.any_map]
    rfl
  have hin : inPass libs (clusterKey libs f.toPassFact) (r.facts.map ExtractorFact.toPassFact)
      = true := by
    rw [hany, List.any_eq_true]
    exact ⟨f, hf, by simp⟩
  have hpass : r.facts.map ExtractorFact.toPassFact
      ∈ passes.map (fun r => r.facts.map ExtractorFact.toPassFact) := List.mem_map_of_mem hr
  have hstats := get?_selfConsistencyByFact hpass hin
  rw [← passStats] at hstats
  have hcount : (passes.map (fun r => r.facts.map ExtractorFact.toPassFact)).countP
        (inPass libs (clusterKey libs f.toPassFact))
      = passes.countP (fun r => r.facts.any (fun g =>
          decide (clusterKey libs g.toPassFact = clusterKey libs f.toPassFact))) := by
    rw [List.countP_map]
    refine List.countP_congr (fun r _ => ?_)
    rw [Function.comp_apply, hany]
  rw [annotate, hstats, hcount, List.length_map]

/-- A fact keeps its statement in the merge exactly if it keeps its entity. -/
theorem statementOf_mergePasses_iff (hassembled : ∀ r ∈ passes, r.Assembled) (hr : r ∈ passes)
    (hf : f ∈ r.facts) :
    statementOf libs (mergePasses libs passes).entities f = statementOf libs r.entities f ↔
      KeepsPlace libs passes r f.entityIndex := by
  rw [← meanTheSame_iff hassembled hr]
  obtain ⟨e, he⟩ : ∃ e, r.entities[f.entityIndex]? = some e :=
    ⟨_, List.getElem?_eq_getElem ((hassembled r hr).facts_lt f hf)⟩
  constructor
  · intro h
    have hentity := congrArg Statement.entity h
    simp only [statementOf, he, Option.map_some, Option.map_eq_some_iff, Prod.mk.injEq] at hentity
    obtain ⟨e', he', htype, hname⟩ := hentity
    exact ⟨e, e', he, he', htype.symm, hname.symm⟩
  · rintro ⟨e₁, e₂, he₁, he₂, htype, hname⟩
    simp only [statementOf, he₁, he₂, Option.map_some, htype, hname]

/-- Where clusters agree, the passes with a fact in a cluster are those that make its
statement. -/
theorem ClustersAgree.countP_eq (hagree : ClustersAgree libs passes) (hr : r ∈ passes)
    (hf : f ∈ r.facts) :
    passes.countP (fun r => r.facts.any (fun g =>
        decide (clusterKey libs g.toPassFact = clusterKey libs f.toPassFact)))
      = passes.countP (makes libs (statementOf libs r.entities f)) := by
  refine List.countP_congr (fun r' hr' => ?_)
  rw [makes, List.any_eq_true, List.any_eq_true]
  refine exists_congr (fun g => and_congr_right (fun hg => ?_))
  rw [decide_eq_true_iff, decide_eq_true_iff]
  constructor
  · exact fun hkey => hagree r' hr' g hg r hr f hf hkey
  · exact clusterKey_eq_of_statementOf_eq

/-- If nothing is lost, the fact that is kept of a cluster makes in the merge the statement of
each fact of the cluster: no other fact of the merge is of that cluster. -/
theorem LosesNothing.statementOf_eq (h : LosesNothing libs passes) (hr : r ∈ passes)
    (hf : f ∈ r.facts) {p : ExtractorResult × ExtractorFact} (hp : p ∈ tracedFacts libs passes)
    (hkey : clusterKey libs p.2.toPassFact = clusterKey libs f.toPassFact) :
    statementOf libs (mergePasses libs passes).entities p.2 = statementOf libs r.entities f := by
  obtain ⟨m, hm, hstatement, _⟩ := h r hr f hf
  have hmkey := (clusterKey_eq_of_statementOf_eq hstatement).trans hkey.symm
  rw [eq_annotate_of_mem hp hm hmkey, statementOf_annotate] at hstatement
  exact hstatement

/-- **Nothing is lost exactly if the facts of each cluster make one statement, and the
facts that are kept keep their entities.** -/
theorem losesNothing_iff (hassembled : ∀ r ∈ passes, r.Assembled) :
    LosesNothing libs passes ↔
      ClustersAgree libs passes ∧
        ∀ p ∈ tracedFacts libs passes, KeepsPlace libs passes p.1 p.2.entityIndex := by
  constructor
  · intro h
    refine ⟨fun r hr f hf r' hr' f' hf' hkey => ?_, fun p hp => ?_⟩
    · obtain ⟨p, hp, hpkey⟩ := exists_traced libs hr hf
      rw [← h.statementOf_eq hr hf hp hpkey, ← h.statementOf_eq hr' hf' hp (hpkey.trans hkey)]
    · obtain ⟨hr, hf⟩ := mem_of_mem_tracedFacts hp
      exact (statementOf_mergePasses_iff hassembled hr hf).mp (h.statementOf_eq hr hf hp rfl)
  · rintro ⟨hagree, hplaces⟩ r hr f hf
    obtain ⟨p, hp, hkey⟩ := exists_traced libs hr hf
    obtain ⟨hpr, hpf⟩ := mem_of_mem_tracedFacts hp
    have hstatement := hagree p.1 hpr p.2 hpf r hr f hf hkey
    have hkept := (statementOf_mergePasses_iff hassembled hpr hpf).mpr (hplaces p hp)
    refine ⟨annotate libs (passStats libs passes) p.2, ?_, ?_, ?_⟩
    · rw [facts_mergePasses]
      exact List.mem_map_of_mem hp
    · rw [statementOf_annotate, hkept, hstatement]
    · rw [extractionAgreement_annotate hpr hpf, hagree.countP_eq hpr hpf, hstatement, fractionOf]

end Statements

/-! ## 3. Two entities with one value -/

/-- The theorem above for two passes that find the same fact. -/
theorem losesNothing_iff_agreeing :
    LosesNothing asciiLibs
      [likesResult ["Anna", "Boris"] 1 "rum", likesResult ["Anna", "Boris"] 1 "rum"] := by
  have hassemble : assembleResult { libs := asciiLibs } "Anna likes tea, Boris likes rum"
      silentServices (likesReply ["Anna", "Boris"] 1 "rum")
        = .ok (likesResult ["Anna", "Boris"] 1 "rum") := rfl
  have hpass : ∀ r ∈ [likesResult ["Anna", "Boris"] 1 "rum", likesResult ["Anna", "Boris"] 1 "rum"],
      r = likesResult ["Anna", "Boris"] 1 "rum" := by simp
  refine (losesNothing_iff (fun r hr => ?_)).mpr ⟨?_, ?_⟩
  · rw [hpass r hr]
    exact assembled_assembleResult hassemble
  · intro r hr f hf r' hr' f' hf' _
    rw [hpass r hr] at hf ⊢
    rw [hpass r' hr'] at hf' ⊢
    rw [List.mem_singleton.mp hf, List.mem_singleton.mp hf']
  · intro p hp
    have htraced : p ∈ [(likesResult ["Anna", "Boris"] 1 "rum",
      ({ entityIndex := 1, predicate := "likes", object := "rum", confidence := 1 / 2 }
        : ExtractorFact))] := hp
    rw [List.mem_singleton.mp htraced]
    exact ⟨_, rfl, by decide⟩

/-- A fact of one of two entities. -/
def likesTea (entityIndex : ℤ) : JsonFact where
  entityIndex := some entityIndex
  predicate := some "likes"
  valueSpan := some "tea"

/-- What it is assembled to. -/
def likesTeaFact (entityIndex : ℕ) : ExtractorFact where
  entityIndex := entityIndex
  predicate := "likes"
  object := "tea"
  confidence := 1 / 2

/-- Both passes say that Anna likes tea and that Boris does; the merge says it of Anna only. -/
theorem shared_value_lost :
    ∃ r, assembleResult { libs := asciiLibs } "Anna likes tea, Boris likes tea" silentServices
        { entities := [{ name := some "Anna", type := some "staff" },
            { name := some "Boris", type := some "staff" }]
          facts := [likesTea 0, likesTea 1] } = .ok r ∧
      ¬ LosesNothing asciiLibs [r, r] := by
  refine ⟨{ entities := [{ name := "Anna", type := "staff" }, { name := "Boris", type := "staff" }]
            facts := [likesTeaFact 0, likesTeaFact 1]
            edges := [] }, rfl, fun h => ?_⟩
  obtain ⟨m, hm, hstatement, _⟩ := h _ List.mem_cons_self (likesTeaFact 1) (by simp)
  rw [facts_mergePasses] at hm
  obtain ⟨p, hp, rfl⟩ := List.mem_map.mp hm
  have hfirst : p.2 = likesTeaFact 0 := by
    have hsingle : p ∈ [(_, likesTeaFact 0)] := hp
    rw [List.mem_singleton.mp hsingle]
  rw [statementOf_annotate, hfirst] at hstatement
  exact absurd hstatement (by decide)

end Brain
