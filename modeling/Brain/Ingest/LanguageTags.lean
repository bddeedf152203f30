/-
Language tags, and searches that are pinned to a language.

A fact gets its tag after it was resolved, in a write of its own, and only if it was
inserted; a fact that supersedes another one or competes with one stays untagged. The
WHERE of a pinned search takes a fact without a tag for one that was written before
there were tags and lets it pass, so such a fact is found under every language. The
searches are right as long as every fact with a language meets no competitor
(`InsertsTagged`), and a single one that does spoils them for good
(`not_pinned_of_untagged`).
-/
import Brain.Ingest.IngestRun
import Brain.Search.WhereBuilder

set_option autoImplicit false

namespace Brain

/-! ## Sequences of calls -/

/-- A call of one of the two methods; a mention comes with its extraction. -/
inductive IngestRequest where
  | fact (dto : IngestFactDto)
  | mention (dto : IngestMentionDto) (extraction : ExtractionResult)

/-- What a call executes: nothing if its interval is refused, or if the extraction found no
entity. -/
def IngestRequest.run (services : IngestServices) : IngestRequest → Option IngestRun
  | .fact dto =>
      if dto.validUntil.any (fun u => decide (u ≤ dto.validFrom)) then none
      else some (ingestFactRun services dto)
  | .mention dto extraction =>
      if extraction.entities.isEmpty then none
      else some (ingestMentionRun services dto extraction)

/-- The run leads from one state of the tenant to the other, each of its statements at a
time of its own, and each meeting `C` when it is executed. -/
inductive Executes (services : IngestServices) (C : IngestRun → Tenant → Prop) :
    IngestRun → Tenant → Tenant → Prop
  | last {run : IngestRun} {db db' : Tenant} (x : Outside) : C run db →
      run.next services x db = (db', none) → Executes services C run db db'
  | step {run run' : IngestRun} {db db₁ db' : Tenant} (x : Outside) : C run db →
      run.next services x db = (db₁, some run') → Executes services C run' db₁ db' →
      Executes services C run db db'

/-- A tenant after a sequence of calls whose statements all met `C`; it had no fact before
them. -/
inductive IngestedBy (services : IngestServices) (C : IngestRun → Tenant → Prop) : Tenant → Prop
  | start {db : Tenant} : db.facts = .empty → IngestedBy services C db
  | call {db db' : Tenant} {run : IngestRun} (request : IngestRequest) :
      IngestedBy services C db → request.run services = some run →
      Executes services C run db db' → IngestedBy services C db'

/-! ## Pinned searches -/

/-- A search that is pinned to a language admits facts of that language, and facts whose
language is not determined. -/
def PinnedToLanguage (detectLanguage : String → Option String) (t : KeyedTable KnowledgeFact) :
    Prop :=
  ∀ (now : Time) (dto : SearchDto) (asOf : Option Time) (includeRetracted includeContested : Bool)
    (lang : String), lang ≠ "" → dto.disableLangFilter = false → ∀ i f, t.get? i = some f →
      admits (buildBaseWhere now dto asOf includeRetracted includeContested (some lang)) f = true →
      detectLanguage f.object = some lang ∨ detectLanguage f.object = none

/-- The tag of a fact is the language of its object. -/
def HasOwnTag (detectLanguage : String → Option String) (f : KnowledgeFact) : Prop :=
  f.lang = detectLanguage f.object

section Where

variable {detectLanguage : String → Option String} {t : KeyedTable KnowledgeFact} {i : FactId}
  {f : KnowledgeFact}

/-- A pinned search has the clause. -/
theorem langClause_of_admits {now : Time} {dto : SearchDto} {asOf : Option Time} {lang : String}
    {includeRetracted includeContested : Bool} (hlang : lang ≠ "")
    (hon : dto.disableLangFilter = false)
    (h : admits (buildBaseWhere now dto asOf includeRetracted includeContested (some lang)) f
      = true) : f.lang = some lang ∨ f.lang = none := by
  have hmem : langClause lang ∈
      buildBaseWhere now dto asOf includeRetracted includeContested (some lang) := by
    have hempty : lang.isEmpty = false := by simpa using hlang
    simp [buildBaseWhere, hempty, hon]
  have hclause := List.all_eq_true.mp h _ hmem
  simpa [langClause, Option.isNone_iff_eq_none] using hclause

theorem pinned_of_hasOwnTag (h : ∀ i f, t.get? i = some f → HasOwnTag detectLanguage f) :
    PinnedToLanguage detectLanguage t := by
  intro now dto asOf includeRetracted includeContested lang hlang hon i f hf hadmits
  have htag := h i f hf
  rw [HasOwnTag] at htag
  rw [← htag]
  exact langClause_of_admits hlang hon hadmits

/-- **The condition is exact**: one untagged fact with a language is admitted under every
other language too. -/
theorem not_pinned_of_untagged {lang : String} (hf : t.get? i = some f) (hnone : f.lang = none)
    (hlang : detectLanguage f.object = some lang) : ¬ PinnedToLanguage detectLanguage t := by
  intro h
  have hne : ∃ other : String, other ≠ "" ∧ other ≠ lang := by
    by_cases hen : lang = "en"
    · exact ⟨"ru", by decide, by rw [hen]; decide⟩
    · exact ⟨"en", by decide, fun h => hen h.symm⟩
  obtain ⟨other, hother, hdiff⟩ := hne
  have hadmits : admits (buildBaseWhere 0 { includeStale := true } none true true (some other)) f
      = true := by
    have hempty : other.isEmpty = false := by simpa using hother
    simp [admits, buildBaseWhere, langClause, hempty, hnone]
  rcases h 0 { includeStale := true } none true true other hother rfl i f hf hadmits with h | h
  · rw [hlang] at h
    exact hdiff (Option.some.inj h).symm
  · rw [hlang] at h
    cases h

end Where

/-! ## The runs that leave nothing untagged -/

/-- The fact is not written at all (its score is too low, or its confidence is out of range),
or nothing competes with it, or it has no language. -/
def LeavesNoneUntagged (cfg : IngestConfig) (a : ResolveArgs) (t : KeyedTable KnowledgeFact) :
    Prop :=
  a.rejects = true ∨ assertConfidence a.confidence = none ∨ resolveCompeting cfg.fns a t = [] ∨
    cfg.detectLanguage a.object = none

/-- If the next statement resolves a fact, it leaves none untagged. -/
def InsertsTagged (services : IngestServices) (run : IngestRun) (db : Tenant) : Prop :=
  ∀ attempt index fact rest e, run.stage = .ready attempt → run.lookups = [] →
    run.writes = .fact index fact :: rest → run.resolved[index]? = some e →
      LeavesNoneUntagged services.ingest (fact.args e) db.facts

/-- What holds of the facts in the middle of a call: each has its own tag, or it is about to
be tagged. -/
structure TagsUpTo (services : IngestServices) (run : Option IngestRun)
    (t : KeyedTable KnowledgeFact) : Prop where
  tagged : ∀ i f, t.get? i = some f → HasOwnTag services.ingest.detectLanguage f ∨
    ∃ r lang, run = some r ∧ r.stage = .tagging i lang
  pending : ∀ r i lang, run = some r → r.stage = .tagging i lang → ∀ f, t.get? i = some f →
    services.ingest.detectLanguage f.object = some lang

section Steps

variable {services : IngestServices} {run run' : IngestRun} {o : Option IngestRun}
  {db db' : Tenant} {t : KeyedTable KnowledgeFact}

/-- Between two tags there is nothing to wait for. -/
theorem TagsUpTo.of_hasOwnTag
    (h : ∀ i f, t.get? i = some f → HasOwnTag services.ingest.detectLanguage f)
    (hstage : ∀ r i lang, o = some r → r.stage ≠ .tagging i lang) : TagsUpTo services o t :=
  ⟨fun i f hf => Or.inl (h i f hf), fun r i lang ho hst => absurd hst (hstage r i lang ho)⟩

/-- The one row without its own tag gets it next. -/
theorem TagsUpTo.of_tagging {r : IngestRun} {i : FactId} {lang : String}
    (hstage : r.stage = .tagging i lang)
    (hrows : ∀ j f, t.get? j = some f →
      HasOwnTag services.ingest.detectLanguage f ∧ j ≠ i ∨
        j = i ∧ services.ingest.detectLanguage f.object = some lang) :
    TagsUpTo services (some r) t := by
  refine ⟨fun j f hf => ?_, fun r' j lang' hr' hst f hf => ?_⟩
  · rcases hrows j f hf with ⟨htag, _⟩ | ⟨hj, _⟩
    · exact Or.inl htag
    · exact Or.inr ⟨r, lang, rfl, hj ▸ hstage⟩
  · rw [← Option.some.inj hr', hstage] at hst
    obtain ⟨rfl, rfl⟩ := IngestStage.tagging.inj hst
    rcases hrows i f hf with ⟨_, hne⟩ | ⟨_, hlang⟩
    · exact absurd rfl hne
    · exact hlang

theorem TagsUpTo.hasOwnTag (h : TagsUpTo services o t)
    (hstage : ∀ r i lang, o = some r → r.stage ≠ .tagging i lang) {i : FactId}
    {f : KnowledgeFact} (hf : t.get? i = some f) :
    HasOwnTag services.ingest.detectLanguage f := by
  rcases h.tagged i f hf with htag | ⟨r, lang, ho, hst⟩
  · exact htag
  · exact absurd hst (hstage r i lang ho)

/-- Resolving a fact leaves the others their tags, and does not tag the new one. -/
theorem tags_of_resolveFact {fns : SurrealFns} {env : DbEnv} {a : ResolveArgs} {s s' : Store}
    {r : ResolveResult} {detectLanguage : String → Option String}
    (hold : ∀ i f, s.facts.get? i = some f → HasOwnTag detectLanguage f)
    (hr : resolveFact fns env s a = .ok (r, s')) {i : FactId} {f : KnowledgeFact}
    (hf : s'.facts.get? i = some f) :
    HasOwnTag detectLanguage f ∧ i ≠ s.facts.next ∨
      i = s.facts.next ∧ f.object = a.object ∧ f.lang = none := by
  have hafter : afterResolve fns env s a = s' := by rw [afterResolve, hr]
  rw [← hafter] at hf
  revert hf
  apply afterResolve_rows (P := fun i f => HasOwnTag detectLanguage f ∧ i ≠ s.facts.next ∨
    i = s.facts.next ∧ f.object = a.object ∧ f.lang = none)
  · exact fun i f hf => Or.inl ⟨hold i f hf, Nat.ne_of_lt (KeyedTable.get?_lt_next hf)⟩
  · exact fun c _ => ⟨Or.inr ⟨rfl, rfl, rfl⟩, fun _ => Or.inr ⟨rfl, rfl, rfl⟩⟩
  · exact fun i f _ h => h
  · exact fun i f _ _ h => h

/-- Where none is left untagged, nothing is written, or the fact is inserted, or it has no
language. -/
theorem LeavesNoneUntagged.cases {cfg : IngestConfig} {env : DbEnv} {a : ResolveArgs}
    {s s' : Store} {r : ResolveResult} (hC : LeavesNoneUntagged cfg a s.facts)
    (hr : resolveFact cfg.fns env s a = .ok (r, s')) :
    s'.facts = s.facts ∨ r = .inserted s.facts.next ∨ cfg.detectLanguage a.object = none := by
  rcases hC with hrej | hconf | hcomp | hlang
  · rcases resolveFact_cases hr with ⟨_, _, hfacts⟩ | ⟨c, hrej', _, _, _⟩ |
      ⟨c, q, l, _, hrej', _, _, _, _, _⟩
    · exact Or.inl hfacts
    · simp [hrej'] at hrej
    · simp [hrej'] at hrej
  · rcases resolveFact_cases hr with ⟨_, _, hfacts⟩ | ⟨c, _, hconf', _, _⟩ |
      ⟨c, q, l, _, _, hconf', _, _, _, _⟩
    · exact Or.inl hfacts
    · simp [hconf'] at hconf
    · simp [hconf'] at hconf
  · rcases resolveFact_cases hr with ⟨_, _, hfacts⟩ | ⟨c, _, _, _, ⟨_, hout⟩ | ⟨q, l, hcomp', _, _⟩⟩ |
      ⟨c, q, l, _, _, _, _, hcomp', _, _⟩
    · exact Or.inl hfacts
    · exact Or.inr (Or.inl hout)
    · simp [hcomp'] at hcomp
    · simp [hcomp'] at hcomp
  · exact Or.inr (Or.inr hlang)

theorem eq_next_of_inserted {fns : SurrealFns} {env : DbEnv} {a : ResolveArgs} {s s' : Store}
    {factId : FactId} (hr : resolveFact fns env s a = .ok (.inserted factId, s')) :
    factId = s.facts.next := by
  rcases resolveFact_cases hr with ⟨_, h, _⟩ | ⟨_, _, _, _, ⟨_, h⟩ | ⟨_, _, _, _, h⟩⟩ |
    ⟨_, _, _, _, _, _, _, _, _, h⟩
  · cases h
  · exact ResolveResult.inserted.inj h
  · cases h
  · cases h

/-- A resolution after which no tag is to be written leaves each fact with its own one. -/
theorem hasOwnTag_of_resolveFact {cfg : IngestConfig} {env : DbEnv} {a : ResolveArgs} {s s' : Store}
    {r : ResolveResult}
    (hown : ∀ i f, s.facts.get? i = some f → HasOwnTag cfg.detectLanguage f)
    (hC : LeavesNoneUntagged cfg a s.facts) (hres : resolveFact cfg.fns env s a = .ok (r, s'))
    (hnot : ∀ factId lang, r = .inserted factId → cfg.detectLanguage a.object ≠ some lang)
    {i : FactId} {f : KnowledgeFact} (hf : s'.facts.get? i = some f) :
    HasOwnTag cfg.detectLanguage f := by
  rcases tags_of_resolveFact hown hres hf with ⟨htag, _⟩ | ⟨hi, hobj, hnone⟩
  · exact htag
  · -- the fact is new: it is left without a tag only if it has no language
    rw [HasOwnTag, hnone, hobj]
    rcases hC.cases hres with hsame | hins | hlang
    · rw [hsame, hi, KeyedTable.get?_next] at hf
      cases hf
    · exact (Option.eq_none_iff_forall_ne_some.mpr (fun lang => hnot _ lang hins)).symm
    · exact hlang.symm

/-- **A fact is written.** Without competitors it leaves at most itself to be tagged. -/
theorem TagsUpTo.fact {x : Outside} {index : ℕ} {fact : FactArgs} {rest : List Write}
    (hown : ∀ i f, db.facts.get? i = some f → HasOwnTag services.ingest.detectLanguage f)
    (hC : ∀ e, run.resolved[index]? = some e →
      LeavesNoneUntagged services.ingest (fact.args e) db.facts)
    (hnext : run.write services x (.fact index fact) rest db = (db', o)) :
    TagsUpTo services o db'.facts := by
  have hgo : ∀ r i lang, some (run.go rest) = some r → r.stage ≠ .tagging i lang := by
    intro r i lang hr hst
    rw [← Option.some.inj hr] at hst
    cases hst
  rw [IngestRun.write] at hnext
  cases he : run.resolved[index]? with
  | none =>
      rw [he] at hnext
      cases hnext
      exact .of_hasOwnTag hown hgo
  | some e =>
      rw [he] at hnext
      dsimp only at hnext
      cases hres : resolveFact services.ingest.fns x.env db.toStore (fact.args e) with
      | error err =>
          rw [resolve_of_error hres] at hnext
          cases hnext
          exact .of_hasOwnTag hown (by simp)
      | ok p =>
          obtain ⟨r, s'⟩ := p
          obtain ⟨db₁, hdb₁, hstore⟩ := resolve_of_ok hres
          rw [hdb₁] at hnext
          dsimp only at hnext
          have hfacts : db₁.facts = s'.facts := by rw [← hstore]
          split at hnext
          · -- inserted, with a language: its tag comes next
            next factId lang hlang =>
              cases hnext
              have hid : factId = db.facts.next := eq_next_of_inserted hres
              refine .of_tagging rfl (fun j f hf => ?_)
              rw [hfacts] at hf
              rw [hid]
              rcases tags_of_resolveFact hown hres hf with htag | ⟨hj, hobj, _⟩
              · exact Or.inl htag
              · rw [hobj]
                exact Or.inr ⟨hj, hlang⟩
          · -- otherwise nothing is left to do, and a new fact has no language
            next hnot =>
              cases hnext
              refine .of_hasOwnTag (fun i f hf => ?_) hgo
              rw [hfacts] at hf
              exact hasOwnTag_of_resolveFact hown (hC e he) hres hnot hf

/-- The other writes leave the facts as they are, and no tag pending. -/
theorem facts_write {x : Outside} {w : Write} {rest : List Write}
    (hw : ∀ index fact, w ≠ .fact index fact)
    (hnext : run.write services x w rest db = (db', o)) :
    db'.facts = db.facts ∧ ∀ r i lang, o = some r → r.stage ≠ .tagging i lang := by
  cases w with
  | fact index fact => exact absurd rfl (hw index fact)
  | edge i j kind =>
      rw [IngestRun.write] at hnext
      split at hnext
      · split at hnext
        · cases hnext
          exact ⟨rfl, by rintro r i lang ⟨⟩ ⟨⟩⟩
        · cases hnext
          exact ⟨rfl, by rintro r i lang ⟨⟩ ⟨⟩⟩
      · cases hnext
        exact ⟨rfl, by rintro r i lang ⟨⟩ ⟨⟩⟩
  | guard =>
      rw [IngestRun.write] at hnext
      split at hnext
      · split at hnext
        · cases hnext
          exact ⟨rfl, by rintro r i lang ⟨⟩⟩
        · cases hnext
          exact ⟨rfl, by rintro r i lang ⟨⟩ ⟨⟩⟩
      · cases hnext
        exact ⟨rfl, by rintro r i lang ⟨⟩⟩
  | relate kind weight =>
      rw [IngestRun.write] at hnext
      split at hnext
      · cases hnext
        exact ⟨rfl, by rintro r i lang ⟨⟩ ⟨⟩⟩
      · cases hnext
        exact ⟨rfl, by rintro r i lang ⟨⟩⟩
  | merge =>
      rw [IngestRun.write] at hnext
      split at hnext
      · cases hnext
        exact ⟨rfl, by rintro r i lang ⟨⟩ ⟨⟩⟩
      · cases hnext
        exact ⟨rfl, by rintro r i lang ⟨⟩⟩

/-- The lookups, the creations and the hops of the guard leave the facts as they are, and
no tag pending. -/
theorem facts_next_of_no_write {x : Outside} (htag : ∀ i lang, run.stage ≠ .tagging i lang)
    (hno : ∀ attempt, run.stage = .ready attempt → run.lookups = [] → run.writes = [])
    (hnext : run.next services x db = (db', o)) :
    db'.facts = db.facts ∧ ∀ r i lang, o = some r → r.stage ≠ .tagging i lang := by
  rw [IngestRun.next] at hnext
  split at hnext
  · next attempt hready =>
      split at hnext
      · split at hnext
        · cases hnext
          exact ⟨rfl, by rintro r i lang ⟨⟩ ⟨⟩⟩
        · cases hnext
          exact ⟨rfl, by rintro r i lang ⟨⟩ ⟨⟩⟩
      · next hlookups =>
          rw [hno attempt hready hlookups] at hnext
          cases hnext
          exact ⟨rfl, by rintro r i lang ⟨⟩⟩
  · split at hnext
    · split at hnext
      · cases hnext
        exact ⟨rfl, by rintro r i lang ⟨⟩ ⟨⟩⟩
      · split at hnext
        · cases hnext
          exact ⟨rfl, by rintro r i lang ⟨⟩ ⟨⟩⟩
        · cases hnext
          exact ⟨rfl, by rintro r i lang ⟨⟩⟩
    · cases hnext
      exact ⟨rfl, by rintro r i lang ⟨⟩ ⟨⟩⟩
    · cases hnext
      exact ⟨rfl, by rintro r i lang ⟨⟩⟩
  · split at hnext
    · cases hnext
      exact ⟨rfl, by rintro r i lang ⟨⟩ ⟨⟩⟩
    · cases hnext
      exact ⟨rfl, by rintro r i lang ⟨⟩ ⟨⟩⟩
    · split at hnext
      · cases hnext
        exact ⟨rfl, by rintro r i lang ⟨⟩⟩
      · cases hnext
        exact ⟨rfl, by rintro r i lang ⟨⟩ ⟨⟩⟩
  · next factId lang hst => exact absurd hst (htag factId lang)

/-- **One statement** that meets the condition keeps the tags up to the one that comes
next. -/
theorem TagsUpTo.next {x : Outside} (h : TagsUpTo services (some run) db.facts)
    (hC : InsertsTagged services run db) (hnext : run.next services x db = (db', o)) :
    TagsUpTo services o db'.facts := by
  by_cases htag : ∃ i lang, run.stage = .tagging i lang
  · -- the tag is written
    obtain ⟨factId, lang, hst⟩ := htag
    have hstep : run.next services x db = (db.tagFact factId lang, some (run.go run.writes)) := by
      simp only [IngestRun.next, hst]
    rw [hstep] at hnext
    cases hnext
    have hfacts : (db.tagFact factId lang).facts
        = db.facts.update factId (fun f => { f with lang := some lang }) :=
      congrArg Store.facts (@toStore_tagFact db factId lang)
    refine .of_hasOwnTag (fun i f hf => ?_) (by rintro r i lang ⟨⟩ ⟨⟩)
    rw [hfacts, KeyedTable.get?_update] at hf
    by_cases hi : i = factId
    · rw [if_pos hi, Option.map_eq_some_iff] at hf
      obtain ⟨g, hg, rfl⟩ := hf
      exact (h.pending run factId lang rfl hst g (hi ▸ hg)).symm
    · rw [if_neg hi] at hf
      rcases h.tagged i f hf with hown | ⟨r, lang', hr, hst'⟩
      · exact hown
      · rw [← Option.some.inj hr, hst] at hst'
        exact absurd (IngestStage.tagging.inj hst').1.symm hi
  · have hnot : ∀ i lang, run.stage ≠ .tagging i lang := fun i lang hst => htag ⟨i, lang, hst⟩
    have hown : ∀ i f, db.facts.get? i = some f → HasOwnTag services.ingest.detectLanguage f :=
      fun i f hf => h.hasOwnTag (fun r i lang hr => Option.some.inj hr ▸ hnot i lang) hf
    by_cases hwrite : ∃ attempt w rest, run.stage = .ready attempt ∧ run.lookups = [] ∧
        run.writes = w :: rest
    · obtain ⟨attempt, w, rest, hready, hlookups, hwrites⟩ := hwrite
      have hstep : run.next services x db = run.write services x w rest db := by
        simp only [IngestRun.next, hready, hlookups, hwrites]
      rw [hstep] at hnext
      by_cases hw : ∃ index fact, w = .fact index fact
      · obtain ⟨index, fact, rfl⟩ := hw
        exact .fact hown (fun e he => hC attempt index fact rest e hready hlookups hwrites he) hnext
      · obtain ⟨hfacts, hst⟩ := facts_write (fun index fact hw' => hw ⟨index, fact, hw'⟩) hnext
        rw [hfacts]
        exact .of_hasOwnTag hown hst
    · obtain ⟨hfacts, hst⟩ := facts_next_of_no_write hnot (fun attempt hready hlookups => by
        cases hws : run.writes with
        | nil => rfl
        | cons w rest => exact absurd ⟨attempt, w, rest, hready, hlookups, hws⟩ hwrite) hnext
      rw [hfacts]
      exact .of_hasOwnTag hown hst

/-- **One call**, from its first statement to its last. -/
theorem TagsUpTo.executes (h : TagsUpTo services (some run) db.facts)
    (hrun : Executes services (InsertsTagged services) run db db') :
    TagsUpTo services none db'.facts := by
  induction hrun with
  | last x hC hnext => exact h.next hC hnext
  | step x hC hnext _ ih => exact ih (h.next hC hnext)

theorem hasOwnTag_of_ingestedBy (h : IngestedBy services (InsertsTagged services) db) :
    ∀ i f, db.facts.get? i = some f → HasOwnTag services.ingest.detectLanguage f := by
  induction h with
  | start hempty =>
      intro i f hf
      rw [hempty] at hf
      cases hf
  | @call db db' run request _ hrun hexec ih =>
      -- a call starts with its lookups
      have hready : run.stage = .ready 0 := by
        cases request with
        | fact dto =>
            rw [IngestRequest.run] at hrun
            split at hrun
            · cases hrun
            · exact Option.some.inj hrun ▸ rfl
        | mention dto extraction =>
            rw [IngestRequest.run] at hrun
            split at hrun
            · cases hrun
            · exact Option.some.inj hrun ▸ rfl
      have hstart : TagsUpTo services (some run) db.facts := by
        refine .of_hasOwnTag ih (fun r i lang hr hst => ?_)
        rw [← Option.some.inj hr, hready] at hst
        cases hst
      exact fun i f hf => (hstart.executes hexec).hasOwnTag (by simp) hf

/-- **Pinned searches return their language only**, in every state that a sequence of calls
leaves whose facts with a language met no competitor. -/
theorem pinned_of_ingestedBy (h : IngestedBy services (InsertsTagged services) db) :
    PinnedToLanguage services.ingest.detectLanguage db.facts :=
  pinned_of_hasOwnTag (hasOwnTag_of_ingestedBy h)

/-- **And only then**: a fact that meets one is written without a tag, and the statement that
comes next is not its tagging. -/
theorem not_pinned_of_competing {x : Outside} {index : ℕ} {fact : FactArgs} {rest : List Write}
    {e : EntityId} (he : run.resolved[index]? = some e)
    (hC : ¬ LeavesNoneUntagged services.ingest (fact.args e) db.facts) :
    ∃ db', run.write services x (.fact index fact) rest db = (db', some (run.go rest)) ∧
      ¬ PinnedToLanguage services.ingest.detectLanguage db'.facts := by
  simp only [LeavesNoneUntagged, not_or] at hC
  obtain ⟨hrej, hconf, hcomp, hlang⟩ := hC
  obtain ⟨lang, hlang⟩ := Option.ne_none_iff_exists'.mp hlang
  cases hres : resolveFact services.ingest.fns x.env db.toStore (fact.args e) with
  | error err => exact absurd (resolveFact_error_iff.mp hres).2.1 hconf
  | ok p =>
      obtain ⟨r, s'⟩ := p
      obtain ⟨db₁, hdb₁, hstore⟩ := resolve_of_ok hres
      have hout : (∀ factId, r ≠ .inserted factId) ∧
          ∃ f, s'.facts.get? db.facts.next = some f ∧ f.object = (fact.args e).object ∧
            f.lang = none := by
        rcases resolveFact_cases hres with ⟨hrej', _, _⟩ |
          ⟨c, _, _, hs, ⟨hnil, _⟩ | ⟨q, l, _, _, hr⟩⟩ | ⟨c, q, l, _, _, _, hs, _, _, hr⟩
        · exact absurd hrej' hrej
        · exact absurd hnil hcomp
        · refine ⟨by simp [hr], (fact.args e).newRow x.env c, ?_, rfl, rfl⟩
          rw [hs, get?_settledFacts, if_pos rfl]
        · refine ⟨by simp [hr], competeRow ((fact.args e).newRow x.env c), ?_, rfl, rfl⟩
          rw [hs, get?_contestedFacts, if_pos rfl]
      obtain ⟨hnot, f, hf, hobj, hnone⟩ := hout
      refine ⟨db₁, ?_, ?_⟩
      · rw [IngestRun.write, he]
        dsimp only
        rw [hdb₁]
        dsimp only
        split
        · next factId lang' _ => exact absurd rfl (hnot factId)
        · rfl
      · have hfacts : db₁.facts = s'.facts := by rw [← hstore]
        rw [hfacts]
        exact not_pinned_of_untagged hf hnone (hobj ▸ hlang)

end Steps

/-! ## Two calls -/

/-- A run that nobody comes between, as a sequence of statements. -/
theorem executes_of_alone {services : IngestServices} {C : IngestRun → Tenant → Prop} {x : Outside}
    (hC : ∀ run db, C run db) (n : ℕ) :
    ∀ {run : IngestRun} {db db' : Tenant},
      Runs.alone (IngestRun.next services x) n run db = (db', none) →
      Executes services C run db db' := by
  induction n with
  | zero =>
      intro run db db' h
      cases h
  | succ n ih =>
      intro run db db' h
      rw [Runs.alone] at h
      split at h
      · next s' run' hnext => exact .step x (hC _ _) hnext (ih h)
      · next s' hnext =>
          obtain rfl : s' = db' := (Prod.mk.inj h).1
          exact .last x (hC _ _) hnext

/-- What the detector says of the two statuses below. -/
def scriptLanguage (text : String) : Option String :=
  if text.toList.any (fun c => decide (1024 ≤ c.toNat) && decide (c.toNat ≤ 1279)) then some "ru"
  else some "en"

/-- A service for the examples: every predicate is bitemporal, all texts have one
embedding. -/
def IngestServices.twoLanguages : IngestServices where
  ingest := { IngestConfig.uniform .bitemporal with detectLanguage := scriptLanguage }
  modelId := "gpt-4o-mini"
  toLowerCase := id
  lowercase := id

/-- The status of the entity 0. -/
def statusIs (object : String) : IngestFactDto where
  entityRef := .entity 0
  predicate := "status"
  object := object
  validFrom := 0
  source := { vertical := some "rent" }

def Outside.atZero : Outside where
  env := { now := 0, sourceTrust := [] }
  now := 0

/-- The tenant after calls of `ingestFact` that nobody comes between. -/
def afterStatuses (objects : List String) : Tenant :=
  objects.foldl (fun db object =>
    (Runs.alone (IngestRun.next .twoLanguages .atZero) 4
      (ingestFactRun .twoLanguages (statusIs object)) db).1) {}

/-- The first status of an entity is tagged, and found under its language only. -/
theorem pinned_first_status :
    PinnedToLanguage scriptLanguage (afterStatuses ["churned"]).facts := by
  have hready : ∀ {run : IngestRun} {db : Tenant}, run.lookups ≠ [] ∨ run.writes = [] ∨
      db.facts = .empty ∨ (∀ attempt, run.stage ≠ .ready attempt) →
      InsertsTagged .twoLanguages run db := by
    intro run db h attempt index fact rest e hst hlookups hwrites _
    rcases h with h | h | h | h
    · exact absurd hlookups h
    · rw [h] at hwrites
      cases hwrites
    · refine Or.inr (Or.inr (Or.inl ?_))
      rw [h]
      rfl
    · exact absurd hst (h attempt)
  have hexec : Executes .twoLanguages (InsertsTagged .twoLanguages)
      (ingestFactRun .twoLanguages (statusIs "churned")) {} (afterStatuses ["churned"]) := by
    -- the lookup, the call of the function, the tag, and the end
    refine .step .atZero (hready (Or.inl (by simp [ingestFactRun]))) rfl ?_
    refine .step .atZero (hready (Or.inr (Or.inr (Or.inl rfl)))) (by with_unfolding_all rfl) ?_
    refine .step .atZero (hready (Or.inr (Or.inl rfl))) rfl ?_
    exact .last .atZero (hready (Or.inr (Or.inl rfl))) (by with_unfolding_all rfl)
  exact pinned_of_ingestedBy
    (.call (.fact (statusIs "churned")) (.start rfl) rfl hexec)

/-- The second status competes with the first one. It is Russian, and it is found under
English. -/
theorem competing_status_found_under_english :
    ¬ ∀ (services : IngestServices) (db : Tenant), IngestedBy services (fun _ _ => True) db →
      PinnedToLanguage services.ingest.detectLanguage db.facts := by
  intro h
  have hcall : ∀ {db : Tenant} (object : String), IngestedBy .twoLanguages (fun _ _ => True) db →
      (Runs.alone (IngestRun.next .twoLanguages .atZero) 4
        (ingestFactRun .twoLanguages (statusIs object)) db).2.isNone = true →
      IngestedBy .twoLanguages (fun _ _ => True)
        (Runs.alone (IngestRun.next .twoLanguages .atZero) 4
          (ingestFactRun .twoLanguages (statusIs object)) db).1 := by
    intro db object hdb hdone
    refine .call (.fact (statusIs object)) hdb rfl (executes_of_alone (x := .atZero) (fun _ _ => trivial) 4 ?_)
    exact Prod.ext rfl (Option.isNone_iff_eq_none.mp hdone)
  have hdb : IngestedBy .twoLanguages (fun _ _ => True) (afterStatuses ["churned", "отменил"]) :=
    hcall "отменил" (hcall "churned" (.start rfl) (by decide +kernel)) (by decide +kernel)
  have hrow : ((afterStatuses ["churned", "отменил"]).facts.get? 1).map
      (fun f => (f.object, f.lang, f.status)) = some ("отменил", none, .competing) := by
    decide +kernel
  obtain ⟨f, hf, hcols⟩ := Option.map_eq_some_iff.mp hrow
  obtain ⟨hobj, hlang, _⟩ : f.object = "отменил" ∧ f.lang = none ∧ f.status = .competing := by
    simpa using hcols
  have hru : IngestServices.twoLanguages.ingest.detectLanguage f.object = some "ru" := by
    rw [hobj]
    decide +kernel
  exact not_pinned_of_untagged hf hlang hru (h .twoLanguages _ hdb)

end Brain
