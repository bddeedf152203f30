/-
Whether a predicate keeps its canonical one. What the aliases resolve stays resolved: the
calls only append rows, none of them active. A predicate that is proposed is not remembered as
its own canonical one, and its row stands in the way of an alias, so every later call on it
depends on the context of that call (`stablyCanonical_iff`).
-/
import Brain.Ai.AliasChains
import Mathlib.Data.List.MinMax

set_option autoImplicit false

namespace Brain

/-! ## 1. One more row -/

section Append

variable {rows : List RegistryRow} {row : RegistryRow} {p c : String}

theorem isActive_append (hrow : row.status ≠ .active) :
    IsActive (rows ++ [row]) c ↔ IsActive rows c := by
  constructor
  · rintro ⟨row', hmem, hid, hstatus⟩
    rcases List.mem_append.mp hmem with hmem | hmem
    · exact ⟨row', hmem, hid, hstatus⟩
    · rw [List.mem_singleton.mp hmem] at hstatus
      exact absurd hstatus hrow
  · rintro ⟨row', hmem, hid, hstatus⟩
    exact ⟨row', List.mem_append_left _ hmem, hid, hstatus⟩

theorem aliasOf_append_of_some {a : String} (h : aliasOf rows p = some a) :
    aliasOf (rows ++ [row]) p = some a := by
  obtain ⟨row', hfind, htarget⟩ := Option.bind_eq_some_iff.mp h
  unfold rowOf at hfind
  rw [aliasOf, rowOf, List.find?_append, hfind, Option.some_or, Option.bind_some, htarget]

/-- A row that points nowhere changes no pointer. -/
theorem aliasOf_append_of_end (hrow : row.target = none) :
    aliasOf (rows ++ [row]) = aliasOf rows := by
  funext p
  unfold aliasOf rowOf
  rw [List.find?_append]
  cases hfind : rows.find? (fun row => decide (row.predicateId = p)) with
  | some row' => rw [Option.some_or]
  | none =>
      rw [Option.none_or, Option.bind_none, List.find?_singleton]
      by_cases hid : row.predicateId = p
      · rw [if_pos (by simpa using hid), Option.bind_some, hrow]
      · rw [if_neg (by simpa using hid), Option.bind_none]

theorem aliasOf_append_self (hrow : row.predicateId ∉ rows.map (fun row => row.predicateId)) :
    aliasOf (rows ++ [row]) row.predicateId = row.target := by
  have hnone : rows.find? (fun row' => decide (row'.predicateId = row.predicateId)) = none := by
    rw [List.find?_eq_none]
    intro row' hmem hid
    exact hrow (List.mem_map.mpr ⟨row', hmem, by simpa using hid⟩)
  rw [aliasOf, rowOf, List.find?_append, hnone, Option.none_or, List.find?_singleton,
    if_pos (by simp), Option.bind_some]

/-- What resolves goes on resolving. -/
theorem Resolves.append (h : Resolves rows p c) (hrow : row.status ≠ .active) :
    Resolves (rows ++ [row]) p c := by
  obtain ⟨n, hn, hc, hactive⟩ := h
  have hup : ∀ x y, aliasOf rows x = some y → aliasOf (rows ++ [row]) x = some y :=
    fun _ _ ha => aliasOf_append_of_some ha
  have hc' := Forest.ancestor_mono hup p hc
  exact ⟨n, hn, hc', (isActive_append hrow).mpr hactive⟩

theorem resolves_append_of_end (hrow : row.status ≠ .active) (htarget : row.target = none) :
    Resolves (rows ++ [row]) p c ↔ Resolves rows p c := by
  unfold Resolves
  rw [aliasOf_append_of_end htarget]
  simp only [isActive_append hrow]

end Append

/-! ## 2. The embeddings -/

/-- The embeddings of the active predicates, in the order of their rows. -/
def activeEmbeddings (rows : List RegistryRow) : List (String × List ℚ) :=
  (rows.map deserializeRegistryRow).filterMap embeddingEntry

/-- How similar an embedding is to a context. -/
def CanonicalizeEnv.similarity (env : CanonicalizeEnv) (contextText : String)
    (e : String × List ℚ) : ℚ := env.cosineSimilarity (env.embed contextText) e.2

/-- The first of the active predicates that are closest to a context. -/
def closest (env : CanonicalizeEnv) (rows : List RegistryRow) (contextText : String) :
    Option (String × List ℚ) := (activeEmbeddings rows).argmax (env.similarity contextText)

/-- Some active predicate is within the threshold of the context. -/
def WithinThreshold (env : CanonicalizeEnv) (rows : List RegistryRow) (contextText : String) :
    Prop :=
  ∃ e ∈ activeEmbeddings rows, env.canonicalizeThreshold ≤ env.similarity contextText e

section Embeddings

variable {env : CanonicalizeEnv} {rows : List RegistryRow} {row : RegistryRow}
  {contextText : String} {e : String × List ℚ}

theorem embeddingEntry_eq_some (h : embeddingEntry row = some e) :
    row.status = .active ∧ e.1 = row.predicateId := by
  unfold embeddingEntry at h
  by_cases hstatus : row.status = .active
  · rw [if_pos hstatus] at h
    obtain ⟨emb, _, rfl⟩ := Option.map_eq_some_iff.mp h
    exact ⟨hstatus, rfl⟩
  · rw [if_neg hstatus] at h
    cases h

theorem isActive_of_mem (h : e ∈ activeEmbeddings rows) : IsActive rows e.1 := by
  obtain ⟨d, hd, hentry⟩ := List.mem_filterMap.mp h
  obtain ⟨row, hrow, rfl⟩ := List.mem_map.mp hd
  obtain ⟨hstatus, hid⟩ := embeddingEntry_eq_some hentry
  exact ⟨row, hrow, hid.symm, hstatus⟩

theorem activeEmbeddings_append (hrow : row.status ≠ .active) :
    activeEmbeddings (rows ++ [row]) = activeEmbeddings rows := by
  have hnone : embeddingEntry (deserializeRegistryRow row) = none := if_neg hrow
  rw [activeEmbeddings, List.map_append, List.filterMap_append, List.map_singleton,
    List.filterMap_cons_none hnone, List.filterMap_nil, List.append_nil]
  rfl

theorem entries_embeddings (h : UniqueIds rows) :
    (loadSnapshot rows).embeddings.entries = activeEmbeddings rows := by
  refine InsertionMap.entries_ofList ?_
  refine List.Nodup.sublist (InsertionMap.map_fst_filterMap_sublist
    (fun _ _ he => (embeddingEntry_eq_some he).2) _) ?_
  rw [List.map_map]
  exact h

/-- The loop over the embeddings keeps the first one that is closest. -/
theorem foldl_betterMatch (l : List (String × List ℚ)) :
    l.foldl (betterMatch env (env.embed contextText)) none
      = (l.argmax (env.similarity contextText)).map
          (fun e => (e.1, env.similarity contextText e)) := by
  induction l using List.reverseRecOn with
  | nil => rfl
  | append_singleton l e ih =>
      rw [List.foldl_append, ih, List.foldl_cons, List.foldl_nil, List.argmax_concat]
      cases l.argmax (env.similarity contextText) with
      | none => rfl
      | some b =>
          by_cases hlt : env.similarity contextText b < env.similarity contextText e
          · simp only [if_pos hlt]
            exact if_pos hlt
          · simp only [if_neg hlt]
            exact if_neg hlt

/-- **The similarity search** finds the closest one. -/
theorem bestMatch_eq (h : UniqueIds rows) :
    bestMatch env (loadSnapshot rows) (some (env.embed contextText))
      = (closest env rows contextText).map (fun e => (e.1, env.similarity contextText e)) := by
  rw [bestMatch, entries_embeddings h, foldl_betterMatch]
  rfl

theorem withinThreshold_iff : WithinThreshold env rows contextText ↔
    ∃ e, closest env rows contextText = some e ∧
      env.canonicalizeThreshold ≤ env.similarity contextText e := by
  constructor
  · rintro ⟨e, he, hreach⟩
    cases hclosest : closest env rows contextText with
    | none =>
        rw [List.argmax_eq_none.mp hclosest] at he
        cases he
    | some b => exact ⟨b, rfl, hreach.trans (List.le_of_mem_argmax he hclosest)⟩
  · rintro ⟨e, hclosest, hreach⟩
    exact ⟨e, List.argmax_mem hclosest, hreach⟩

theorem isActive_of_closest (h : closest env rows contextText = some e) : IsActive rows e.1 :=
  isActive_of_mem (List.argmax_mem h)

end Embeddings

/-! ## 3. One call -/

/-- What a call that inserts a row leaves. -/
def withRow (rows : List RegistryRow) (stored : Bool) (row : RegistryRow) : List RegistryRow :=
  if stored = true ∧ row.predicateId ∉ rows.map (fun row => row.predicateId)
    then rows ++ [row] else rows

section Call

variable {env : CanonicalizeEnv} {call : CanonicalizeCall} {r : Registry} {p c : String}

theorem target_aliasedRow (snapshot : CanonicalSnapshot) (q : Option (List ℚ)) :
    (aliasedRow snapshot p c q).target = (some c).filter (fun a => !a.isEmpty) := rfl

theorem rows_create_getSnapshot (row : RegistryRow) :
    ((r.getSnapshot call.expired).2.create call.stored row).rows
      = withRow r.rows call.stored row := by
  rw [rows_create, rows_getSnapshot, withRow]

/-- A novel predicate whose context is close enough to an active predicate. -/
theorem canonicalize_of_closest (call : CanonicalizeCall) {e : String × List ℚ}
    (hnone : ∀ c, ¬ Resolves r.rows call.predicate c) (hembedded : call.embedded = true)
    (hclosest : closest env r.rows call.contextText = some e)
    (hreach : env.canonicalizeThreshold ≤ env.similarity call.contextText e) :
    (canonicalize env call r).1.canonicalId = e.1 ∧
      (canonicalize env call r).2.rows = withRow r.rows call.stored
        (aliasedRow (loadSnapshot r.rows) call.predicate e.1 (call.queryEmb env)) := by
  have hquery : call.queryEmb env = some (env.embed call.contextText) := if_pos hembedded
  have hbest : bestMatch env (loadSnapshot r.rows) (call.queryEmb env)
      = some (e.1, env.similarity call.contextText e) := by
    rw [hquery, bestMatch_eq r.unique, hclosest, Option.map_some]
  rw [canonicalize_of_unresolved hnone]
  rcases decideNovel_cases env call (loadSnapshot r.rows) (r.getSnapshot call.expired).2 with
    ⟨best, hb, _, heq⟩ | ⟨hfar, _, _⟩
  · rw [hbest, Option.some_inj] at hb
    rw [heq, ← hb]
    exact ⟨rfl, rows_create_getSnapshot _⟩
  · exact absurd (hfar _ hbest) (not_lt.mpr hreach)

/-- A novel predicate whose context is close to none, or is not embedded. -/
theorem canonicalize_of_far (call : CanonicalizeCall)
    (hnone : ∀ c, ¬ Resolves r.rows call.predicate c)
    (hfar : call.embedded = true → ¬ WithinThreshold env r.rows call.contextText) :
    (canonicalize env call r).1.canonicalId = call.predicate ∧
      (canonicalize env call r).2.rows = withRow r.rows call.stored
        (proposedRow call.predicate (call.queryEmb env)) := by
  rw [canonicalize_of_unresolved hnone]
  rcases decideNovel_cases env call (loadSnapshot r.rows) (r.getSnapshot call.expired).2 with
    ⟨best, hb, hreach, _⟩ | ⟨_, reported, heq⟩
  · exfalso
    unfold CanonicalizeCall.queryEmb at hb
    cases hembedded : call.embedded with
    | false =>
        rw [hembedded, if_neg Bool.false_ne_true] at hb
        cases hb
    | true =>
        rw [hembedded, if_pos rfl, bestMatch_eq r.unique] at hb
        obtain ⟨e, he, rfl⟩ := Option.map_eq_some_iff.mp hb
        exact hfar hembedded (withinThreshold_iff.mpr ⟨e, he, hreach⟩)
  · rw [heq]
    exact ⟨rfl, rows_create_getSnapshot _⟩

/-- **What a call does**: the predicate resolves, or its context is close enough to an active
one, or neither. -/
theorem canonicalize_cases (env : CanonicalizeEnv) (call : CanonicalizeCall) (r : Registry) :
    (∃ c, Resolves r.rows call.predicate c) ∨
    ((∀ c, ¬ Resolves r.rows call.predicate c) ∧ call.embedded = true ∧
      ∃ e, closest env r.rows call.contextText = some e ∧
        env.canonicalizeThreshold ≤ env.similarity call.contextText e) ∨
    ((∀ c, ¬ Resolves r.rows call.predicate c) ∧
      (call.embedded = true → ¬ WithinThreshold env r.rows call.contextText)) := by
  by_cases hresolves : ∃ c, Resolves r.rows call.predicate c
  · exact Or.inl hresolves
  · have hnone := not_exists.mp hresolves
    by_cases hnear : call.embedded = true ∧ WithinThreshold env r.rows call.contextText
    · exact Or.inr (Or.inl ⟨hnone, hnear.1, withinThreshold_iff.mp hnear.2⟩)
    · exact Or.inr (Or.inr ⟨hnone, fun he hw => hnear ⟨he, hw⟩⟩)

theorem withRow_cases (rows : List RegistryRow) (stored : Bool) {row : RegistryRow}
    (hrow : row.status ≠ .active) : withRow rows stored row = rows ∨
      ∃ new : RegistryRow, new.status ≠ .active ∧ withRow rows stored row = rows ++ [new] := by
  unfold withRow
  split
  · exact Or.inr ⟨row, hrow, rfl⟩
  · exact Or.inl rfl

/-- **What a call does to the rows**: nothing, or it appends one that is not active. -/
theorem rows_canonicalize (env : CanonicalizeEnv) (call : CanonicalizeCall) (r : Registry) :
    (canonicalize env call r).2.rows = r.rows ∨
      ∃ new : RegistryRow, new.status ≠ .active ∧
        (canonicalize env call r).2.rows = r.rows ++ [new] := by
  rcases canonicalize_cases env call r with
    ⟨c, hc⟩ | ⟨hnone, hembedded, e, he, hreach⟩ | ⟨hnone, hfar⟩
  · exact Or.inl (canonicalize_of_resolves env hc).2
  · rw [(canonicalize_of_closest call hnone hembedded he hreach).2]
    exact withRow_cases _ _ (fun h => by cases h)
  · rw [(canonicalize_of_far call hnone hfar).2]
    exact withRow_cases _ _ (fun h => by cases h)

/-- What an inactive row more leaves true, a call leaves true. -/
theorem canonicalize_induct {P : List RegistryRow → Prop}
    (happend : ∀ rows row, row.status ≠ .active → P rows → P (rows ++ [row]))
    (call : CanonicalizeCall) (h : P r.rows) : P (canonicalize env call r).2.rows := by
  rcases rows_canonicalize env call r with hsame | ⟨row, hrow, happended⟩
  · rw [hsame]
    exact h
  · rw [happended]
    exact happend r.rows row hrow h

/-- And so do many calls. -/
theorem canonicalizeAll_induct {P : List RegistryRow → Prop}
    (happend : ∀ rows row, row.status ≠ .active → P rows → P (rows ++ [row]))
    (calls : List CanonicalizeCall) :
    ∀ {r : Registry}, P r.rows → P (canonicalizeAll env calls r).rows := by
  induction calls with
  | nil => exact fun h => h
  | cons call calls ih => exact fun h => ih (canonicalize_induct happend call h)

end Call

/-! ## 4. What calls keep -/

/-- What resolves goes on resolving, and the embeddings are the same. -/
structure Extends (rows rows' : List RegistryRow) : Prop where
  resolves : ∀ p c, Resolves rows p c → Resolves rows' p c
  embeddings : activeEmbeddings rows' = activeEmbeddings rows

theorem Extends.refl (rows : List RegistryRow) : Extends rows rows := ⟨fun _ _ h => h, rfl⟩

theorem Extends.trans {rows rows' rows'' : List RegistryRow} (h : Extends rows rows')
    (h' : Extends rows' rows'') : Extends rows rows'' :=
  ⟨fun p c hc => h'.resolves p c (h.resolves p c hc), h'.embeddings.trans h.embeddings⟩

section Run

variable {env : CanonicalizeEnv} {call : CanonicalizeCall} {r : Registry} {p c : String}
  {rows rows' : List RegistryRow} {row : RegistryRow}

theorem Extends.append (h : Extends rows rows') (hrow : row.status ≠ .active) :
    Extends rows (rows' ++ [row]) :=
  h.trans ⟨fun _ _ h => h.append hrow, activeEmbeddings_append hrow⟩

theorem resolves_withRow_of_end (stored : Bool) (hrow : row.status ≠ .active)
    (htarget : row.target = none) :
    Resolves (withRow rows stored row) p c ↔ Resolves rows p c := by
  unfold withRow
  split
  · exact resolves_append_of_end hrow htarget
  · exact Iff.rfl

theorem withinThreshold_congr {contextText : String} (h : Extends rows rows') :
    WithinThreshold env rows' contextText ↔ WithinThreshold env rows contextText := by
  unfold WithinThreshold
  rw [h.embeddings]

/-- One call keeps what resolves, whatever its predicate is. -/
theorem canonicalize_extends (env : CanonicalizeEnv) (call : CanonicalizeCall) (r : Registry) :
    Extends r.rows (canonicalize env call r).2.rows :=
  canonicalize_induct (fun _ _ hrow h => h.append hrow) call (Extends.refl r.rows)

/-- And so do many. -/
theorem canonicalizeAll_extends (env : CanonicalizeEnv) (calls : List CanonicalizeCall)
    (r : Registry) : Extends r.rows (canonicalizeAll env calls r).rows :=
  canonicalizeAll_induct (fun _ _ hrow h => h.append hrow) calls (Extends.refl r.rows)

/-- What resolves is answered with what it resolves to, whatever calls come before. -/
theorem canonicalId_of_resolves (h : Resolves r.rows call.predicate c)
    (calls : List CanonicalizeCall) :
    (canonicalize env call (canonicalizeAll env calls r)).1.canonicalId = c := by
  have hlater := (canonicalizeAll_extends env calls r).resolves _ _ h
  rw [(canonicalize_of_resolves env hlater).1]
  rfl

/-- No text is close enough to an active predicate, and this one does not resolve. -/
structure Unreached (env : CanonicalizeEnv) (rows : List RegistryRow) (p : String) : Prop where
  far : ∀ contextText, ¬ WithinThreshold env rows contextText
  unresolved : ∀ c, ¬ Resolves rows p c

/-- Where no text is close enough, a call proposes at most. -/
theorem canonicalize_unreached (call : CanonicalizeCall) (h : Unreached env r.rows p) :
    Unreached env (canonicalize env call r).2.rows p := by
  have hext := canonicalize_extends env call r
  refine ⟨fun contextText hw => h.far _ ((withinThreshold_congr hext).mp hw), ?_⟩
  intro c hc
  rcases canonicalize_cases env call r with ⟨d, hd⟩ | ⟨hnone, _, e, he, hreach⟩ | ⟨hnone, hfar⟩
  · rw [(canonicalize_of_resolves env hd).2] at hc
    exact h.unresolved c hc
  · exact h.far _ (withinThreshold_iff.mpr ⟨e, he, hreach⟩)
  · rw [(canonicalize_of_far call hnone hfar).2] at hc
    exact h.unresolved c ((resolves_withRow_of_end _ (fun h => by cases h) rfl).mp hc)

theorem canonicalizeAll_unreached (calls : List CanonicalizeCall) : ∀ {r : Registry},
    Unreached env r.rows p → Unreached env (canonicalizeAll env calls r).rows p := by
  induction calls with
  | nil => exact fun h => h
  | cons call calls ih => exact fun h => ih (canonicalize_unreached call h)

theorem canonicalId_of_unreached (h : Unreached env r.rows call.predicate) :
    (canonicalize env call r).1.canonicalId = call.predicate :=
  (canonicalize_of_far call h.unresolved (fun _ => h.far _)).1

end Run

/-! ## 5. Stability -/

/-- Every later call on the predicate of `call` answers with the same canonical one, whatever
its context is, whatever is called in between, and whatever of it fails. -/
def StablyCanonical (env : CanonicalizeEnv) (call : CanonicalizeCall) (r : Registry) : Prop :=
  ∀ (calls : List CanonicalizeCall) (later : CanonicalizeCall), later.predicate = call.predicate →
    (canonicalize env later (canonicalizeAll env calls (canonicalize env call r).2)).1.canonicalId
      = (canonicalize env call r).1.canonicalId

/-- The canonical predicate is settled: it is known before the call, or the call records it, or
no context can change it. -/
inductive CanonicalSettled (env : CanonicalizeEnv) (call : CanonicalizeCall)
    (rows : List RegistryRow) : Prop where
  | known (c : String) (h : Resolves rows call.predicate c)
  | recorded (e : String × List ℚ)
      (new : call.predicate ∉ rows.map (fun row => row.predicateId))
      (stored : call.stored = true) (embedded : call.embedded = true)
      (isClosest : closest env rows call.contextText = some e)
      (near : env.canonicalizeThreshold ≤ env.similarity call.contextText e) (named : e.1 ≠ "")
  | unreachable (far : ∀ contextText, ¬ WithinThreshold env rows contextText)

section Stability

variable {env : CanonicalizeEnv} {call : CanonicalizeCall} {r : Registry} {p c : String}
  {rows : List RegistryRow}

theorem not_resolves_of_not_mem (h : p ∉ rows.map (fun row => row.predicateId)) :
    ¬ Resolves rows p c := by
  rintro ⟨n, _, hn, hactive⟩
  exact h (mem_of_ancestor hn hactive)

/-- A pointer to an active predicate that is recorded is followed. -/
theorem resolves_append_self {row : RegistryRow} (hrow : row.status ≠ .active)
    (hnew : row.predicateId ∉ rows.map (fun row => row.predicateId))
    (htarget : row.target = some c) (hactive : IsActive rows c) :
    Resolves (rows ++ [row]) row.predicateId c := by
  refine ⟨1, by decide, ?_, (isActive_append hrow).mpr hactive⟩
  rw [Forest.ancestor_succ_of_some ((aliasOf_append_self hnew).trans htarget), Forest.ancestor_zero]

theorem stablyCanonical_of_resolves (h : Resolves r.rows call.predicate c) :
    StablyCanonical env call r := by
  intro calls later hlater
  rw [(canonicalize_of_resolves env h).1]
  have hafter := (canonicalize_extends env call r).resolves _ _ h
  rw [← hlater] at hafter
  exact canonicalId_of_resolves hafter calls

theorem CanonicalSettled.stablyCanonical (h : CanonicalSettled env call r.rows) :
    StablyCanonical env call r := by
  intro calls later hlater
  cases h with
  | known c hc => exact stablyCanonical_of_resolves hc calls later hlater
  | recorded e new stored embedded isClosest near named =>
      have hnone : ∀ c, ¬ Resolves r.rows call.predicate c := fun _ => not_resolves_of_not_mem new
      obtain ⟨hid, hrows⟩ := canonicalize_of_closest call hnone embedded isClosest near
      rw [hid]
      apply canonicalId_of_resolves
      rw [hrows, withRow, if_pos ⟨stored, new⟩, hlater]
      refine resolves_append_self (fun h => by cases h) new ?_ (isActive_of_closest isClosest)
      rw [target_aliasedRow, Option.filter_some, if_pos]
      simp [named]
  | unreachable far =>
      by_cases hresolves : ∃ c, Resolves r.rows call.predicate c
      · obtain ⟨c, hc⟩ := hresolves
        exact stablyCanonical_of_resolves hc calls later hlater
      · have hunreached : Unreached env r.rows call.predicate := ⟨far, not_exists.mp hresolves⟩
        rw [canonicalId_of_unreached hunreached, ← hlater]
        apply canonicalId_of_unreached
        rw [hlater]
        exact canonicalizeAll_unreached calls (canonicalize_unreached call hunreached)

/-- A call that neither knows nor records leaves the predicate as it was. -/
theorem not_resolves_of_not_settled (h : ¬ CanonicalSettled env call r.rows) :
    ∀ c, ¬ Resolves (canonicalize env call r).2.rows call.predicate c := by
  intro c hc
  rcases canonicalize_cases env call r with
    ⟨d, hd⟩ | ⟨hnone, hembedded, e, he, hreach⟩ | ⟨hnone, hfar⟩
  · exact h (.known d hd)
  · rw [(canonicalize_of_closest call hnone hembedded he hreach).2] at hc
    by_cases hrecords : call.stored = true ∧
        call.predicate ∉ r.rows.map (fun row => row.predicateId)
    · -- the row is there, so it must be the empty string that it points at
      have hempty : e.1 = "" := by
        by_contra hnamed
        exact h (.recorded e hrecords.2 hrecords.1 hembedded he hreach hnamed)
      refine hnone c ((resolves_withRow_of_end _ (fun h => by cases h) ?_).mp hc)
      rw [target_aliasedRow, hempty]
      rfl
    · have hsame : withRow r.rows call.stored (aliasedRow (loadSnapshot r.rows) call.predicate e.1
          (call.queryEmb env)) = r.rows := if_neg hrecords
      rw [hsame] at hc
      exact hnone c hc
  · rw [(canonicalize_of_far call hnone hfar).2] at hc
    exact hnone c ((resolves_withRow_of_end _ (fun h => by cases h) rfl).mp hc)

/-- A context that is close enough gives an unresolved predicate an active one. -/
theorem exists_call_on_active {contextText : String} (hnone : ∀ c, ¬ Resolves r.rows p c)
    (hnear : WithinThreshold env r.rows contextText) :
    ∃ later : CanonicalizeCall, later.predicate = p ∧
      IsActive r.rows (canonicalize env later r).1.canonicalId := by
  obtain ⟨e, he, hreach⟩ := withinThreshold_iff.mp hnear
  let later : CanonicalizeCall := { predicate := p, contextText := contextText }
  refine ⟨later, rfl, ?_⟩
  rw [(canonicalize_of_closest later hnone rfl he hreach).1]
  exact isActive_of_closest he

/-- Without an embedding it is its own canonical one. -/
theorem exists_call_on_itself (env : CanonicalizeEnv) (hnone : ∀ c, ¬ Resolves r.rows p c) :
    ∃ later : CanonicalizeCall, later.predicate = p ∧
      (canonicalize env later r).1.canonicalId = p := by
  let later : CanonicalizeCall := { predicate := p, contextText := p, embedded := false }
  exact ⟨later, rfl, (canonicalize_of_far later hnone (fun h => by cases h)).1⟩

theorem canonicalizeAll_nil : canonicalizeAll env [] r = r := rfl

/-- **The canonical predicate of a call is kept by all later ones** if and only if it is
settled. -/
theorem stablyCanonical_iff (env : CanonicalizeEnv) (call : CanonicalizeCall) (r : Registry) :
    StablyCanonical env call r ↔ CanonicalSettled env call r.rows := by
  refine ⟨fun hstable => ?_, CanonicalSettled.stablyCanonical⟩
  by_contra hnot
  -- some text is close enough: with it a later call has another answer than without an embedding
  have hreached : ∃ contextText, WithinThreshold env r.rows contextText := by
    by_contra hfar
    exact hnot (.unreachable (not_exists.mp hfar))
  obtain ⟨contextText, hwithin⟩ := hreached
  have hnone := not_resolves_of_not_settled hnot
  have hwithin' := (withinThreshold_congr (canonicalize_extends env call r)).mpr hwithin
  obtain ⟨near, hnear, hactive⟩ := exists_call_on_active hnone hwithin'
  obtain ⟨lost, hlost, hid⟩ := exists_call_on_itself env hnone
  have hsame := (hstable [] near hnear).trans (hstable [] lost hlost).symm
  rw [canonicalizeAll_nil, hid] at hsame
  rw [hsame] at hactive
  exact hnone _ (resolves_self hactive)

/-- A predicate that is proposed for one context is aliased for the next, and is itself again
for the first: the row of the proposal keeps the alias from being recorded. -/
theorem proposal_bars_alias :
    let r : Registry :=
      { rows :=
          [{ DEFAULT_FALLBACK with predicateId := "favourite_food", embedding := some [1, 0] }]
        unique := List.nodup_singleton _
        current := fun _ h => by cases h }
    let chess : CanonicalizeCall := { predicate := "enjoys", contextText := "enjoys: chess" }
    let soup : CanonicalizeCall := { predicate := "enjoys", contextText := "enjoys: soup" }
    let answer := fun call calls =>
      (canonicalize plainCanonicalizeEnv call
        (canonicalizeAll plainCanonicalizeEnv calls r)).1.canonicalId
    answer chess [] = "enjoys" ∧ answer soup [chess] = "favourite_food" ∧
      answer chess [chess, soup] = "enjoys" ∧ ¬ StablyCanonical plainCanonicalizeEnv chess r := by
  intro r chess soup answer
  have hsoup : answer soup [chess] = "favourite_food" := by decide +kernel
  refine ⟨by decide +kernel, hsoup, by decide +kernel, ?_⟩
  intro hstable
  have hsame : answer soup [chess] = "enjoys" :=
    (hstable [] soup rfl).trans (by decide +kernel)
  rw [hsoup] at hsame
  revert hsame
  decide

end Stability

end Brain
