/-
The key of a subject in `entity_external_ref`: which subjects have a key of their own.

`externalRefKey` writes every dot as a double underscore and joins its two parts
with a double underscore as well, and it escapes neither. A key can be read back
when the join is the only double underscore in it, and only then: any other one
could just as well be the join.
-/
import Brain.Ingest.IngestService

set_option autoImplicit false

namespace Brain

/-! ## Two parts joined by a doubled letter -/

section Joined

variable {α : Type*} {u : α}

/-- `a` and `b` joined by `uu` can be parted again: `uu` is not in either of them, and
neither touches the join with a `u`. -/
def Separable (u : α) (a b : List α) : Prop :=
  ¬ [u, u] <:+: a ∧ ¬ [u] <:+ a ∧ ¬ [u, u] <:+: b ∧ ¬ [u] <+: b

theorem Separable.eq_of_join_eq {a b a' b' : List α} (h : Separable u a b)
    (heq : a' ++ [u, u] ++ b' = a ++ [u, u] ++ b) : a' = a ∧ b' = b := by
  obtain ⟨hina, henda, hinb, hstartb⟩ := h
  rw [List.append_assoc, List.append_assoc, List.append_eq_append_iff] at heq
  rcases heq with ⟨c, rfl, hc⟩ | ⟨c, rfl, hc⟩
  · -- the other join lies further left, in `a`
    match c with
    | [] => simpa using hc
    | [x] =>
        obtain ⟨rfl, -⟩ : u = x ∧ u :: b' = [u, u] ++ b := by simpa using hc
        exact absurd (List.suffix_append a' [u]) henda
    | x :: y :: c =>
        obtain ⟨rfl, rfl, -⟩ : u = x ∧ u = y ∧ b' = c ++ ([u, u] ++ b) := by simpa using hc
        exact absurd ⟨a', c, by simp⟩ hina
  · -- the other join lies further right, in `b`
    match c with
    | [] => simpa using hc.symm
    | [x] =>
        obtain ⟨-, rfl⟩ : u = x ∧ b = [u] ++ b' := by simpa using hc
        exact absurd (List.prefix_append [u] b') hstartb
    | x :: y :: c =>
        obtain ⟨-, -, rfl⟩ : u = x ∧ u = y ∧ b = c ++ ([u, u] ++ b') := by simpa using hc
        exact absurd ⟨c, b', by simp⟩ hinb

/-- Where they cannot, there is another way to part them. -/
theorem exists_join_eq_of_not_separable {a b : List α} (h : ¬ Separable u a b) :
    ∃ a' b', a' ++ [u, u] ++ b' = a ++ [u, u] ++ b ∧ (a' ≠ a ∨ b' ≠ b) := by
  have hlen : ∀ {a a' : List α}, a'.length ≠ a.length → a' ≠ a :=
    fun hne heq => hne (congrArg List.length heq)
  simp only [Separable, not_and_or, not_not] at h
  rcases h with ⟨p, q, rfl⟩ | ⟨p, rfl⟩ | ⟨p, q, rfl⟩ | ⟨q, rfl⟩
  · exact ⟨p, q ++ [u, u] ++ b, by simp, Or.inl (hlen (by simp))⟩
  · exact ⟨p, [u] ++ b, by simp, Or.inl (hlen (by simp))⟩
  · exact ⟨a ++ [u, u] ++ p, q, by simp, Or.inl (hlen (by simp))⟩
  · exact ⟨a ++ [u], q, by simp, Or.inl (hlen (by simp))⟩

end Joined

/-! ## The key -/

/-- `safe`, on the characters. -/
def safeChars (s : List Char) : List Char :=
  s.flatMap (fun c => if c = '.' then ['_', '_'] else [c])

theorem externalRefKey_toList (vertical id : String) :
    (externalRefKey vertical id).toList
      = safeChars vertical.toList ++ ['_', '_'] ++ safeChars id.toList := by
  simp [externalRefKey, safeChars]

theorem externalRefKey_eq_iff {v i v' i' : String} :
    externalRefKey v' i' = externalRefKey v i ↔
      safeChars v'.toList ++ ['_', '_'] ++ safeChars i'.toList
        = safeChars v.toList ++ ['_', '_'] ++ safeChars i.toList := by
  rw [← String.toList_inj, externalRefKey_toList, externalRefKey_toList]

theorem safeChars_of_not_mem {s : List Char} (h : '.' ∉ s) : safeChars s = s := by
  induction s with
  | nil => rfl
  | cons c s ih =>
      obtain ⟨hc, hs⟩ := not_or.mp (List.mem_cons.not.mp h)
      have hrest := ih hs
      rw [safeChars] at hrest ⊢
      rw [List.flatMap_cons, if_neg (Ne.symm hc), hrest, List.singleton_append]

/-- No dot is left over. -/
theorem not_mem_safeChars (s : List Char) : '.' ∉ safeChars s := by
  simp only [safeChars, List.mem_flatMap, not_exists, not_and]
  intro c _ h
  by_cases hc : c = '.'
  · simp [hc] at h
  · rw [if_neg hc, List.mem_singleton] at h
    exact hc h.symm

/-- A dot leaves a double underscore behind. -/
theorem infix_safeChars_of_mem {s : List Char} (h : '.' ∈ s) : ['_', '_'] <:+: safeChars s := by
  obtain ⟨p, q, rfl⟩ := List.append_of_mem h
  exact ⟨safeChars p, safeChars q, by simp [safeChars]⟩

/-- The parts of a key can be read back from it: no dot and no double underscore in
either of them, and no underscore next to the join. -/
def KeyRecoverable (vertical id : String) : Prop :=
  ('.' ∉ vertical.toList ∧ '.' ∉ id.toList) ∧ Separable '_' vertical.toList id.toList

theorem safeChars_eq_of_not_isInfix {s t : List Char} (heq : safeChars s = t)
    (h : ¬ ['_', '_'] <:+: t) : s = t := by
  have hdot : '.' ∉ s := fun hmem => h (heq ▸ infix_safeChars_of_mem hmem)
  rw [← heq, safeChars_of_not_mem hdot]

/-- **Exactly which subjects have a key of their own**: a subject shares its key with
no other one if and only if the key can be read back. -/
theorem externalRefKey_unique_iff (v i : String) :
    (∀ v' i', externalRefKey v' i' = externalRefKey v i → v' = v ∧ i' = i) ↔
      KeyRecoverable v i := by
  simp only [externalRefKey_eq_iff]
  constructor
  · intro huniq
    have hdot : '.' ∉ v.toList ∧ '.' ∉ i.toList := by
      -- a part with a dot shares its key with the part that has the underscores already
      have hsafe : ∀ s : String, safeChars (String.ofList (safeChars s.toList)).toList
          = safeChars s.toList := by
        intro s
        rw [String.toList_ofList]
        exact safeChars_of_not_mem (not_mem_safeChars _)
      have hfix : ∀ {s : String}, String.ofList (safeChars s.toList) = s → '.' ∉ s.toList := by
        intro s hs
        rw [← hs, String.toList_ofList]
        exact not_mem_safeChars _
      have hboth := huniq (String.ofList (safeChars v.toList)) (String.ofList (safeChars i.toList))
        (by rw [hsafe, hsafe])
      exact ⟨hfix hboth.1, hfix hboth.2⟩
    refine ⟨hdot, ?_⟩
    by_contra hsep
    obtain ⟨a, b, heq, hne⟩ := exists_join_eq_of_not_separable hsep
    have hmem : ∀ c ∈ a ++ ['_', '_'] ++ b, c ≠ '.' := by
      rw [heq]
      rintro c hc rfl
      simp only [List.mem_append] at hc
      rcases hc with (hc | hc) | hc
      · exact hdot.1 hc
      · simp at hc
      · exact hdot.2 hc
    have ha : safeChars a = a := safeChars_of_not_mem (fun h => hmem '.' (by simp [h]) rfl)
    have hb : safeChars b = b := safeChars_of_not_mem (fun h => hmem '.' (by simp [h]) rfl)
    obtain ⟨hv, hi⟩ := huniq (String.ofList a) (String.ofList b) (by
      rw [String.toList_ofList, String.toList_ofList, ha, hb, safeChars_of_not_mem hdot.1,
        safeChars_of_not_mem hdot.2, heq])
    rcases hne with hne | hne
    · exact hne (by rw [← hv, String.toList_ofList])
    · exact hne (by rw [← hi, String.toList_ofList])
  · rintro ⟨⟨hv, hi⟩, hsep⟩ v' i' heq
    rw [safeChars_of_not_mem hv, safeChars_of_not_mem hi] at heq
    obtain ⟨hv', hi'⟩ := hsep.eq_of_join_eq heq
    rw [← String.toList_inj, ← String.toList_inj]
    exact ⟨safeChars_eq_of_not_isInfix hv' hsep.1, safeChars_eq_of_not_isInfix hi' hsep.2.2.1⟩

/-- The subjects `rent.uk` / `7` and `rent` / `uk__7` have one key, and whichever of
them comes second is resolved to the entity of the first. -/
theorem externalRefKey_shared :
    ¬ (∀ v i v' i', externalRefKey v' i' = externalRefKey v i → v' = v ∧ i' = i) ∧
      externalRefKey "rent.uk" "7" = externalRefKey "rent" "uk__7" ∧
      (upsertEntityByExternalRef
          (upsertEntityByExternalRef .empty (externalRefKey "rent.uk" "7")
            { type := "other", canonicalName := "7" }).2
          (externalRefKey "rent" "uk__7") { type := "other", canonicalName := "uk__7" }).1
        = (upsertEntityByExternalRef .empty (externalRefKey "rent.uk" "7")
            { type := "other", canonicalName := "7" }).1 := by
  have hkey : externalRefKey "rent.uk" "7" = externalRefKey "rent" "uk__7" := by decide +kernel
  refine ⟨fun h => ?_, hkey, ?_⟩
  · exact absurd (h _ _ _ _ hkey).1 (by decide)
  · decide +kernel

end Brain
