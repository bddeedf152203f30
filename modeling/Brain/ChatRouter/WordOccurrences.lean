/-
What the two local scanners find: `extractMentionsLocally` and `extractCollapseEditsLocally`
against the words of a message.

Each scanner searches every needle in the lower-cased message and goes on behind what it has
found. The places in their order (`nameSpots`, `patternSpots`) are all that it takes from, the
first come first served (`extractMentionsLocally_eq`, `extractCollapseEditsLocally_eq`). So a
scanner is exact if no spot is wrong and no word is passed over, as far as the spots without a
rival before them decide it; and where one of them is wrong, or a word has no spot at all, it is
not (`localScans_find_words`).

A spot can be wrong because the search for the full name does not look at what is next to it,
because lower-casing has moved it, or because the letter next to it takes two units. A word can
be passed over because the search goes on behind a place that it has rejected.
-/
import Brain.ChatRouter.RouteCache
import Brain.Lib.Greedy

set_option autoImplicit false

namespace Brain.ChatRouter

open Splice (slice)

/-! ## 1. Words -/

section Words

variable (libs : RouterLibs) (isWordPair : UInt16 → UInt16 → Bool) (message : Text)

/-- The text ends in a letter or a digit. `isWordPair` says whether a surrogate pair is one. -/
def endsInWord (s : Text) : Bool :=
  match s.reverse with
  | [] => false
  | [u] => libs.isWordChar u
  | low :: high :: _ => libs.isWordChar low || isWordPair high low

/-- The text starts with a letter or a digit. -/
def startsWithWord : Text → Bool
  | [] => false
  | [u] => libs.isWordChar u
  | high :: low :: _ => libs.isWordChar high || isWordPair high low

/-- There is no letter or digit directly before the piece, and none directly behind it. -/
def WordBounded (start stop : ℕ) : Prop :=
  endsInWord libs isWordPair (message.take start) = false ∧
    startsWithWord libs isWordPair (message.drop stop) = false

instance (start stop : ℕ) : Decidable (WordBounded libs isWordPair message start stop) :=
  inferInstanceAs (Decidable (_ ∧ _))

/-- The piece is the needle, up to case, and a word. -/
structure WordAt (needle : Text) (start stop : ℕ) : Prop where
  nonempty : start < stop
  inside : stop ≤ message.length
  text : libs.toLowerCase (slice message start stop) = needle
  bounded : WordBounded libs isWordPair message start stop

end Words

/-! ## 2. A scanner -/

/-- The pieces have something in common. -/
def Span.clashes (a b : Span) : Bool := !(decide (a.stop ≤ b.start) || decide (b.stop ≤ a.start))

/-- What a scanner looks for, and where. -/
structure Scan (β : Type) where
  /-- The places that the loops come to and do not reject, in their order. -/
  spots : List β
  spanOf : β → Span
  /-- The needles that `b` may stand for. -/
  NeedleOf : β → Text → Prop
  Needle : Text → Prop

namespace Scan

section Exact

variable {β : Type} (S : Scan β) (libs : RouterLibs) (isWordPair : UInt16 → UInt16 → Bool)
  (message : Text)

def clash (a b : β) : Bool := (S.spanOf a).clashes (S.spanOf b)

/-- The span is its needle, up to case, and a word. -/
def Sound (b : β) : Prop :=
  (∃ needle, S.NeedleOf b needle ∧ libs.toLowerCase (S.spanOf b).text = needle) ∧
    WordBounded libs isWordPair message (S.spanOf b).start (S.spanOf b).stop

/-- The piece is one of the words that are looked for. -/
def Wanted (start stop : ℕ) : Prop :=
  ∃ needle, S.Needle needle ∧ 2 ≤ needle.length ∧
    WordAt libs isWordPair message needle start stop

/-- `found` are the words that are looked for: each one is where its span says and is a word,
no two of them have anything in common, and each word has something in common with one. -/
structure FindsWords (found : List β) : Prop where
  free : Free message (found.map S.spanOf)
  sound : ∀ b ∈ found, S.Sound libs isWordPair message b
  complete : ∀ start stop, S.Wanted libs isWordPair message start stop →
    ∃ b ∈ found, (S.spanOf b).clashes ⟨slice message start stop, start, stop⟩ = true

/-- The spot overlaps no spot before it. -/
def First (b : β) : Prop := Greedy.Unrivalled S.clash S.spots b

/-- No spot is wrong that could be taken, and no word is passed over: each spot is sound or
overlaps a first one, each word has a spot within it or overlaps a first one. -/
structure Undisturbed : Prop where
  spots : ∀ b ∈ S.spots, S.Sound libs isWordPair message b ∨
    ∃ a, S.First a ∧ a ≠ b ∧ S.clash a b = true
  words : ∀ start stop, S.Wanted libs isWordPair message start stop →
    (∃ b ∈ S.spots, start ≤ (S.spanOf b).start ∧ (S.spanOf b).stop ≤ stop) ∨
      ∃ a, S.First a ∧ (S.spanOf a).clashes ⟨slice message start stop, start, stop⟩ = true

/-- The first spots decide: a spot that is not one of them overlaps one. -/
def Settled : Prop := ∀ b ∈ S.spots, ∃ a, S.First a ∧ S.clash a b = true

/-- The first spots are words, and there is one for each word. -/
structure FirstExact : Prop where
  sound : ∀ a, S.First a → S.Sound libs isWordPair message a
  complete : ∀ start stop, S.Wanted libs isWordPair message start stop →
    ∃ a, S.First a ∧ (S.spanOf a).clashes ⟨slice message start stop, start, stop⟩ = true

end Exact

variable {β : Type} {S : Scan β} {libs : RouterLibs} {isWordPair : UInt16 → UInt16 → Bool}
  {message : Text}

/-- Each spot is a piece with something in it. -/
def Proper (S : Scan β) : Prop := ∀ b ∈ S.spots, (S.spanOf b).start < (S.spanOf b).stop

theorem clashes_iff {a b : Span} :
    a.clashes b = true ↔ ¬ (a.stop ≤ b.start ∨ b.stop ≤ a.start) := by
  rw [Span.clashes, Bool.not_eq_true', ← Bool.decide_or, decide_eq_false_iff_not]

theorem clash_self {b : β} (h : (S.spanOf b).start < (S.spanOf b).stop) : S.clash b b = true := by
  rw [clash, clashes_iff]
  omega

theorem clash_comm (a b : β) : S.clash a b = S.clash b a := by
  rw [Bool.eq_iff_iff, clash, clash, clashes_iff, clashes_iff, or_comm]

/-- What overlaps a piece overlaps all that is around it. -/
theorem clashes_of_within {a b : Span} {start stop : ℕ} {t : Text} (h : a.clashes b = true)
    (hstart : start ≤ b.start) (hstop : b.stop ≤ stop) : a.clashes ⟨t, start, stop⟩ = true := by
  rw [clashes_iff] at h ⊢
  dsimp only
  omega

/-- **A scanner that nothing disturbs finds the words.** -/
theorem findsWords_of_undisturbed (hproper : S.Proper)
    (hfree : Free message ((Greedy.select S.clash S.spots).map S.spanOf))
    (h : S.Undisturbed libs isWordPair message) :
    S.FindsWords libs isWordPair message (Greedy.select S.clash S.spots) := by
  refine ⟨hfree, fun b hb => ?_, fun start stop hword => ?_⟩
  · rcases h.spots b (Greedy.mem_of_mem_select hb) with hsound | ⟨a, hfirst, hne, hclash⟩
    · exact hsound
    · -- the rival is taken, so `b` is not
      have ha := Greedy.mem_select_of_unrivalled hfirst
      exact absurd hb (Greedy.not_mem_select clash_comm ha hne hclash)
  · rcases h.words start stop hword with ⟨b, hb, hstart, hstop⟩ | ⟨a, hfirst, hclash⟩
    · obtain ⟨t, ht, hclash⟩ := Greedy.exists_clash_of_mem (clash_self (hproper b hb)) hb
      exact ⟨t, ht, clashes_of_within hclash hstart hstop⟩
    · exact ⟨a, Greedy.mem_select_of_unrivalled hfirst, hclash⟩

/-- **Where the first spots decide**, a scanner finds the words exactly if they are the words. -/
theorem findsWords_iff_of_settled (hproper : S.Proper)
    (hfree : Free message ((Greedy.select S.clash S.spots).map S.spanOf)) (hsettled : S.Settled) :
    S.FindsWords libs isWordPair message (Greedy.select S.clash S.spots) ↔
      S.FirstExact libs isWordPair message := by
  constructor
  · intro h
    refine ⟨fun a hfirst => h.sound a (Greedy.mem_select_of_unrivalled hfirst),
      fun start stop hword => ?_⟩
    obtain ⟨b, hb, hover⟩ := h.complete start stop hword
    obtain ⟨a, hfirst, hclash⟩ := hsettled b (Greedy.mem_of_mem_select hb)
    -- what is returned is a first spot
    by_cases hne : a = b
    · subst hne
      exact ⟨a, hfirst, hover⟩
    · have ha := Greedy.mem_select_of_unrivalled hfirst
      exact absurd hb (Greedy.not_mem_select clash_comm ha hne hclash)
  · intro h
    apply findsWords_of_undisturbed hproper hfree
    refine ⟨fun b hb => ?_, fun start stop hword => Or.inr (h.complete start stop hword)⟩
    obtain ⟨a, hfirst, hclash⟩ := hsettled b hb
    by_cases hne : a = b
    · subst hne
      exact Or.inl (h.sound a hfirst)
    · exact Or.inr ⟨a, hfirst, hne, hclash⟩

/-- A first spot that is wrong is returned. -/
theorem not_findsWords_of_first {a : β} (hfirst : S.First a)
    (hwrong : ¬ S.Sound libs isWordPair message a) :
    ¬ S.FindsWords libs isWordPair message (Greedy.select S.clash S.spots) :=
  fun h => hwrong (h.sound a (Greedy.mem_select_of_unrivalled hfirst))

/-- A word that has nothing in common with any spot is not covered. -/
theorem not_findsWords_of_missed {start stop : ℕ}
    (hword : S.Wanted libs isWordPair message start stop)
    (hmissed : ∀ b ∈ S.spots,
      (S.spanOf b).clashes ⟨slice message start stop, start, stop⟩ = false) :
    ¬ S.FindsWords libs isWordPair message (Greedy.select S.clash S.spots) := by
  intro h
  obtain ⟨b, hb, hclash⟩ := h.complete start stop hword
  rw [hmissed b (Greedy.mem_of_mem_select hb)] at hclash
  exact Bool.false_ne_true hclash

end Scan

/-! ## 3. The two scanners -/

section Scanners

variable (libs : RouterLibs) (message : Text)

/-- What `pushIfFree` pushes for a place of a needle. -/
def mentionAt (canonical needle : Text) (idx : ℕ) : Mention :=
  ⟨canonical, ⟨slice message idx (idx + needle.length), idx, idx + needle.length⟩⟩

/-- The places of the full name. -/
def canonicalSpots (canonical : Text) : List Mention :=
  let lowerMessage := libs.toLowerCase message
  let needle := libs.toLowerCase canonical
  if needle.length < 2 then []
  else (occurrences lowerMessage needle lowerMessage.length 0).map
    (mentionAt message canonical needle)

/-- The first token of a name that has more than one, unless another name begins with it. -/
def unambiguousFirstToken (knownNames : List Text) (canonical : Text) : Option Text :=
  match tokensOf canonical with
  | firstToken :: _ :: _ =>
      if firstTokenCollides libs firstToken canonical knownNames then none else some firstToken
  | _ => none

/-- The places of the first token that are words for the check. -/
def firstTokenSpots (knownNames : List Text) (canonical : Text) : List Mention :=
  match unambiguousFirstToken libs knownNames canonical with
  | none => []
  | some firstToken =>
      let lowerMessage := libs.toLowerCase message
      let needle := libs.toLowerCase firstToken
      if needle.length < 2 then []
      else ((occurrences lowerMessage needle lowerMessage.length 0).filter
        (fun idx => isWordBoundary libs message idx (idx + needle.length))).map
          (mentionAt message canonical needle)

def nameSpots (knownNames : List Text) : List Mention :=
  (knownNames.insertionSort longerFirst).flatMap (fun canonical =>
    canonicalSpots libs message canonical ++ firstTokenSpots libs message knownNames canonical)

/-- What a name is searched by. -/
def needlesOf (knownNames : List Text) (canonical : Text) : List Text :=
  libs.toLowerCase canonical ::
    ((unambiguousFirstToken libs knownNames canonical).map libs.toLowerCase).toList

def nameScan (knownNames : List Text) : Scan Mention where
  spots := nameSpots libs message knownNames
  spanOf := Mention.span
  NeedleOf := fun m needle =>
    m.canonical ∈ knownNames ∧ needle ∈ needlesOf libs knownNames m.canonical
  Needle := fun needle => ∃ canonical ∈ knownNames, needle ∈ needlesOf libs knownNames canonical

/-- What is put out for a place of a pattern. -/
def collapseAt (p : CollapsePattern) (idx : ℕ) : CollapseMatch :=
  let stop := idx + (libs.toLowerCase p.pattern).length
  ⟨p.replacement, ⟨slice message idx stop, idx, stop⟩⟩

/-- The places of the patterns that are words for the check. -/
def patternSpots (p : CollapsePattern) : List CollapseMatch :=
  let lower := libs.toLowerCase message
  let needle := libs.toLowerCase p.pattern
  if needle.isEmpty then []
  else ((occurrences lower needle lower.length 0).filter
    (fun idx => isWordBoundary libs message idx (idx + needle.length))).map
      (collapseAt libs message p)

def patternScan (patterns : List CollapsePattern) : Scan CollapseMatch where
  spots := (patterns.insertionSort longerPatternFirst).flatMap (patternSpots libs message)
  spanOf := CollapseMatch.span
  NeedleOf := fun m needle =>
    ∃ p ∈ patterns, m.replacement = p.replacement ∧ needle = libs.toLowerCase p.pattern
  Needle := fun needle => ∃ p ∈ patterns, needle = libs.toLowerCase p.pattern

variable {libs message}

theorem overlaps_map {β : Type} (spanOf : β → Span) (out : List β) (b : β) :
    overlaps (out.map spanOf) (spanOf b)
      = out.any (fun t => (spanOf t).clashes (spanOf b)) := by
  rw [overlaps, List.any_map]
  rfl

theorem pushIfFree_eq (knownNames : List Text) (canonical needle : Text) (idx : ℕ)
    (accepted : List Mention) :
    pushIfFree message canonical idx (idx + needle.length) accepted
      = Greedy.take (nameScan libs message knownNames).clash accepted
          (mentionAt message canonical needle idx) := by
  rw [pushIfFree, Greedy.take]
  exact if_congr (Bool.eq_iff_iff.mp (overlaps_map Mention.span accepted
    (mentionAt message canonical needle idx))) rfl rfl

theorem matchCanonicalForm_eq (knownNames : List Text) (canonical : Text)
    (accepted : List Mention) :
    matchCanonicalForm libs message accepted canonical
      = (canonicalSpots libs message canonical).foldl
          (Greedy.take (nameScan libs message knownNames).clash) accepted := by
  rw [matchCanonicalForm, canonicalSpots]
  split
  · rfl
  · rw [List.foldl_map]
    simp only [@pushIfFree_eq libs message knownNames]

theorem matchFirstTokenForm_eq (knownNames : List Text) (canonical : Text)
    (accepted : List Mention) :
    matchFirstTokenForm libs message knownNames accepted canonical
      = (firstTokenSpots libs message knownNames canonical).foldl
          (Greedy.take (nameScan libs message knownNames).clash) accepted := by
  rw [matchFirstTokenForm, firstTokenSpots, unambiguousFirstToken]
  cases htokens : tokensOf canonical with
  | nil => rfl
  | cons firstToken rest =>
      cases rest with
      | nil => rfl
      | cons second rest =>
          by_cases hcollides : firstTokenCollides libs firstToken canonical knownNames = true
          · simp only [hcollides, Bool.true_or, if_true, List.foldl_nil]
          · by_cases hshort : (libs.toLowerCase firstToken).length < 2
            · simp only [hcollides, hshort, decide_true, Bool.or_true, if_true,
                Bool.false_eq_true, if_false, List.foldl_nil]
            · simp only [hcollides, hshort, Bool.false_or, decide_false, Bool.false_eq_true,
                if_false, List.foldl_map, List.foldl_filter,
                @pushIfFree_eq libs message knownNames]

/-- **The mentions are the spots of the names**, the first come first served. -/
theorem extractMentionsLocally_eq (knownNames : List Text) :
    extractMentionsLocally libs message knownNames
      = Greedy.select (nameScan libs message knownNames).clash
          (nameScan libs message knownNames).spots := by
  rw [extractMentionsLocally, Greedy.select]
  show _ = (nameSpots libs message knownNames).foldl _ []
  rw [nameSpots, List.foldl_flatMap]
  simp only [List.foldl_append, matchCanonicalForm_eq knownNames, matchFirstTokenForm_eq]

theorem matchPattern_eq (patterns : List CollapsePattern) (p : CollapsePattern)
    (out : List CollapseMatch) :
    matchPattern libs message out p
      = (patternSpots libs message p).foldl
          (Greedy.take (patternScan libs message patterns).clash) out := by
  rw [matchPattern, patternSpots]
  split
  · rfl
  · rw [List.foldl_map, List.foldl_filter]
    congr 1
    funext out idx
    have hover := overlaps_map CollapseMatch.span out (collapseAt libs message p idx)
    cases hbound : isWordBoundary libs message idx (idx + (libs.toLowerCase p.pattern).length) with
    | false => rfl
    | true =>
        rw [if_pos rfl, Greedy.take]
        show (if (!overlaps (out.map CollapseMatch.span) (collapseAt libs message p idx).span)
          then out ++ [collapseAt libs message p idx] else out) = _
        rw [hover]
        show _ = if out.any (fun t => t.span.clashes (collapseAt libs message p idx).span) then out
          else out ++ [collapseAt libs message p idx]
        cases out.any (fun t => t.span.clashes (collapseAt libs message p idx).span)
        · rfl
        · rfl

/-- **The learned phrases are the spots of the patterns**, the first come first served. -/
theorem extractCollapseEditsLocally_eq (patterns : List CollapsePattern) :
    extractCollapseEditsLocally libs message patterns
      = Greedy.select (patternScan libs message patterns).clash
          (patternScan libs message patterns).spots := by
  rw [extractCollapseEditsLocally, Greedy.select]
  show _ = ((patterns.insertionSort longerPatternFirst).flatMap
    (patternSpots libs message)).foldl _ []
  rw [List.foldl_flatMap]
  congr 1
  funext out p
  exact matchPattern_eq patterns p out

theorem mem_canonicalSpots {canonical : Text} {m : Mention} :
    m ∈ canonicalSpots libs message canonical ↔
      2 ≤ (libs.toLowerCase canonical).length ∧
        ∃ idx ∈ occurrences (libs.toLowerCase message) (libs.toLowerCase canonical)
            (libs.toLowerCase message).length 0,
          mentionAt message canonical (libs.toLowerCase canonical) idx = m := by
  rw [canonicalSpots]
  split
  · next hshort => exact ⟨fun h => absurd h List.not_mem_nil, fun h => absurd h.1 (by omega)⟩
  · next hlong =>
      rw [List.mem_map, and_iff_right (by omega)]

theorem mem_firstTokenSpots {knownNames : List Text} {canonical : Text} {m : Mention} :
    m ∈ firstTokenSpots libs message knownNames canonical ↔
      ∃ firstToken, unambiguousFirstToken libs knownNames canonical = some firstToken ∧
        2 ≤ (libs.toLowerCase firstToken).length ∧
          ∃ idx ∈ occurrences (libs.toLowerCase message) (libs.toLowerCase firstToken)
              (libs.toLowerCase message).length 0,
            isWordBoundary libs message idx (idx + (libs.toLowerCase firstToken).length) = true ∧
              mentionAt message canonical (libs.toLowerCase firstToken) idx = m := by
  rw [firstTokenSpots]
  cases unambiguousFirstToken libs knownNames canonical with
  | none => simp
  | some firstToken =>
      by_cases hshort : (libs.toLowerCase firstToken).length < 2
      · simp [hshort]
      · simp [hshort, Nat.not_lt.mp hshort, and_assoc]

theorem mem_patternSpots {p : CollapsePattern} {m : CollapseMatch} :
    m ∈ patternSpots libs message p ↔
      libs.toLowerCase p.pattern ≠ [] ∧
        ∃ idx ∈ occurrences (libs.toLowerCase message) (libs.toLowerCase p.pattern)
            (libs.toLowerCase message).length 0,
          isWordBoundary libs message idx (idx + (libs.toLowerCase p.pattern).length) = true ∧
            collapseAt libs message p idx = m := by
  rw [patternSpots]
  by_cases hempty : libs.toLowerCase p.pattern = []
  · simp [hempty]
  · simp [hempty, and_assoc]

/-- The piece of the message at a place of a needle. -/
def spanAt (message needle : Text) (idx : ℕ) : Span :=
  ⟨slice message idx (idx + needle.length), idx, idx + needle.length⟩

/-- The spots are places where the search stops, and they are all of those that the check
lets through. -/
structure Searches {β : Type} (S : Scan β) (libs : RouterLibs) (message : Text) : Prop where
  of_spot : ∀ b ∈ S.spots, ∃ needle idx, S.Needle needle ∧ S.NeedleOf b needle ∧ needle ≠ [] ∧
    idx ∈ occurrences (libs.toLowerCase message) needle (libs.toLowerCase message).length 0 ∧
      S.spanOf b = spanAt message needle idx
  spot : ∀ needle, S.Needle needle → 2 ≤ needle.length →
    ∀ idx ∈ occurrences (libs.toLowerCase message) needle (libs.toLowerCase message).length 0,
      isWordBoundary libs message idx (idx + needle.length) = true →
        ∃ b ∈ S.spots, S.spanOf b = spanAt message needle idx

theorem searches_nameScan (knownNames : List Text) :
    Searches (nameScan libs message knownNames) libs message := by
  refine ⟨fun m hm => ?_, ?_⟩
  · obtain ⟨canonical, hcanonical, hspots⟩ := List.mem_flatMap.mp hm
    have hknown : canonical ∈ knownNames := (List.mem_insertionSort _).mp hcanonical
    rcases List.mem_append.mp hspots with hfull | hfirst
    · obtain ⟨hlong, idx, hidx, rfl⟩ := mem_canonicalSpots.mp hfull
      have hneedle : libs.toLowerCase canonical ∈ needlesOf libs knownNames canonical :=
        List.mem_cons_self
      exact ⟨_, idx, ⟨canonical, hknown, hneedle⟩, ⟨hknown, hneedle⟩,
        List.ne_nil_of_length_pos (by omega), hidx, rfl⟩
    · obtain ⟨firstToken, htoken, hlong, idx, hidx, _, rfl⟩ := mem_firstTokenSpots.mp hfirst
      have hneedle : libs.toLowerCase firstToken ∈ needlesOf libs knownNames canonical := by
        rw [needlesOf, htoken]
        exact List.mem_cons_of_mem _ (List.mem_singleton_self _)
      exact ⟨_, idx, ⟨canonical, hknown, hneedle⟩, ⟨hknown, hneedle⟩,
        List.ne_nil_of_length_pos (by omega), hidx, rfl⟩
  · rintro needle ⟨canonical, hknown, hneedle⟩ hlong idx hidx hbound
    have hsorted : canonical ∈ knownNames.insertionSort longerFirst :=
      (List.mem_insertionSort _).mpr hknown
    refine ⟨mentionAt message canonical needle idx, List.mem_flatMap.mpr
      ⟨canonical, hsorted, List.mem_append.mpr ?_⟩, rfl⟩
    rcases List.mem_cons.mp hneedle with rfl | hfirst
    · exact Or.inl (mem_canonicalSpots.mpr ⟨hlong, idx, hidx, rfl⟩)
    · obtain ⟨firstToken, htoken, rfl⟩ := Option.map_eq_some_iff.mp (Option.mem_toList.mp hfirst)
      exact Or.inr (mem_firstTokenSpots.mpr ⟨firstToken, htoken, hlong, idx, hidx, hbound, rfl⟩)

theorem searches_patternScan (patterns : List CollapsePattern) :
    Searches (patternScan libs message patterns) libs message := by
  refine ⟨fun m hm => ?_, ?_⟩
  · obtain ⟨p, hsorted, hp⟩ := List.mem_flatMap.mp hm
    have hpatterns : p ∈ patterns := (List.mem_insertionSort _).mp hsorted
    obtain ⟨hne, idx, hidx, _, rfl⟩ := mem_patternSpots.mp hp
    exact ⟨_, idx, ⟨p, hpatterns, rfl⟩, ⟨p, hpatterns, rfl, rfl⟩, hne, hidx, rfl⟩
  · rintro needle ⟨p, hpatterns, rfl⟩ hlong idx hidx hbound
    have hsorted : p ∈ patterns.insertionSort longerPatternFirst :=
      (List.mem_insertionSort _).mpr hpatterns
    exact ⟨collapseAt libs message p idx, List.mem_flatMap.mpr ⟨p, hsorted,
      mem_patternSpots.mpr ⟨List.ne_nil_of_length_pos (by omega), idx, hidx, hbound, rfl⟩⟩, rfl⟩

theorem Searches.proper {β : Type} {S : Scan β} (h : Searches S libs message) : S.Proper := by
  intro b hb
  obtain ⟨needle, idx, _, _, hne, _, hspan⟩ := h.of_spot b hb
  rw [hspan]
  exact Nat.lt_add_of_pos_right (List.length_pos_iff.mpr hne)

/-! ## 4. The search -/

theorem prefix_of_mem_occurrences {lower needle : Text} :
    ∀ {turns position idx : ℕ}, idx ∈ occurrences lower needle turns position →
      needle <+: lower.drop idx := by
  intro turns
  induction turns with
  | zero => exact fun h => absurd h List.not_mem_nil
  | succ turns ih =>
      intro position idx h
      rw [occurrences] at h
      split at h
      · split at h
        · exact absurd h List.not_mem_nil
        · next found hfound =>
            rcases List.mem_cons.mp h with rfl | hrest
            · exact (prefix_of_indexOfFrom hfound).2.1
            · exact ih hrest
      · exact absurd h List.not_mem_nil

/-- **The search passes over nothing but what overlaps a place it stops at.** -/
theorem exists_mem_occurrences {lower needle : Text} (hne : needle ≠ []) :
    ∀ {turns position p : ℕ}, lower.length ≤ turns + position → position ≤ p →
      needle <+: lower.drop p →
        ∃ idx ∈ occurrences lower needle turns position, idx ≤ p ∧ p < idx + needle.length := by
  have hlong : 0 < needle.length := List.length_pos_iff.mpr hne
  intro turns
  induction turns with
  | zero =>
      intro position p hturns hp hpre
      have hle := hpre.length_le
      rw [List.length_drop] at hle
      omega
  | succ turns ih =>
      intro position p hturns hp hpre
      have hle := hpre.length_le
      rw [List.length_drop] at hle
      rw [occurrences, if_pos (by omega)]
      cases hfound : indexOfFrom lower needle position with
      | none =>
          have hnone := indexOf_eq_none_iff.mp (Option.map_eq_none_iff.mp hfound) (p - position)
            (by rw [List.length_drop]; omega)
          rw [List.drop_drop, Nat.add_sub_cancel' hp] at hnone
          exact absurd hpre hnone
      | some idx =>
          obtain ⟨hidx, _, hfirst⟩ := prefix_of_indexOfFrom hfound
          have hidxp : idx ≤ p := by
            by_contra hlt
            exact hfirst p hp (by omega) hpre
          by_cases hin : p < idx + needle.length
          · exact ⟨idx, List.mem_cons_self, hidxp, hin⟩
          · obtain ⟨idx', hmem, hcover⟩ := ih (by omega) (Nat.not_lt.mp hin) hpre
            exact ⟨idx', List.mem_cons_of_mem idx hmem, hcover⟩

/-- A message in which the search cannot go wrong: lower-casing moves nothing, each place of a
needle is a word, and no place of a needle overlaps another one of the same needle. -/
structure Plain (libs : RouterLibs) (isWordPair : UInt16 → UInt16 → Bool) (message : Text)
    (Needle : Text → Prop) : Prop where
  cut : ∀ start stop, start < stop → stop ≤ message.length →
    libs.toLowerCase (slice message start stop) = slice (libs.toLowerCase message) start stop
  length : (libs.toLowerCase message).length = message.length
  words : ∀ needle, Needle needle → needle ≠ [] → ∀ idx,
    needle <+: (libs.toLowerCase message).drop idx →
      WordBounded libs isWordPair message idx (idx + needle.length)
  apart : ∀ needle, Needle needle → ∀ idx p, needle <+: (libs.toLowerCase message).drop idx →
    needle <+: (libs.toLowerCase message).drop p → idx < p → idx + needle.length ≤ p

theorem slice_of_isPrefix {lower needle : Text} {idx : ℕ} (h : needle <+: lower.drop idx) :
    slice lower idx (idx + needle.length) = needle := by
  rw [slice, List.drop_take, Nat.add_sub_cancel_left]
  exact (List.prefix_iff_eq_take.mp h).symm

theorem prefix_of_slice {lower needle : Text} {start stop : ℕ} (hle : start ≤ stop)
    (hin : stop ≤ lower.length) (h : slice lower start stop = needle) :
    needle <+: lower.drop start ∧ start + needle.length = stop := by
  rw [slice, List.drop_take] at h
  subst h
  refine ⟨List.take_prefix _ _, ?_⟩
  rw [List.length_take, List.length_drop]
  omega

theorem isWordChar_of_endsInWord {isWordPair : UInt16 → UInt16 → Bool} {s : Text} {u : UInt16}
    (h : endsInWord libs isWordPair (s ++ [u]) = false) : libs.isWordChar u = false := by
  rw [endsInWord, List.reverse_append, List.reverse_singleton, List.singleton_append] at h
  cases hs : s.reverse with
  | nil =>
      rw [hs] at h
      exact h
  | cons high rest =>
      rw [hs] at h
      exact (Bool.or_eq_false_iff.mp h).1

theorem isWordChar_of_startsWithWord {isWordPair : UInt16 → UInt16 → Bool} {u : UInt16}
    {rest : Text} (h : startsWithWord libs isWordPair (u :: rest) = false) :
    libs.isWordChar u = false := by
  cases rest with
  | nil => exact h
  | cons low rest => exact (Bool.or_eq_false_iff.mp h).1

/-- A word passes the check. -/
theorem isWordBoundary_of_wordBounded {isWordPair : UInt16 → UInt16 → Bool} {idx stop : ℕ}
    (hspace : libs.isWordChar 0x20 = false) (hidx : idx ≤ message.length)
    (h : WordBounded libs isWordPair message idx stop) :
    isWordBoundary libs message idx stop = true := by
  rw [isWordBoundary, Bool.and_eq_true, Bool.not_eq_true', Bool.not_eq_true']
  constructor
  · split
    · next hpos =>
        have hlt : idx - 1 < message.length := by omega
        have htake : message.take idx = message.take (idx - 1) ++ [message[idx - 1]] := by
          rw [← List.take_succ_eq_append_getElem hlt, Nat.sub_add_cancel hpos]
        rw [isWordAt, List.getElem?_eq_getElem hlt]
        exact isWordChar_of_endsInWord (htake ▸ h.1)
    · exact hspace
  · split
    · next hlt =>
        rw [isWordAt, List.getElem?_eq_getElem hlt]
        exact isWordChar_of_startsWithWord (List.drop_eq_getElem_cons hlt ▸ h.2)
    · exact hspace

/-- **In a plain message nothing disturbs a search.** -/
theorem undisturbed_of_plain {β : Type} {S : Scan β} {isWordPair : UInt16 → UInt16 → Bool}
    (hsearch : Searches S libs message) (hspace : libs.isWordChar 0x20 = false)
    (h : Plain libs isWordPair message S.Needle) : S.Undisturbed libs isWordPair message := by
  refine ⟨fun b hb => Or.inl ?_, fun start stop hwanted => Or.inl ?_⟩
  · obtain ⟨needle, idx, hneedle, hof, hne, hidx, hspan⟩ := hsearch.of_spot b hb
    have hpre := prefix_of_mem_occurrences hidx
    have hle := hpre.length_le
    have hpos := List.length_pos_iff.mpr hne
    rw [List.length_drop, h.length] at hle
    refine ⟨⟨needle, hof, ?_⟩, ?_⟩
    · rw [hspan]
      exact (h.cut idx (idx + needle.length) (by omega) (by omega)).trans (slice_of_isPrefix hpre)
    · rw [hspan]
      exact h.words needle hneedle hne idx hpre
  · obtain ⟨needle, hneedle, hlong, hword⟩ := hwanted
    have hcut := (h.cut start stop hword.nonempty hword.inside).symm.trans hword.text
    obtain ⟨hpre, hstop⟩ := prefix_of_slice hword.nonempty.le
      (h.length.symm ▸ hword.inside) hcut
    obtain ⟨idx, hidx, hle, hlt⟩ := exists_mem_occurrences (List.ne_nil_of_length_pos (by omega))
      (Nat.le_add_right _ _) (Nat.zero_le start) hpre
    have hsame : idx = start := by
      by_contra hne
      have hapart := h.apart needle hneedle idx start (prefix_of_mem_occurrences hidx) hpre
        (by omega)
      omega
    subst hsame
    obtain ⟨b, hb, hspan⟩ := hsearch.spot needle hneedle hlong idx hidx
      (isWordBoundary_of_wordBounded hspace (hword.nonempty.le.trans hword.inside)
        (hstop.symm ▸ hword.bounded))
    exact ⟨b, hb, by rw [hspan]; exact ⟨le_refl _, hstop.le⟩⟩

end Scanners

/-! ## 5. What the scanners find -/

/-- What the spots say about `found`: if nothing disturbs the search these are the words, and
they are not if a first spot is wrong or a word has nothing in common with any spot. Where the
first spots decide, they are the words exactly if the first spots are. -/
structure DecidedBySpots {β : Type} (S : Scan β) (libs : RouterLibs)
    (isWordPair : UInt16 → UInt16 → Bool) (message : Text) (found : List β) : Prop where
  finds : S.Undisturbed libs isWordPair message → S.FindsWords libs isWordPair message found
  wrong : ∀ a, S.First a → ¬ S.Sound libs isWordPair message a →
    ¬ S.FindsWords libs isWordPair message found
  missed : ∀ start stop, S.Wanted libs isWordPair message start stop →
    (∀ b ∈ S.spots, (S.spanOf b).clashes ⟨slice message start stop, start, stop⟩ = false) →
      ¬ S.FindsWords libs isWordPair message found
  exact_of_settled : S.Settled →
    (S.FindsWords libs isWordPair message found ↔ S.FirstExact libs isWordPair message)

/-- **The local scanners find the words**, as far as the spots without a rival decide it. -/
theorem localScans_find_words (libs : RouterLibs) (isWordPair : UInt16 → UInt16 → Bool)
    (message : Text) (knownNames : List Text) (patterns : List CollapsePattern) :
    DecidedBySpots (nameScan libs message knownNames) libs isWordPair message
        (extractMentionsLocally libs message knownNames) ∧
      DecidedBySpots (patternScan libs message patterns) libs isWordPair message
        (extractCollapseEditsLocally libs message patterns) := by
  have hnames := extractMentionsLocally_spans libs message knownNames
  have hpatterns := extractCollapseEditsLocally_spans libs message patterns
  rw [extractMentionsLocally_eq] at hnames ⊢
  rw [extractCollapseEditsLocally_eq] at hpatterns ⊢
  have hproper : (nameScan libs message knownNames).Proper := (searches_nameScan knownNames).proper
  have hproper' : (patternScan libs message patterns).Proper :=
    (searches_patternScan patterns).proper
  exact ⟨⟨Scan.findsWords_of_undisturbed hproper hnames, fun _ => Scan.not_findsWords_of_first,
      fun _ _ => Scan.not_findsWords_of_missed, Scan.findsWords_iff_of_settled hproper hnames⟩,
    ⟨Scan.findsWords_of_undisturbed hproper' hpatterns, fun _ => Scan.not_findsWords_of_first,
      fun _ _ => Scan.not_findsWords_of_missed, Scan.findsWords_iff_of_settled hproper' hpatterns⟩⟩

/-- Letters of the texts below are single units. -/
def noPairs : UInt16 → UInt16 → Bool := fun _ _ => false

/-- One spot that is the whole message, and a word. -/
theorem undisturbed_of_single {β : Type} {S : Scan β} {libs : RouterLibs}
    {isWordPair : UInt16 → UInt16 → Bool} {message : Text} {a : β} (hspots : S.spots = [a])
    (hsound : S.Sound libs isWordPair message a) (hstart : (S.spanOf a).start = 0)
    (hstop : (S.spanOf a).stop = message.length) : S.Undisturbed libs isWordPair message := by
  refine ⟨fun b hb => Or.inl ?_, fun start stop hwanted => Or.inr ?_⟩
  · rw [hspots] at hb
    exact List.mem_singleton.mp hb ▸ hsound
  · obtain ⟨_, _, _, hword⟩ := hwanted
    have hnonempty := hword.nonempty
    have hinside := hword.inside
    refine ⟨a, ⟨[], [], hspots, fun _ h => absurd h List.not_mem_nil⟩, ?_⟩
    rw [Scan.clashes_iff]
    dsimp only
    omega

/-- A message that is a name, and a phrase that is the message. -/
theorem localScans_find_whole_message :
    (nameScan asciiLibs (units "moved") [units "moved"]).FindsWords asciiLibs noPairs
        (units "moved") (extractMentionsLocally asciiLibs (units "moved") [units "moved"]) ∧
      (patternScan asciiLibs (units "moved") [⟨units "moved", units "was"⟩]).FindsWords asciiLibs
        noPairs (units "moved")
        (extractCollapseEditsLocally asciiLibs (units "moved") [⟨units "moved", units "was"⟩]) := by
  have hboth := localScans_find_words asciiLibs noPairs (units "moved") [units "moved"]
    [⟨units "moved", units "was"⟩]
  refine ⟨hboth.1.finds (undisturbed_of_single
      (a := mentionAt (units "moved") (units "moved") (units "moved") 0) rfl
      ⟨⟨units "moved", ⟨List.mem_cons_self, List.mem_cons_self⟩, rfl⟩, by decide⟩ rfl rfl),
    hboth.2.finds (undisturbed_of_single
      (a := collapseAt asciiLibs (units "moved") ⟨units "moved", units "was"⟩ 0) rfl
      ⟨⟨units "moved", ⟨_, List.mem_cons_self, rfl, rfl⟩, rfl⟩, by decide⟩ rfl rfl)⟩

/-- The name Maria is found in Mariana, and a phrase is passed over behind a place that is not a
word. -/
theorem localScans_not_words :
    ¬ (nameScan asciiLibs (units "mariana") [units "maria"]).FindsWords asciiLibs noPairs
        (units "mariana") (extractMentionsLocally asciiLibs (units "mariana") [units "maria"]) ∧
      ¬ (patternScan asciiLibs (units "dono no no") [⟨units "no no", units "no"⟩]).FindsWords
        asciiLibs noPairs (units "dono no no")
        (extractCollapseEditsLocally asciiLibs (units "dono no no")
          [⟨units "no no", units "no"⟩]) := by
  constructor
  · intro h
    have hfound : mentionAt (units "mariana") (units "maria") (units "maria") 0
        ∈ extractMentionsLocally asciiLibs (units "mariana") [units "maria"] :=
      List.mem_singleton_self _
    exact absurd (h.sound _ hfound).2 (by decide)
  · intro h
    have hword : WordAt asciiLibs noPairs (units "dono no no") (units "no no") 5 10 :=
      ⟨by decide, by decide, by decide, by decide⟩
    obtain ⟨b, hb, _⟩ := h.complete 5 10 ⟨units "no no", ⟨_, List.mem_cons_self, rfl⟩, by decide,
      hword⟩
    have hnone : extractCollapseEditsLocally asciiLibs (units "dono no no")
        [⟨units "no no", units "no"⟩] = [] := rfl
    rw [hnone] at hb
    exact absurd hb List.not_mem_nil

end Brain.ChatRouter
