/-
What the router finds in a message without a model: the temporal anchor, the known names and
the predicate hints of `src/src/admin/chat-router-internals/local-prepass.ts`, and the learned
phrases of `src/src/admin/collapse-pattern.service.ts`.

Names and phrases are searched in the lower-cased message by the same loop (`occurrences`).
`occupied` is what the spans of the accepted ones cover. What is accepted cuts its text out of
the message, and two accepted spans have nothing in common (`extractMentionsLocally_spans`,
`extractCollapseEditsLocally_spans`).
-/
import Brain.ChatRouter.Validator

set_option autoImplicit false

namespace Brain.ChatRouter

open Splice (slice)

/-! ## 1. What it is built on -/

/-- A result of `chrono.parse`; a date that is missing or invalid is `none`. -/
structure ChronoResult where
  index : ℕ
  text : Text
  date : Option ℤ

/-- What the router takes from the libraries below it. -/
structure RouterLibs extends JsText where
  toLowerCase : Text → Text
  /-- `/[\p{L}\p{N}]/u`. -/
  isWordChar : UInt16 → Bool
  /-- `chrono.parse`; there are no results if it throws. -/
  chronoParse : Text → ℤ → List ChronoResult
  toISOString : ℤ → Text
  /-- The digest in hex. -/
  sha256 : Text → Text
  cosineSimilarity : List ℚ → List ℚ → ℚ

/-- What the router reads of a `PredicateSnapshot`. -/
structure PredicateSnapshot where
  active : List Text
  embeddings : List (Text × List ℚ)

/-- An entry of a `CollapseSnapshot`. -/
structure CollapsePattern where
  pattern : Text
  replacement : Text

/-- A span of a learned phrase, with its replacement. -/
structure CollapseMatch where
  replacement : Text
  span : Span

/-- A hint that an embedding gives. -/
structure LocalHint where
  predicateId : Text
  similarity : ℚ
  triggerSpan : Span

section Prepass

variable (libs : RouterLibs) (message : Text)

/-! ## 2. The temporal anchor -/

def extractTemporalLocally (ref : ℤ) : Option TemporalAnchor :=
  match libs.chronoParse message ref with
  | [] => none
  | first :: _ =>
      match first.date with
      | none => none
      | some date =>
          let stop := first.index + first.text.length
          if stop ≤ message.length ∧ slice message first.index stop = first.text then
            some ⟨libs.toISOString date, ⟨first.text, first.index, stop⟩⟩
          else none

/-! ## 3. Names and phrases -/

/-- `s.indexOf(t, from)`. -/
def indexOfFrom (s t : Text) (position : ℕ) : Option ℕ :=
  (indexOf (s.drop position) t).map (fun idx => position + idx)

/-- A place that the search finds. -/
theorem prefix_of_indexOfFrom {lower needle : Text} {position idx : ℕ}
    (h : indexOfFrom lower needle position = some idx) :
    position ≤ idx ∧ needle <+: lower.drop idx ∧
      ∀ p, position ≤ p → p < idx → ¬ needle <+: lower.drop p := by
  obtain ⟨i, hi, rfl⟩ := Option.map_eq_some_iff.mp h
  obtain ⟨_, hpre, hfirst⟩ := indexOf_eq_some_iff.mp hi
  rw [List.drop_drop] at hpre
  refine ⟨Nat.le_add_right _ _, hpre, fun p hle hlt hp => hfirst (p - position) (by omega) ?_⟩
  rw [List.drop_drop, Nat.add_sub_cancel' hle]
  exact hp

/-- The loop `while (from < lower.length)`: where the needle is found. Each turn goes on after
what it has found, so as many turns as there are units are enough. -/
def occurrences (lower needle : Text) : ℕ → ℕ → List ℕ
  | 0, _ => []
  | turns + 1, position =>
      if position < lower.length then
        match indexOfFrom lower needle position with
        | none => []
        | some idx => idx :: occurrences lower needle turns (idx + needle.length)
      else []

/-- `isWordChar(message[i])`. Outside of the message that is `undefined`, whose name is a
word. -/
def isWordAt (i : ℕ) : Bool :=
  match message[i]? with
  | some c => libs.isWordChar c
  | none => true

def isWordBoundary (idx stop : ℕ) : Bool :=
  let before := if 0 < idx then isWordAt libs message (idx - 1) else libs.isWordChar 0x20
  let after := if stop < message.length then isWordAt libs message stop else libs.isWordChar 0x20
  !before && !after

/-- `pushIfFree`. -/
def pushIfFree (canonical : Text) (start stop : ℕ) (accepted : List Mention) : List Mention :=
  let span : Span := ⟨slice message start stop, start, stop⟩
  if overlaps (accepted.map Mention.span) span then accepted else accepted ++ [⟨canonical, span⟩]

def matchCanonicalForm (accepted : List Mention) (canonical : Text) : List Mention :=
  let lowerMessage := libs.toLowerCase message
  let needle := libs.toLowerCase canonical
  if needle.length < 2 then accepted
  else
    (occurrences lowerMessage needle lowerMessage.length 0).foldl
      (fun accepted idx => pushIfFree message canonical idx (idx + needle.length) accepted) accepted

/-- `split(/\s+/).filter(Boolean)`. -/
def tokensOf (canonical : Text) : List Text :=
  (canonical.splitOnP isSpace).filter (fun token => !token.isEmpty)

def firstTokenCollides (firstToken canonical : Text) (knownNames : List Text) : Bool :=
  knownNames.any (fun other => decide (other ≠ canonical) &&
    (libs.toLowerCase firstToken ++ [0x20]).isPrefixOf (libs.toLowerCase other))

def matchFirstTokenForm (knownNames : List Text) (accepted : List Mention) (canonical : Text) :
    List Mention :=
  match tokensOf canonical with
  | firstToken :: _ :: _ =>
      let lowerMessage := libs.toLowerCase message
      let needle := libs.toLowerCase firstToken
      if firstTokenCollides libs firstToken canonical knownNames || decide (needle.length < 2) then
        accepted
      else
        (occurrences lowerMessage needle lowerMessage.length 0).foldl
          (fun accepted idx =>
            if isWordBoundary libs message idx (idx + needle.length) then
              pushIfFree message canonical idx (idx + needle.length) accepted
            else accepted) accepted
  | _ => accepted

/-- The longest names first. -/
def longerFirst (a b : Text) : Prop := b.length ≤ a.length

instance : DecidableRel longerFirst := fun a b => inferInstanceAs (Decidable (b.length ≤ a.length))

def extractMentionsLocally (knownNames : List Text) : List Mention :=
  (knownNames.insertionSort longerFirst).foldl
    (fun accepted canonical =>
      matchFirstTokenForm libs message knownNames
        (matchCanonicalForm libs message accepted canonical) canonical) []

/-- The longest patterns first. -/
def longerPatternFirst (a b : CollapsePattern) : Prop := b.pattern.length ≤ a.pattern.length

instance : DecidableRel longerPatternFirst := fun a b =>
  inferInstanceAs (Decidable (b.pattern.length ≤ a.pattern.length))

/-- The turns of the loop for a pattern. -/
def matchPattern (out : List CollapseMatch) (p : CollapsePattern) : List CollapseMatch :=
  let lower := libs.toLowerCase message
  let needle := libs.toLowerCase p.pattern
  if needle.isEmpty then out
  else
    (occurrences lower needle lower.length 0).foldl
      (fun out idx =>
        let span : Span := ⟨slice message idx (idx + needle.length), idx, idx + needle.length⟩
        if isWordBoundary libs message idx (idx + needle.length) &&
            !overlaps (out.map CollapseMatch.span) span then
          out ++ [⟨p.replacement, span⟩]
        else out) out

def extractCollapseEditsLocally (patterns : List CollapsePattern) : List CollapseMatch :=
  (patterns.insertionSort longerPatternFirst).foldl (matchPattern libs message) []

/-! ## 4. Hints -/

/-- The most similar ones first. -/
def closerFirst (a b : LocalHint) : Prop := b.similarity ≤ a.similarity

instance : DecidableRel closerFirst := fun a b =>
  inferInstanceAs (Decidable (b.similarity ≤ a.similarity))

/-- `embedding` is what the embedder answers to the message. -/
def extractPredicateHintsLocally (snapshot : Option PredicateSnapshot)
    (embedding : Option (List ℚ)) (threshold : ℚ) (maxHints : ℕ) : List LocalHint :=
  match snapshot, embedding with
  | some snapshot, some queryVec =>
      if message.isEmpty then []
      else
        let scored := snapshot.embeddings.filterMap (fun p =>
          let sim := libs.cosineSimilarity queryVec p.2
          if threshold ≤ sim then some ⟨p.1, sim, ⟨message, 0, message.length⟩⟩ else none)
        (scored.insertionSort closerFirst).take maxHints
  | _, _ => []

end Prepass

/-! ## 5. What is accepted -/

/-- The spans cut their texts out of the message, and no two of them have anything in common. -/
structure Free (message : Text) (spans : List Span) : Prop where
  texts : ∀ s ∈ spans, s.text = slice message s.start s.stop
  disjoint : spans.Pairwise (fun a b => a.stop ≤ b.start ∨ b.stop ≤ a.start)

section Accepted

variable {libs : RouterLibs} {message : Text} {spans : List Span}

theorem free_nil : Free message [] := ⟨fun _ h => absurd h List.not_mem_nil, List.Pairwise.nil⟩

/-- A span that overlaps with none of the others. -/
theorem Free.push (h : Free message spans) {start stop : ℕ}
    (hfree : overlaps spans ⟨slice message start stop, start, stop⟩ = false) :
    Free message (spans ++ [⟨slice message start stop, start, stop⟩]) := by
  refine ⟨?_, List.pairwise_append.mpr ⟨h.disjoint, List.pairwise_singleton _ _, ?_⟩⟩
  · intro s hs
    rcases List.mem_append.mp hs with hs | hs
    · exact h.texts s hs
    · rw [List.mem_singleton.mp hs]
  · intro a ha b hb
    rw [List.mem_singleton.mp hb]
    exact of_not_overlaps hfree ha

/-- A loop that keeps spans free leaves them free. -/
theorem free_foldl {α β : Type*} {spanOf : β → Span} {step : List β → α → List β}
    (hstep : ∀ acc a, Free message (acc.map spanOf) → Free message ((step acc a).map spanOf)) :
    ∀ (l : List α) (acc : List β), Free message (acc.map spanOf) →
      Free message ((l.foldl step acc).map spanOf) := by
  intro l
  induction l with
  | nil => exact fun _ h => h
  | cons a l ih => exact fun acc h => ih _ (hstep acc a h)

theorem free_pushIfFree {accepted : List Mention} (canonical : Text) (start stop : ℕ)
    (h : Free message (accepted.map Mention.span)) :
    Free message ((pushIfFree message canonical start stop accepted).map Mention.span) := by
  rw [pushIfFree]
  split
  · exact h
  · next hfree =>
      rw [List.map_append]
      exact h.push (Bool.eq_false_iff.mpr hfree)

/-- **The local mentions** are where their spans say, and do not overlap. -/
theorem extractMentionsLocally_spans (libs : RouterLibs) (message : Text)
    (knownNames : List Text) :
    Free message ((extractMentionsLocally libs message knownNames).map Mention.span) := by
  refine free_foldl (fun accepted canonical haccepted => ?_) _ [] free_nil
  have hform : Free message
      ((matchCanonicalForm libs message accepted canonical).map Mention.span) := by
    rw [matchCanonicalForm]
    split
    · exact haccepted
    · exact free_foldl (fun _ idx h => free_pushIfFree canonical idx _ h) _ _ haccepted
  rw [matchFirstTokenForm]
  split
  · dsimp only
    split
    · exact hform
    · refine free_foldl (fun acc idx h => ?_) _ _ hform
      split
      · exact free_pushIfFree canonical idx _ h
      · exact h
  · exact hform

/-- **The learned phrases** are where their spans say, and do not overlap. -/
theorem extractCollapseEditsLocally_spans (libs : RouterLibs) (message : Text)
    (patterns : List CollapsePattern) :
    Free message
      ((extractCollapseEditsLocally libs message patterns).map CollapseMatch.span) := by
  refine free_foldl (fun out p hout => ?_) _ [] free_nil
  rw [matchPattern]
  dsimp only
  split
  · exact hout
  · refine free_foldl (fun acc idx h => ?_) _ _ hout
    split
    · next hfree =>
        rw [Bool.and_eq_true, Bool.not_eq_true'] at hfree
        rw [List.map_append]
        exact h.push hfree.2
    · exact h

end Accepted

end Brain.ChatRouter
