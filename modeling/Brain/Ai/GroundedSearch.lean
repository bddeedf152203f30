/-
The search of `isGroundedSpan` (`src/src/ai/extractor-internals/grounding.ts`), on UTF-16
units as the source has them.

Each turn goes on one unit behind the occurrence that it has rejected, so that it passes over
no occurrence, also not over one that overlaps the rejected one; and each turn starts further
on than the one before, so that there are no more turns than units (`isGroundedSpan_decides`).
The scan that the extractor is modelled with decides the same on its characters
(`isGroundedSpan_iff`).
-/
import Brain.Ai.ExtractorInternals
import Brain.ChatRouter.LocalPrepass

set_option autoImplicit false

namespace Brain.GroundedSearch

open ChatRouter (Text indexOf indexOfFrom)

/-! ## 1. The search -/

/-- `SPACED_WORD_CHAR.test`, of a unit. -/
def isSpacedWordChar (u : UInt16) : Bool :=
  (decide (0x41 ≤ u) && decide (u ≤ 0x5A)) || (decide (0x61 ≤ u) && decide (u ≤ 0x7A)) ||
  (decide (0xC0 ≤ u) && decide (u ≤ 0x24F)) || (decide (0x400 ≤ u) && decide (u ≤ 0x4FF))

/-- `boundaryOk`. -/
def boundaryOk (adjacent edge : Option UInt16) : Bool :=
  match edge with
  | none => true
  | some edge =>
      if isSpacedWordChar edge then
        match adjacent with
        | none => true
        | some adjacent => !isSpacedWordChar adjacent
      else true

/-- The loop `for (;;)`, from a position on; without an answer if the turns are used up. -/
def searchFrom (input span : Text) : ℕ → ℕ → Option Bool
  | 0, _ => none
  | turns + 1, position =>
      match indexOfFrom input span position with
      | none => some false
      | some idx =>
          let before := if 0 < idx then input[idx - 1]? else none
          let after := input[idx + span.length]?
          if boundaryOk before span.head? && boundaryOk after span.getLast? then some true
          else searchFrom input span turns (idx + 1)

/-- `isGroundedSpan`, with a bound on the turns of its loop. -/
def isGroundedSpan (turns : ℕ) (normalizedInput normalizedSpan : Text) : Option Bool :=
  if normalizedSpan.isEmpty then some false else searchFrom normalizedInput normalizedSpan turns 0

/-! ## 2. Occurrences -/

section Occurrences

variable {α : Type} (isLetter : α → Bool) (input span : List α)

/-- On a side where the span has a letter at its edge there is no letter next to it. -/
def Apart (adjacent edge : Option α) : Prop :=
  ∀ e a, edge = some e → adjacent = some a → isLetter e = true → isLetter a = false

/-- The span stands at `idx`, and is not a piece of a longer word. -/
structure StandsAlone (idx : ℕ) : Prop where
  occurs : span <+: input.drop idx
  before : Apart isLetter (if 0 < idx then input[idx - 1]? else none) span.head?
  after : Apart isLetter input[idx + span.length]? span.getLast?

end Occurrences

variable {input span : Text} {turns position idx : ℕ}

theorem boundaryOk_iff {adjacent edge : Option UInt16} :
    boundaryOk adjacent edge = true ↔ Apart isSpacedWordChar adjacent edge := by
  cases edge with
  | none => simp [boundaryOk, Apart]
  | some e =>
      cases adjacent with
      | none => simp [boundaryOk, Apart]
      | some a =>
          cases he : isSpacedWordChar e with
          | true => simp [boundaryOk, Apart, he]
          | false => simp [boundaryOk, Apart, he]

/-- An occurrence ends within the input. -/
theorem lt_length_of_occurs (hspan : span ≠ []) (h : span <+: input.drop idx) :
    idx < input.length := by
  have hle := h.length_le
  have hpos := List.length_pos_iff.mpr hspan
  rw [List.length_drop] at hle
  omega

/-- Nothing is found from a position on if nothing stands there. -/
theorem not_occurs_of_indexOfFrom (h : indexOfFrom input span position = none)
    (hle : position ≤ idx) : ¬ span <+: input.drop idx := by
  intro hoccurs
  have hnone := ChatRouter.indexOf_eq_none_iff.mp (Option.map_eq_none_iff.mp h) (idx - position)
  rw [List.length_drop, List.drop_drop, Nat.add_sub_cancel' hle] at hnone
  by_cases hin : idx ≤ input.length
  · exact hnone (by omega) hoccurs
  · -- behind the end there is room for the empty text only, which stands at the end as well
    rw [List.drop_eq_nil_of_le (by omega), List.prefix_nil] at hoccurs
    have hend := ChatRouter.indexOf_eq_none_iff.mp (Option.map_eq_none_iff.mp h) 0 (Nat.zero_le _)
    exact hend (hoccurs ▸ List.nil_prefix)

/-- **The search from a position on**: with a turn for each unit that is left it has an answer,
which is whether the span stands alone somewhere from there on. -/
theorem searchFrom_eq (hspan : span ≠ []) : ∀ turns position : ℕ, position ≤ input.length →
    input.length < turns + position → ∃ answer, searchFrom input span turns position = some answer ∧
      (answer = true ↔ ∃ idx, position ≤ idx ∧ StandsAlone isSpacedWordChar input span idx) := by
  intro turns
  induction turns with
  | zero =>
      intro position hposition hturns
      omega
  | succ turns ih =>
      intro position hposition hturns
      rw [searchFrom]
      cases hfound : indexOfFrom input span position with
      | none =>
          refine ⟨false, rfl, iff_of_false Bool.false_ne_true ?_⟩
          rintro ⟨idx, hle, hidx⟩
          exact not_occurs_of_indexOfFrom hfound hle hidx.occurs
      | some idx =>
          obtain ⟨hle, hoccurs, hfirst⟩ := ChatRouter.prefix_of_indexOfFrom hfound
          have hlt := lt_length_of_occurs hspan hoccurs
          dsimp only
          by_cases hok : (boundaryOk (if 0 < idx then input[idx - 1]? else none) span.head? &&
              boundaryOk input[idx + span.length]? span.getLast?) = true
          · rw [if_pos hok]
            rw [Bool.and_eq_true, boundaryOk_iff, boundaryOk_iff] at hok
            exact ⟨true, rfl, iff_of_true rfl ⟨idx, hle, hoccurs, hok.1, hok.2⟩⟩
          · rw [if_neg hok]
            rw [Bool.and_eq_true, boundaryOk_iff, boundaryOk_iff] at hok
            obtain ⟨answer, hanswer, hiff⟩ := ih (idx + 1) (by omega) (by omega)
            refine ⟨answer, hanswer, hiff.trans ⟨?_, ?_⟩⟩
            · rintro ⟨i, hi, halone⟩
              exact ⟨i, by omega, halone⟩
            · rintro ⟨i, hi, halone⟩
              -- it is not the rejected one, and there is none before that
              have hge : idx ≤ i := by
                by_contra hlt'
                exact hfirst i hi (by omega) halone.occurs
              have hne : i ≠ idx := by
                rintro rfl
                exact hok ⟨halone.before, halone.after⟩
              exact ⟨i, by omega, halone⟩

/-- **`isGroundedSpan` decides whether the span stands alone somewhere in the input.** As many
turns as there are units, and one more, are enough for an answer; more do not change it. -/
theorem isGroundedSpan_decides (input span : Text) (hspan : span ≠ []) :
    ∃ answer, (∀ turns, input.length < turns → isGroundedSpan turns input span = some answer) ∧
      (answer = true ↔ ∃ idx, StandsAlone isSpacedWordChar input span idx) := by
  have hne : span.isEmpty = false := List.isEmpty_eq_false_iff.mpr hspan
  have heq : ∀ turns, isGroundedSpan turns input span = searchFrom input span turns 0 := by
    intro turns
    rw [isGroundedSpan, hne, if_neg Bool.false_ne_true]
  obtain ⟨answer, hanswer, hiff⟩ := searchFrom_eq hspan (input.length + 1) 0
    (Nat.zero_le input.length) (Nat.lt_succ_self _)
  refine ⟨answer, fun turns hturns => ?_, hiff.trans ?_⟩
  · -- the answers of two searches are the answer to one question
    obtain ⟨answer', hanswer', hiff'⟩ := searchFrom_eq hspan turns 0 (Nat.zero_le input.length)
      (by omega)
    have hsame : answer' = answer := Bool.eq_iff_iff.mpr (hiff'.trans hiff.symm)
    rw [heq, hanswer', hsame]
  · exact ⟨fun ⟨idx, _, h⟩ => ⟨idx, h⟩, fun ⟨idx, h⟩ => ⟨idx, Nat.zero_le idx, h⟩⟩

/-- `aba` in `xababa y`: the first occurrence starts within a word, the one that overlaps it and
ends the word does as well, and there is no other. -/
theorem isGroundedSpan_decides_aba :
    ∃ answer, (∀ turns, (ChatRouter.units "xababa y").length < turns →
        isGroundedSpan turns (ChatRouter.units "xababa y") (ChatRouter.units "aba") = some answer) ∧
      (answer = true ↔ ∃ idx, StandsAlone isSpacedWordChar (ChatRouter.units "xababa y")
        (ChatRouter.units "aba") idx) :=
  isGroundedSpan_decides _ _ (by decide)

/-! ## 3. The scan over the characters -/

section Characters

variable {input span before rest : List Char} {c : Char}

theorem boundaryOk_char_iff {adjacent : Option Char} {edge : Char} :
    Brain.boundaryOk adjacent edge = true ↔ Apart SPACED_WORD_CHAR adjacent (some edge) := by
  cases adjacent with
  | none => simp [Brain.boundaryOk, Apart]
  | some a =>
      cases he : SPACED_WORD_CHAR edge with
      | true => simp [Brain.boundaryOk, Apart, he]
      | false => simp [Brain.boundaryOk, Apart, he]

/-- The character before the rest of the input. -/
theorem getLast?_eq_before (before rest : List Char) :
    before.getLast? = if 0 < before.length then (before ++ rest)[before.length - 1]? else none := by
  cases before with
  | nil => rfl
  | cons c cs =>
      have hpos : 0 < (c :: cs).length := Nat.zero_lt_succ _
      rw [if_pos hpos, List.getLast?_eq_getElem?,
        List.getElem?_append_left (Nat.sub_lt hpos Nat.one_pos)]

/-- The scan looks at every place from where it is. -/
theorem groundedFrom_iff {first last : Char} (hfirst : span.head? = some first)
    (hlast : span.getLast? = some last) (hspan : span ≠ []) : ∀ rest before : List Char,
    groundedFrom span first last before.getLast? rest = true ↔
      ∃ idx, before.length ≤ idx ∧ StandsAlone SPACED_WORD_CHAR (before ++ rest) span idx := by
  intro rest
  induction rest with
  | nil =>
      intro before
      refine iff_of_false Bool.false_ne_true ?_
      rintro ⟨idx, hle, halone⟩
      have hoccurs := halone.occurs
      rw [List.append_nil, List.drop_eq_nil_of_le hle, List.prefix_nil] at hoccurs
      exact hspan hoccurs
  | cons c rest ih =>
      intro before
      have hdrop : (before ++ c :: rest).drop before.length = c :: rest := List.drop_left
      have hhere : (span.isPrefixOf (c :: rest) && Brain.boundaryOk before.getLast? first &&
          Brain.boundaryOk ((c :: rest).drop span.length).head? last) = true ↔
          StandsAlone SPACED_WORD_CHAR (before ++ c :: rest) span before.length := by
        have hafter : ((c :: rest).drop span.length).head?
            = (before ++ c :: rest)[before.length + span.length]? := by
          rw [← List.getElem?_drop, hdrop, List.head?_drop]
        rw [Bool.and_eq_true, Bool.and_eq_true, List.isPrefixOf_iff_prefix, boundaryOk_char_iff,
          boundaryOk_char_iff, hafter, getLast?_eq_before before (c :: rest), ← hfirst, ← hlast]
        constructor
        · rintro ⟨⟨hoccurs, hbefore⟩, hafter⟩
          exact ⟨by rw [hdrop]; exact hoccurs, hbefore, hafter⟩
        · rintro ⟨hoccurs, hbefore, hafter⟩
          rw [hdrop] at hoccurs
          exact ⟨⟨hoccurs, hbefore⟩, hafter⟩
      have hnext := ih (before ++ [c])
      rw [List.getLast?_append, List.getLast?_singleton, List.append_assoc,
        List.singleton_append, List.length_append, List.length_singleton] at hnext
      rw [groundedFrom, Bool.or_eq_true, hhere]
      refine (or_congr_right hnext).trans ⟨?_, ?_⟩
      · rintro (halone | ⟨idx, hle, halone⟩)
        · exact ⟨before.length, le_rfl, halone⟩
        · exact ⟨idx, by omega, halone⟩
      · rintro ⟨idx, hle, halone⟩
        rcases hle.eq_or_lt with rfl | hlt
        · exact Or.inl halone
        · exact Or.inr ⟨idx, hlt, halone⟩

/-- **The scan decides the same on characters** as the search does on units. -/
theorem isGroundedSpan_iff {input span : String} (hspan : span.toList ≠ []) :
    Brain.isGroundedSpan input span = true ↔
      ∃ idx, StandsAlone SPACED_WORD_CHAR input.toList span.toList idx := by
  unfold Brain.isGroundedSpan
  split
  · next hnil => exact absurd hnil hspan
  · next c cs hcons =>
      have hlast : (c :: cs).getLast? = some ((c :: cs).getLastD c) := by
        rw [List.getLastD_eq_getLast?, List.getLast?_eq_some_getLast (List.cons_ne_nil c cs),
          Option.getD_some]
      refine (groundedFrom_iff rfl hlast (List.cons_ne_nil c cs) input.toList []).trans ?_
      rw [hcons]
      exact ⟨fun ⟨idx, _, h⟩ => ⟨idx, h⟩, fun ⟨idx, h⟩ => ⟨idx, Nat.zero_le idx, h⟩⟩

end Characters

end Brain.GroundedSearch
