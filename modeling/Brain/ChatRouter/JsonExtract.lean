/-
`src/src/admin/chat-router-internals/validator.ts`: `extractJsonObject`, which finds the JSON
object in a model's reply.

It looks for a code fence first, and then counts braces outside of strings from the first brace
on. The counting finds the object whatever its nesting and its strings are
(`scanObject_object`). The fence is looked for in the text as it is, the strings of the object
included: an object whose strings have two fences between them is cut out of itself, and any
other object is found (`extractJsonObject_eq_iff`).
-/
import Brain.ChatRouter.Validator
import Brain.Lib.JsonText
import Mathlib.Data.List.DropRight
import Mathlib.Data.List.TakeWhile

set_option autoImplicit false

namespace Brain.ChatRouter

open Splice (slice)
open JsonText (unit)

/-! ## The function -/

/-- Three backticks. -/
def FENCE : Text := units "```"

/-- The text before the first occurrence of `t` and the text behind it. -/
def cutAt (t : Text) : Text → Option (Text × Text)
  | [] => if t.isPrefixOf [] then some ([], []) else none
  | u :: rest =>
      if t.isPrefixOf (u :: rest) then some ([], (u :: rest).drop t.length)
      else (cutAt t rest).map (fun q => (u :: q.1, q.2))

/-- A letter A to Z, in lower case. -/
def lowerUnit (u : UInt16) : UInt16 := if 0x41 ≤ u ∧ u ≤ 0x5A then u + 0x20 else u

/-- `(?:json)?` under the flag `i`. -/
def dropJson (s : Text) : Text :=
  if (s.take 4).map lowerUnit = units "json" then s.drop 4 else s

/-- The group that the fence pattern captures: between the first fence, with `json` and white
space behind it, and the next one. Neither of the two can begin a fence, so the pattern has no
reason to give them back. -/
def fencedBody (s : Text) : Option Text :=
  match cutAt FENCE s with
  | none => none
  | some (_, rest) =>
      match cutAt FENCE ((dropJson rest).dropWhile isSpace) with
      | none => none
      | some (body, _) => some body

/-- The loop, from a unit on: how many units it takes to the brace that closes the object. -/
def scanObject : Text → ℤ → Bool → Bool → Option ℕ
  | [], _, _, _ => none
  | c :: rest, depth, inStr, escape =>
      if escape then (scanObject rest depth inStr false).map (· + 1)
      else if c = unit '\\' then (scanObject rest depth inStr true).map (· + 1)
      else if c = unit '"' then (scanObject rest depth (!inStr) false).map (· + 1)
      else if inStr then (scanObject rest depth inStr false).map (· + 1)
      else if c = unit '\x7b' then (scanObject rest (depth + 1) inStr false).map (· + 1)
      else if c = unit '\x7d' then
        if depth - 1 = 0 then some 1
        else (scanObject rest (depth - 1) inStr false).map (· + 1)
      else (scanObject rest depth inStr false).map (· + 1)

/-- `extractJsonObject`; an error is the message that is thrown. -/
def extractJsonObject (raw : Text) : Except String Text :=
  let trimmed := trim raw
  let inner := match fencedBody trimmed with
    | some body => trim body
    | none => trimmed
  match indexOf inner [unit '\x7b'] with
  | none => .error "no JSON object found in router response"
  | some start =>
      match scanObject (inner.drop start) 0 false false with
      | none => .error "unterminated JSON object in router response"
      | some n => .ok (slice inner start (start + n))

/-! ## Counting braces -/

section Scan

variable {s : Text} {depth : ℤ} {k : ℕ}

/-- The loop goes through `s` at any depth but zero, and is where it was behind it. -/
def PassesThrough (s : Text) : Prop :=
  ∀ (rest : Text) (depth : ℤ), 0 < depth →
    scanObject (s ++ rest) depth false false
      = (scanObject rest depth false false).map (· + s.length)

theorem PassesThrough.append {t : Text} (hs : PassesThrough s) (ht : PassesThrough t) :
    PassesThrough (s ++ t) := by
  intro rest depth hd
  rw [List.append_assoc, hs _ _ hd, ht _ _ hd, Option.map_map, List.length_append]
  congr 1
  funext n
  simp only [Function.comp_apply]
  omega

theorem passesThrough_nil : PassesThrough [] := by
  intro rest depth _
  simp

/-- A unit without a meaning changes nothing. -/
theorem passesThrough_of_inert (h : JsonText.Inert s) : PassesThrough s := by
  induction s with
  | nil => exact passesThrough_nil
  | cons u s ih =>
      obtain ⟨hesc, hquote, hopen, hclose⟩ := h u List.mem_cons_self
      intro rest depth hd
      rw [List.cons_append, scanObject, if_neg Bool.false_ne_true, if_neg hesc, if_neg hquote,
        if_neg Bool.false_ne_true, if_neg hopen, if_neg hclose,
        ih (fun v hv => h v (List.mem_cons_of_mem _ hv)) _ _ hd, Option.map_map, List.length_cons]
      rfl

/-- Inside a string, one unit that is neither a quote nor a backslash. -/
theorem scanObject_plain {u : UInt16} {rest : Text} (hquote : u ≠ unit '"') (hesc : u ≠ unit '\\') :
    scanObject (u :: rest) depth true false
      = (scanObject rest depth true false).map (· + 1) := by
  rw [scanObject, if_neg Bool.false_ne_true, if_neg hesc, if_neg hquote, if_pos rfl]

/-- Inside a string, a backslash and whatever stands behind it. -/
theorem scanObject_escape {u : UInt16} {rest : Text} :
    scanObject (unit '\\' :: u :: rest) depth true false
      = (scanObject rest depth true false).map (· + 2) := by
  rw [scanObject, if_neg Bool.false_ne_true, if_pos rfl, scanObject, if_pos rfl, Option.map_map]
  rfl

theorem ne_of_isHex {u : UInt16} (h : JsonText.IsHex u) : u ≠ unit '"' ∧ u ≠ unit '\\' := by
  have hall : JsonText.Inert (JsonText.ascii "0123456789abcdefABCDEF") := by decide
  obtain ⟨hescape, hquote, _⟩ := hall u h
  exact ⟨hquote, hescape⟩

/-- **The contents of a string** leave the loop inside of it. -/
theorem scanObject_chars {cs : Text} (h : JsonText.IsChars cs) (rest : Text) (depth : ℤ) :
    scanObject (cs ++ rest) depth true false
      = (scanObject rest depth true false).map (· + cs.length) := by
  induction h with
  | nil => simp
  | plain hu _ ih =>
      rw [List.cons_append, scanObject_plain hu.2.1 hu.2.2, ih, Option.map_map, List.length_cons]
      rfl
  | escape _ _ ih =>
      rw [List.cons_append, List.cons_append, scanObject_escape, ih, Option.map_map,
        List.length_cons, List.length_cons]
      rfl
  | unicode ha hb hc hd _ ih =>
      simp only [List.cons_append]
      rw [scanObject_escape, scanObject_plain (ne_of_isHex ha).1 (ne_of_isHex ha).2,
        scanObject_plain (ne_of_isHex hb).1 (ne_of_isHex hb).2,
        scanObject_plain (ne_of_isHex hc).1 (ne_of_isHex hc).2,
        scanObject_plain (ne_of_isHex hd).1 (ne_of_isHex hd).2, ih]
      simp only [Option.map_map, List.length_cons]
      rfl

/-- A text between two units, and what stands behind it. -/
theorem between_append (u v : UInt16) (s rest : Text) :
    u :: s ++ [v] ++ rest = u :: (s ++ v :: rest) := by simp

theorem passesThrough_string (h : JsonText.IsString s) : PassesThrough s := by
  obtain ⟨cs, hcs, rfl⟩ := h
  intro rest depth _
  have hquote : unit '"' ≠ unit '\\' := by decide
  -- the quotes turn the flag on and off
  rw [between_append, scanObject, if_neg Bool.false_ne_true, if_neg hquote,
    if_pos rfl, Bool.not_false, scanObject_chars hcs, scanObject,
    if_neg Bool.false_ne_true, if_neg hquote, if_pos rfl, Bool.not_true]
  simp only [Option.map_map, List.length_append, List.length_cons, List.length_nil]
  congr 1
  funext n
  simp only [Function.comp_apply]
  omega

/-- At a brace that opens. -/
theorem scanObject_open (rest : Text) :
    scanObject (unit '\x7b' :: rest) depth false false
      = (scanObject rest (depth + 1) false false).map (· + 1) := by
  rw [scanObject, if_neg Bool.false_ne_true, if_neg (by decide), if_neg (by decide),
    if_neg Bool.false_ne_true, if_pos rfl]

/-- At a brace that closes. -/
theorem scanObject_close (rest : Text) :
    scanObject (unit '\x7d' :: rest) depth false false
      = if depth - 1 = 0 then some 1
        else (scanObject rest (depth - 1) false false).map (· + 1) := by
  rw [scanObject, if_neg Bool.false_ne_true, if_neg (by decide), if_neg (by decide),
    if_neg Bool.false_ne_true, if_neg (by decide), if_pos rfl]

/-- Braces around what the loop goes through. -/
theorem PassesThrough.braces (h : PassesThrough s) :
    PassesThrough (unit '\x7b' :: s ++ [unit '\x7d']) := by
  intro rest depth hd
  rw [between_append, scanObject_open, h _ _ (by omega), scanObject_close, if_neg (by omega)]
  simp only [Option.map_map, List.length_append, List.length_cons, List.length_nil]
  have hdepth : depth + 1 - 1 = depth := by omega
  rw [hdepth]
  congr 1
  funext n
  simp only [Function.comp_apply]
  omega

/-- **The loop goes through every text of the grammar.** The induction is on its
derivation. -/
theorem passesThrough_of_isText {kind : JsonText.Kind} (h : JsonText.IsText kind s) :
    PassesThrough s := by
  have hsep : ∀ u ∈ [unit ',', unit ':', unit '[', unit ']'], PassesThrough [u] := by
    intro u hu
    have hall : JsonText.Inert [unit ',', unit ':', unit '[', unit ']'] := by decide
    refine passesThrough_of_inert (fun v hv => ?_)
    exact hall v (List.mem_singleton.mp hv ▸ hu)
  induction h with
  | literal h => exact passesThrough_of_inert (JsonText.inert_literal h)
  | number h => exact passesThrough_of_inert h.inert
  | string h => exact passesThrough_string h
  | emptyObject hw => exact (passesThrough_of_inert hw.inert).braces
  | object _ ih => exact ih.braces
  | emptyArray hw =>
      exact ((hsep (unit '[') (by simp)).append (passesThrough_of_inert hw.inert)).append
        (hsep (unit ']') (by simp))
  | array _ ih => exact ((hsep (unit '[') (by simp)).append ih).append (hsep (unit ']') (by simp))
  | member hw₁ hk hw₂ hw₃ _ hw₄ ih =>
      have hkey := (passesThrough_of_inert hw₁.inert).append (passesThrough_string hk)
      have hcolon := (hkey.append (passesThrough_of_inert hw₂.inert)).append
        (hsep (unit ':') (by simp))
      exact ((hcolon.append (passesThrough_of_inert hw₃.inert)).append ih).append
        (passesThrough_of_inert hw₄.inert)
  | moreMembers _ _ ihm ihn => exact (ihm.append (hsep (unit ',') (by simp))).append ihn
  | element hw₁ _ hw₂ ih =>
      exact ((passesThrough_of_inert hw₁.inert).append ih).append
        (passesThrough_of_inert hw₂.inert)
  | moreElements _ _ ihm ihn => exact (ihm.append (hsep (unit ',') (by simp))).append ihn

/-- **From the brace of an object, the loop ends at the brace that closes it**, whatever
stands behind. -/
theorem scanObject_object (h : JsonText.IsObject s) (rest : Text) :
    scanObject (s ++ rest) 0 false false = some s.length := by
  obtain ⟨m, rfl, hm⟩ := h
  have hpass : PassesThrough m := by
    rcases hm with hw | hm
    · exact passesThrough_of_inert hw.inert
    · exact passesThrough_of_isText hm
  rw [between_append, scanObject_open, hpass _ _ (by omega), scanObject_close,
    if_pos (by omega)]
  simp only [Option.map_some, List.length_append, List.length_cons, List.length_nil]
  congr 1
  omega

end Scan

/-! ## Looking for fences -/

section Fences

variable {t s p q x y : Text} {u : UInt16}

theorem cutAt_eq_some (h : cutAt t s = some (x, y)) : s = x ++ t ++ y := by
  induction s generalizing x with
  | nil =>
      rw [cutAt] at h
      split at h
      · next hpre =>
          cases h
          have ht : t = [] := List.prefix_nil.mp (List.isPrefixOf_iff_prefix.mp hpre)
          simp [ht]
      · cases h
  | cons u rest ih =>
      rw [cutAt] at h
      split at h
      · next hpre =>
          cases h
          rw [List.nil_append]
          exact (List.prefix_append_drop (List.isPrefixOf_iff_prefix.mp hpre))
      · obtain ⟨⟨x', y'⟩, hcut, heq⟩ := Option.map_eq_some_iff.mp h
        obtain ⟨rfl, rfl⟩ := Prod.mk.inj heq
        rw [ih hcut, List.cons_append, List.cons_append]

theorem cutAt_eq_none_iff : cutAt t s = none ↔ ¬ t <:+: s := by
  induction s with
  | nil =>
      rw [cutAt]
      by_cases ht : t = []
      · simp [ht]
      · simp [ht]
  | cons u rest ih =>
      rw [cutAt, List.infix_cons_iff, ← List.isPrefixOf_iff_prefix]
      by_cases hpre : t.isPrefixOf (u :: rest) = true
      · simp [hpre]
      · rw [if_neg hpre, Option.map_eq_none_iff, ih]
        simp [hpre]

/-- The cut is at the first occurrence. -/
theorem length_le_of_cutAt (h : cutAt t s = some (x, y)) {a b : Text} (hs : s = a ++ t ++ b) :
    x.length ≤ a.length := by
  induction s generalizing x a with
  | nil =>
      have hx : x = [] ∧ t = [] ∧ y = [] := by simpa using (cutAt_eq_some h).symm
      simp [hx.1]
  | cons u rest ih =>
      rw [cutAt] at h
      split at h
      · cases h
        simp
      · next hpre =>
          obtain ⟨⟨x', y'⟩, hcut, heq⟩ := Option.map_eq_some_iff.mp h
          obtain ⟨rfl, rfl⟩ := Prod.mk.inj heq
          cases a with
          | nil =>
              exact absurd (List.isPrefixOf_iff_prefix.mpr ⟨b, by rw [hs, List.nil_append]⟩) hpre
          | cons v a =>
              obtain ⟨-, hrest⟩ := List.cons.inj hs
              have hle := ih hcut hrest
              simpa using hle

/-- A unit that is not in `t` stops a prefix. -/
theorem prefix_append_cons_iff (hu : u ∉ t) : t <+: p ++ u :: q ↔ t <+: p := by
  constructor
  · rintro ⟨z, hz⟩
    rcases List.append_eq_append_iff.mp hz with ⟨c, rfl, -⟩ | ⟨c, rfl, hc⟩
    · exact List.prefix_append t c
    · cases c with
      | nil => exact ⟨[], by simp⟩
      | cons v c =>
          obtain ⟨rfl, -⟩ := List.cons.inj hc
          exact absurd (List.mem_append_right _ List.mem_cons_self) hu
  · exact fun h => h.trans (List.prefix_append p _)

/-- Behind a text without an occurrence of `t`, and a unit that is not in `t`. -/
theorem cutAt_append_left (hu : u ∉ t) (hp : ¬ t <:+: p) :
    cutAt t (p ++ u :: s) = (cutAt t s).map (fun c => (p ++ u :: c.1, c.2)) := by
  have hno : ∀ l : Text, ¬ t <:+: l → ¬ t.isPrefixOf (l ++ u :: s) = true := by
    intro l hl hpre
    exact hl ((prefix_append_cons_iff hu).mp (List.isPrefixOf_iff_prefix.mp hpre)).isInfix
  induction p with
  | nil =>
      have h := hno [] hp
      rw [List.nil_append] at h
      rw [List.nil_append, cutAt, if_neg h]
      rfl
  | cons v p ih =>
      have hp' : ¬ t <:+: p := fun h => hp (h.trans (List.suffix_cons v p).isInfix)
      have hpre := hno (v :: p) hp
      rw [List.cons_append] at hpre ⊢
      rw [cutAt, if_neg hpre, ih hp', Option.map_map]
      rfl

/-- Before a unit that is not in `t`, and a text without an occurrence of `t`. -/
theorem cutAt_append_right (ht : t ≠ []) (hu : u ∉ t) (hq : ¬ t <:+: q) :
    cutAt t (s ++ u :: q) = (cutAt t s).map (fun c => (c.1, c.2 ++ u :: q)) := by
  induction s with
  | nil =>
      have hnil : cutAt t [] = none := by
        rw [cutAt_eq_none_iff, List.infix_nil]
        exact ht
      have hnone : cutAt t (u :: q) = none := by
        rw [cutAt_eq_none_iff, List.infix_cons_iff, not_or]
        exact ⟨fun h => ht (List.prefix_nil.mp ((prefix_append_cons_iff (p := []) hu).mp h)), hq⟩
      rw [List.nil_append, hnone, hnil, Option.map_none]
  | cons v s ih =>
      have hiff : t.isPrefixOf (v :: (s ++ u :: q)) = true ↔ t.isPrefixOf (v :: s) = true := by
        rw [List.isPrefixOf_iff_prefix, List.isPrefixOf_iff_prefix, ← List.cons_append,
          prefix_append_cons_iff hu]
      rw [List.cons_append, cutAt, cutAt]
      by_cases hpre : t.isPrefixOf (v :: s) = true
      · have hle := (List.isPrefixOf_iff_prefix.mp hpre).length_le
        rw [if_pos hpre, if_pos (hiff.mpr hpre), ← List.cons_append,
          List.drop_append_of_le_length hle]
        rfl
      · rw [if_neg hpre, if_neg (fun h => hpre (hiff.mp h)), ih, Option.map_map, Option.map_map]
        rfl

/-- A text has a second fence behind a first one. -/
def TwoFences (s : Text) : Prop := ∃ a b c, s = a ++ FENCE ++ b ++ FENCE ++ c

theorem FENCE_eq : FENCE = [0x60, 0x60, 0x60] := by decide

/-- Units that are not in a fence can be dropped before one. -/
theorem infix_of_append (h : FENCE <:+: p ++ s) (hp : ∀ v ∈ p, v ≠ 0x60) : FENCE <:+: s := by
  induction p with
  | nil => exact h
  | cons v p ih =>
      rw [List.cons_append, List.infix_cons_iff] at h
      rcases h with ⟨z, hz⟩ | h
      · rw [FENCE_eq] at hz
        exact absurd (List.cons.inj hz).1.symm (hp v List.mem_cons_self)
      · exact ih h (fun w hw => hp w (List.mem_cons_of_mem _ hw))

theorem dropJson_cases (s : Text) :
    ∃ j, s = j ++ dropJson s ∧ ∀ v ∈ j, v ≠ 0x60 := by
  unfold dropJson
  split
  · next hjson =>
      refine ⟨s.take 4, (List.take_append_drop 4 s).symm, fun v hv hv' => ?_⟩
      have hmem : lowerUnit v ∈ units "json" := hjson ▸ List.mem_map_of_mem hv
      rw [hv'] at hmem
      revert hmem
      decide
  · exact ⟨[], rfl, by simp⟩

theorem dropWhile_isSpace_cases (s : Text) :
    ∃ w, s = w ++ s.dropWhile isSpace ∧ ∀ v ∈ w, v ≠ 0x60 := by
  refine ⟨s.takeWhile isSpace, List.takeWhile_append_dropWhile.symm, fun v hv hv' => ?_⟩
  have hspace := List.mem_takeWhile_imp hv
  rw [hv'] at hspace
  revert hspace
  decide

/-- **The fence pattern matches a text that has two fences.** -/
theorem fencedBody_eq_none_iff : fencedBody s = none ↔ ¬ TwoFences s := by
  obtain hcut | ⟨⟨x, rest⟩, hcut⟩ : cutAt FENCE s = none ∨ ∃ c, cutAt FENCE s = some c := by
    cases cutAt FENCE s <;> simp
  · have hno := cutAt_eq_none_iff.mp hcut
    refine iff_of_true (by rw [fencedBody, hcut]) ?_
    rintro ⟨a, b, c, rfl⟩
    exact hno ⟨a, b ++ FENCE ++ c, by simp only [List.append_assoc]⟩
  · have hs := cutAt_eq_some hcut
    obtain ⟨j, hj, hjno⟩ := dropJson_cases rest
    obtain ⟨w, hw, hwno⟩ := dropWhile_isSpace_cases (dropJson rest)
    have hbody : fencedBody s = none ↔ ¬ FENCE <:+: (dropJson rest).dropWhile isSpace := by
      rw [← cutAt_eq_none_iff, fencedBody, hcut]
      dsimp only
      cases cutAt FENCE ((dropJson rest).dropWhile isSpace) <;> simp
    rw [hbody]
    refine not_congr ⟨?_, ?_⟩
    · rintro ⟨a, c, hac⟩
      refine ⟨x, j ++ w ++ a, c, ?_⟩
      rw [hs, hj, hw, ← hac]
      simp only [List.append_assoc]
    · -- what is behind the first fence of all holds the second one of any two
      rintro ⟨a, b, c, habc⟩
      have habc' : s = a ++ FENCE ++ (b ++ FENCE ++ c) := by
        rw [habc]
        simp only [List.append_assoc]
      have hle := length_le_of_cutAt hcut habc'
      have hdrop : b ++ FENCE ++ c = rest.drop (a.length - x.length) := by
        have hl : s.drop (a.length + FENCE.length) = b ++ FENCE ++ c := by
          rw [habc', ← List.length_append, List.drop_left]
        have hr : s.drop (x.length + FENCE.length) = rest := by
          rw [hs, ← List.length_append, List.drop_left]
        rw [← hl, ← hr, List.drop_drop]
        congr 1
        omega
      have hrest : FENCE <:+: rest := by
        have hin : FENCE <:+: rest.drop (a.length - x.length) := ⟨b, c, hdrop⟩
        exact hin.trans (List.drop_suffix _ _).isInfix
      have hjson : FENCE <:+: dropJson rest := infix_of_append (hj ▸ hrest) hjno
      exact infix_of_append (hw ▸ hjson) hwno

/-- What is captured is shorter than the text. -/
theorem length_fencedBody_le (h : fencedBody s = some x) : x.length ≤ s.length := by
  unfold fencedBody at h
  split at h
  · cases h
  · next a rest hcut =>
      split at h
      · cases h
      · next body y hcut' =>
          cases h
          obtain ⟨j, hj, -⟩ := dropJson_cases rest
          obtain ⟨w, hw, -⟩ := dropWhile_isSpace_cases (dropJson rest)
          have h₁ := congrArg List.length (cutAt_eq_some hcut)
          have h₂ := congrArg List.length hj
          have h₃ := congrArg List.length hw
          have h₄ := congrArg List.length (cutAt_eq_some hcut')
          simp only [List.length_append] at h₁ h₂ h₃ h₄
          omega

theorem dropJson_append (hu : lowerUnit u ∉ units "json") :
    dropJson (s ++ u :: q) = dropJson s ++ u :: q := by
  by_cases hlen : 4 ≤ s.length
  · rw [dropJson, dropJson, List.take_append_of_le_length hlen,
      List.drop_append_of_le_length hlen]
    split <;> rfl
  · -- the four units have `u` among them
    have hshort : (s.take 4).map lowerUnit ≠ units "json" := by
      intro h
      have hl := congrArg List.length h
      rw [List.length_map, List.length_take] at hl
      have hfour : (units "json").length = 4 := by decide
      omega
    have hlong : ((s ++ u :: q).take 4).map lowerUnit ≠ units "json" := by
      intro h
      apply hu
      rw [← h]
      refine List.mem_map_of_mem ?_
      rw [List.take_append]
      refine List.mem_append_right _ ?_
      obtain ⟨n, hn⟩ := Nat.exists_eq_succ_of_ne_zero (show 4 - s.length ≠ 0 by omega)
      rw [hn, List.take_succ_cons]
      exact List.mem_cons_self
    rw [dropJson, dropJson, if_neg hshort, if_neg hlong]

theorem dropWhile_append_cons {f : UInt16 → Bool} (hu : f u = false) :
    (s ++ u :: q).dropWhile f = s.dropWhile f ++ u :: q := by
  induction s with
  | nil => rw [List.nil_append, List.dropWhile_cons, hu]; rfl
  | cons v s ih =>
      rw [List.cons_append, List.dropWhile_cons, List.dropWhile_cons]
      split
      · exact ih
      · rfl

/-- **Fences around an object do not matter that are none**: the pattern matches in a text just
as it does between the braces of the object in it. -/
theorem fencedBody_between (hp : ¬ FENCE <:+: p) (hq : ¬ FENCE <:+: q) :
    fencedBody (p ++ (unit '\x7b' :: s ++ [unit '\x7d']) ++ q) = fencedBody s := by
  have hshape : p ++ (unit '\x7b' :: s ++ [unit '\x7d']) ++ q
      = p ++ unit '\x7b' :: (s ++ unit '\x7d' :: q) := by simp
  have hne : FENCE ≠ [] := by decide
  have hopen : unit '\x7b' ∉ FENCE := by decide
  have hclose : unit '\x7d' ∉ FENCE := by decide
  rw [hshape, fencedBody, fencedBody, cutAt_append_left hopen hp,
    cutAt_append_right hne hclose hq, Option.map_map]
  cases cutAt FENCE s with
  | none => rfl
  | some c =>
      obtain ⟨x, rest⟩ := c
      simp only [Option.map_some, Function.comp_apply]
      rw [dropJson_append (by decide), dropWhile_append_cons (by decide),
        cutAt_append_right hne hclose hq]
      cases cutAt FENCE ((dropJson rest).dropWhile isSpace) <;> rfl

end Fences

/-! ## Which objects are found -/

section Extract

variable {s p q : Text}

/-- `trim`, without what is inside. -/
theorem trim_between {u v : UInt16} (hu : isSpace u = false) (hv : isSpace v = false)
    (m : Text) :
    trim (p ++ (u :: m ++ [v]) ++ q)
      = p.dropWhile isSpace ++ (u :: m ++ [v]) ++ q.rdropWhile isSpace := by
  have hshape : p ++ (u :: m ++ [v]) ++ q = p ++ u :: (m ++ v :: q) := by simp
  have hrev : (p.dropWhile isSpace ++ u :: (m ++ v :: q)).reverse
      = q.reverse ++ v :: (m.reverse ++ u :: (p.dropWhile isSpace).reverse) := by simp
  rw [hshape, trim, dropWhile_append_cons hu, hrev, dropWhile_append_cons hv, List.rdropWhile]
  simp

theorem length_trim_le (s : Text) : (trim s).length ≤ s.length := by
  rw [trim, List.length_reverse]
  refine (List.dropWhile_suffix _).length_le.trans ?_
  rw [List.length_reverse]
  exact (List.dropWhile_suffix _).length_le

/-- What is returned is no longer than what is looked through. -/
theorem length_le_of_extractJsonObject {raw : Text} (h : extractJsonObject raw = .ok s) :
    s.length ≤ (match fencedBody (trim raw) with
      | some body => trim body
      | none => trim raw).length := by
  rw [extractJsonObject] at h
  split at h
  · cases h
  · split at h
    · cases h
    · cases h
      rw [slice, List.length_drop, List.length_take]
      omega

/-- **Exactly which objects are found**: behind any text without a brace or a fence, and before
any text without a fence, an object is found if and only if it does not have two fences in
itself. -/
theorem extractJsonObject_eq_iff (hs : JsonText.IsObject s) (hbrace : unit '\x7b' ∉ p)
    (hp : ¬ FENCE <:+: p) (hq : ¬ FENCE <:+: q) :
    extractJsonObject (p ++ s ++ q) = .ok s ↔ ¬ TwoFences s := by
  obtain ⟨m, hm, -⟩ := id hs
  -- trimming leaves an object between two texts of the same kind
  have htrim : trim (p ++ s ++ q) = p.dropWhile isSpace ++ s ++ q.rdropWhile isSpace := by
    rw [hm]
    exact trim_between (by decide) (by decide) m
  have hp' : ¬ FENCE <:+: p.dropWhile isSpace :=
    fun h => hp (h.trans (List.dropWhile_suffix _).isInfix)
  have hq' : ¬ FENCE <:+: q.rdropWhile isSpace :=
    fun h => hq (h.trans (List.rdropWhile_prefix _ _).isInfix)
  have hbrace' : unit '\x7b' ∉ p.dropWhile isSpace :=
    fun h => hbrace ((List.dropWhile_suffix _).subset h)
  have hfenced : fencedBody (trim (p ++ s ++ q)) = fencedBody m := by
    rw [htrim, hm]
    exact fencedBody_between hp' hq'
  have hself : fencedBody s = fencedBody m := by
    have h := fencedBody_between (p := []) (q := []) (s := m) (by decide) (by decide)
    rwa [List.nil_append, List.append_nil, ← hm] at h
  rw [← fencedBody_eq_none_iff, hself]
  cases hbody : fencedBody m with
  | some body =>
      -- what is cut out of the object is shorter than the object
      refine iff_of_false (fun h => ?_) (by simp)
      have hlen := length_le_of_extractJsonObject h
      rw [hfenced, hbody] at hlen
      dsimp only at hlen
      have h₁ := length_trim_le body
      have h₂ := length_fencedBody_le hbody
      have h₃ := congrArg List.length hm
      simp only [List.length_append, List.length_cons, List.length_nil] at h₃
      omega
  | none =>
      refine iff_of_true ?_ rfl
      have hfirst : indexOf (p.dropWhile isSpace ++ s ++ q.rdropWhile isSpace) [unit '\x7b']
          = some (p.dropWhile isSpace).length := by
        rw [List.append_assoc, hm, List.cons_append, List.cons_append]
        rw [List.append_cons]
        exact indexOf_append hbrace'
      have hdrop : (p.dropWhile isSpace ++ s ++ q.rdropWhile isSpace).drop
          (p.dropWhile isSpace).length = s ++ q.rdropWhile isSpace := by
        rw [List.append_assoc, List.drop_left]
      rw [extractJsonObject, hfenced, hbody]
      dsimp only
      rw [htrim, hfirst]
      dsimp only
      rw [hdrop, scanObject_object hs]
      dsimp only
      rw [slice, ← List.length_append, List.take_left, List.drop_left]

end Extract

/-- An object with one string in it. -/
def noteObject (cs : Text) : Text := units "\x7b\"note\":\"" ++ cs ++ units "\"\x7d"

theorem isObject_noteObject {cs : Text} (h : JsonText.IsChars cs) :
    JsonText.IsObject (noteObject cs) := by
  refine ⟨units "\"note\":\"" ++ cs ++ units "\"", by simp [noteObject, units, unit], Or.inr ?_⟩
  have hnil : JsonText.IsWs [] := by simp [JsonText.IsWs]
  have hkey : JsonText.IsString (units "\"note\"") :=
    ⟨units "note", JsonText.isChars_of_plain (by decide), by decide⟩
  have hmember := JsonText.IsText.member hnil hkey hnil hnil (.string ⟨cs, h, rfl⟩) hnil
  simpa [units, unit] using hmember

/-- A brace and a quote in a string, prose around the object, and one fence. -/
theorem extractJsonObject_prose :
    extractJsonObject (units "Here it is: " ++ noteObject (units "\x7d \\\" ```") ++
      units " Done.") = .ok (noteObject (units "\x7d \\\" ```")) := by
  have hchars : JsonText.IsChars (units "\x7d \\\" ```") :=
    .plain (by decide) (.plain (by decide) (.escape (by decide)
      (JsonText.isChars_of_plain (by decide))))
  refine (extractJsonObject_eq_iff (isObject_noteObject hchars) (by decide) (by decide)
    (by decide)).mpr ?_
  rw [← fencedBody_eq_none_iff]
  decide

/-- **Two fences in one string** hide the object that the string is in. -/
theorem extractJsonObject_fences_in_string :
    (¬ ∀ p s q : Text, JsonText.IsObject s → unit '\x7b' ∉ p → ¬ FENCE <:+: p → ¬ FENCE <:+: q →
        extractJsonObject (p ++ s ++ q) = .ok s) ∧
      extractJsonObject (noteObject (units "```x```"))
        = .error "no JSON object found in router response" := by
  have herr : extractJsonObject (noteObject (units "```x```"))
      = .error "no JSON object found in router response" := by decide +kernel
  refine ⟨fun h => ?_, herr⟩
  have hok := h [] (noteObject (units "```x```")) []
    (isObject_noteObject (JsonText.isChars_of_plain (by decide))) (by decide) (by decide)
    (by decide)
  rw [List.nil_append, List.append_nil, herr] at hok
  cases hok

end Brain.ChatRouter
