/-
`src/src/admin/chat-router-internals/validator.ts`: the raw output of the router is checked
against the message, slot by slot, and a route is assembled from what is left.

Strings are lists of UTF-16 units here, since spans are offsets in units. Normalization and
the parsing of dates are the language's and are taken as they are (`JsText`); of normalization
the only thing that is used is that it neither removes a text nor makes one. The validation
report only goes to a trace and is left out.
-/
import Brain.Lib.Splice

set_option autoImplicit false

namespace Brain.ChatRouter

open Splice (slice)

/-! ## 1. Strings -/

/-- A string: its UTF-16 units. -/
abbrev Text := List UInt16

/-- What the router takes from the language and from the libraries below it. -/
structure JsText where
  /-- `normalize('NFC')`. -/
  nfc : Text → Text
  nfc_eq_nil : ∀ s, nfc s = [] ↔ s = []
  /-- `!Number.isNaN(new Date(s).getTime())`. -/
  isValidIso : Text → Bool

/-- A string in the Basic Multilingual Plane. -/
def units (s : String) : Text := s.toList.map (fun c => UInt16.ofNat c.toNat)

/-- What `\s` matches, and `trim` removes. -/
def isSpace (u : UInt16) : Bool :=
  [0x09, 0x0A, 0x0B, 0x0C, 0x0D, 0x20, 0xA0, 0x1680, 0x2028, 0x2029, 0x202F, 0x205F, 0x3000,
    0xFEFF].contains u || (decide (0x2000 ≤ u) && decide (u ≤ 0x200A))

/-- `trim`. -/
def trim (s : Text) : Text := ((s.dropWhile isSpace).reverse.dropWhile isSpace).reverse

/-- `replace(/\s+/g, ' ')`, after a space or not. -/
def collapseFrom (inSpaces : Bool) : Text → Text
  | [] => []
  | u :: rest =>
      if isSpace u then
        if inSpaces then collapseFrom true rest else 0x20 :: collapseFrom true rest
      else u :: collapseFrom false rest

/-- What `applyEdits` does at its end. -/
def tidy (s : Text) : Text := trim (collapseFrom false s)

/-- `indexOf`. -/
def indexOf (s t : Text) : Option ℕ :=
  (List.range (s.length + 1)).find? (fun i => t.isPrefixOf (s.drop i))

/-! ## 2. Spans -/

/-- `Span`; `stop` is `end`. -/
structure Span where
  text : Text
  start : ℕ
  stop : ℕ
deriving DecidableEq

/-- `RawSpan`, as it was parsed: a text that is no string and a number that is no integer are
`none`. -/
structure RawSpan where
  text : Option Text
  start : Option ℤ
  stop : Option ℤ

/-- The offsets, if they are in the string and the text is there. -/
def RawSpan.claimed (raw : RawSpan) (s text : Text) : Option (ℕ × ℕ) :=
  match raw.start, raw.stop with
  | some (.ofNat start), some (.ofNat stop) =>
      if stop ≤ s.length ∧ start < stop ∧ slice s start stop = text then some (start, stop)
      else none
  | _, _ => none

def validateSpan (js : JsText) (original normalizedOriginal : Text) (raw : Option RawSpan) :
    Option Span :=
  match raw with
  | none => none
  | some raw =>
      match raw.text with
      | none => none
      | some text =>
          if (trim text).isEmpty then none
          else
            match raw.claimed original text with
            | some (start, stop) => some ⟨text, start, stop⟩
            | none =>
                match raw.claimed normalizedOriginal (js.nfc text) with
                | some (start, stop) => some ⟨text, start, stop⟩
                | none =>
                    (indexOf normalizedOriginal (js.nfc text)).map
                      (fun idx => ⟨text, idx, idx + (js.nfc text).length⟩)

/-! ## 3. Edits -/

/-- `EditOp`. -/
inductive EditOp where
  | canonicalizeMention (sourceSpan : Span) (canonical : Text)
  | collapseStateChange (sourceSpan : Span) (replacement : Text)
  | stripTemporal (sourceSpan : Span)
deriving DecidableEq

namespace EditOp

def sourceSpan : EditOp → Span
  | .canonicalizeMention sourceSpan _ => sourceSpan
  | .collapseStateChange sourceSpan _ => sourceSpan
  | .stripTemporal sourceSpan => sourceSpan

def isCanonicalize : EditOp → Bool
  | .canonicalizeMention _ _ => true
  | .collapseStateChange _ _ => false
  | .stripTemporal _ => false

/-- What is spliced in. -/
def edit : EditOp → Splice.Edit UInt16
  | .canonicalizeMention sourceSpan canonical => ⟨sourceSpan.start, sourceSpan.stop, canonical⟩
  | .collapseStateChange sourceSpan replacement =>
      ⟨sourceSpan.start, sourceSpan.stop, replacement⟩
  | .stripTemporal sourceSpan => ⟨sourceSpan.start, sourceSpan.stop, []⟩

end EditOp

/-- `applyEdits`: right to left. -/
def applyEdits (original : Text) (edits : List EditOp) (filterOp : EditOp → Bool) : Text :=
  let applicable := ((edits.filter filterOp).map EditOp.edit).insertionSort Splice.laterFirst
  tidy (applicable.foldl Splice.splice original)

/-! ## 4. Routes -/

inductive Intent where
  | tell | ask
deriving DecidableEq

structure RawMention where
  canonical : Option Text
  nameSpan : Option RawSpan

structure RawHint where
  predicateId : Text
  triggerSpan : Option RawSpan

/-- `op` of a raw edit. -/
inductive RawOp where
  | canonicalizeMention | collapseStateChange | stripTemporal
deriving DecidableEq

structure RawEdit where
  op : RawOp
  sourceSpan : Option RawSpan
  canonical : Option Text
  replacement : Option Text

structure RawAnchor where
  iso : Text
  anchorSpan : Option RawSpan

/-- `RawRouteOutput`; a list that is missing is empty. -/
structure RawRouteOutput where
  intent : Intent
  mentions : List RawMention := []
  predicateHints : List RawHint := []
  edits : List RawEdit := []
  asOf : Option RawAnchor := none
  validFrom : Option RawAnchor := none
  reason : Option Text := none

structure Mention where
  canonical : Text
  span : Span
deriving DecidableEq

structure PredicateHint where
  predicateId : Text
  triggerSpan : Span
deriving DecidableEq

structure TemporalAnchor where
  iso : Text
  anchorSpan : Span
deriving DecidableEq

structure ChatRoute where
  intent : Intent
  normalizedMessage : Text
  cleanedQuery : Option Text := none
  mentions : List Mention := []
  predicateHints : List PredicateHint := []
  asOf : Option TemporalAnchor := none
  validFrom : Option TemporalAnchor := none
  reason : Option Text := none
deriving DecidableEq

section Assemble

variable (js : JsText) (message : Text) (parsed : RawRouteOutput) (vocab knownNames : List Text)

/-- `validateSpan` in the message. -/
def grounded (raw : Option RawSpan) : Option Span :=
  validateSpan js message (js.nfc message) raw

def collectMentions : List Mention :=
  parsed.mentions.filterMap (fun m =>
    match grounded js message m.nameSpan, m.canonical with
    | some span, some canonical =>
        if !canonical.isEmpty && knownNames.contains canonical then some ⟨canonical, span⟩
        else none
    | _, _ => none)

def collectPredicateHints : List PredicateHint :=
  if parsed.intent = .ask then
    parsed.predicateHints.filterMap (fun h =>
      match grounded js message h.triggerSpan with
      | some span =>
          if !vocab.isEmpty && !vocab.contains h.predicateId then none
          else some ⟨h.predicateId, span⟩
      | none => none)
  else []

/-- An anchor of a route with the intent that it goes with. -/
def collectAnchor (intent : Intent) (anchor : Option RawAnchor) : Option TemporalAnchor :=
  if parsed.intent = intent then
    anchor.bind (fun anchor =>
      match grounded js message anchor.anchorSpan with
      | some span => if js.isValidIso anchor.iso then some ⟨anchor.iso, span⟩ else none
      | none => none)
  else none

/-- The candidates of `collectEdits`. -/
def candidateEdits (mentions : List Mention) : List EditOp :=
  mentions.map (fun m => .canonicalizeMention m.span m.canonical) ++
    parsed.edits.filterMap (fun e =>
      match grounded js message e.sourceSpan with
      | some span =>
          if e.op = .collapseStateChange then
            some (.collapseStateChange span (e.replacement.getD []))
          else none
      | none => none)

/-- The loop over the sorted candidates. `lastEnd` is -1 at first in the source; no offset is
below 0 either. -/
def acceptFrom (lastEnd : ℕ) : List EditOp → List EditOp
  | [] => []
  | c :: rest =>
      if c.sourceSpan.start < lastEnd then acceptFrom lastEnd rest
      else c :: acceptFrom c.sourceSpan.stop rest

/-- `a.span.start - b.span.start`. -/
def startsFirst (a b : EditOp) : Prop := a.sourceSpan.start ≤ b.sourceSpan.start

instance : DecidableRel startsFirst := fun a b =>
  inferInstanceAs (Decidable (a.sourceSpan.start ≤ b.sourceSpan.start))

def collectEdits (mentions : List Mention) : List EditOp :=
  acceptFrom 0 ((candidateEdits js message parsed mentions).insertionSort startsFirst)

/-- `overlaps`. -/
def overlaps (acceptedSpans : List Span) (anchor : Span) : Bool :=
  acceptedSpans.any (fun s => !(decide (s.stop ≤ anchor.start) || decide (anchor.stop ≤ s.start)))

def deriveStripTemporalEdits (acceptedSpans : List Span) (asOf validFrom : Option TemporalAnchor) :
    List EditOp :=
  (asOf.toList ++ validFrom.toList).filterMap (fun anchor =>
    if overlaps acceptedSpans anchor.anchorSpan then none
    else some (.stripTemporal anchor.anchorSpan))

/-- The edits that are applied. -/
def allEdits : List EditOp :=
  let mentions := collectMentions js message parsed knownNames
  let acceptedEdits := collectEdits js message parsed mentions
  acceptedEdits ++ deriveStripTemporalEdits (acceptedEdits.map EditOp.sourceSpan)
    (collectAnchor js message parsed .ask parsed.asOf)
    (collectAnchor js message parsed .tell parsed.validFrom)

def validateAndAssemble : ChatRoute :=
  let edits := allEdits js message parsed knownNames
  let cleanedQuery := applyEdits message edits (fun op => !op.isCanonicalize)
  { intent := parsed.intent
    normalizedMessage := applyEdits message edits (fun _ => true)
    cleanedQuery :=
      if parsed.intent = .ask ∧ cleanedQuery ≠ message then some cleanedQuery else none
    mentions := collectMentions js message parsed knownNames
    predicateHints := collectPredicateHints js message parsed vocab
    asOf := collectAnchor js message parsed .ask parsed.asOf
    validFrom := collectAnchor js message parsed .tell parsed.validFrom
    reason := parsed.reason.filter (fun reason => !reason.isEmpty) }

end Assemble

/-- `indexOf` finds the first place where `t` stands. -/
theorem indexOf_eq_some_iff {s t : Text} {i : ℕ} :
    indexOf s t = some i ↔ i ≤ s.length ∧ t <+: s.drop i ∧ ∀ j < i, ¬ t <+: s.drop j := by
  rw [indexOf, List.find?_range_eq_some, List.mem_range, Nat.lt_succ_iff]
  simp only [Bool.not_eq_true', ← Bool.not_eq_true, List.isPrefixOf_iff_prefix]
  exact and_left_comm

theorem indexOf_eq_none_iff {s t : Text} :
    indexOf s t = none ↔ ∀ i ≤ s.length, ¬ t <+: s.drop i := by
  rw [indexOf, List.find?_eq_none]
  simp only [List.mem_range, Nat.lt_succ_iff, List.isPrefixOf_iff_prefix]

/-- A text is found behind units that it does not start with. -/
theorem indexOf_append {before after t : Text} {c : UInt16} (h : c ∉ before) :
    indexOf (before ++ (c :: t) ++ after) (c :: t) = some before.length := by
  rw [indexOf_eq_some_iff]
  refine ⟨by simp, ?_, fun j hj hpre => ?_⟩
  · rw [List.append_assoc, List.drop_left]
    exact List.prefix_append _ _
  · rw [List.append_assoc, List.drop_append_of_le_length hj.le,
      List.drop_eq_getElem_cons hj] at hpre
    have hc : c = before[j] := (List.cons_prefix_cons.mp hpre).1
    exact h (hc ▸ List.getElem_mem hj)

/-- A span that does not overlap with the accepted ones is disjoint from each of them. -/
theorem of_not_overlaps {spans : List Span} {s anchor : Span}
    (h : overlaps spans anchor = false) (hs : s ∈ spans) :
    s.stop ≤ anchor.start ∨ anchor.stop ≤ s.start := by
  rw [overlaps, List.any_eq_false] at h
  have hfree := h s hs
  simpa [imp_iff_not_or] using hfree

end Brain.ChatRouter
