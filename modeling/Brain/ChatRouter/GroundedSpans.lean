/-
What the spans of a route point at, and what its edits do to the message
(`src/src/admin/chat-router-internals/validator.ts`).

The edits that are applied are disjoint, and splicing them from the right replaces their
pieces and nothing else. But a span that is not where the raw output says is looked for in the
normalised message, and its offsets are then used in the message as it came. All routes of a
message are faithful exactly if normalization leaves every text where it is (`faithful_iff`).
-/
import Brain.ChatRouter.Validator

set_option autoImplicit false

namespace Brain.ChatRouter

open Splice (slice)

/-! ## 1. Faithful routes -/

/-- All spans of a route. -/
def ChatRoute.spans (route : ChatRoute) : List Span :=
  route.mentions.map Mention.span ++ route.predicateHints.map PredicateHint.triggerSpan ++
    route.asOf.toList.map TemporalAnchor.anchorSpan ++
    route.validFrom.toList.map TemporalAnchor.anchorSpan

/-- The span cuts its text out of the message, up to normalization. -/
def InPlace (js : JsText) (message : Text) (s : Span) : Prop :=
  js.nfc (slice message s.start s.stop) = js.nfc s.text

/-- **The spans and the edits of a route are faithful to the message**: the spans are in place,
and the normalized message is the message with the pieces of the edits replaced, which are
disjoint and not empty, and then with its spaces collapsed. -/
structure Faithful (js : JsText) (message : Text) (parsed : RawRouteOutput)
    (vocab knownNames : List Text) : Prop where
  spans : ∀ s ∈ (validateAndAssemble js message parsed vocab knownNames).spans,
    InPlace js message s
  edits : ∀ op ∈ allEdits js message parsed knownNames,
    InPlace js message op.sourceSpan ∧ op.sourceSpan.start < op.sourceSpan.stop
  normalized : ∃ es : List (Splice.Edit UInt16),
    es.Perm ((allEdits js message parsed knownNames).map EditOp.edit) ∧ Splice.InOrder es ∧
    (validateAndAssemble js message parsed vocab knownNames).normalizedMessage
      = tidy (Splice.replaced message 0 es)

/-- Normalization leaves every text where it is: a text that stands in the normalised message
stands at the same offsets in the message. -/
def Aligned (js : JsText) (message : Text) : Prop :=
  ∀ text start stop, trim text ≠ [] → start < stop → stop ≤ (js.nfc message).length →
    slice (js.nfc message) start stop = js.nfc text → js.nfc (slice message start stop) = js.nfc text

/-! ## 2. Where spans come from -/

section Spans

variable {js : JsText} {message s text : Text} {parsed : RawRouteOutput}
  {vocab knownNames : List Text} {raw : RawSpan} {span : Span} {start stop : ℕ} {op : EditOp}

theorem of_claimed (h : raw.claimed s text = some (start, stop)) :
    stop ≤ s.length ∧ start < stop ∧ slice s start stop = text := by
  unfold RawSpan.claimed at h
  split at h
  · split at h
    · next hin =>
        cases h
        exact hin
    · cases h
  · cases h

/-- `indexOf` finds an occurrence. -/
theorem of_indexOf {t : Text} {i : ℕ} (h : indexOf s t = some i) :
    i + t.length ≤ s.length ∧ slice s i (i + t.length) = t := by
  have hrange := List.mem_range.mp (List.mem_of_find?_eq_some h)
  have hfound := List.find?_some h
  have hprefix : t <+: s.drop i := List.isPrefixOf_iff_prefix.mp hfound
  have hlength := hprefix.length_le
  rw [List.length_drop] at hlength
  refine ⟨by omega, ?_⟩
  rw [slice, List.drop_take, Nat.add_sub_cancel_left]
  exact (List.prefix_iff_eq_take.mp hprefix).symm

/-- What a grounded span is of: a text that is not blank, where it stands in the message, or
where it stands in the normalised message. -/
theorem of_grounded {r : Option RawSpan} (h : grounded js message r = some span) :
    trim span.text ≠ [] ∧ span.start < span.stop ∧
      (slice message span.start span.stop = span.text ∨
        (span.stop ≤ (js.nfc message).length ∧
          slice (js.nfc message) span.start span.stop = js.nfc span.text)) := by
  unfold grounded validateSpan at h
  split at h
  · cases h
  · next raw =>
      split at h
      · cases h
      · next text _ =>
          split at h
          · cases h
          · next hblank =>
              have hne : trim text ≠ [] := fun hnil => hblank (by rw [hnil]; rfl)
              split at h
              · next hclaimed =>
                  obtain ⟨_, hlt, htext⟩ := of_claimed hclaimed
                  cases h
                  exact ⟨hne, hlt, Or.inl htext⟩
              · split at h
                · next hclaimed =>
                    obtain ⟨hle, hlt, htext⟩ := of_claimed hclaimed
                    cases h
                    exact ⟨hne, hlt, Or.inr ⟨hle, htext⟩⟩
                · obtain ⟨i, hi, rfl⟩ := Option.map_eq_some_iff.mp h
                  obtain ⟨hle, htext⟩ := of_indexOf hi
                  have hpos : 0 < (js.nfc text).length := by
                    rw [List.length_pos_iff, ne_eq, js.nfc_eq_nil]
                    exact fun hnil => hne (by rw [hnil]; rfl)
                  refine ⟨hne, ?_, Or.inr ⟨hle, htext⟩⟩
                  show i < i + (js.nfc text).length
                  omega

/-- A span with the offsets of its text, in the message or in the normalised message. -/
theorem grounded_of_slice (hne : trim text ≠ []) (hlt : start < stop)
    (hle : stop ≤ (js.nfc message).length)
    (htext : slice (js.nfc message) start stop = js.nfc text) :
    grounded js message (some ⟨some text, some start, some stop⟩)
      = some ⟨text, start, stop⟩ := by
  have hblank : (trim text).isEmpty = false := by
    rw [← Bool.not_eq_true, List.isEmpty_iff]
    exact hne
  have hnfc : RawSpan.claimed ⟨some text, some start, some stop⟩ (js.nfc message) (js.nfc text)
      = some (start, stop) := if_pos ⟨hle, hlt, htext⟩
  unfold grounded validateSpan
  dsimp only
  rw [hblank, if_neg Bool.false_ne_true, hnfc]
  cases hclaimed : RawSpan.claimed ⟨some text, some start, some stop⟩ message text with
  | none => rfl
  | some p =>
      have hp : p = (start, stop) := by
        by_cases hin : stop ≤ message.length ∧ start < stop ∧ slice message start stop = text
        · exact (Option.some.inj ((if_pos hin).symm.trans hclaimed)).symm
        · exact absurd ((if_neg hin).symm.trans hclaimed) (fun hnone => by cases hnone)
      rw [hp]

/-- A mention is grounded. -/
theorem grounded_of_mention {m : Mention} (h : m ∈ collectMentions js message parsed knownNames) :
    ∃ r, grounded js message r = some m.span := by
  obtain ⟨raw, _, hraw⟩ := List.mem_filterMap.mp h
  refine ⟨raw.nameSpan, ?_⟩
  split at hraw
  · next hspan _ =>
      split at hraw
      · cases hraw
        exact hspan
      · cases hraw
  · cases hraw

theorem grounded_of_hint {hint : PredicateHint}
    (h : hint ∈ collectPredicateHints js message parsed vocab) :
    ∃ r, grounded js message r = some hint.triggerSpan := by
  rw [collectPredicateHints] at h
  split at h
  · obtain ⟨raw, _, hraw⟩ := List.mem_filterMap.mp h
    refine ⟨raw.triggerSpan, ?_⟩
    split at hraw
    · next hspan =>
        split at hraw
        · cases hraw
        · cases hraw
          exact hspan
    · cases hraw
  · exact absurd h List.not_mem_nil

theorem grounded_of_anchor {intent : Intent} {r : Option RawAnchor} {anchor : TemporalAnchor}
    (h : collectAnchor js message parsed intent r = some anchor) :
    parsed.intent = intent ∧ ∃ r, grounded js message r = some anchor.anchorSpan := by
  rw [collectAnchor] at h
  split at h
  · next hintent =>
      obtain ⟨raw, _, hraw⟩ := Option.bind_eq_some_iff.mp h
      refine ⟨hintent, raw.anchorSpan, ?_⟩
      split at hraw
      · next hspan =>
          split at hraw
          · cases hraw
            exact hspan
          · cases hraw
      · cases hraw
  · cases h

/-- **All spans of a route are grounded.** -/
theorem grounded_of_mem_spans
    (h : span ∈ (validateAndAssemble js message parsed vocab knownNames).spans) :
    ∃ r, grounded js message r = some span := by
  simp only [ChatRoute.spans, List.mem_append, List.mem_map, Option.mem_toList] at h
  rcases h with ((⟨m, hm, rfl⟩ | ⟨hint, hhint, rfl⟩) | ⟨anchor, hanchor, rfl⟩) |
    ⟨anchor, hanchor, rfl⟩
  · exact grounded_of_mention hm
  · exact grounded_of_hint hhint
  · exact (grounded_of_anchor hanchor).2
  · exact (grounded_of_anchor hanchor).2

end Spans

/-! ## 3. The edits -/

section Edits

variable {js : JsText} {message : Text} {parsed : RawRouteOutput} {vocab knownNames : List Text}
  {ops : List EditOp} {op : EditOp} {lastEnd : ℕ} {spans : List Span}
  {asOf validFrom : Option TemporalAnchor}

theorem acceptFrom_sublist (lastEnd : ℕ) (ops : List EditOp) :
    (acceptFrom lastEnd ops).Sublist ops := by
  induction ops generalizing lastEnd with
  | nil => exact List.Sublist.refl []
  | cons c rest ih =>
      rw [acceptFrom]
      split
      · exact (ih lastEnd).cons c
      · exact (ih _).cons_cons c

/-- The sweep accepts what starts after all that it has accepted. -/
theorem acceptFrom_ordered (hne : ∀ op ∈ ops, op.sourceSpan.start < op.sourceSpan.stop) :
    (∀ op ∈ acceptFrom lastEnd ops, lastEnd ≤ op.sourceSpan.start) ∧
      (acceptFrom lastEnd ops).Pairwise (fun a b => a.sourceSpan.stop ≤ b.sourceSpan.start) := by
  induction ops generalizing lastEnd with
  | nil => exact ⟨fun _ h => absurd h List.not_mem_nil, List.Pairwise.nil⟩
  | cons c rest ih =>
      have hrest : ∀ l, (∀ op ∈ acceptFrom l rest, l ≤ op.sourceSpan.start) ∧
          (acceptFrom l rest).Pairwise (fun a b => a.sourceSpan.stop ≤ b.sourceSpan.start) :=
        fun l => ih (fun op hop => hne op (List.mem_cons_of_mem _ hop))
      have hc := hne c List.mem_cons_self
      rw [acceptFrom]
      split
      · exact hrest lastEnd
      · next hstart =>
          obtain ⟨hafter, hordered⟩ := hrest c.sourceSpan.stop
          refine ⟨?_, List.pairwise_cons.mpr ⟨hafter, hordered⟩⟩
          intro op hop
          rcases List.mem_cons.mp hop with rfl | hop
          · exact Nat.le_of_not_lt hstart
          · have hle := hafter op hop
            omega

theorem grounded_of_candidate
    (h : op ∈ candidateEdits js message parsed (collectMentions js message parsed knownNames)) :
    ∃ r, grounded js message r = some op.sourceSpan := by
  rw [candidateEdits, List.mem_append] at h
  rcases h with h | h
  · obtain ⟨m, hm, rfl⟩ := List.mem_map.mp h
    exact grounded_of_mention hm
  · obtain ⟨raw, _, hraw⟩ := List.mem_filterMap.mp h
    refine ⟨raw.sourceSpan, ?_⟩
    split at hraw
    · next hspan =>
        split at hraw
        · cases hraw
          exact hspan
        · cases hraw
    · cases hraw

theorem mem_strip (h : op ∈ deriveStripTemporalEdits spans asOf validFrom) :
    ∃ anchor, (asOf = some anchor ∨ validFrom = some anchor) ∧
      op = .stripTemporal anchor.anchorSpan ∧ overlaps spans anchor.anchorSpan = false := by
  obtain ⟨anchor, hanchor, hop⟩ := List.mem_filterMap.mp h
  rw [List.mem_append, Option.mem_toList, Option.mem_toList] at hanchor
  split at hop
  · cases hop
  · next hfree =>
      rw [Bool.not_eq_true] at hfree
      exact ⟨anchor, hanchor, (Option.some.inj hop).symm, hfree⟩

/-- **All edits are grounded.** -/
theorem grounded_of_mem_allEdits (h : op ∈ allEdits js message parsed knownNames) :
    ∃ r, grounded js message r = some op.sourceSpan := by
  rw [allEdits, List.mem_append] at h
  rcases h with h | h
  · rw [collectEdits] at h
    exact grounded_of_candidate (List.mem_insertionSort startsFirst |>.mp
      ((acceptFrom_sublist _ _).subset h))
  · obtain ⟨anchor, hanchor, rfl, _⟩ := mem_strip h
    rcases hanchor with hanchor | hanchor
    · exact (grounded_of_anchor hanchor).2
    · exact (grounded_of_anchor hanchor).2

/-- At most one anchor is stripped: a route has one intent. -/
theorem length_strip_le (spans : List Span) :
    (deriveStripTemporalEdits spans (collectAnchor js message parsed .ask parsed.asOf)
      (collectAnchor js message parsed .tell parsed.validFrom)).length ≤ 1 := by
  refine (List.length_filterMap_le _ _).trans ?_
  rw [List.length_append]
  cases hask : collectAnchor js message parsed .ask parsed.asOf with
  | none => exact (Nat.zero_add _).trans_le Option.length_toList_le
  | some asOf =>
      cases htell : collectAnchor js message parsed .tell parsed.validFrom with
      | none => exact Nat.le_refl 1
      | some validFrom =>
          have h := (grounded_of_anchor hask).1.symm.trans (grounded_of_anchor htell).1
          cases h

@[simp] theorem edit_start (op : EditOp) : op.edit.start = op.sourceSpan.start := by
  cases op with
  | canonicalizeMention sourceSpan canonical => rfl
  | collapseStateChange sourceSpan replacement => rfl
  | stripTemporal sourceSpan => rfl

@[simp] theorem edit_stop (op : EditOp) : op.edit.stop = op.sourceSpan.stop := by
  cases op with
  | canonicalizeMention sourceSpan canonical => rfl
  | collapseStateChange sourceSpan replacement => rfl
  | stripTemporal sourceSpan => rfl

theorem pairwise_of_length_le {R : EditOp → EditOp → Prop} (h : ops.length ≤ 1) :
    ops.Pairwise R := by
  cases ops with
  | nil => exact List.Pairwise.nil
  | cons a rest =>
      rw [List.length_cons] at h
      have hnil : rest = [] := List.length_eq_zero_iff.mp (by omega)
      rw [hnil]
      exact List.pairwise_singleton R a

/-- **The edits are disjoint.** -/
theorem allEdits_disjoint (js : JsText) (message : Text) (parsed : RawRouteOutput)
    (knownNames : List Text) :
    ((allEdits js message parsed knownNames).map EditOp.edit).Pairwise Splice.Disjoint := by
  rw [List.pairwise_map, allEdits, List.pairwise_append]
  refine ⟨?_, pairwise_of_length_le (length_strip_le _), ?_⟩
  · have hne : ∀ op ∈ (candidateEdits js message parsed
        (collectMentions js message parsed knownNames)).insertionSort startsFirst,
        op.sourceSpan.start < op.sourceSpan.stop := by
      intro op hop
      obtain ⟨r, hr⟩ := grounded_of_candidate ((List.mem_insertionSort startsFirst).mp hop)
      exact (of_grounded hr).2.1
    refine (acceptFrom_ordered hne).2.imp (fun h => Or.inl ?_)
    rw [edit_start, edit_stop]
    exact h
  · intro a ha b hb
    obtain ⟨anchor, _, rfl, hfree⟩ := mem_strip hb
    rw [Splice.Disjoint, edit_start, edit_stop, edit_start, edit_stop]
    exact of_not_overlaps hfree (List.mem_map_of_mem ha)

/-- **Edits that start inside the message replace their pieces.** -/
theorem normalizedMessage_eq
    (hinside : ∀ op ∈ allEdits js message parsed knownNames,
      op.sourceSpan.start ≤ message.length) :
    ∃ es : List (Splice.Edit UInt16),
      es.Perm ((allEdits js message parsed knownNames).map EditOp.edit) ∧ Splice.InOrder es ∧
      (validateAndAssemble js message parsed vocab knownNames).normalizedMessage
        = tidy (Splice.replaced message 0 es) := by
  have hperm := List.perm_insertionSort Splice.laterFirst
    ((allEdits js message parsed knownNames).map EditOp.edit)
  have hspan : ∀ e ∈ (allEdits js message parsed knownNames).map EditOp.edit,
      e.start < e.stop ∧ e.start ≤ message.length := by
    intro e he
    obtain ⟨op, hop, rfl⟩ := List.mem_map.mp he
    obtain ⟨r, hr⟩ := grounded_of_mem_allEdits hop
    rw [edit_start, edit_stop]
    exact ⟨(of_grounded hr).2.1, hinside op hop⟩
  have horder := Splice.inOrder_reverse_sort (allEdits_disjoint js message parsed knownNames)
    (fun e he => (hspan e he).1)
  refine ⟨_, (List.reverse_perm _).trans hperm, horder, ?_⟩
  have hmem : ∀ e ∈ (((allEdits js message parsed knownNames).map EditOp.edit).insertionSort
      Splice.laterFirst).reverse, e.start ≤ e.stop ∧ e.start ≤ message.length := by
    intro e he
    have hin := hspan e (hperm.mem_iff.mp (List.mem_reverse.mp he))
    exact ⟨hin.1.le, hin.2⟩
  have hfold := Splice.foldr_splice horder hmem (fun e _ => Nat.zero_le e.start)
  rw [List.foldr_reverse, List.take_zero, List.nil_append] at hfold
  rw [validateAndAssemble, applyEdits, List.filter_true, ← hfold]

end Edits

/-! ## 4. Exactly when routes are faithful -/

section Faithful

variable {js : JsText} {message : Text} {parsed : RawRouteOutput} {vocab knownNames : List Text}
  {span : Span}

/-- Where texts stay where they are, grounded spans are in place. -/
theorem Aligned.inPlace (h : Aligned js message) {r : Option RawSpan}
    (hr : grounded js message r = some span) : InPlace js message span := by
  obtain ⟨hne, hlt, htext | ⟨hle, htext⟩⟩ := of_grounded hr
  · rw [InPlace, htext]
  · exact h span.text span.start span.stop hne hlt hle htext

/-- A span that is in place starts in the message. -/
theorem InPlace.start_le (h : InPlace js message span) {r : Option RawSpan}
    (hr : grounded js message r = some span) : span.start ≤ message.length := by
  by_contra hout
  have hnil : slice message span.start span.stop = [] :=
    Splice.slice_eq_nil (Nat.le_of_not_le hout)
  rw [InPlace, hnil, (js.nfc_eq_nil []).mpr rfl, eq_comm, js.nfc_eq_nil] at h
  exact (of_grounded hr).1 (by rw [h]; rfl)

/-- **Only the places can go wrong**: a route whose spans and edits are in place is faithful. -/
theorem faithful_iff_inPlace : Faithful js message parsed vocab knownNames ↔
    (∀ s ∈ (validateAndAssemble js message parsed vocab knownNames).spans, InPlace js message s) ∧
      ∀ op ∈ allEdits js message parsed knownNames, InPlace js message op.sourceSpan := by
  constructor
  · exact fun h => ⟨h.spans, fun op hop => (h.edits op hop).1⟩
  · rintro ⟨hspans, hedits⟩
    have hgrounded : ∀ op ∈ allEdits js message parsed knownNames,
        ∃ r, grounded js message r = some op.sourceSpan := fun _ hop => grounded_of_mem_allEdits hop
    refine ⟨hspans, fun op hop => ⟨hedits op hop, ?_⟩, normalizedMessage_eq (fun op hop => ?_)⟩
    · obtain ⟨r, hr⟩ := hgrounded op hop
      exact (of_grounded hr).2.1
    · obtain ⟨r, hr⟩ := hgrounded op hop
      exact (hedits op hop).start_le hr

theorem Aligned.faithful (h : Aligned js message) (parsed : RawRouteOutput)
    (vocab knownNames : List Text) : Faithful js message parsed vocab knownNames := by
  refine faithful_iff_inPlace.mpr ⟨fun s hs => ?_, fun op hop => ?_⟩
  · obtain ⟨r, hr⟩ := grounded_of_mem_spans hs
    exact h.inPlace hr
  · obtain ⟨r, hr⟩ := grounded_of_mem_allEdits hop
    exact h.inPlace hr

/-- A raw output with a hint that names a text and its offsets. -/
def hintAt (text : Text) (start stop : ℕ) : RawRouteOutput where
  intent := .ask
  predicateHints := [⟨[], some ⟨some text, some start, some stop⟩⟩]

/-- **All routes of a message are faithful exactly if normalization leaves every text where it
is.** -/
theorem faithful_iff (js : JsText) (message : Text) :
    (∀ parsed vocab knownNames, Faithful js message parsed vocab knownNames) ↔
      Aligned js message := by
  constructor
  · intro hall text start stop hne hlt hle htext
    have hgrounded := grounded_of_slice hne hlt hle htext
    refine (hall (hintAt text start stop) [] []).spans ⟨text, start, stop⟩ ?_
    have hhint : collectPredicateHints js message (hintAt text start stop) []
        = [⟨[], ⟨text, start, stop⟩⟩] := by
      simp [collectPredicateHints, hintAt, hgrounded]
    rw [ChatRoute.spans, validateAndAssemble, hhint]
    simp
  · exact fun h parsed vocab knownNames => h.faithful parsed vocab knownNames

/-- A message that is normal is aligned. -/
theorem aligned_of_normal (hidem : ∀ s, js.nfc (js.nfc s) = js.nfc s)
    (hnormal : js.nfc message = message) : Aligned js message := by
  intro text start stop _ _ _ htext
  rw [hnormal] at htext
  rw [htext, hidem]

end Faithful

/-! ## 5. A decomposed letter -/

/-- Normalization of texts whose only letter with a mark is an e with an acute accent. -/
def composeAcute : Text → Text
  | [] => []
  | [u] => [u]
  | u :: v :: rest =>
      if u = 0x65 ∧ v = 0x301 then 0xE9 :: composeAcute rest else u :: composeAcute (v :: rest)

theorem composeAcute_eq_nil (s : Text) : composeAcute s = [] ↔ s = [] := by
  cases s with
  | nil => exact iff_of_true rfl rfl
  | cons u rest =>
      cases rest with
      | nil => exact iff_of_false (List.cons_ne_nil _ _) (List.cons_ne_nil _ _)
      | cons v rest =>
          refine iff_of_false ?_ (List.cons_ne_nil _ _)
          rw [composeAcute]
          split
          · exact List.cons_ne_nil _ _
          · exact List.cons_ne_nil _ _

def acuteText : JsText where
  nfc := composeAcute
  nfc_eq_nil := composeAcute_eq_nil
  isValidIso := fun _ => true

/-- "é Bob", with the accent as a unit of its own. -/
def acuteMessage : Text := [0x65, 0x301] ++ units " Bob"

/-- Bob by the offsets of the normalised message. -/
def bobOutput : RawRouteOutput where
  intent := .tell
  mentions := [⟨some (units "Robert"), some ⟨some (units "Bob"), some 2, some 5⟩⟩]

/-- The span of Bob is taken over to the message as it came, where it cuts out something else,
and so does the edit. -/
theorem bob_cut_from_decomposed_message :
    ¬ ∀ (js : JsText) (message : Text) (parsed : RawRouteOutput) (vocab knownNames : List Text),
      Faithful js message parsed vocab knownNames := by
  intro hall
  have hspans := (hall acuteText acuteMessage bobOutput [] [units "Robert"]).spans
  have hbob : (validateAndAssemble acuteText acuteMessage bobOutput [] [units "Robert"]).spans
      = [⟨units "Bob", 2, 5⟩] := by decide +kernel
  rw [hbob] at hspans
  have hcut := hspans ⟨units "Bob", 2, 5⟩ List.mem_cons_self
  revert hcut
  rw [InPlace]
  decide +kernel

end Brain.ChatRouter
