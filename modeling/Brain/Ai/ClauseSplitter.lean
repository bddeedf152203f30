/-
`src/src/ai/clause-splitter.ts`: the local clause splitter.

Three regular expressions cut the text. Each of them starts or stops at white space, so a match
is the longest run of white space there is, and the patterns are written as what stands at the
front of a text. The splitter looks for the pieces again in the original text to find their
offsets; they are where it looks, and it cuts the text into its clauses and into gaps that hold
nothing but white space, punctuation, the sentinel or a conjunction (`cut_splitClauses`).
-/
import Brain.ChatRouter.LocalPrepass
import Brain.Lib.Segments
import Mathlib.Data.List.DropRight

set_option autoImplicit false

namespace Brain.ClauseSplitter

open ChatRouter (Text units isSpace indexOf indexOfFrom indexOf_append)
open Splice (slice)
open Segments (Cut)

/-! ## 1. The patterns -/

/-- `[.!?…]`. -/
def isTerminator (u : UInt16) : Bool := (units ".!?…").contains u

/-- `[A-ZА-ЯЁ]`. -/
def isCapital (u : UInt16) : Bool :=
  (decide (0x41 ≤ u) && decide (u ≤ 0x5A)) || (decide (0x410 ≤ u) && decide (u ≤ 0x42F)) ||
    u == 0x401

/-- `[\s.,;:!?…—–-]`. -/
def isTrailing (u : UInt16) : Bool := isSpace u || (units ".,;:!?…—–-").contains u

def SENTINEL : UInt16 := 1

/-- `SENTENCE_BOUNDARY_RE` at the front: its group, and what is behind the match. -/
def sentenceBoundary (s : Text) : Option (Text × Text) :=
  let group := s.takeWhile isTerminator
  let behind := s.dropWhile isTerminator
  let after := behind.dropWhile isSpace
  if group.isEmpty || (behind.takeWhile isSpace).isEmpty || !(after.take 1).any isCapital then none
  else some (group, after)

/-- The words of `CONJUNCTION_RE`. -/
def CONJUNCTIONS : List Text :=
  [units "and", units "but", units "or", units "и", units "но", units "или", units "а"]

/-- `Canonicalize` under the flag `i`, as far as the words of the pattern have it: to upper
case. U+1C82 is a narrow О. -/
def canonicalize (u : UInt16) : UInt16 :=
  if 0x61 ≤ u ∧ u ≤ 0x7A then u - 0x20
  else if 0x430 ≤ u ∧ u ≤ 0x44F then u - 0x20
  else if u = 0x1C82 then 0x41E
  else u

/-- A word of the pattern, in whatever case. -/
def isConjunction (w : Text) : Bool :=
  CONJUNCTIONS.any (fun conjunction => w.map canonicalize == conjunction.map canonicalize)

/-- `CONJUNCTION_RE` at the front: the length of the match. -/
def conjunctionAt (s : Text) : Option ℕ :=
  let spaces := s.takeWhile isSpace
  let behind := s.dropWhile isSpace
  let word := behind.takeWhile (fun u => !isSpace u)
  let after := (behind.dropWhile (fun u => !isSpace u)).takeWhile isSpace
  if spaces.isEmpty || after.isEmpty || !isConjunction word then none
  else some (spaces.length + word.length + after.length)

/-- `SEMICOLON_SPLIT_RE` at the front: the length of the match. -/
def semicolonAt (s : Text) : Option ℕ :=
  let spaces := s.takeWhile isSpace
  match s.dropWhile isSpace with
  | [] => none
  | u :: behind =>
      let after := behind.takeWhile isSpace
      if u ≠ 0x3B ∨ after.isEmpty then none else some (spaces.length + 1 + after.length)

/-- `exec`: where the first match of a pattern is, and its length. -/
def exec (front : Text → Option ℕ) : Text → Option (ℕ × ℕ)
  | [] => none
  | u :: rest =>
      match front (u :: rest) with
      | some length => some (0, length)
      | none => (exec front rest).map (fun m => (m.1 + 1, m.2))

/-! ## 2. What the patterns match -/

/-- White space, punctuation that is stripped from the end of a clause, and the sentinel: none
of them is a letter or a digit. -/
def isFiller (u : UInt16) : Bool := isTrailing u || u == SENTINEL

/-- A run of white space. -/
def Spaces (s : Text) : Prop := s ≠ [] ∧ ∀ u ∈ s, isSpace u = true

/-- A conjunction between white space. -/
structure Coordination (before word after : Text) : Prop where
  before_spaces : Spaces before
  conjunction : isConjunction word = true
  after_spaces : Spaces after

/-- What stands between two clauses. -/
def IsGap (g : Text) : Prop :=
  (∀ u ∈ g, isFiller u = true) ∨
    ∃ before word after, g = before ++ word ++ after ∧ Coordination before word after

section Patterns

variable {s : Text}

theorem isFiller_of_isSpace {u : UInt16} (h : isSpace u = true) : isFiller u = true := by
  rw [isFiller, isTrailing, h]
  rfl

theorem isFiller_of_isTrailing {u : UInt16} (h : isTrailing u = true) : isFiller u = true := by
  rw [isFiller, h]
  rfl

theorem spaces_takeWhile (h : (s.takeWhile isSpace).isEmpty = false) :
    Spaces (s.takeWhile isSpace) := by
  refine ⟨fun hnil => ?_, fun _ hu => List.mem_takeWhile_imp hu⟩
  rw [hnil] at h
  cases h

theorem of_sentenceBoundary {group after : Text} (h : sentenceBoundary s = some (group, after)) :
    ∃ spaces c rest, s = group ++ spaces ++ after ∧ group ≠ [] ∧
      (∀ u ∈ group, isTerminator u = true) ∧ Spaces spaces ∧ after = c :: rest ∧
        isCapital c = true := by
  rw [sentenceBoundary] at h
  split at h
  · cases h
  · next hmatch =>
      cases h
      rw [Bool.or_eq_true, Bool.or_eq_true, not_or, not_or] at hmatch
      obtain ⟨⟨hgroup, hspaces⟩, hcapital⟩ := hmatch
      cases hafter : (s.dropWhile isTerminator).dropWhile isSpace with
      | nil =>
          rw [hafter] at hcapital
          exact absurd rfl hcapital
      | cons c rest =>
          refine ⟨(s.dropWhile isTerminator).takeWhile isSpace, c, rest, ?_,
            fun hnil => hgroup (by rw [hnil]; rfl), fun _ hu => List.mem_takeWhile_imp hu,
            spaces_takeWhile (Bool.eq_false_iff.mpr hspaces), rfl, ?_⟩
          · rw [← hafter, List.append_assoc, List.takeWhile_append_dropWhile,
              List.takeWhile_append_dropWhile]
          · rw [hafter] at hcapital
            simpa using hcapital

/-- A match at the front: a gap with something in it. -/
def MatchesGap (s : Text) (n : ℕ) : Prop := 0 < n ∧ n ≤ s.length ∧ IsGap (s.take n)

theorem matchesGap_of_isPrefix {g : Text} {n : ℕ} (hpre : g <+: s) (hne : g ≠ []) (hgap : IsGap g)
    (hn : g.length = n) : MatchesGap s n := by
  obtain ⟨rest, rfl⟩ := hpre
  subst hn
  refine ⟨List.length_pos_iff.mpr hne, by simp, ?_⟩
  rwa [List.take_left]

/-- The longest run at the front, and what is at the front behind it. -/
theorem takeWhile_append_isPrefix {p : UInt16 → Bool} {g : Text} (h : g <+: s.dropWhile p) :
    s.takeWhile p ++ g <+: s := by
  have hpre := (List.prefix_append_right_inj (s.takeWhile p)).mpr h
  rwa [List.takeWhile_append_dropWhile] at hpre

theorem matchesGap_of_conjunctionAt {n : ℕ} (h : conjunctionAt s = some n) : MatchesGap s n := by
  rw [conjunctionAt] at h
  split at h
  · cases h
  · next hmatch =>
      cases h
      rw [Bool.or_eq_true, Bool.or_eq_true, not_or, not_or, Bool.not_eq_true',
        Bool.not_eq_false] at hmatch
      obtain ⟨⟨hbefore, hafter⟩, hword⟩ := hmatch
      have hcoord := Coordination.mk (spaces_takeWhile (Bool.eq_false_iff.mpr hbefore)) hword
        (spaces_takeWhile (Bool.eq_false_iff.mpr hafter))
      refine matchesGap_of_isPrefix ?_ ?_ (Or.inr ⟨_, _, _, rfl, hcoord⟩) ?_
      · rw [List.append_assoc]
        exact takeWhile_append_isPrefix (takeWhile_append_isPrefix (List.takeWhile_prefix _))
      · exact fun hnil => hcoord.before_spaces.1
          (List.append_eq_nil_iff.mp (List.append_eq_nil_iff.mp hnil).1).1
      · simp only [List.length_append]

theorem matchesGap_of_semicolonAt {n : ℕ} (h : semicolonAt s = some n) : MatchesGap s n := by
  rw [semicolonAt] at h
  cases hbehind : s.dropWhile isSpace with
  | nil =>
      rw [hbehind] at h
      cases h
  | cons u behind =>
      rw [hbehind] at h
      dsimp only at h
      split at h
      · cases h
      · next hmatch =>
          cases h
          rw [not_or, not_not] at hmatch
          obtain ⟨rfl, hafter⟩ := hmatch
          refine matchesGap_of_isPrefix (g := s.takeWhile isSpace ++ 0x3B :: behind.takeWhile isSpace)
            ?_ ?_ (Or.inl ?_) ?_
          · refine takeWhile_append_isPrefix ?_
            rw [hbehind]
            exact List.cons_prefix_cons.mpr ⟨rfl, List.takeWhile_prefix _⟩
          · simp
          · intro u hu
            rcases List.mem_append.mp hu with hu | hu
            · exact isFiller_of_isSpace (List.mem_takeWhile_imp hu)
            · rcases List.mem_cons.mp hu with rfl | hu
              · decide
              · exact isFiller_of_isSpace (List.mem_takeWhile_imp hu)
          · simp only [List.length_append, List.length_cons]
            omega

/-- What `exec` finds is what the pattern matches there. -/
theorem front_of_exec {front : Text → Option ℕ} {i n : ℕ} (h : exec front s = some (i, n)) :
    front (s.drop i) = some n := by
  induction s generalizing i with
  | nil => cases h
  | cons u rest ih =>
      rw [exec] at h
      split at h
      · next hfront =>
          cases h
          exact hfront
      · obtain ⟨⟨j, m⟩, hj, heq⟩ := Option.map_eq_some_iff.mp h
        cases heq
        exact ih hj

end Patterns

/-! ## 3. The functions -/

/-- `text.replace(SENTENCE_BOUNDARY_RE, '$1' + SENTINEL)`. -/
def marked : Text → Text
  | [] => []
  | u :: rest =>
      match _h : sentenceBoundary (u :: rest) with
      | some (group, after) => group ++ SENTINEL :: marked after
      | none => u :: marked rest
termination_by s => s.length
decreasing_by
  · obtain ⟨spaces, c, rest', heq, hgroup, _⟩ := of_sentenceBoundary _h
    have hpos := List.length_pos_iff.mpr hgroup
    rw [heq, List.length_append, List.length_append]
    omega
  · exact Nat.lt_succ_self _

/-- A `ClauseSplit`: `stop` is `end`. -/
abbrev ClauseSplit := Segments.Piece UInt16

/-- A part of a sentence, before it is cleaned. -/
structure Part where
  text : Text
  start : ℕ

/-- The match that comes first, of a conjunction or of a semicolon. -/
def nextBoundary (s : Text) : Option (ℕ × ℕ) :=
  match exec conjunctionAt s, exec semicolonAt s with
  | none, semi => semi
  | conj, none => conj
  | some conj, some semi => some (if conj.1 < semi.1 then conj else semi)

theorem matchesGap_of_nextBoundary {s : Text} {next matchLen : ℕ}
    (h : nextBoundary s = some (next, matchLen)) : MatchesGap (s.drop next) matchLen := by
  have hsemi : ∀ m, exec semicolonAt s = some m → MatchesGap (s.drop m.1) m.2 :=
    fun _ hm => matchesGap_of_semicolonAt (front_of_exec hm)
  have hconj : ∀ m, exec conjunctionAt s = some m → MatchesGap (s.drop m.1) m.2 :=
    fun _ hm => matchesGap_of_conjunctionAt (front_of_exec hm)
  rw [nextBoundary] at h
  split at h
  · exact hsemi _ h
  · exact hconj _ h
  · next conj semi hc hs =>
      have hfirst := Option.some.inj h
      split at hfirst
      · exact hconj _ (hfirst ▸ hc)
      · exact hsemi _ (hfirst ▸ hs)

/-- The loop of `splitOnInternalBoundaries`, from `start` on. -/
def splitOnInternalBoundaries (sentence : Text) (start : ℕ) : List Part :=
  if sentence.isEmpty then []
  else
    match _h : nextBoundary sentence with
    | none => [⟨sentence, start⟩]
    | some (next, matchLen) =>
        ⟨sentence.take next, start⟩ ::
          splitOnInternalBoundaries (sentence.drop (next + matchLen)) (start + next + matchLen)
termination_by sentence.length
decreasing_by
  obtain ⟨hpos, hle, _⟩ := matchesGap_of_nextBoundary _h
  rw [List.length_drop] at hle ⊢
  omega

/-- What is left of a part. -/
def cleaned (s : Text) : Text :=
  ChatRouter.trim ((ChatRouter.trim s).rdropWhile isTrailing)

/-- What is pushed for a part, if anything is. The text is cut out of the part, so `indexOf`
finds it (`indexOf_cleaned`). -/
def clauseOf (c : Part) : Option ClauseSplit :=
  let text := cleaned c.text
  if text.isEmpty then none
  else (indexOf c.text text).map (fun idx => ⟨text, c.start + idx, c.start + idx + text.length⟩)

/-- The loop over the sentences. -/
def collectClauses (text : Text) : List Text → ℕ → List ClauseSplit
  | [], _ => []
  | raw :: sentenceRaw, cursor =>
      if raw.isEmpty then collectClauses text sentenceRaw (cursor + 1)
      else
        match indexOfFrom text raw cursor with
        | none => collectClauses text sentenceRaw (cursor + raw.length)
        | some start =>
            (splitOnInternalBoundaries raw start).filterMap clauseOf ++
              collectClauses text sentenceRaw (start + raw.length)

def splitClauses (text : Text) : List ClauseSplit :=
  if (ChatRouter.trim text).isEmpty then []
  else collectClauses text ((marked text).splitOn SENTINEL) 0

/-! ## 4. A part and its clause -/

section Parts

variable {s t : Text}

/-- The first unit of a text, if it has one, is not white space. -/
def StartsInk (s : Text) : Prop := ∀ u ∈ s.head?, isSpace u = false

theorem StartsInk.of_isPrefix (h : StartsInk s) (hpre : t <+: s) : StartsInk t := by
  intro u hu
  cases t with
  | nil => cases hu
  | cons v t =>
      obtain ⟨rest, rfl⟩ := hpre
      exact h u hu

theorem eq_append_trim (s : Text) :
    ∃ before after, s = before ++ ChatRouter.trim s ++ after ∧
      (∀ u ∈ before, isSpace u = true) ∧ (∀ u ∈ after, isSpace u = true) ∧
        StartsInk (ChatRouter.trim s) := by
  have htrim : ChatRouter.trim s = (s.dropWhile isSpace).rdropWhile isSpace := rfl
  refine ⟨s.takeWhile isSpace, (s.dropWhile isSpace).rtakeWhile isSpace, ?_,
    fun _ hu => List.mem_takeWhile_imp hu, fun _ hu => List.mem_rtakeWhile_imp hu, ?_⟩
  · rw [htrim, List.append_assoc, List.rdropWhile_append_rtakeWhile,
      List.takeWhile_append_dropWhile]
  · refine StartsInk.of_isPrefix (fun u hu => ?_) (htrim ▸ List.rdropWhile_prefix isSpace _)
    have hhead := List.head?_dropWhile_not isSpace s
    rw [Option.mem_def.mp hu] at hhead
    simpa using hhead

/-- A part is its clause, between white space and what may follow a clause. -/
theorem eq_append_cleaned (s : Text) :
    ∃ before after, s = before ++ cleaned s ++ after ∧ (∀ u ∈ before, isSpace u = true) ∧
      (∀ u ∈ after, isTrailing u = true) ∧ StartsInk (cleaned s) := by
  have hspace : ∀ l : Text, (∀ u ∈ l, isSpace u = true) → ∀ u ∈ l, isTrailing u = true :=
    fun l h u hu => by rw [isTrailing, h u hu]; rfl
  obtain ⟨before, after, heq, hbefore, hafter, hink⟩ := eq_append_trim s
  obtain ⟨none, more, hclean, hnone, hmore, hstart⟩ :=
    eq_append_trim ((ChatRouter.trim s).rdropWhile isTrailing)
  have hstripped := hink.of_isPrefix (List.rdropWhile_prefix isTrailing _)
  have hnil : none = [] := by
    -- the stripped text does not begin with white space
    cases none with
    | nil => rfl
    | cons u rest =>
        rw [hclean] at hstripped
        have hfalse := hstripped u rfl
        rw [hnone u List.mem_cons_self] at hfalse
        cases hfalse
  refine ⟨before, more ++ (ChatRouter.trim s).rtakeWhile isTrailing ++ after, ?_, hbefore, ?_,
    hstart⟩
  · rw [hnil, List.nil_append] at hclean
    have htrim : ChatRouter.trim s
        = cleaned s ++ more ++ (ChatRouter.trim s).rtakeWhile isTrailing := by
      rw [cleaned, ← hclean, List.rdropWhile_append_rtakeWhile]
    calc s = before ++ ChatRouter.trim s ++ after := heq
      _ = before ++ (cleaned s ++ more ++ (ChatRouter.trim s).rtakeWhile isTrailing) ++ after := by
          rw [← htrim]
      _ = _ := by simp only [List.append_assoc]
  · intro u hu
    rcases List.mem_append.mp hu with hu | hu
    · rcases List.mem_append.mp hu with hu | hu
      · exact hspace more hmore u hu
      · exact List.mem_rtakeWhile_imp hu
    · exact hspace after hafter u hu

/-- **A part is cut into its clause and gaps.** -/
theorem cut_clauseOf (t : Text) (start : ℕ) :
    Cut IsGap start t (clauseOf ⟨t, start⟩).toList := by
  obtain ⟨before, after, heq, hbefore, hafter, hink⟩ := eq_append_cleaned t
  have hbefore' : IsGap before := Or.inl (fun u hu => isFiller_of_isSpace (hbefore u hu))
  have hafter' : IsGap after := Or.inl (fun u hu => isFiller_of_isTrailing (hafter u hu))
  rw [clauseOf]
  dsimp only
  cases hclean : cleaned t with
  | nil =>
      rw [hclean, List.append_nil] at heq
      rw [heq]
      exact (Cut.of_gap hbefore').append (Cut.of_gap hafter')
  | cons c rest =>
      rw [hclean] at heq hink
      have hc : c ∉ before := by
        intro hmem
        have hfalse := hink c rfl
        rw [hbefore c hmem] at hfalse
        cases hfalse
      have hidx : indexOf (before ++ (c :: rest) ++ after) (c :: rest) = some before.length :=
        indexOf_append hc
      rw [← heq] at hidx
      rw [hidx]
      have hpiece : Cut IsGap (start + before.length) (c :: rest) _ :=
        Cut.of_piece (List.cons_ne_nil c rest)
      have hrest : Cut IsGap (start + (before ++ c :: rest).length) after [] := Cut.of_gap hafter'
      have hcut := ((Cut.of_gap hbefore').append hpiece).append hrest
      rw [← heq] at hcut
      exact hcut

theorem filterMap_clauseOf_cons (c : Part) (parts : List Part) :
    (c :: parts).filterMap clauseOf = (clauseOf c).toList ++ parts.filterMap clauseOf := by
  rw [List.filterMap_cons]
  cases clauseOf c <;> rfl

/-- **A sentence is cut into its clauses and gaps**, part by part. -/
theorem cut_splitOnInternalBoundaries (sentence : Text) (start : ℕ) :
    Cut IsGap start sentence
      ((splitOnInternalBoundaries sentence start).filterMap clauseOf) := by
  fun_induction splitOnInternalBoundaries sentence start with
  | case1 sentence start hempty =>
      rw [List.isEmpty_iff.mp hempty]
      exact Cut.nil start
  | case2 sentence start _ _ =>
      rw [filterMap_clauseOf_cons, List.filterMap_nil, List.append_nil]
      exact cut_clauseOf sentence start
  | case3 sentence start _ next matchLen hnext ih =>
      obtain ⟨hpos, hle, hgap⟩ := matchesGap_of_nextBoundary hnext
      rw [List.length_drop] at hle
      have hsplit : sentence = sentence.take next
          ++ ((sentence.drop next).take matchLen ++ sentence.drop (next + matchLen)) := by
        rw [← List.drop_drop, List.take_append_drop, List.take_append_drop]
      have hlength : (sentence.take next).length = next := by
        rw [List.length_take]
        omega
      have hlength' : ((sentence.drop next).take matchLen).length = matchLen := by
        rw [List.length_take, List.length_drop]
        omega
      rw [filterMap_clauseOf_cons]
      nth_rewrite 1 [hsplit]
      refine (cut_clauseOf _ _).append (Cut.gap hgap ?_)
      rw [hlength, hlength']
      exact ih

end Parts

/-! ## 5. The sentences -/

/-- A text and its sentences: between two of them stands a sentinel of the text, or white space
that the next one does not begin with. -/
inductive Sentences : Text → List Text → Prop
  | last {raw : Text} (hraw : SENTINEL ∉ raw) : Sentences raw [raw]
  | sentinel {raw rest : Text} {raws : List Text} (hraw : SENTINEL ∉ raw)
      (hrest : Sentences rest raws) : Sentences (raw ++ SENTINEL :: rest) (raw :: raws)
  | boundary {raw spaces after : Text} {raws : List Text} (hraw : SENTINEL ∉ raw) (hne : raw ≠ [])
      (hspaces : Spaces spaces) (hink : after ≠ [] ∧ StartsInk after ∧ SENTINEL ∉ after.take 1)
      (hrest : Sentences after raws) : Sentences (raw ++ spaces ++ after) (raw :: raws)

section Sentence

variable {s : Text} {raws : List Text}

/-- One more unit at the front. -/
theorem Sentences.cons {u : UInt16} (hu : u ≠ SENTINEL) (h : Sentences s raws) :
    Sentences (u :: s) (raws.modifyHead (u :: ·)) := by
  have hmem : ∀ raw : Text, SENTINEL ∉ raw → SENTINEL ∉ u :: raw := by
    intro raw hraw hin
    rcases List.mem_cons.mp hin with heq | hin
    · exact hu heq.symm
    · exact hraw hin
  cases h with
  | last hraw => exact Sentences.last (hmem _ hraw)
  | sentinel hraw hrest => exact Sentences.sentinel (hmem _ hraw) hrest
  | boundary hraw hne hspaces hink hrest =>
      exact Sentences.boundary (hmem _ hraw) (List.cons_ne_nil _ _) hspaces hink hrest

theorem isTerminator_sentinel : isTerminator SENTINEL = false := by decide

theorem not_isSpace_of_isCapital {c : UInt16} (h : isCapital c = true) : isSpace c = false := by
  by_contra hspace
  rw [Bool.not_eq_false, isSpace, Bool.or_eq_true, Bool.and_eq_true, decide_eq_true_iff] at hspace
  rcases hspace with hlisted | ⟨hlow, _⟩
  · have hnone : ([0x09, 0x0A, 0x0B, 0x0C, 0x0D, 0x20, 0xA0, 0x1680, 0x2028, 0x2029, 0x202F, 0x205F,
        0x3000, 0xFEFF] : Text).all (fun u => !isCapital u) = true := by decide
    have hc := List.all_eq_true.mp hnone c (List.contains_iff_mem.mp hlisted)
    rw [h] at hc
    cases hc
  · simp only [isCapital, Bool.or_eq_true, Bool.and_eq_true, decide_eq_true_iff, beq_iff_eq,
      UInt16.le_iff_toNat_le, ← UInt16.toNat_inj] at h hlow
    have hbound : c.toNat ≤ 0x42F := by
      rcases h with (⟨_, h⟩ | ⟨_, h⟩) | h
      · exact h.trans (by decide)
      · exact h
      · exact h.le.trans (by decide)
    exact absurd (hlow.trans hbound) (by decide)

theorem not_isCapital_sentinel : isCapital SENTINEL = false := by decide

/-- **Splitting the marked text gives the sentences.** -/
theorem sentences_splitOn (s : Text) : Sentences s ((marked s).splitOn SENTINEL) := by
  fun_induction marked s with
  | case1 =>
      rw [List.splitOn_nil]
      exact Sentences.last List.not_mem_nil
  | case2 u rest group after hmatch ih =>
      obtain ⟨spaces, c, rest', heq, hne, hgroup, hspaces, hafter, hcapital⟩ :=
        of_sentenceBoundary hmatch
      have hfree : SENTINEL ∉ group := by
        intro hmem
        have htrue := hgroup SENTINEL hmem
        rw [isTerminator_sentinel] at htrue
        cases htrue
      rw [heq, List.splitOn_eq_splitOnP, List.splitOnP_append_cons_of_forall_mem
        (fun x hx => beq_eq_false_iff_ne.mpr (ne_of_mem_of_not_mem hx hfree)) _
          (beq_self_eq_true _)]
      refine Sentences.boundary hfree hne hspaces ⟨?_, ?_, ?_⟩ ih
      · rw [hafter]
        exact List.cons_ne_nil _ _
      · rw [hafter]
        intro v hv
        cases hv
        exact not_isSpace_of_isCapital hcapital
      · rw [hafter]
        intro hmem
        rw [← List.mem_singleton.mp hmem, not_isCapital_sentinel] at hcapital
        cases hcapital
  | case3 u rest hmatch ih =>
      rw [List.splitOn_eq_splitOnP, List.splitOnP_cons_eq_if_modifyHead]
      by_cases hu : u = SENTINEL
      · subst hu
        rw [if_pos (beq_self_eq_true _)]
        exact Sentences.sentinel List.not_mem_nil ih
      · rw [if_neg (by simpa using hu)]
        exact ih.cons hu

/-- What the search for the next sentence has to pass: nothing but sentinels, or white space that
the text does not begin with. -/
def Skips (junk s : Text) : Prop :=
  (∀ u ∈ junk, u = SENTINEL) ∨
    (∀ u ∈ junk, isSpace u = true) ∧ s ≠ [] ∧ StartsInk s ∧ SENTINEL ∉ s.take 1

/-- A sentence is where the search comes to first. -/
theorem indexOfFrom_sentence {text before raw tail : Text} {cursor : ℕ} (hne : raw ≠ [])
    (hraw : SENTINEL ∉ raw) (htext : text = before ++ (raw ++ tail))
    (hcursor : cursor ≤ before.length) (hskips : Skips (before.drop cursor) (raw ++ tail)) :
    indexOfFrom text raw cursor = some before.length := by
  cases raw with
  | nil => exact absurd rfl hne
  | cons c raw =>
      have hc : c ∉ before.drop cursor := by
        intro hmem
        rcases hskips with hsentinels | ⟨hspaces, _, hink, _⟩
        · exact hraw (hsentinels c hmem ▸ List.mem_cons_self)
        · have hfalse := hink c rfl
          rw [hspaces c hmem] at hfalse
          cases hfalse
      rw [indexOfFrom, htext, List.drop_append_of_le_length hcursor, ← List.append_assoc,
        indexOf_append hc, Option.map_some, List.length_drop, Nat.add_sub_cancel' hcursor]

/-- A sentence with something in it is found where it is, and cut. -/
theorem cut_collectClauses_cons {text before raw rest : Text} {raws : List Text} {cursor : ℕ}
    (hne : raw ≠ []) (hraw : SENTINEL ∉ raw) (htext : text = before ++ (raw ++ rest))
    (hcursor : cursor ≤ before.length) (hskips : Skips (before.drop cursor) (raw ++ rest))
    (hrest : Cut IsGap (before.length + raw.length) rest
      (collectClauses text raws (before.length + raw.length))) :
    Cut IsGap before.length (raw ++ rest) (collectClauses text (raw :: raws) cursor) := by
  have hempty : ¬ raw.isEmpty = true := fun hnil => hne (List.isEmpty_iff.mp hnil)
  rw [collectClauses, if_neg hempty, indexOfFrom_sentence hne hraw htext hcursor hskips]
  exact (cut_splitOnInternalBoundaries raw before.length).append hrest

/-- **The loop finds each sentence where it is.** -/
theorem cut_collectClauses {text : Text} (h : Sentences s raws) :
    ∀ (before : Text) (cursor : ℕ), text = before ++ s → cursor ≤ before.length →
      Skips (before.drop cursor) s →
        Cut IsGap before.length s (collectClauses text raws cursor) := by
  induction h with
  | @last raw hraw =>
      intro before cursor htext hcursor hskips
      by_cases hne : raw = []
      · subst hne
        rw [collectClauses, if_pos List.isEmpty_nil]
        exact Cut.nil _
      · rw [← List.append_nil raw] at htext hskips
        have hnil : Cut IsGap (before.length + raw.length) []
            (collectClauses text [] (before.length + raw.length)) := Cut.nil _
        have hcut := cut_collectClauses_cons hne hraw htext hcursor hskips hnil
        rwa [List.append_nil] at hcut
  | @sentinel raw rest raws hraw hrest ih =>
      intro before cursor htext hcursor hskips
      have hgap : IsGap [SENTINEL] :=
        Or.inl (fun u hu => by rw [List.mem_singleton.mp hu]; rfl)
      have hnext := ih (before ++ raw ++ [SENTINEL])
      by_cases hne : raw = []
      · -- nothing between two sentinels: the cursor moves over one of those that it is behind
        subst hne
        have hsentinels : ∀ u ∈ before.drop cursor, u = SENTINEL := by
          rcases hskips with hsentinels | ⟨_, _, _, hfalse⟩
          · exact hsentinels
          · exact absurd List.mem_cons_self hfalse
        rw [collectClauses, if_pos List.isEmpty_nil]
        rw [List.append_nil] at hnext
        refine Cut.gap (g := [SENTINEL]) hgap ?_
        have hcut := hnext (cursor + 1) (by rw [htext]; simp)
          (by rw [List.length_append, List.length_singleton]; omega) (Or.inl (fun u hu => ?_))
        · rwa [List.length_append] at hcut
        · rw [← List.drop_drop, List.drop_append_of_le_length hcursor] at hu
          rcases List.mem_append.mp (List.mem_of_mem_drop hu) with hmem | hmem
          · exact hsentinels u hmem
          · exact List.mem_singleton.mp hmem
      · apply cut_collectClauses_cons hne hraw htext hcursor hskips
        refine Cut.gap (g := [SENTINEL]) hgap ?_
        have hcut := hnext (before.length + raw.length) (by rw [htext]; simp)
          (by simp only [List.length_append]; omega) (Or.inl (fun u hu => ?_))
        · simpa only [List.length_append] using hcut
        · rw [← List.length_append, List.drop_left] at hu
          exact List.mem_singleton.mp hu
  | @boundary raw spaces after raws hraw hne hspaces hink hrest ih =>
      intro before cursor htext hcursor hskips
      rw [List.append_assoc] at htext hskips ⊢
      have hgap : IsGap spaces := Or.inl (fun u hu => isFiller_of_isSpace (hspaces.2 u hu))
      apply cut_collectClauses_cons hne hraw htext hcursor hskips
      refine Cut.gap hgap ?_
      have hnext := ih (before ++ raw ++ spaces) (before.length + raw.length)
        (by rw [htext]; simp only [List.append_assoc])
        (by simp only [List.length_append]; omega) (Or.inr ⟨?_, hink⟩)
      · simpa only [List.length_append] using hnext
      · rw [← List.length_append, List.drop_left]
        exact hspaces.2

/-- **The text is cut into the clauses and gaps.** -/
theorem cut_splitClauses (text : Text) : Cut IsGap 0 text (splitClauses text) := by
  rw [splitClauses]
  split
  · next hempty =>
      obtain ⟨before, after, heq, hbefore, hafter, _⟩ := eq_append_trim text
      rw [List.isEmpty_iff.mp hempty, List.append_nil] at heq
      refine Cut.of_gap (Or.inl (fun u hu => isFiller_of_isSpace ?_))
      rw [heq] at hu
      rcases List.mem_append.mp hu with hu | hu
      · exact hbefore u hu
      · exact hafter u hu
  · exact cut_collectClauses (sentences_splitOn text) [] 0 rfl (le_refl 0)
      (Or.inl (fun _ hu => absurd hu List.not_mem_nil))

end Sentence

/-! ## 6. Nothing is lost -/

/-- The position is in a conjunction of the text, between white space. -/
def InConjunction (text : Text) (i : ℕ) : Prop :=
  ∃ front before word after rest, text = front ++ before ++ word ++ after ++ rest ∧
    Coordination before word after ∧ (front ++ before).length ≤ i ∧
      i < (front ++ before ++ word).length

/-- A unit of the middle of a text. -/
theorem mem_of_getElem?_append {a b c : Text} {i : ℕ} {u : UInt16} (hle : a.length ≤ i)
    (hlt : i < a.length + b.length) (hu : (a ++ b ++ c)[i]? = some u) : u ∈ b := by
  rw [List.append_assoc, List.getElem?_append_right hle,
    List.getElem?_append_left (by omega)] at hu
  exact List.mem_of_getElem? hu

/-- A position of a gap is a filler, or in a conjunction. -/
theorem filler_or_inConjunction {text : Text} {i : ℕ} (h : Segments.InGap IsGap 0 text i) :
    (∀ u ∈ text[i]?, isFiller u = true) ∨ InConjunction text i := by
  obtain ⟨front, g, rest, rfl, hgap, hle, hlt⟩ := h
  rw [Nat.zero_add] at hle hlt
  rcases hgap with hfillers | ⟨before, word, after, rfl, hcoord⟩
  · exact Or.inl (fun u hu => hfillers u (mem_of_getElem?_append hle hlt hu))
  · simp only [List.length_append] at hlt
    by_cases hbefore : i < front.length + before.length
    · refine Or.inl (fun u hu => isFiller_of_isSpace (hcoord.before_spaces.2 u ?_))
      rw [List.append_assoc before, ← List.append_assoc front, List.append_assoc _ _ rest] at hu
      exact mem_of_getElem?_append hle hbefore hu
    · by_cases hword : i < front.length + before.length + word.length
      · refine Or.inr ⟨front, before, word, after, rest, by simp only [List.append_assoc], hcoord,
          ?_, ?_⟩
        · rw [List.length_append]
          omega
        · rw [List.length_append, List.length_append]
          omega
      · refine Or.inl (fun u hu => isFiller_of_isSpace (hcoord.after_spaces.2 u ?_))
        rw [← List.append_assoc front] at hu
        refine mem_of_getElem?_append ?_ ?_ hu
        · simp only [List.length_append]
          omega
        · simp only [List.length_append]
          omega

/-- **Clause splitting is exact and loses nothing.** Each clause is where it says and is not
empty, the clauses are in order and apart, and a unit that is neither white space nor
punctuation is in exactly one clause, or in none and in a conjunction. -/
theorem splitClauses_exact (text : Text) :
    (∀ c ∈ splitClauses text, slice text c.start c.stop = c.text ∧ c.text ≠ [] ∧
        c.start < c.stop ∧ c.stop ≤ text.length) ∧
      (splitClauses text).Pairwise (fun a b => a.stop ≤ b.start) ∧
        ∀ i (hi : i < text.length), isFiller text[i] = false →
          (∃! c, c ∈ splitClauses text ∧ c.Has i) ∨
            (∀ c ∈ splitClauses text, ¬ c.Has i) ∧ InConjunction text i := by
  have hcut := cut_splitClauses text
  refine ⟨fun c hc => ?_, hcut.pairwise, fun i hi hfiller => ?_⟩
  · obtain ⟨_, hstop, hne, _⟩ := hcut.bounds hc
    rw [Nat.zero_add] at hstop
    exact ⟨hcut.slice_eq hc, hne, hcut.start_lt_stop hc, hstop⟩
  · rcases hcut.covers (Nat.zero_le i) (by rwa [Nat.zero_add]) with ⟨c, hc, hhas⟩ | ⟨hnone, hgap⟩
    · exact Or.inl ⟨c, ⟨hc, hhas⟩, fun b hb => hcut.eq_of_has hb.1 hc hb.2 hhas⟩
    · refine Or.inr ⟨hnone, ?_⟩
      rcases filler_or_inConjunction hgap with hfalse | hconj
      · have htrue := hfalse text[i] (List.getElem?_eq_getElem hi)
        rw [hfiller] at htrue
        cases htrue
      · exact hconj

end Brain.ClauseSplitter
