/-
`src/src/ai/locale/language-detector.ts`: the script of a text by its code points, and the
language of a text in Latin letters by its stopwords.

The header of the source says that the language is the argmax, and that ties resolve to
English. The loop keeps the first language with the greatest number of matches. English comes
first in the list, so that it wins its own ties; but a tie of two others goes to the one that is
listed before the other (`detectLanguage_argmax_iff`). Texts are code points.
-/
import Brain.Lib.JsString
import Mathlib.Data.List.MinMax
import Mathlib.Tactic

set_option autoImplicit false

namespace Brain.LanguageDetector

/-! ## 1. Languages and scripts -/

inductive LanguageCode
  | en | ru | es | fr | de | pt | it | zh | ja | ko | ar | hi | und
deriving DecidableEq

inductive ScriptCode
  | Latn | Cyrl | Hani | Hira | Hang | Arab | Deva | Zyyy
deriving DecidableEq

/-- `DetectedLanguage`. -/
structure DetectedLanguage where
  language : LanguageCode
  script : ScriptCode
  confidence : ℚ
deriving DecidableEq

/-- The built-in functions that are taken as they are. -/
structure LanguageLibs where
  toLowerCase : List Char → List Char
  /-- `normalize('NFC')`. -/
  normalizeNfc : List Char → List Char
  /-- `/[\p{Letter}\p{Mark}]/u`. -/
  isLetterOrMark : Char → Bool

/-- `STOPWORDS_BY_LANG`, in the order in which `STOPWORD_SETS` lists it. -/
def STOPWORDS_BY_LANG : List (LanguageCode × List String) :=
  [(.en,
    ["the", "be", "to", "of", "and", "a", "in", "that", "have", "i",
     "it", "for", "not", "on", "with", "he", "as", "you", "do", "at",
     "this", "but", "his", "by", "from", "they", "we", "say", "her", "she",
     "is", "are", "was", "were", "what", "which", "who", "where", "when", "how"]),
   (.es,
    ["de", "la", "que", "el", "en", "y", "a", "los", "del", "se",
     "las", "por", "un", "para", "con", "no", "una", "su", "al", "lo",
     "como", "más", "pero", "sus", "le", "ya", "o", "este", "ha", "son"]),
   (.fr,
    ["le", "de", "un", "à", "être", "et", "en", "avoir", "que", "pour",
     "dans", "ce", "il", "qui", "ne", "sur", "se", "pas", "plus", "par",
     "je", "avec", "tout", "faire", "son", "mais", "comme", "ou", "si", "leur"]),
   (.de,
    ["der", "die", "und", "in", "den", "von", "zu", "das", "mit", "sich",
     "des", "auf", "für", "ist", "im", "dem", "nicht", "ein", "eine", "als",
     "auch", "es", "an", "werden", "aus", "er", "hat", "dass", "sie", "nach"]),
   (.pt,
    ["de", "a", "o", "que", "e", "do", "da", "em", "um", "para",
     "com", "não", "uma", "os", "no", "se", "na", "por", "mais", "as",
     "dos", "como", "mas", "ao", "ele", "das", "à", "seu", "sua", "ou"]),
   (.it,
    ["di", "a", "da", "in", "su", "per", "con", "tra", "il", "lo",
     "la", "i", "gli", "le", "un", "una", "uno", "che", "non", "è",
     "sono", "ho", "ha", "mi", "ti", "si", "come", "più", "anche", "ma"])]

/-! ## 2. Scripts -/

/-- A bucket of `SCRIPT_RANGES`. -/
inductive Bucket
  | latin | cyrillic | arabic | devanagari | hiragana | katakana | hangul | han
deriving DecidableEq

/-- `SCRIPT_RANGES`. -/
def SCRIPT_RANGES : List (Bucket × List (ℕ × ℕ)) :=
  [(.latin, [(0x41, 0x5A), (0x61, 0x7A), (0xC0, 0x24F), (0x1E00, 0x1EFF)]),
   (.cyrillic, [(0x400, 0x4FF)]),
   (.arabic, [(0x600, 0x6FF)]),
   (.devanagari, [(0x900, 0x97F)]),
   (.hiragana, [(0x3040, 0x309F)]),
   (.katakana, [(0x30A0, 0x30FF)]),
   (.hangul, [(0xAC00, 0xD7AF)]),
   (.han, [(0x4E00, 0x9FFF), (0x3400, 0x4DBF), (0x20000, 0x2A6DF)])]

def classifyCodePoint (code : ℕ) : Option Bucket :=
  (SCRIPT_RANGES.find? (fun e =>
    e.2.any (fun r => decide (r.1 ≤ code) && decide (code ≤ r.2)))).map Prod.fst

def isLetter (code : ℕ) : Bool :=
  if 0x30 ≤ code ∧ code ≤ 0x39 then false
  else if code < 0x41 then false
  else true

/-- `countUnicodeBlocks`: the buckets of the letters that have one. The total of the source is
their number, and the count of a bucket how often it is among them. -/
def countUnicodeBlocks (text : List Char) : List Bucket :=
  text.filterMap (fun ch => if isLetter ch.toNat then classifyCodePoint ch.toNat else none)

/-- The share of some buckets in the letters. -/
def share (blocks : List Bucket) (buckets : List Bucket) : ℚ :=
  (blocks.countP (fun b => buckets.contains b) : ℚ) / blocks.length

/-- The triage of the scripts that are not Latin. -/
def triage (blocks : List Bucket) : Option DetectedLanguage :=
  if 4 / 10 < share blocks [.cyrillic] then some ⟨.ru, .Cyrl, share blocks [.cyrillic]⟩
  else if 3 / 10 < share blocks [.hangul] then some ⟨.ko, .Hang, share blocks [.hangul]⟩
  else if 2 / 10 < share blocks [.hiragana, .katakana] then
    some ⟨.ja, .Hira, share blocks [.hiragana, .katakana, .han]⟩
  else if 3 / 10 < share blocks [.han] then some ⟨.zh, .Hani, share blocks [.han]⟩
  else if 3 / 10 < share blocks [.arabic] then some ⟨.ar, .Arab, share blocks [.arabic]⟩
  else if 3 / 10 < share blocks [.devanagari] then
    some ⟨.hi, .Deva, share blocks [.devanagari]⟩
  else none

/-! ## 3. Stopwords -/

/-- The tokens of a text. -/
def tokenize (libs : LanguageLibs) (text : List Char) : List String :=
  (((libs.normalizeNfc (libs.toLowerCase text)).splitOnP (fun c => !libs.isLetterOrMark c)).filter
    (fun t => !t.isEmpty)).map String.ofList

/-- How many tokens are stopwords of a language. -/
def hits (tokens : List String) (entry : LanguageCode × List String) : ℕ :=
  tokens.countP (fun tok => entry.2.contains tok)

/-- One turn of the loop; the language that is best so far, and its score. -/
def keepBest (tokens : List String) (best : LanguageCode × ℕ)
    (entry : LanguageCode × List String) : LanguageCode × ℕ :=
  if best.2 < hits tokens entry then (entry.1, hits tokens entry) else best

def scoreLatinLanguage (libs : LanguageLibs) (text : List Char) : DetectedLanguage :=
  let tokens := tokenize libs text
  if tokens.isEmpty then ⟨.und, .Latn, 0⟩
  else
    let best := STOPWORDS_BY_LANG.foldl (keepBest tokens) (.en, 0)
    ⟨best.1, .Latn, best.2 / tokens.length⟩

def detectLanguage (libs : LanguageLibs) (text : List Char) : DetectedLanguage :=
  let trimmed := trim text
  let blocks := countUnicodeBlocks trimmed
  if trimmed.isEmpty then ⟨.und, .Zyyy, 0⟩
  else if blocks.isEmpty then ⟨.und, .Zyyy, 0⟩
  else (triage blocks).getD (scoreLatinLanguage libs trimmed)

/-! ## 4. The greatest score -/

/-- No language matches more tokens. -/
def Leads (tokens : List String) (entry : LanguageCode × List String) : Prop :=
  ∀ other ∈ STOPWORDS_BY_LANG, hits tokens other ≤ hits tokens entry

instance (tokens : List String) (entry : LanguageCode × List String) :
    Decidable (Leads tokens entry) :=
  inferInstanceAs (Decidable (∀ other ∈ STOPWORDS_BY_LANG, hits tokens other ≤ hits tokens entry))

/-- The language that matches more tokens than each other one, if there is one; and English for
a tie. -/
structure ArgmaxOrEnglish (tokens : List String) (language : LanguageCode) : Prop where
  argmax : ∀ e ∈ STOPWORDS_BY_LANG,
    (∀ other ∈ STOPWORDS_BY_LANG, other.1 ≠ e.1 → hits tokens other < hits tokens e) →
      language = e.1
  ties : ∀ e ∈ STOPWORDS_BY_LANG, ∀ other ∈ STOPWORDS_BY_LANG, other.1 ≠ e.1 →
    Leads tokens e → Leads tokens other → language = .en

/-- In a tie English is one of those that lead. -/
def EnglishInTies (tokens : List String) : Prop :=
  ∀ e ∈ STOPWORDS_BY_LANG, ∀ other ∈ STOPWORDS_BY_LANG, other.1 ≠ e.1 →
    Leads tokens e → Leads tokens other →
      ∃ english ∈ STOPWORDS_BY_LANG, english.1 = .en ∧ Leads tokens english

section Scores

variable {tokens : List String} {e m : LanguageCode × List String}

/-- The loop keeps the first entry with the greatest score, if that is positive. -/
theorem foldl_keepBest (tokens : List String) (l : List (LanguageCode × List String)) :
    l.foldl (keepBest tokens) (.en, 0) =
      match l.argmax (hits tokens) with
      | none => (.en, 0)
      | some m => if 0 < hits tokens m then (m.1, hits tokens m) else (.en, 0) := by
  induction l using List.reverseRecOn with
  | nil => rfl
  | append_singleton l e ih =>
      rw [List.foldl_append, List.foldl_cons, List.foldl_nil, ih, List.argmax_concat]
      cases l.argmax (hits tokens) with
      | none => rfl
      | some m =>
          dsimp only
          by_cases hpos : 0 < hits tokens m
          · rw [if_pos hpos, keepBest]
            by_cases hlt : hits tokens m < hits tokens e
            · rw [if_pos hlt, if_pos hlt]
              exact (if_pos (hpos.trans hlt)).symm
            · rw [if_neg hlt, if_neg hlt]
              exact (if_pos hpos).symm
          · rw [if_neg hpos, keepBest]
            have hzero : hits tokens m = 0 := by omega
            rw [hzero]
            by_cases hlt : 0 < hits tokens e
            · rw [if_pos hlt, if_pos hlt]
              exact (if_pos hlt).symm
            · rw [if_neg hlt, if_neg hlt]
              exact (if_neg hpos).symm

/-- The languages are listed once each, English first. -/
theorem nodup_languages : (STOPWORDS_BY_LANG.map Prod.fst).Nodup := by decide

theorem eq_of_language_eq {other : LanguageCode × List String} (he : e ∈ STOPWORDS_BY_LANG)
    (hother : other ∈ STOPWORDS_BY_LANG) (h : other.1 = e.1) : other = e :=
  List.inj_on_of_nodup_map nodup_languages hother he h

/-- An element that is found no later than the first one is the first one. -/
theorem eq_of_idxOf_le {α : Type} [DecidableEq α] {a b : α} {l : List α}
    (h : (a :: l).idxOf b ≤ (a :: l).idxOf a) : b = a := by
  by_contra hne
  rw [List.idxOf_cons_self, List.idxOf_cons_ne l (fun heq => hne heq.symm)] at h
  omega

/-- What the loop comes to: English if nothing is matched, and else a language that leads,
which is English if English leads. -/
theorem best_cases (tokens : List String) :
    ∃ m ∈ STOPWORDS_BY_LANG, Leads tokens m ∧
      (∀ e ∈ STOPWORDS_BY_LANG, e.1 = .en → Leads tokens e → m = e) ∧
      (STOPWORDS_BY_LANG.foldl (keepBest tokens) (.en, 0)).1
        = if 0 < hits tokens m then m.1 else .en := by
  cases hmax : STOPWORDS_BY_LANG.argmax (hits tokens) with
  | none => exact absurd (List.argmax_eq_none.mp hmax) (by decide)
  | some m =>
      obtain ⟨hm, hleads, hfirst⟩ := List.argmax_eq_some_iff.mp hmax
      refine ⟨m, hm, hleads, fun e he hen hlead => ?_, ?_⟩
      · -- English is the head of the list
        have hhead : e = STOPWORDS_BY_LANG.head (by decide) :=
          eq_of_language_eq (List.head_mem _) he (hen.trans (by decide))
        subst hhead
        exact eq_of_idxOf_le (hfirst _ he (hlead m hm))
      · rw [foldl_keepBest, hmax]
        dsimp only
        split
        · rfl
        · rfl

/-- **When the loop answers as the header says**: exactly if English is among the languages of
a tie. -/
theorem argmaxOrEnglish_iff (tokens : List String) :
    ArgmaxOrEnglish tokens (STOPWORDS_BY_LANG.foldl (keepBest tokens) (.en, 0)).1 ↔
      EnglishInTies tokens := by
  obtain ⟨m, hm, hleads, hfirst, hbest⟩ := best_cases tokens
  rw [hbest]
  constructor
  · intro h e he other hother hne hlead hlead'
    have hen := h.ties e he other hother hne hlead hlead'
    by_cases hpos : 0 < hits tokens m
    · rw [if_pos hpos] at hen
      exact ⟨m, hm, hen, hleads⟩
    · -- nothing is matched, so that all languages lead
      refine ⟨STOPWORDS_BY_LANG.head (by decide), List.head_mem _, by decide, fun x hx => ?_⟩
      have hx := hleads x hx
      omega
  · intro h
    constructor
    · intro e he hstrict
      have hme : m = e := by
        by_contra hne
        have hlt := hstrict m hm (fun heq => hne (eq_of_language_eq he hm heq))
        have hle := hleads e he
        omega
      -- there are other languages, and they match less
      obtain ⟨other, hother, hne⟩ : ∃ other ∈ STOPWORDS_BY_LANG, other.1 ≠ e.1 := by
        by_cases hen : e.1 = .en
        · exact ⟨STOPWORDS_BY_LANG.getLast (by decide), List.getLast_mem _, by rw [hen]; decide⟩
        · exact ⟨STOPWORDS_BY_LANG.head (by decide), List.head_mem _, fun heq => hen heq.symm⟩
      have hlt := hstrict other hother hne
      have hpos : 0 < hits tokens m := by
        rw [hme]
        omega
      rw [if_pos hpos, hme]
    · intro e he other hother hne hlead hlead'
      obtain ⟨english, henglish, hen, hleadsEn⟩ := h e he other hother hne hlead hlead'
      split
      · rw [hfirst english henglish hen hleadsEn, hen]
      · rfl

end Scores

/-! ## 5. The answer for a text -/

/-- The language of a text with at least one token. -/
theorem scoreLatinLanguage_argmax_iff (libs : LanguageLibs) (text : List Char)
    (htokens : tokenize libs text ≠ []) :
    ArgmaxOrEnglish (tokenize libs text) (scoreLatinLanguage libs text).language ↔
      EnglishInTies (tokenize libs text) := by
  have hne : (tokenize libs text).isEmpty = false := List.isEmpty_eq_false_iff.mpr htokens
  rw [scoreLatinLanguage, hne]
  exact argmaxOrEnglish_iff (tokenize libs text)

/-- A text that no other script takes comes to the stopwords. -/
theorem detectLanguage_of_latin {libs : LanguageLibs} {text : List Char}
    (hletters : countUnicodeBlocks (trim text) ≠ [])
    (hlatin : triage (countUnicodeBlocks (trim text)) = none) :
    detectLanguage libs text = scoreLatinLanguage libs (trim text) := by
  have htrim : trim text ≠ [] := by
    intro hnil
    rw [hnil] at hletters
    exact hletters rfl
  simp only [detectLanguage, List.isEmpty_eq_false_iff.mpr hletters,
    List.isEmpty_eq_false_iff.mpr htrim, hlatin, Option.getD_none]
  rfl

/-- **The language of a text that comes to the stopwords** with at least one token is the argmax
with ties to English exactly if English is among the languages of a tie. -/
theorem detectLanguage_argmax_iff (libs : LanguageLibs) (text : List Char)
    (hletters : countUnicodeBlocks (trim text) ≠ [])
    (hlatin : triage (countUnicodeBlocks (trim text)) = none)
    (htokens : tokenize libs (trim text) ≠ []) :
    ArgmaxOrEnglish (tokenize libs (trim text)) (detectLanguage libs text).language ↔
      EnglishInTies (tokenize libs (trim text)) := by
  rw [detectLanguage_of_latin hletters hlatin]
  exact scoreLatinLanguage_argmax_iff libs (trim text) htokens

/-- The library for texts in ASCII letters. -/
def asciiLibs : LanguageLibs where
  toLowerCase := fun t => t.map Char.toLower
  normalizeNfc := id
  isLetterOrMark := Char.isAlpha

/-- A text of one English stopword. -/
theorem detectLanguage_argmax_iff_the :
    ArgmaxOrEnglish (tokenize asciiLibs (trim ['T', 'h', 'e']))
        (detectLanguage asciiLibs ['T', 'h', 'e']).language ↔
      EnglishInTies (tokenize asciiLibs (trim ['T', 'h', 'e'])) :=
  detectLanguage_argmax_iff asciiLibs ['T', 'h', 'e'] (by decide) (by decide +kernel) (by decide)

/-- "de" is a stopword of Spanish, French and Portuguese, and is taken for Spanish. -/
theorem tie_without_english_not_en :
    ¬ ∀ (libs : LanguageLibs) (text : List Char), countUnicodeBlocks (trim text) ≠ [] →
      triage (countUnicodeBlocks (trim text)) = none → tokenize libs (trim text) ≠ [] →
        ArgmaxOrEnglish (tokenize libs (trim text)) (detectLanguage libs text).language := by
  intro h
  have hde := h asciiLibs ['d', 'e'] (by decide) (by decide +kernel) (by decide)
  -- Spanish is the second of the list, Portuguese the fifth
  have hen := hde.ties (STOPWORDS_BY_LANG.get ⟨1, by decide⟩) (List.get_mem _ _)
    (STOPWORDS_BY_LANG.get ⟨4, by decide⟩) (List.get_mem _ _) (by decide) (by decide) (by decide)
  revert hen
  decide +kernel

end Brain.LanguageDetector
