/-
The texts of JSON, as the grammar of the format has them.

A text is a list of UTF-16 units, so the contents of a string are any units at all but
quotes, backslashes and controls, lone surrogates included. White space stands wherever the
grammar lets it stand. The four kinds of text that contain one another are one inductive
predicate, so that a fact about all of them is one induction.
-/
import Mathlib.Data.List.Basic

set_option autoImplicit false

namespace JsonText

/-- A unit, as it is written in a text. -/
def unit (c : Char) : UInt16 := UInt16.ofNat c.toNat

/-- A text of ASCII characters. -/
def ascii (s : String) : List UInt16 := s.toList.map unit

/-! ## Leaves -/

/-- Space, tab, line feed, carriage return. -/
def IsWs (w : List UInt16) : Prop := ∀ u ∈ w, u ∈ ascii " \t\n\r"

def IsDigit (u : UInt16) : Prop := u ∈ ascii "0123456789"

def IsHex (u : UInt16) : Prop := u ∈ ascii "0123456789abcdefABCDEF"

/-- What may stand in a string as it is. -/
def IsPlain (u : UInt16) : Prop := 0x20 ≤ u ∧ u ≠ unit '"' ∧ u ≠ unit '\\'

/-- What stands between the quotes of a string. -/
inductive IsChars : List UInt16 → Prop
  | nil : IsChars []
  | plain {u : UInt16} {cs : List UInt16} : IsPlain u → IsChars cs → IsChars (u :: cs)
  | escape {u : UInt16} {cs : List UInt16} : u ∈ ascii "\"\\/bfnrt" → IsChars cs →
      IsChars (unit '\\' :: u :: cs)
  | unicode {a b c d : UInt16} {cs : List UInt16} : IsHex a → IsHex b → IsHex c → IsHex d →
      IsChars cs → IsChars (unit '\\' :: unit 'u' :: a :: b :: c :: d :: cs)

instance (u : UInt16) : Decidable (IsPlain u) :=
  inferInstanceAs (Decidable (_ ∧ _ ∧ _))

theorem isChars_of_plain {cs : List UInt16} (h : cs.all (fun u => decide (IsPlain u)) = true) :
    IsChars cs := by
  induction cs with
  | nil => exact .nil
  | cons u cs ih =>
      rw [List.all_cons, Bool.and_eq_true, decide_eq_true_iff] at h
      exact .plain h.1 (ih h.2)

def IsString (s : List UInt16) : Prop :=
  ∃ cs, IsChars cs ∧ s = unit '"' :: cs ++ [unit '"']

/-- An integer part: zero, or digits that do not start with a zero. -/
def IsInteger (s : List UInt16) : Prop :=
  s = ascii "0" ∨ ∃ u ds, s = u :: ds ∧ IsDigit u ∧ u ≠ unit '0' ∧ ∀ d ∈ ds, IsDigit d

def IsFraction (s : List UInt16) : Prop :=
  s = [] ∨ ∃ ds, s = unit '.' :: ds ∧ ds ≠ [] ∧ ∀ d ∈ ds, IsDigit d

def IsExponent (s : List UInt16) : Prop :=
  s = [] ∨ ∃ e sign ds, s = e :: sign ++ ds ∧ e ∈ ascii "eE" ∧
    (sign = [] ∨ sign = ascii "+" ∨ sign = ascii "-") ∧ ds ≠ [] ∧ ∀ d ∈ ds, IsDigit d

def IsNumber (s : List UInt16) : Prop :=
  ∃ sign i f e, s = sign ++ i ++ f ++ e ∧ (sign = [] ∨ sign = ascii "-") ∧ IsInteger i ∧
    IsFraction f ∧ IsExponent e

/-! ## Values -/

/-- The kinds of text: a value, what stands between the braces of an object that is not empty,
and what stands between the brackets of an array that is not empty. -/
inductive Kind where
  | value | members | elements

/-- The texts of each kind. -/
inductive IsText : Kind → List UInt16 → Prop
  | literal {s : List UInt16} : s = ascii "true" ∨ s = ascii "false" ∨ s = ascii "null" →
      IsText .value s
  | number {s : List UInt16} : IsNumber s → IsText .value s
  | string {s : List UInt16} : IsString s → IsText .value s
  | emptyObject {w : List UInt16} : IsWs w → IsText .value (unit '\x7b' :: w ++ [unit '\x7d'])
  | object {m : List UInt16} : IsText .members m →
      IsText .value (unit '\x7b' :: m ++ [unit '\x7d'])
  | emptyArray {w : List UInt16} : IsWs w → IsText .value (unit '[' :: w ++ [unit ']'])
  | array {m : List UInt16} : IsText .elements m → IsText .value (unit '[' :: m ++ [unit ']'])
  | member {w₁ k w₂ w₃ v w₄ : List UInt16} : IsWs w₁ → IsString k → IsWs w₂ → IsWs w₃ →
      IsText .value v → IsWs w₄ →
      IsText .members (w₁ ++ k ++ w₂ ++ [unit ':'] ++ w₃ ++ v ++ w₄)
  | moreMembers {m n : List UInt16} : IsText .members m → IsText .members n →
      IsText .members (m ++ [unit ','] ++ n)
  | element {w₁ v w₂ : List UInt16} : IsWs w₁ → IsText .value v → IsWs w₂ →
      IsText .elements (w₁ ++ v ++ w₂)
  | moreElements {m n : List UInt16} : IsText .elements m → IsText .elements n →
      IsText .elements (m ++ [unit ','] ++ n)

/-- The texts of objects, without white space around them. -/
def IsObject (s : List UInt16) : Prop :=
  ∃ m, s = unit '\x7b' :: m ++ [unit '\x7d'] ∧ (IsWs m ∨ IsText .members m)

/-- Units that neither open, close nor quote anything. -/
def Inert (s : List UInt16) : Prop :=
  ∀ u ∈ s, u ≠ unit '\\' ∧ u ≠ unit '"' ∧ u ≠ unit '\x7b' ∧ u ≠ unit '\x7d'

-- by the list, since there are too many units
instance (s : List UInt16) : Decidable (Inert s) :=
  List.decidableBAll
    (fun u => u ≠ unit '\\' ∧ u ≠ unit '"' ∧ u ≠ unit '\x7b' ∧ u ≠ unit '\x7d') s

theorem Inert.append {s t : List UInt16} (hs : Inert s) (ht : Inert t) : Inert (s ++ t) := by
  intro u hu
  rcases List.mem_append.mp hu with h | h
  · exact hs u h
  · exact ht u h

/-- The letters of `alphabet` are inert if it has none of the four units. -/
theorem inert_of_subset {s : List UInt16} (alphabet : String)
    (hs : ∀ u ∈ s, u ∈ ascii alphabet) (ha : Inert (ascii alphabet)) : Inert s :=
  fun u hu => ha u (hs u hu)

theorem IsWs.inert {w : List UInt16} (h : IsWs w) : Inert w :=
  inert_of_subset " \t\n\r" h (by decide)

theorem inert_digits {ds : List UInt16} (h : ∀ d ∈ ds, IsDigit d) : Inert ds :=
  inert_of_subset "0123456789" h (by decide)

theorem IsNumber.inert {s : List UInt16} (h : IsNumber s) : Inert s := by
  obtain ⟨sign, i, f, e, rfl, hsign, hi, hf, he⟩ := h
  have hsign' : Inert sign := by
    rcases hsign with rfl | rfl <;> decide
  have hi' : Inert i := by
    rcases hi with rfl | ⟨u, ds, rfl, hu, -, hds⟩
    · decide
    · refine inert_digits (fun d hd => ?_)
      rcases List.mem_cons.mp hd with rfl | hd
      · exact hu
      · exact hds d hd
  have hf' : Inert f := by
    rcases hf with rfl | ⟨ds, rfl, -, hds⟩
    · decide
    · exact Inert.append (s := [unit '.']) (by decide) (inert_digits hds)
  have he' : Inert e := by
    rcases he with rfl | ⟨e, sign, ds, rfl, he, hsign, -, hds⟩
    · decide
    · have hhead : Inert (e :: sign) := by
        refine Inert.append (s := [e]) ?_ ?_
        · exact inert_of_subset "eE" (by simpa using he) (by decide)
        · rcases hsign with rfl | rfl | rfl <;> decide
      exact hhead.append (inert_digits hds)
  exact ((hsign'.append hi').append hf').append he'

theorem inert_literal {s : List UInt16}
    (h : s = ascii "true" ∨ s = ascii "false" ∨ s = ascii "null") : Inert s := by
  rcases h with rfl | rfl | rfl <;> decide

end JsonText
