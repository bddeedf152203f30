/-
Strings as JavaScript has them, as far as the services that read a request need it.
The characters are code points here, and UTF-16 units in the source.
-/
import Mathlib.Data.List.Basic

set_option autoImplicit false

namespace Brain

/-- The characters that `trim` removes. -/
def isTrimmed (c : Char) : Bool :=
  [0x09, 0x0A, 0x0B, 0x0C, 0x0D, 0x20, 0xA0, 0x1680, 0x2028, 0x2029, 0x202F, 0x205F, 0x3000,
    0xFEFF].contains c.toNat || (decide (0x2000 ≤ c.toNat) && decide (c.toNat ≤ 0x200A))

/-- `trim`. -/
def trim (s : List Char) : List Char :=
  ((s.dropWhile isTrimmed).reverse.dropWhile isTrimmed).reverse

/-- `toLowerCase`, for tests that only look for ASCII characters. -/
def asciiLower (s : List Char) : List Char := s.map Char.toLower

/-- Two strings that agree up to a character that neither has before it. -/
theorem eq_of_append_sep {c : Char} {x y : List Char} : ∀ {a b : List Char}, c ∉ a → c ∉ b →
    a ++ c :: x = b ++ c :: y → a = b ∧ x = y
  | [], [], _, _, h => ⟨rfl, (List.cons.inj h).2⟩
  | [], d :: b, _, hb, h => absurd ((List.cons.inj h).1 ▸ List.mem_cons_self) hb
  | d :: a, [], ha, _, h => absurd ((List.cons.inj h).1 ▸ List.mem_cons_self) ha
  | d :: a, e :: b, ha, hb, h => by
      obtain ⟨hde, hrest⟩ := List.cons.inj h
      obtain ⟨hab, hxy⟩ := eq_of_append_sep (fun hm => ha (List.mem_cons_of_mem d hm))
        (fun hm => hb (List.mem_cons_of_mem e hm)) hrest
      exact ⟨by rw [hde, hab], hxy⟩

end Brain
