/-
Edits of a list: each one puts a replacement in the place of a piece.

Splicing them one after the other, from the last to the first, leaves the places of the
others where they were. If the edits are in order and start inside the list, the result is the
list with the pieces replaced, all at once (`foldr_splice`). Edits with disjoint pieces are in
order once they are sorted by where they start (`inOrder_reverse_sort`).
-/
import Mathlib.Data.List.Sort
import Mathlib.Tactic

set_option autoImplicit false

namespace Splice

variable {α : Type*}

/-- The piece `[start, stop)` is to be replaced. -/
structure Edit (α : Type*) where
  start : ℕ
  stop : ℕ
  replacement : List α

/-- The piece `[start, stop)` of a list. -/
def slice (l : List α) (start stop : ℕ) : List α := (l.take stop).drop start

/-- One edit. -/
def splice (l : List α) (e : Edit α) : List α := l.take e.start ++ e.replacement ++ l.drop e.stop

/-- The list from `pos` on, with the pieces replaced. -/
def replaced (l : List α) : ℕ → List (Edit α) → List α
  | pos, [] => l.drop pos
  | pos, e :: es => slice l pos e.start ++ e.replacement ++ replaced l e.stop es

/-- Each piece ends before the next ones start. -/
def InOrder (es : List (Edit α)) : Prop := es.Pairwise (fun a b => a.stop ≤ b.start)

/-- The pieces have nothing in common. -/
def Disjoint (a b : Edit α) : Prop := a.stop ≤ b.start ∨ b.stop ≤ a.start

theorem slice_eq_nil {l : List α} {start stop : ℕ} (h : l.length ≤ start) :
    slice l start stop = [] := by
  rw [slice, List.drop_eq_nil_iff]
  exact (List.length_take_le' stop l).trans h

theorem take_append_slice {l : List α} {pos start : ℕ} (h : pos ≤ start) :
    l.take pos ++ slice l pos start = l.take start := by
  have hpos : l.take pos = (l.take start).take pos := by rw [List.take_take, min_eq_left h]
  rw [slice, hpos, List.take_append_drop]

/-- **Splicing from the last edit to the first replaces the pieces.** What is before `pos` stays
as it is. -/
theorem foldr_splice {l : List α} {es : List (Edit α)} (horder : InOrder es)
    (hinside : ∀ e ∈ es, e.start ≤ e.stop ∧ e.start ≤ l.length) {pos : ℕ}
    (hpos : ∀ e ∈ es, pos ≤ e.start) :
    es.foldr (fun e working => splice working e) l = l.take pos ++ replaced l pos es := by
  induction es generalizing pos with
  | nil => exact (List.take_append_drop pos l).symm
  | cons e es ih =>
      obtain ⟨hnext, horder⟩ := List.pairwise_cons.mp horder
      obtain ⟨hstop, hlength⟩ := hinside e List.mem_cons_self
      have hrest := ih horder (fun e' he' => hinside e' (List.mem_cons_of_mem _ he')) hnext
      have htake : (l.take e.stop ++ replaced l e.stop es).take e.start = l.take e.start := by
        rw [List.take_append_of_le_length, List.take_take, min_eq_left hstop]
        rw [List.length_take]
        exact le_min hstop hlength
      have hdrop : (l.take e.stop ++ replaced l e.stop es).drop e.stop = replaced l e.stop es := by
        by_cases hin : e.stop ≤ l.length
        · rw [List.drop_left' (List.length_take_of_le hin)]
        · -- an edit that goes past the end is the last one
          cases es with
          | nil =>
              rw [replaced, List.take_append_drop]
          | cons e' es =>
              have hle := hnext e' List.mem_cons_self
              have hin' := (hinside e' (List.mem_cons_of_mem _ List.mem_cons_self)).2
              omega
      rw [List.foldr_cons, hrest, splice, htake, hdrop, replaced, ← List.append_assoc,
        ← List.append_assoc, take_append_slice (hpos e List.mem_cons_self)]

/-- The later start first. -/
def laterFirst (a b : Edit α) : Prop := b.start ≤ a.start

instance : DecidableRel (laterFirst (α := α)) := fun a b =>
  inferInstanceAs (Decidable (b.start ≤ a.start))

instance : Std.Total (laterFirst (α := α)) := ⟨fun a b => Nat.le_total b.start a.start⟩

instance : IsTrans (Edit α) laterFirst := ⟨fun _ _ _ hab hbc => Nat.le_trans hbc hab⟩

/-- **Disjoint edits are in order once they are sorted.** -/
theorem inOrder_reverse_sort {es : List (Edit α)} (hdisjoint : es.Pairwise Disjoint)
    (hne : ∀ e ∈ es, e.start < e.stop) : InOrder (es.insertionSort laterFirst).reverse := by
  have hperm := List.perm_insertionSort laterFirst es
  have hsymm : ∀ {a b : Edit α}, Disjoint a b → Disjoint b a := fun h => h.symm
  have hsorted := List.pairwise_insertionSort laterFirst es
  have hdis : (es.insertionSort laterFirst).Pairwise Disjoint :=
    hdisjoint.perm hperm.symm hsymm
  rw [InOrder, List.pairwise_reverse]
  refine (List.Pairwise.and hsorted hdis).imp_of_mem ?_
  rintro a b ha hb ⟨hle, hab⟩
  have hlt := hne a (hperm.mem_iff.mp ha)
  rcases hab with hab | hba
  · rw [laterFirst] at hle
    omega
  · exact hba

end Splice
