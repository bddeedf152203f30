/-
Reading a table page by page, by the number of rows read so far, while it changes.

The keys stand in increasing order. A key is not skipped as long as it is either read or greater
than all that are. A page keeps this if as many keys as the offset are at or below one that has
been read (`Passed.next`): as many rows may go as come below the last one read.
-/
import Mathlib.Data.List.Pairwise
import Mathlib.Order.Basic
import Mathlib.Tactic

set_option autoImplicit false

namespace Brain.OffsetPaging

variable {κ : Type*} [LinearOrder κ]

/-- The keys of a page. -/
def page (keys : List κ) (offset batch : ℕ) : List κ := (keys.drop offset).take batch

/-- As many keys as the offset are not behind all that have been read. -/
def Unshifted (keys : List κ) (offset : ℕ) (read : List κ) : Prop :=
  offset ≤ keys.countP (fun k => decide (∃ l ∈ read, k ≤ l))

/-- The key has been read, or it is behind all that have been. -/
def Passed (x : κ) (read : List κ) : Prop := x ∈ read ∨ ∀ l ∈ read, l < x

variable {keys read : List κ} {offset batch : ℕ} {x : κ}

/-- A key behind all that have been read is at the offset or behind it. -/
theorem mem_drop_of_unshifted (hkeys : keys.Pairwise (· < ·)) (h : Unshifted keys offset read)
    (hx : x ∈ keys) (hbehind : ∀ l ∈ read, l < x) : x ∈ keys.drop offset := by
  have hnot : ∀ k, x ≤ k → ¬ ∃ l ∈ read, k ≤ l := by
    rintro k hxk ⟨l, hl, hkl⟩
    exact absurd (hbehind l hl) (not_lt.mpr (hxk.trans hkl))
  rw [← List.take_append_drop offset keys] at hx hkeys
  rcases List.mem_append.mp hx with hx | hx
  · -- else fewer keys than the offset would be at or below a read one
    exfalso
    have hcross := (List.pairwise_append.mp hkeys).2.2
    have hfirst : (keys.take offset).countP (fun k => decide (∃ l ∈ read, k ≤ l))
        < (keys.take offset).length := by
      rw [List.countP_lt_length_iff]
      exact ⟨x, hx, by simpa using hnot x (le_refl x)⟩
    have hrest : (keys.drop offset).countP (fun k => decide (∃ l ∈ read, k ≤ l)) = 0 :=
      List.countP_eq_zero.mpr (fun k hk => by simpa using hnot k (hcross x hx k hk).le)
    have hcount := congrArg (List.countP (fun k => decide (∃ l ∈ read, k ≤ l)))
      (List.take_append_drop offset keys)
    rw [List.countP_append, hrest] at hcount
    have hlen := List.length_take_le offset keys
    unfold Unshifted at h
    omega
  · exact hx

/-- **A page skips nothing**, and if it is short, nothing is left. -/
theorem Passed.next (batch : ℕ) (hkeys : keys.Pairwise (· < ·)) (h : Unshifted keys offset read)
    (hx : x ∈ keys) (hpassed : Passed x read) :
    Passed x (read ++ page keys offset batch) ∧
      ((page keys offset batch).length < batch →
        x ∈ read ++ page keys offset batch) := by
  rcases hpassed with hread | hbehind
  · have hmem := List.mem_append_left (page keys offset batch) hread
    exact ⟨.inl hmem, fun _ => hmem⟩
  · have hdrop := mem_drop_of_unshifted hkeys h hx hbehind
    have hsorted : (keys.drop offset).Pairwise (· < ·) := hkeys.sublist (List.drop_sublist _ _)
    rw [← List.take_append_drop batch (keys.drop offset)] at hdrop hsorted
    rcases List.mem_append.mp hdrop with hin | hout
    · have hmem : x ∈ read ++ page keys offset batch := List.mem_append_right read hin
      exact ⟨.inl hmem, fun _ => hmem⟩
    · refine ⟨.inr (fun l hl => ?_), fun hshort => ?_⟩
      · rcases List.mem_append.mp hl with hl | hl
        · exact hbehind l hl
        · exact (List.pairwise_append.mp hsorted).2.2 l hl x hout
      · -- nothing is behind a short page
        rw [page, List.length_take] at hshort
        rw [List.drop_eq_nil_of_le (by omega)] at hout
        cases hout

/-- If nothing is left from the offset on, all has been read. -/
theorem Passed.mem_of_end (hkeys : keys.Pairwise (· < ·)) (h : Unshifted keys offset read)
    (hx : x ∈ keys) (hpassed : Passed x read) (hend : keys.length ≤ offset) : x ∈ read := by
  rcases hpassed with hread | hbehind
  · exact hread
  · have hdrop := mem_drop_of_unshifted hkeys h hx hbehind
    rw [List.drop_eq_nil_of_le hend] at hdrop
    cases hdrop

end Brain.OffsetPaging
