/-
A list that is cut into pieces with gaps between them.

`Cut` reads the list from its front: a gap, which leaves no trace, or a piece, which is recorded
with its place. All that can be asked of the pieces follows from it: they are where they say
(`Cut.slice_eq`), in order and apart (`Cut.pairwise`), and what is in none of them is in a gap
(`Cut.covers`).
-/
import Brain.Lib.Splice

set_option autoImplicit false

namespace Segments

open Splice (slice)

variable {α : Type*}

/-- A piece `[start, stop)` of a list. -/
structure Piece (α : Type*) where
  text : List α
  start : ℕ
  stop : ℕ

/-- The position is in the piece. -/
def Piece.Has (c : Piece α) (i : ℕ) : Prop := c.start ≤ i ∧ i < c.stop

/-- The list, whose first position is `pos`, is cut into the pieces and into gaps. -/
inductive Cut (Gap : List α → Prop) : ℕ → List α → List (Piece α) → Prop
  | nil (pos : ℕ) : Cut Gap pos [] []
  | gap {pos : ℕ} {g rest : List α} {pieces : List (Piece α)} (hgap : Gap g)
      (hrest : Cut Gap (pos + g.length) rest pieces) : Cut Gap pos (g ++ rest) pieces
  | piece {pos : ℕ} {t rest : List α} {pieces : List (Piece α)} (hne : t ≠ [])
      (hrest : Cut Gap (pos + t.length) rest pieces) :
      Cut Gap pos (t ++ rest) (⟨t, pos, pos + t.length⟩ :: pieces)

variable {Gap : List α → Prop} {pos : ℕ} {s t : List α} {pieces pieces' : List (Piece α)}
  {c : Piece α}

theorem Cut.of_gap (h : Gap s) : Cut Gap pos s [] := by
  have hcut := Cut.gap h (@Cut.nil α Gap (pos + s.length))
  rwa [List.append_nil] at hcut

theorem Cut.of_piece (h : s ≠ []) : Cut Gap pos s [⟨s, pos, pos + s.length⟩] := by
  have hcut := Cut.piece h (@Cut.nil α Gap (pos + s.length))
  rwa [List.append_nil] at hcut

/-- Two lists one after the other. -/
theorem Cut.append (h : Cut Gap pos s pieces) (h' : Cut Gap (pos + s.length) t pieces') :
    Cut Gap pos (s ++ t) (pieces ++ pieces') := by
  induction h with
  | nil pos => exact h'
  | @gap pos g rest pieces hgap _ ih =>
      rw [List.append_assoc]
      refine Cut.gap hgap (ih ?_)
      rwa [List.length_append, ← Nat.add_assoc] at h'
  | @piece pos u rest pieces hne _ ih =>
      rw [List.append_assoc]
      refine Cut.piece hne (ih ?_)
      rwa [List.length_append, ← Nat.add_assoc] at h'

/-- The pieces are within the list, and there is something in them. -/
theorem Cut.bounds (h : Cut Gap pos s pieces) (hc : c ∈ pieces) :
    pos ≤ c.start ∧ c.stop ≤ pos + s.length ∧ c.text ≠ [] ∧
      c.stop = c.start + c.text.length := by
  induction h with
  | nil pos => exact absurd hc List.not_mem_nil
  | gap hgap _ ih =>
      obtain ⟨hstart, hstop, htext⟩ := ih hc
      rw [List.length_append]
      exact ⟨by omega, by omega, htext⟩
  | piece hne _ ih =>
      rw [List.length_append]
      rcases List.mem_cons.mp hc with rfl | hc
      · exact ⟨le_refl _, by dsimp only; omega, hne, rfl⟩
      · obtain ⟨hstart, hstop, htext⟩ := ih hc
        exact ⟨by omega, by omega, htext⟩

theorem Cut.start_lt_stop (h : Cut Gap pos s pieces) (hc : c ∈ pieces) : c.start < c.stop := by
  obtain ⟨_, _, hne, hstop⟩ := h.bounds hc
  have hpos := List.length_pos_iff.mpr hne
  omega

/-- **Each piece is where it says.** `before` is what stands before the list. -/
theorem Cut.slice_append (h : Cut Gap pos s pieces) (hc : c ∈ pieces) :
    ∀ before : List α, before.length = pos → slice (before ++ s) c.start c.stop = c.text := by
  induction h with
  | nil pos => exact absurd hc List.not_mem_nil
  | @gap pos g rest _ hgap _ ih =>
      intro before hlength
      rw [← List.append_assoc]
      exact ih hc (before ++ g) (by rw [List.length_append, hlength])
  | @piece pos u rest _ hne _ ih =>
      intro before hlength
      rcases List.mem_cons.mp hc with rfl | hc
      · rw [slice, ← hlength, ← List.length_append, ← List.append_assoc, List.take_left,
          List.drop_left]
      · rw [← List.append_assoc]
        exact ih hc (before ++ u) (by rw [List.length_append, hlength])

theorem Cut.slice_eq (h : Cut Gap 0 s pieces) (hc : c ∈ pieces) :
    slice s c.start c.stop = c.text := h.slice_append hc [] rfl

/-- **The pieces are in order, and apart.** -/
theorem Cut.pairwise (h : Cut Gap pos s pieces) :
    pieces.Pairwise (fun a b => a.stop ≤ b.start) := by
  induction h with
  | nil pos => exact List.Pairwise.nil
  | gap _ _ ih => exact ih
  | piece _ hrest ih => exact List.pairwise_cons.mpr ⟨fun b hb => (hrest.bounds hb).1, ih⟩

/-- A position is in one piece at most. -/
theorem Cut.eq_of_has {b : Piece α} {i : ℕ} (h : Cut Gap pos s pieces) (hb : b ∈ pieces)
    (hc : c ∈ pieces) (hbi : b.Has i) (hci : c.Has i) : b = c := by
  have hapart : pieces.Pairwise (fun a b => a.stop ≤ b.start ∨ b.stop ≤ a.start) :=
    h.pairwise.imp Or.inl
  have hsymm : Std.Symm (fun a b : Piece α => a.stop ≤ b.start ∨ b.stop ≤ a.start) :=
    ⟨fun _ _ => Or.symm⟩
  by_contra hne
  have hdisjoint := hapart.forall hb hc hne
  obtain ⟨hb1, hb2⟩ := hbi
  obtain ⟨hc1, hc2⟩ := hci
  omega

/-- The position is in one of the gaps of the list. -/
def InGap (Gap : List α → Prop) (pos : ℕ) (s : List α) (i : ℕ) : Prop :=
  ∃ before g after, s = before ++ g ++ after ∧ Gap g ∧ pos + before.length ≤ i ∧
    i < pos + before.length + g.length

theorem InGap.append_left {i : ℕ} (h : InGap Gap (pos + t.length) s i) :
    InGap Gap pos (t ++ s) i := by
  obtain ⟨before, g, after, rfl, hgap, hle, hlt⟩ := h
  refine ⟨t ++ before, g, after, by simp, hgap, ?_, ?_⟩
  · rw [List.length_append]
    omega
  · rw [List.length_append]
    omega

/-- **What is in no piece is in a gap.** -/
theorem Cut.covers (h : Cut Gap pos s pieces) {i : ℕ} (hle : pos ≤ i) (hlt : i < pos + s.length) :
    (∃ c ∈ pieces, c.Has i) ∨ (∀ c ∈ pieces, ¬ c.Has i) ∧ InGap Gap pos s i := by
  induction h with
  | nil pos => exact absurd hlt (by simpa using hle)
  | @gap pos g rest pieces hgap hrest ih =>
      by_cases hin : i < pos + g.length
      · refine Or.inr ⟨fun c hc hhas => ?_, [], g, rest, rfl, hgap, hle, hin⟩
        have hbounds := (hrest.bounds hc).1
        have hstart := hhas.1
        omega
      · rw [List.length_append] at hlt
        refine (ih (by omega) (by omega)).imp_right ?_
        rintro ⟨hnone, hgap'⟩
        exact ⟨hnone, hgap'.append_left⟩
  | @piece pos u rest pieces hne hrest ih =>
      by_cases hin : i < pos + u.length
      · exact Or.inl ⟨_, List.mem_cons_self, hle, hin⟩
      · rw [List.length_append] at hlt
        rcases ih (by omega) (by omega) with ⟨c, hc, hhas⟩ | ⟨hnone, hgap'⟩
        · exact Or.inl ⟨c, List.mem_cons_of_mem _ hc, hhas⟩
        · refine Or.inr ⟨fun c hc hhas => ?_, hgap'.append_left⟩
          rcases List.mem_cons.mp hc with rfl | hc
          · exact hin hhas.2
          · exact hnone c hc hhas

end Segments
