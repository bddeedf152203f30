/-
A marking sweep over a keyed table: from a root, repeatedly take a row off a
stack, mark the unmarked rows that hang on it and push them.

The edges may form any graph, cycles and diamonds included. A row stops hanging
on anything once it is marked, so each row is pushed at most once, and as many
steps as there are rows (and one for the root) always suffice. What the sweep
marks is then exactly what the edges of the table it started from reach
(`mem_sweep_iff`), and it changes nothing else (`get?_sweep`).
-/
import Brain.Lib.Statements
import Mathlib.Logic.Relation
import Mathlib.Tactic

set_option autoImplicit false

namespace KeyedTable

variable {ρ : Type*}

/-- The sweep. `hangs c r` says that the row `r` is not marked yet and hangs on
`c`; the head of the list `stack` is its top. -/
def sweep (hangs : ℕ → ρ → Bool) (mark : ρ → ρ) :
    ℕ → List ℕ → KeyedTable ρ → List ℕ → KeyedTable ρ × List ℕ
  | 0, _, t, out => (t, out)
  | _ + 1, [], t, out => (t, out)
  | fuel + 1, c :: stack, t, out =>
      let children := t.select (fun _ r => hangs c r)
      sweep hangs mark fuel ((children.map Prod.fst).reverse ++ stack)
        (t.forEach children (fun _ r => mark r)) (out ++ children.map Prod.fst)

/-- One turn of the loop, on its stack, its table and its output. With an empty
stack the loop has ended and nothing happens any more. -/
def sweepStep (hangs : ℕ → ρ → Bool) (mark : ρ → ρ) :
    List ℕ × KeyedTable ρ × List ℕ → List ℕ × KeyedTable ρ × List ℕ
  | ([], t, out) => ([], t, out)
  | (c :: stack, t, out) =>
      let children := t.select (fun _ r => hangs c r)
      ((children.map Prod.fst).reverse ++ stack,
        t.forEach children (fun _ r => mark r), out ++ children.map Prod.fst)

/-- An edge of the table: `j` is a row that hangs on `i`. -/
def Hangs (t : KeyedTable ρ) (hangs : ℕ → ρ → Bool) (i j : ℕ) : Prop :=
  ∃ r, t.get? j = some r ∧ hangs i r = true

/-- What holds of table `t`, stack and output at every point of a sweep of `t₀`. -/
structure SweepInv (t₀ : KeyedTable ρ) (hangs : ℕ → ρ → Bool) (mark : ρ → ρ) (root : ℕ)
    (stack : List ℕ) (t : KeyedTable ρ) (out : List ℕ) : Prop where
  rows : ∀ j, t.get? j = (t₀.get? j).map (fun r => if j ∈ out then mark r else r)
  nodup : out.Nodup
  reached : ∀ j ∈ out, Relation.TransGen (t₀.Hangs hangs) root j
  pending : ∀ j ∈ stack, j = root ∨ j ∈ out
  expanded : ∀ i, i = root ∨ i ∈ out → i ∈ stack ∨ ∀ j, t₀.Hangs hangs i j → j ∈ out

variable {t₀ t : KeyedTable ρ} {hangs : ℕ → ρ → Bool} {mark : ρ → ρ} {root c : ℕ}
  {stack out : List ℕ}

/-- In the middle of a sweep, the children of `c` are its children in the table
at the start that are not marked yet. -/
theorem SweepInv.mem_children (hinv : SweepInv t₀ hangs mark root stack t out)
    (hmark : ∀ c r, hangs c (mark r) = false) {j : ℕ} :
    j ∈ (t.select (fun _ r => hangs c r)).map Prod.fst ↔ t₀.Hangs hangs c j ∧ j ∉ out := by
  rw [mem_keys_select, hinv.rows j]
  by_cases hj : j ∈ out
  · simp [hj, hmark]
  · simp [hj, Hangs]

/-- One step keeps the invariant. -/
theorem SweepInv.step (hinv : SweepInv t₀ hangs mark root (c :: stack) t out)
    (hmark : ∀ c r, hangs c (mark r) = false) :
    SweepInv t₀ hangs mark root
      (((t.select (fun _ r => hangs c r)).map Prod.fst).reverse ++ stack)
      (t.forEach (t.select (fun _ r => hangs c r)) (fun _ r => mark r))
      (out ++ (t.select (fun _ r => hangs c r)).map Prod.fst) := by
  have hchild : ∀ j, j ∈ (t.select (fun _ r => hangs c r)).map Prod.fst ↔
      t₀.Hangs hangs c j ∧ j ∉ out := fun j => hinv.mem_children hmark
  refine ⟨?_, ?_, ?_, ?_, ?_⟩
  · -- rows that were marked stay so, and the children of `c` are marked now
    intro j
    rw [get?_forEach_select, hinv.rows j]
    cases hr : t₀.get? j with
    | none => rfl
    | some r =>
        by_cases hj : j ∈ out
        · simp [hj, hmark]
        · have hiff : j ∈ (t.select (fun _ r => hangs c r)).map Prod.fst ↔ hangs c r = true := by
            rw [hchild, Hangs, hr]
            simp [hj]
          by_cases hh : hangs c r = true
          · simp only [Option.map_some, if_neg hj, if_pos hh, List.mem_append,
              if_pos (Or.inr (hiff.mpr hh))]
          · have hnot : ¬ (j ∈ out ∨ j ∈ (t.select (fun _ r => hangs c r)).map Prod.fst) := by
              rintro (h | h)
              · exact hj h
              · exact hh (hiff.mp h)
            simp only [Option.map_some, if_neg hj, if_neg hh, List.mem_append, if_neg hnot]
  · -- a marked row is nobody's child any more
    rw [List.nodup_append]
    refine ⟨hinv.nodup, nodup_select _ _, ?_⟩
    rintro i hi j hj rfl
    exact ((hchild i).mp hj).2 hi
  · intro j hj
    rcases List.mem_append.mp hj with h | h
    · exact hinv.reached j h
    · have hcj := ((hchild j).mp h).1
      rcases hinv.pending c List.mem_cons_self with rfl | hc
      · exact Relation.TransGen.single hcj
      · exact (hinv.reached c hc).tail hcj
  · intro j hj
    rw [List.mem_append, List.mem_reverse] at hj
    rcases hj with h | h
    · exact Or.inr (List.mem_append_right _ h)
    · exact (hinv.pending j (List.mem_cons_of_mem _ h)).imp_right (List.mem_append_left _)
  · -- what is new is on the stack; what is old is still there, or expanded, or is `c`
    intro i hi
    rw [List.mem_append] at hi
    by_cases hnew : i ∈ (t.select (fun _ r => hangs c r)).map Prod.fst
    · exact Or.inl (List.mem_append_left _ (List.mem_reverse.mpr hnew))
    · have hold : i = root ∨ i ∈ out := by
        rcases hi with h | h | h
        · exact Or.inl h
        · exact Or.inr h
        · exact absurd h hnew
      rcases hinv.expanded i hold with h | h
      · rcases List.mem_cons.mp h with rfl | h
        · -- `c` itself has just been expanded
          right
          intro j hj
          by_cases hjo : j ∈ out
          · exact List.mem_append_left _ hjo
          · exact List.mem_append_right _ ((hchild j).mpr ⟨hj, hjo⟩)
        · exact Or.inl (List.mem_append_right _ h)
      · exact Or.inr (fun j hj => List.mem_append_left _ (h j hj))

/-- The output never outgrows the table. -/
theorem SweepInv.length_out_le (hinv : SweepInv t₀ hangs mark root stack t out) :
    out.length ≤ t₀.rows.length := by
  have hsub : out ⊆ t₀.rows.map Prod.fst := by
    intro j hj
    obtain ⟨_, _, r, hr, _⟩ := Relation.TransGen.tail'_iff.mp (hinv.reached j hj)
    exact List.mem_map.mpr ⟨(j, r), mem_rows_iff.mpr hr, rfl⟩
  have hle := (List.subperm_of_subset hinv.nodup hsub).length_le
  rwa [List.length_map] at hle

/-- With enough steps left, the sweep empties its stack and the invariant holds
of the result. -/
theorem SweepInv.run (hmark : ∀ c r, hangs c (mark r) = false) :
    ∀ fuel stack t out, SweepInv t₀ hangs mark root stack t out →
      stack.length + (t₀.rows.length - out.length) ≤ fuel →
      SweepInv t₀ hangs mark root [] (sweep hangs mark fuel stack t out).1
        (sweep hangs mark fuel stack t out).2 := by
  intro fuel
  induction fuel with
  | zero =>
      intro stack t out hinv hfuel
      have hnil : stack = [] := List.length_eq_zero_iff.mp (by omega)
      subst hnil
      exact hinv
  | succ fuel ih =>
      intro stack t out hinv hfuel
      cases stack with
      | nil => exact hinv
      | cons c stack =>
          -- each step takes one row off the stack and adds what it marks to both
          have hstep := hinv.step hmark
          have hlen := hstep.length_out_le
          refine ih _ _ _ hstep ?_
          simp only [List.length_append, List.length_reverse, List.length_map,
            List.length_cons] at hlen hfuel ⊢
          omega

/-- Where every sweep starts. -/
theorem sweepInv_start (hangs : ℕ → ρ → Bool) (mark : ρ → ρ) (t : KeyedTable ρ) (root : ℕ) :
    SweepInv t hangs mark root [root] t [] := by
  refine ⟨?_, List.nodup_nil, ?_, ?_, ?_⟩
  · intro j
    cases t.get? j <;> simp
  · simp
  · simp
  · intro i hi
    have hroot : i = root := by simpa using hi
    exact Or.inl (by simp [hroot])

/-- The invariant at the end of a sweep of the whole table. -/
theorem sweepInv_sweep (hmark : ∀ c r, hangs c (mark r) = false) (t : KeyedTable ρ) (root : ℕ) :
    SweepInv t hangs mark root [] (sweep hangs mark (t.rows.length + 1) [root] t []).1
      (sweep hangs mark (t.rows.length + 1) [root] t []).2 := by
  apply SweepInv.run hmark
  · exact sweepInv_start hangs mark t root
  · simp only [List.length_cons, List.length_nil]
    omega

/-! ## The loop ends -/

theorem iterate_sweepStep_nil (hangs : ℕ → ρ → Bool) (mark : ρ → ρ) (n : ℕ) :
    (sweepStep hangs mark)^[n] ([], t, out) = ([], t, out) := by
  induction n with
  | zero => rfl
  | succ n ih => rw [Function.iterate_succ_apply]; exact ih

/-- The sweep is its loop, turned `fuel` times. -/
theorem sweep_eq_iterate (hangs : ℕ → ρ → Bool) (mark : ρ → ρ) :
    ∀ fuel stack (t : KeyedTable ρ) out,
      sweep hangs mark fuel stack t out
        = ((sweepStep hangs mark)^[fuel] (stack, t, out)).2 := by
  intro fuel
  induction fuel with
  | zero => exact fun stack t out => rfl
  | succ fuel ih =>
      intro stack t out
      cases stack with
      | nil => rw [iterate_sweepStep_nil]; rfl
      | cons c stack => rw [sweep, ih, Function.iterate_succ_apply, sweepStep]

/-- With enough turns left, the loop empties its stack. -/
theorem SweepInv.stack_eq_nil (hmark : ∀ c r, hangs c (mark r) = false) :
    ∀ fuel stack t out, SweepInv t₀ hangs mark root stack t out →
      stack.length + (t₀.rows.length - out.length) ≤ fuel →
      ((sweepStep hangs mark)^[fuel] (stack, t, out)).1 = [] := by
  intro fuel
  induction fuel with
  | zero =>
      intro stack t out hinv hfuel
      show stack = []
      exact List.length_eq_zero_iff.mp (by omega)
  | succ fuel ih =>
      intro stack t out hinv hfuel
      cases stack with
      | nil => rw [iterate_sweepStep_nil]
      | cons c stack =>
          have hstep := hinv.step hmark
          have hlen := hstep.length_out_le
          rw [Function.iterate_succ_apply, sweepStep]
          refine ih _ _ _ hstep ?_
          simp only [List.length_append, List.length_reverse, List.length_map,
            List.length_cons] at hlen hfuel ⊢
          omega

/-- **The loop ends**: after as many turns as there are rows, and one for the root,
its stack is empty, and further turns change nothing. -/
theorem iterate_sweepStep (hmark : ∀ c r, hangs c (mark r) = false) (t : KeyedTable ρ)
    (root : ℕ) {n : ℕ} (hn : t.rows.length + 1 ≤ n) :
    (sweepStep hangs mark)^[n] ([root], t, [])
      = ([], sweep hangs mark (t.rows.length + 1) [root] t []) := by
  have hend : ((sweepStep hangs mark)^[t.rows.length + 1] ([root], t, [])).1 = [] :=
    SweepInv.stack_eq_nil hmark _ _ _ _ (sweepInv_start hangs mark t root)
      (by simp only [List.length_cons, List.length_nil]; omega)
  obtain ⟨k, rfl⟩ := Nat.exists_eq_add_of_le' hn
  rw [Function.iterate_add_apply, sweep_eq_iterate]
  generalize (sweepStep hangs mark)^[t.rows.length + 1] ([root], t, []) = σ at hend ⊢
  obtain ⟨stack, u, out⟩ := σ
  have hnil : stack = [] := hend
  rw [hnil, iterate_sweepStep_nil]

/-- **What a sweep marks** is what the edges of the table reach from the root. -/
theorem mem_sweep_iff (hmark : ∀ c r, hangs c (mark r) = false) (t : KeyedTable ρ)
    (root j : ℕ) :
    j ∈ (sweep hangs mark (t.rows.length + 1) [root] t []).2 ↔
      Relation.TransGen (t.Hangs hangs) root j := by
  have hinv := sweepInv_sweep hmark t root
  have hclosed : ∀ i, i = root ∨ i ∈ (sweep hangs mark (t.rows.length + 1) [root] t []).2 →
      ∀ j, t.Hangs hangs i j → j ∈ (sweep hangs mark (t.rows.length + 1) [root] t []).2 := by
    intro i hi
    rcases hinv.expanded i hi with h | h
    · cases h
    · exact h
  refine ⟨hinv.reached j, fun h => ?_⟩
  induction h with
  | single h => exact hclosed root (Or.inl rfl) _ h
  | tail _ h ih => exact hclosed _ (Or.inr ih) _ h

/-- **What a sweep leaves**: marked rows are rewritten, all others are as before. -/
theorem get?_sweep (hmark : ∀ c r, hangs c (mark r) = false) (t : KeyedTable ρ) (root j : ℕ) :
    (sweep hangs mark (t.rows.length + 1) [root] t []).1.get? j
      = (t.get? j).map (fun r =>
          if j ∈ (sweep hangs mark (t.rows.length + 1) [root] t []).2 then mark r else r) :=
  (sweepInv_sweep hmark t root).rows j

/-- No row is marked twice. -/
theorem nodup_sweep (hmark : ∀ c r, hangs c (mark r) = false) (t : KeyedTable ρ) (root : ℕ) :
    (sweep hangs mark (t.rows.length + 1) [root] t []).2.Nodup :=
  (sweepInv_sweep hmark t root).nodup

theorem next_sweep (hangs : ℕ → ρ → Bool) (mark : ρ → ρ) :
    ∀ fuel stack (t : KeyedTable ρ) out, (sweep hangs mark fuel stack t out).1.next = t.next := by
  intro fuel
  induction fuel with
  | zero => exact fun stack t out => rfl
  | succ fuel ih =>
      intro stack t out
      cases stack with
      | nil => rfl
      | cons c stack => rw [sweep, ih, next_forEach]

/-- A sweep as the list of its updates, in the order in which it makes them. -/
theorem sweep_eq_execAll (hmark : ∀ c r, hangs c (mark r) = false) (t : KeyedTable ρ)
    (root : ℕ) :
    (sweep hangs mark (t.rows.length + 1) [root] t []).1
      = t.execAll (updates ((sweep hangs mark (t.rows.length + 1) [root] t []).2.map
          (fun j => (j, mark)))) := by
  refine ext_get? (fun j => ?_) (by rw [next_sweep, next_execAll_updates])
  rw [get?_sweep hmark]
  have hids : ((sweep hangs mark (t.rows.length + 1) [root] t []).2.map
      (fun j => (j, mark))).map Prod.fst = (sweep hangs mark (t.rows.length + 1) [root] t []).2 := by
    rw [List.map_map]
    exact List.map_id _
  by_cases hj : j ∈ (sweep hangs mark (t.rows.length + 1) [root] t []).2
  · have hmem := List.mem_map_of_mem (f := fun j => (j, mark)) hj
    rw [get?_execAll_updates_of_mem (by rw [hids]; exact nodup_sweep hmark t root) hmem]
    simp only [if_pos hj]
  · rw [get?_execAll_updates_of_not_mem (by rw [hids]; exact hj)]
    simp only [if_neg hj, Option.map_id']

end KeyedTable
