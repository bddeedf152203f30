/-
Runs of a state machine under a condition on its steps.

`Reached step C s₀` are the states that some finite sequence of operations leads
to from `s₀`, where each operation meets `C` in the state it is executed in.
With `C` always true these are the reachable states; with a real `C` they are
the states of the runs whose steps all meet it. The induction over such runs is
stated once, as the invariant rules below. `Happens` looks at such a run from its
first state: some operation meets a condition when its turn comes.

`alone` is the run of one call of several statements that no other call comes between.
-/
import Mathlib.Tactic

set_option autoImplicit false

namespace Runs

variable {σ α : Type*}

/-- States reached from `s₀` by operations that each meet `C` when executed. -/
inductive Reached (step : σ → α → σ) (C : σ → α → Prop) (s₀ : σ) : σ → Prop
  | start : Reached step C s₀ s₀
  | next {s : σ} (a : α) : Reached step C s₀ s → C s a → Reached step C s₀ (step s a)

variable {step : σ → α → σ} {C D : σ → α → Prop} {s₀ s : σ} {P I : σ → Prop}

/-- A weaker condition reaches at least as much. -/
theorem Reached.mono (h : Reached step C s₀ s) (hCD : ∀ s a, C s a → D s a) :
    Reached step D s₀ s := by
  induction h with
  | start => exact .start
  | next a _ hC ih => exact .next a ih (hCD _ a hC)

/-- What holds at the start and is kept by every step that meets the condition
holds in every state reached. -/
theorem Reached.invariant (h : Reached step C s₀ s) (h0 : P s₀)
    (hstep : ∀ s a, P s → C s a → P (step s a)) : P s := by
  induction h with
  | start => exact h0
  | next a _ hC ih => exact hstep _ a ih hC

/-- The same rule relative to an invariant that is already established for the
states reached: the step may use it. -/
theorem Reached.invariant_of (h : Reached step C s₀ s)
    (hI : ∀ s, Reached step C s₀ s → I s) (h0 : P s₀)
    (hstep : ∀ s a, I s → P s → C s a → P (step s a)) : P s := by
  induction h with
  | start => exact h0
  | next a hr hC ih => exact hstep _ a (hI _ hr) ih hC

/-- Executing a list of operations reaches its final state. -/
theorem reached_foldl (h : Reached step (fun _ _ => True) s₀ s) (l : List α) :
    Reached step (fun _ _ => True) s₀ (l.foldl step s) := by
  induction l generalizing s with
  | nil => exact h
  | cons a l ih => exact ih (.next a h trivial)

/-- Some operation of the list meets `P` in the state it is executed in. -/
def Happens (step : σ → α → σ) (P : σ → α → Prop) : σ → List α → Prop
  | _, [] => False
  | s, a :: l => P s a ∨ Happens step P (step s a) l

/-- What cannot happen in any state that satisfies an invariant does not happen. -/
theorem not_happens {Q : σ → α → Prop} (hI : ∀ s a, I s → I (step s a))
    (hQ : ∀ s a, I s → ¬ Q s a) (h : I s) (l : List α) : ¬ Happens step Q s l := by
  induction l generalizing s with
  | nil => exact id
  | cons a l ih =>
      rintro (hnow | hlater)
      · exact hQ s a h hnow
      · exact ih (hI s a h) hlater

/-- A property that a step keeps exactly if it meets `C` holds after every prefix of
a list of operations exactly if every operation met `C`. `I` holds whatever the
operations do. -/
theorem prefixes_iff (hI0 : I s₀) (hI : ∀ s a, I s → I (step s a)) (hP0 : P s₀)
    (hstep : ∀ s a, I s → P s → (P (step s a) ↔ C s a)) (l : List α) :
    (∀ p, p <+: l → P (p.foldl step s₀)) ↔ ∀ p a, p ++ [a] <+: l → C (p.foldl step s₀) a := by
  have hinv : ∀ p : List α, I (p.foldl step s₀) := by
    intro p
    induction p using List.reverseRecOn with
    | nil => exact hI0
    | append_singleton p a ih =>
        rw [List.foldl_append]
        exact hI _ a ih
  constructor
  · intro h p a hpa
    have hp := h p ((List.prefix_append p [a]).trans hpa)
    have hnext := h (p ++ [a]) hpa
    rw [List.foldl_append] at hnext
    exact (hstep _ a (hinv p) hp).mp hnext
  · intro h p
    induction p using List.reverseRecOn with
    | nil => exact fun _ => hP0
    | append_singleton p a ih =>
        intro hpa
        have hp := ih ((List.prefix_append p [a]).trans hpa)
        rw [List.foldl_append]
        exact (hstep _ a (hinv p) hp).mpr (h p a hpa)

/-! ## One call -/

section Alone

variable {ρ : Type*}

/-- Up to `n` statements of a call, one after the other. `next` answers what is left of the
call after one of them. -/
def alone (next : ρ → σ → σ × Option ρ) : ℕ → ρ → σ → σ × Option ρ
  | 0, run, s => (s, some run)
  | n + 1, run, s =>
      match next run s with
      | (s', some run') => alone next n run' s'
      | (s', none) => (s', none)

variable {next : ρ → σ → σ × Option ρ} {run run' : ρ} {s' : σ}

theorem alone_of_some (h : next run s = (s', some run')) (n : ℕ) :
    alone next (n + 1) run s = alone next n run' s' := by
  rw [alone, h]

theorem alone_of_none (h : next run s = (s', none)) (n : ℕ) :
    alone next (n + 1) run s = (s', none) := by
  rw [alone, h]

/-- The statements go on where they have come to. -/
theorem alone_add {m : ℕ} (h : alone next m run s = (s', some run')) (n : ℕ) :
    alone next (m + n) run s = alone next n run' s' := by
  induction m generalizing run s with
  | zero =>
      obtain ⟨rfl, hrun⟩ := Prod.mk.inj h
      obtain rfl := Option.some.inj hrun
      rw [Nat.zero_add]
  | succ m ih =>
      rw [Nat.add_right_comm, alone]
      rw [alone] at h
      rcases hnext : next run s with ⟨s₁, none | run₁⟩
      · rw [hnext] at h
        cases h
      · rw [hnext] at h
        exact ih h

end Alone

end Runs
