/-
Requests that are sent under fresh numbers, and the owners that wait for their replies.

A request is entered under the next number, and its owner is struck out with the first reply under
this number; a reply under a number that is not there has no owner any more. Whatever order the
replies come in, an owner is struck out under the number that was given to it (`Sound.take`).
-/
import Brain.Lib.InsertionMap

set_option autoImplicit false

namespace Brain.Correlation

variable {Ω : Type*}

/-- The numbers that are waited for, with their owners; `issued` are all that were ever given. -/
structure Desk (Ω : Type*) where
  next : ℕ := 1
  pending : InsertionMap ℕ Ω := .empty
  issued : List (ℕ × Ω) := []

namespace Desk

def issue (d : Desk Ω) (o : Ω) : Desk Ω where
  next := d.next + 1
  pending := d.pending.set d.next o
  issued := d.issued ++ [(d.next, o)]

def take (d : Desk Ω) (id : ℕ) : Desk Ω := { d with pending := d.pending.delete id }

def clear (d : Desk Ω) : Desk Ω := { d with pending := .empty }

/-- Numbers and owners are given once. -/
structure Sound (d : Desk Ω) : Prop where
  below : ∀ p ∈ d.issued, p.1 < d.next
  ids : (d.issued.map Prod.fst).Nodup
  owners : (d.issued.map Prod.snd).Nodup
  pending : ∀ p ∈ d.pending.entries, p ∈ d.issued

variable {d : Desk Ω} {o o' : Ω} {id : ℕ}

theorem sound_new : Sound ({} : Desk Ω) :=
  ⟨fun _ hp => absurd hp List.not_mem_nil, List.nodup_nil, List.nodup_nil,
    fun _ hp => absurd hp List.not_mem_nil⟩

/-- A number has one owner. -/
theorem Sound.owner_unique (h : Sound d) (ho : (id, o) ∈ d.issued) (ho' : (id, o') ∈ d.issued) :
    o = o' :=
  congrArg Prod.snd (List.inj_on_of_nodup_map h.ids ho ho' rfl)

/-- The next number is not pending. -/
theorem Sound.next_not_mem (h : Sound d) : d.next ∉ d.pending.keys := by
  intro hmem
  obtain ⟨p, hp, heq⟩ := List.mem_map.mp hmem
  exact absurd (h.below p (h.pending p hp)) (by omega)

theorem Sound.issue (h : Sound d) (ho : o ∉ d.issued.map Prod.snd) : Sound (d.issue o) := by
  refine ⟨fun p hp => ?_, ?_, ?_, fun p hp => ?_⟩
  · rcases List.mem_append.mp hp with hp | hp
    · exact (h.below p hp).trans (Nat.lt_succ_self _)
    · obtain rfl := List.mem_singleton.mp hp
      exact Nat.lt_succ_self _
  · show ((d.issued ++ [(d.next, o)]).map Prod.fst).Nodup
    rw [List.map_append, List.nodup_append]
    refine ⟨h.ids, List.nodup_singleton _, fun a ha b hb hab => ?_⟩
    obtain rfl := List.mem_singleton.mp hb
    obtain ⟨p, hp, rfl⟩ := List.mem_map.mp ha
    exact absurd (h.below p hp) (by simp only at hab; omega)
  · show ((d.issued ++ [(d.next, o)]).map Prod.snd).Nodup
    rw [List.map_append, List.nodup_append]
    refine ⟨h.owners, List.nodup_singleton _, fun a ha b hb hab => ?_⟩
    obtain rfl := List.mem_singleton.mp hb
    exact ho (hab ▸ ha)
  · rcases InsertionMap.mem_entries_set hp with rfl | hp
    · exact List.mem_append_right _ (List.mem_singleton_self _)
    · exact List.mem_append_left _ (h.pending p hp)

theorem Sound.take (h : Sound d) (id : ℕ) : Sound (d.take id) :=
  ⟨h.below, h.ids, h.owners, fun p hp => h.pending p (List.mem_filter.mp hp).1⟩

theorem Sound.clear (h : Sound d) : Sound d.clear :=
  ⟨h.below, h.ids, h.owners, fun _ hp => absurd hp List.not_mem_nil⟩

/-- Nobody waits twice. -/
theorem Sound.nodup_values (h : Sound d) : d.pending.values.Nodup := by
  refine List.Nodup.map_on (fun p hp q hq heq => ?_) (List.Nodup.of_map _ d.pending.nodup)
  exact List.inj_on_of_nodup_map h.owners (h.pending p hp) (h.pending q hq) heq

/-- Who is pending has been given a number. -/
theorem Sound.issued_of_get? (h : Sound d) (hget : d.pending.get? id = some o) :
    (id, o) ∈ d.issued := h.pending _ (InsertionMap.mem_of_get? hget)

theorem Sound.values_issue (h : Sound d) (o : Ω) :
    (d.issue o).pending.values = d.pending.values ++ [o] := by
  show (d.pending.set d.next o).values = _
  unfold InsertionMap.set InsertionMap.values
  rw [dif_neg h.next_not_mem, List.map_append]
  rfl

/-- The entry of a key that is deleted, taken out of the entries. -/
theorem entries_delete {m : InsertionMap ℕ Ω} (hmem : (id, o) ∈ m.entries) :
    ∃ l r, m.entries = l ++ (id, o) :: r ∧ (m.delete id).entries = l ++ r := by
  obtain ⟨l, r, heq⟩ := List.append_of_mem hmem
  have hnodup := m.nodup
  rw [heq, List.map_append, List.map_cons, List.nodup_middle, List.nodup_cons, ← List.map_append]
    at hnodup
  have hothers : (l ++ r).filter (fun e => decide (e.1 ≠ id)) = l ++ r := by
    refine List.filter_eq_self.mpr (fun e he => decide_eq_true (fun hid => hnodup.1 ?_))
    have hkey := List.mem_map_of_mem (f := Prod.fst) he
    rwa [hid] at hkey
  refine ⟨l, r, heq, ?_⟩
  rw [List.filter_append] at hothers
  show m.entries.filter (fun e => decide (e.1 ≠ id)) = l ++ r
  rw [heq, List.filter_append, List.filter_cons, if_neg (by simp), hothers]

/-- **One owner is struck out**, and it is the one of the number. -/
theorem values_take (hget : d.pending.get? id = some o) :
    d.pending.values.Perm (o :: (d.take id).pending.values) := by
  obtain ⟨l, r, heq, hdelete⟩ := entries_delete (InsertionMap.mem_of_get? hget)
  rw [InsertionMap.values, heq, List.map_append, List.map_cons, take, InsertionMap.values, hdelete,
    List.map_append]
  exact List.perm_middle

end Desk

end Brain.Correlation
