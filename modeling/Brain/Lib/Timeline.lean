/-
Half-open spans and sequenced timelines over a linear order.

A span `[start, stop)` may be open-ended. A timeline grows by arrivals: each
arrival closes the entry that is live at its own start and becomes the live
entry itself. After arrivals `a₀, a₁, …` entry `i` therefore covers the leg from
`aᵢ.start` to `aᵢ₊₁.start`, and the last one its own span (`getElem?_timeline`).

Two questions about such a timeline are answered here in terms of the arrivals
alone: when no instant is covered twice (`timeline_unique_iff`, and for an
open-ended last arrival `singleSweep_iff_valley`), and which entry covers an
instant when the arrivals come in order (`holds_timeline_iff_last`).
-/
import Mathlib.Tactic

set_option autoImplicit false

/-- A half-open span of time; no `stop` means that it never ends. -/
structure Span (T : Type*) where
  start : T
  stop : Option T
deriving DecidableEq, Repr

namespace Span

section Close

variable {T : Type*}

/-- The span ended at `c`. -/
def close (s : Span T) (c : T) : Span T := { s with stop := some c }

@[simp] theorem start_close (s : Span T) (c : T) : (s.close c).start = s.start := rfl

@[simp] theorem stop_close (s : Span T) (c : T) : (s.close c).stop = some c := rfl

end Close

variable {T : Type*} [LinearOrder T]

/-- Whether the span covers the instant `t`. -/
def holds (s : Span T) (t : T) : Bool :=
  decide (s.start ≤ t) && (match s.stop with | none => true | some u => decide (t < u))

/-- Each of the two spans starts before the other one ends. -/
def overlaps (a b : Span T) : Bool :=
  (match b.stop with | none => true | some u => decide (a.start < u)) &&
    (match a.stop with | none => true | some u => decide (b.start < u))

/-- The span does not end before it starts. -/
def Ordered (s : Span T) : Prop := ∀ u ∈ s.stop, s.start ≤ u

/-- Every instant of `a` is an instant of `b`. -/
def Within (a b : Span T) : Prop := ∀ t, a.holds t = true → b.holds t = true

theorem holds_iff {s : Span T} {t : T} :
    s.holds t = true ↔ s.start ≤ t ∧ ∀ u ∈ s.stop, t < u := by
  rcases s with ⟨a, _ | u⟩ <;> simp [holds]

theorem overlaps_comm (a b : Span T) : a.overlaps b = b.overlaps a := Bool.and_comm _ _

@[refl] theorem within_refl (s : Span T) : s.Within s := fun _ h => h

/-- Closing a span shrinks it exactly when the new end is not after the old end,
or not after the start (then nothing is left of it). The instant that witnesses
the other direction is the old end, or the start if that is later. -/
theorem close_within_iff {s : Span T} {c : T} :
    (s.close c).Within s ↔ c ≤ s.start ∨ ∀ u ∈ s.stop, c ≤ u := by
  constructor
  · intro h
    by_contra hne
    rw [not_or, not_le] at hne
    obtain ⟨hstart, hstop⟩ := hne
    push Not at hstop
    obtain ⟨u, hu, huc⟩ := hstop
    have hin : (s.close c).holds (max s.start u) = true :=
      holds_iff.mpr ⟨le_max_left _ _, by simp [hstart, huc]⟩
    have hlt := (holds_iff.mp (h _ hin)).2 u hu
    exact absurd hlt (not_lt.mpr (le_max_right _ _))
  · intro h t ht
    obtain ⟨h1, h2⟩ := holds_iff.mp ht
    have htc : t < c := h2 c (by simp)
    rcases h with h | h
    · exact absurd (lt_of_lt_of_le htc h) (not_lt.mpr h1)
    · exact holds_iff.mpr ⟨h1, fun u hu => lt_of_lt_of_le htc (h u hu)⟩

/-- Closing a span inverts it exactly when the new end is before the start. -/
theorem ordered_close_iff {s : Span T} {c : T} : (s.close c).Ordered ↔ s.start ≤ c := by
  simp [Ordered]

end Span

/-! ## Timelines -/

/-- An entry of a timeline: the span it covers, and whether it is the live one. -/
structure TimelineEntry (T : Type*) where
  span : Span T
  live : Bool
deriving DecidableEq, Repr

section Arrivals

variable {T : Type*}

/-- An arrival ends the live entries at its own start and becomes the live entry. -/
def arrive (tl : List (TimelineEntry T)) (a : Span T) : List (TimelineEntry T) :=
  tl.map (fun e => if e.live then ⟨e.span.close a.start, false⟩ else e) ++ [⟨a, true⟩]

/-- The timeline of a sequence of arrivals. -/
def timeline (l : List (Span T)) : List (TimelineEntry T) := l.foldl arrive []

/-- Where the leg of the `i`-th arrival ends: at the next arrival's start, and
for the last arrival where its own span ends. -/
def legStop (l : List (Span T)) (i : ℕ) : Option T :=
  match l[i + 1]? with
  | some b => some b.start
  | none => l[i]?.bind Span.stop

theorem timeline_append (l : List (Span T)) (a : Span T) :
    timeline (l ++ [a]) = arrive (timeline l) a := by
  simp only [timeline, List.foldl_append, List.foldl_cons, List.foldl_nil]

theorem length_timeline (l : List (Span T)) : (timeline l).length = l.length := by
  induction l using List.reverseRecOn with
  | nil => rfl
  | append_singleton l a ih => simp [timeline_append, arrive, ih]

/-- Entry `i` covers leg `i`, and only the last entry is live. The induction is
on the arrivals from the right: a further arrival ends the entry that was live,
which is the last one, and leaves the others as they are. -/
theorem getElem?_timeline (l : List (Span T)) : ∀ i : ℕ,
    (timeline l)[i]? = l[i]?.map (fun a =>
      TimelineEntry.mk ⟨a.start, legStop l i⟩ (decide (i + 1 = l.length))) := by
  induction l using List.reverseRecOn with
  | nil => intro i; simp [timeline]
  | append_singleton l a ih =>
      intro i
      have hlen := length_timeline l
      rw [timeline_append, arrive]
      rcases Nat.lt_trichotomy i l.length with hi | hi | hi
      · -- an older entry: ended by the arrival if it was live, else as it was
        obtain ⟨b, hb⟩ : ∃ b, l[i]? = some b := ⟨l[i], List.getElem?_eq_getElem hi⟩
        have hin : (l ++ [a])[i]? = some b := by rw [List.getElem?_append_left hi, hb]
        have hne : i ≠ l.length := by omega
        rw [List.getElem?_append_left (by simpa [hlen] using hi), List.getElem?_map, ih i, hb, hin]
        by_cases hlast : i + 1 = l.length
        · have hnext : (l ++ [a])[i + 1]? = some a := by
            rw [hlast, List.getElem?_append_right (Nat.le_refl _)]
            simp
          simp [legStop, Span.close, hlast]
        · have hnext : (l ++ [a])[i + 1]? = l[i + 1]? :=
            List.getElem?_append_left (by omega)
          simp [legStop, hnext, hin, hb, hlast, hne]
      · -- the arrival itself
        subst hi
        rw [List.getElem?_append_right (by simp [hlen])]
        simp [hlen, legStop]
      · rw [List.getElem?_eq_none (by simp [hlen]; omega),
          List.getElem?_eq_none (by simp; omega)]
        rfl

end Arrivals

section Cover

variable {T : Type*} [LinearOrder T]

/-! ### Which entry covers an instant, when the arrivals come in order -/

/-- **In-order arrivals.** If the starts never go back and no arrival has an end
of its own, the entry that covers `t` is the last arrival that starts by `t`. -/
theorem holds_timeline_iff_last {l : List (Span T)} (hle : l.Pairwise (fun a b => a.start ≤ b.start))
    (hopen : ∀ a ∈ l, a.stop = none) {i : ℕ} {a : Span T} (hi : l[i]? = some a) (t : T) :
    (Span.mk a.start (legStop l i)).holds t = true ↔
      a.start ≤ t ∧ ∀ j b, l[j]? = some b → b.start ≤ t → j ≤ i := by
  rw [Span.holds_iff]
  refine and_congr_right (fun _ => ?_)
  cases hnext : l[i + 1]? with
  | none =>
      -- the last leg never ends, and there is nothing later to compare with
      have hlen : l.length ≤ i + 1 := List.getElem?_eq_none_iff.mp hnext
      have hstop : legStop l i = none := by
        simp [legStop, hnext, hi, hopen a (List.mem_of_getElem? hi)]
      refine ⟨fun _ j b hj _ => ?_, fun _ u hu => by simp [hstop] at hu⟩
      have hjlen := (List.getElem?_eq_some_iff.mp hj).1
      omega
  | some c =>
      -- the leg ends at the next start, which no later start precedes
      have hstop : legStop l i = some c.start := by simp [legStop, hnext]
      constructor
      · intro h j b hj hbt
        have htc : t < c.start := h c.start (by simp [hstop])
        by_contra hlt
        have hcb : c.start ≤ b.start := by
          obtain ⟨hj', rfl⟩ := List.getElem?_eq_some_iff.mp hj
          obtain ⟨hi', rfl⟩ := List.getElem?_eq_some_iff.mp hnext
          rcases Nat.lt_or_ge (i + 1) j with hij | hij
          · exact List.pairwise_iff_getElem.mp hle (i + 1) j hi' hj' hij
          · have hji : j = i + 1 := by omega
            subst hji
            exact le_refl _
        exact absurd (lt_of_lt_of_le htc (hcb.trans hbt)) (lt_irrefl _)
      · intro h u hu
        rw [hstop] at hu
        obtain rfl : c.start = u := by simpa using hu
        by_contra hct
        have hle' := h (i + 1) c hnext (not_lt.mp hct)
        omega

omit [LinearOrder T] in
/-- If `p` picks exactly the last element among those that `q` admits, filtering
with `p` leaves that element alone. -/
theorem filter_eq_getLast?_filter {α : Type*} {l : List α} {p q : α → Bool}
    (h : ∀ (i : ℕ) (a : α), l[i]? = some a →
      (p a = true ↔ q a = true ∧ ∀ (j : ℕ) (b : α), l[j]? = some b → q b = true → j ≤ i)) :
    l.filter p = ((l.filter q).getLast?).toList := by
  induction l using List.reverseRecOn with
  | nil => rfl
  | append_singleton l a ih =>
      have hlast : (l ++ [a])[l.length]? = some a := by simp
      have hpre : ∀ {i : ℕ} {b : α}, l[i]? = some b → i < l.length ∧ (l ++ [a])[i]? = some b := by
        intro i b hb
        have hi := (List.getElem?_eq_some_iff.mp hb).1
        exact ⟨hi, by rw [List.getElem?_append_left hi, hb]⟩
      rw [List.filter_append, List.filter_append]
      by_cases hqa : q a = true
      · -- the new element is the last admitted one, so nothing before it is picked
        have hpa : p a = true := by
          refine (h _ a hlast).mpr ⟨hqa, fun j b hb _ => ?_⟩
          have hj := (List.getElem?_eq_some_iff.mp hb).1
          simp only [List.length_append, List.length_cons, List.length_nil] at hj
          omega
        have hnone : l.filter p = [] := by
          rw [List.filter_eq_nil_iff]
          intro b hb hpb
          obtain ⟨i, hi⟩ := List.getElem?_of_mem hb
          have hle := ((h i b (hpre hi).2).mp hpb).2 _ a hlast hqa
          have hlt := (hpre hi).1
          omega
        simp [hnone, hpa, hqa]
      · have hpa : ¬ p a = true := fun hpa => hqa ((h _ a hlast).mp hpa).1
        simp only [List.filter_cons, hpa, hqa, Bool.false_eq_true, if_false, List.filter_nil,
          List.append_nil]
        apply ih
        intro i b hb
        rw [h i b (hpre hb).2]
        refine and_congr_right (fun _ => ⟨fun hall j c hc hqc => hall j c (hpre hc).2 hqc, ?_⟩)
        intro hall j c hc hqc
        rcases Nat.lt_or_ge j l.length with hj | hj
        · rw [List.getElem?_append_left hj] at hc
          exact hall j c hc hqc
        · have hlen := (List.getElem?_eq_some_iff.mp hc).1
          simp only [List.length_append, List.length_cons, List.length_nil] at hlen
          have hjl : j = l.length := by omega
          rw [hjl, hlast] at hc
          exact absurd (Option.some.inj hc ▸ hqc) hqa

/-! ### When no instant is covered twice -/

/-- Rises of the arrival sequence never sweep the same stretch twice: whenever
the start rises from one arrival to the next, every later rising leg begins at
or after the top of that rise, or ends at or before its bottom. -/
def SingleSweep (l : List (Span T)) : Prop :=
  ∀ i j a b c, i < j → l[i]? = some a → l[i + 1]? = some b → l[j]? = some c →
    a.start < b.start → (∀ u ∈ legStop l j, c.start < u) →
    b.start ≤ c.start ∨ ∃ u ∈ legStop l j, u ≤ a.start

/-- The arrival sequence falls first and rises afterwards: once a start is later
than the one before it, no start is ever earlier than the one before it. -/
def Valley (l : List (Span T)) : Prop :=
  ∀ i j a b c d, i < j → l[i]? = some a → l[i + 1]? = some b → l[j]? = some c →
    l[j + 1]? = some d → a.start < b.start → c.start ≤ d.start

omit [LinearOrder T] in
/-- At most one element passes a filter exactly when no two positions both do. -/
theorem length_filter_le_one_iff {α : Type*} (p : α → Bool) (l : List α) :
    (l.filter p).length ≤ 1 ↔ l.Pairwise (fun a b => ¬ (p a = true ∧ p b = true)) := by
  induction l with
  | nil => simp
  | cons x l ih =>
      rw [List.pairwise_cons, ← ih]
      by_cases hx : p x = true
      · have hnil : (l.filter p).length ≤ 0 ↔ ∀ y ∈ l, ¬ (p y = true) := by simp
        simp only [List.filter_cons, hx, if_true, List.length_cons, true_and]
        rw [← hnil]
        omega
      · simp [hx]

/-- **No instant is covered twice** exactly when the arrivals sweep every stretch
at most once. The instant that two overlapping legs share is the later of their
two starts. -/
theorem timeline_unique_iff (l : List (Span T)) :
    (∀ t, ((timeline l).filter (fun e => e.span.holds t)).length ≤ 1) ↔ SingleSweep l := by
  simp only [length_filter_le_one_iff, List.pairwise_iff_getElem]
  have hleg : ∀ i (hi : i < (timeline l).length) a, l[i]? = some a →
      ((timeline l)[i]).span = ⟨a.start, legStop l i⟩ := by
    intro i hi a ha
    have h := getElem?_timeline l i
    rw [List.getElem?_eq_getElem hi, ha] at h
    rw [Option.some.inj h]
  constructor
  · -- two legs over one stretch share the later of their starts
    intro h i j a b c hij ha hb hc hrise hleg'
    by_contra hne
    rw [not_or, not_le] at hne
    obtain ⟨hcb, hstop⟩ := hne
    push Not at hstop
    have hj : j < (timeline l).length := by
      rw [length_timeline]; exact (List.getElem?_eq_some_iff.mp hc).1
    refine h (max a.start c.start) i j (by omega) hj hij ⟨?_, ?_⟩
    · rw [hleg i (by omega) a ha, Span.holds_iff]
      refine ⟨le_max_left _ _, fun u hu => ?_⟩
      simp only [legStop, hb, Option.mem_some_iff] at hu
      exact hu ▸ max_lt hrise hcb
    · rw [hleg j hj c hc, Span.holds_iff]
      exact ⟨le_max_right _ _, fun u hu => max_lt (hstop u hu) (hleg' u hu)⟩
  · -- the earlier leg of a shared instant is a rise, so the later leg keeps clear of it
    intro h t i j hi hj hij ⟨hti, htj⟩
    rw [length_timeline] at hi hj
    have ha := List.getElem?_eq_getElem hi
    have hb : l[i + 1]? = some l[i + 1] := List.getElem?_eq_getElem (by omega)
    have hc := List.getElem?_eq_getElem hj
    rw [hleg i _ _ ha, Span.holds_iff] at hti
    rw [hleg j _ _ hc, Span.holds_iff] at htj
    have htb : t < l[i + 1].start := hti.2 _ (by simp [legStop, hb])
    rcases h i j _ _ _ hij ha hb hc (lt_of_le_of_lt hti.1 htb)
      (fun u hu => lt_of_le_of_lt htj.1 (htj.2 u hu)) with hlate | ⟨u, hu, hearly⟩
    · exact absurd (lt_of_lt_of_le htb (hlate.trans htj.1)) (lt_irrefl _)
    · exact absurd (lt_of_lt_of_le (htj.2 u hu) (hearly.trans hti.1)) (lt_irrefl _)

/-- From a start below `top`, a sequence whose last arrival never ends has a
later leg that climbs to `top`. -/
theorem exists_leg_to {l : List (Span T)} (hopen : ∀ a ∈ l.getLast?, a.stop = none) {top : T} :
    ∀ n j c, l.length - j = n → l[j]? = some c → c.start < top →
      ∃ m d, j ≤ m ∧ l[m]? = some d ∧ d.start < top ∧ ∀ u ∈ legStop l m, top ≤ u := by
  intro n
  induction n with
  | zero =>
      intro j c hn hc _
      have := (List.getElem?_eq_some_iff.mp hc).1
      omega
  | succ n ih =>
      intro j c hn hc hlt
      cases hnext : l[j + 1]? with
      | none =>
          -- the last leg, which never ends
          have hlast : l.getLast? = some c := by
            have hlen := List.getElem?_eq_none_iff.mp hnext
            have hj := (List.getElem?_eq_some_iff.mp hc).1
            rw [List.getLast?_eq_getElem?, ← hc]
            congr 1
            omega
          refine ⟨j, c, le_refl _, hc, hlt, fun u hu => ?_⟩
          simp [legStop, hnext, hc, hopen c hlast] at hu
      | some d =>
          rcases lt_or_ge d.start top with hd | hd
          · obtain ⟨m, e, hjm, hm⟩ := ih (j + 1) d (by omega) hnext hd
            exact ⟨m, e, by omega, hm⟩
          · -- this leg is the one that climbs to `top`
            refine ⟨j, c, le_refl _, hc, hlt, fun u hu => ?_⟩
            simp only [legStop, hnext, Option.mem_some_iff] at hu
            exact hu ▸ hd

/-- Before a position that some rise precedes there is a rise whose top is at
least as late as the start at that position. -/
theorem exists_rise_above {l : List (Span T)} {i : ℕ} {a b : Span T} (ha : l[i]? = some a)
    (hb : l[i + 1]? = some b) (hrise : a.start < b.start) :
    ∀ j c, i < j → l[j]? = some c →
      ∃ k a' b', k < j ∧ l[k]? = some a' ∧ l[k + 1]? = some b' ∧ a'.start < b'.start ∧
        c.start ≤ b'.start := by
  intro j
  induction j with
  | zero => intro c hij _; omega
  | succ j ih =>
      intro c hij hc
      rcases Nat.lt_or_ge i j with hlt | hge
      · have hj : j < l.length := by have := (List.getElem?_eq_some_iff.mp hc).1; omega
        have hd := List.getElem?_eq_getElem hj
        rcases lt_or_ge l[j].start c.start with hup | hdown
        · exact ⟨j, _, _, by omega, hd, hc, hup, le_refl _⟩
        · -- the sequence falls here, so a rise above the start before is above this one
          obtain ⟨k, a', b', hkj, ha', hb', hr, htop⟩ := ih _ hlt hd
          exact ⟨k, a', b', by omega, ha', hb', hr, hdown.trans htop⟩
      · have hij' : i = j := by omega
        subst hij'
        have hbc : c = b := by rw [hc] at hb; exact Option.some.inj hb
        exact ⟨i, a, b, by omega, ha, hb, hrise, by rw [hbc]⟩

/-- With an open-ended last arrival, sweeping every stretch at most once means
that the starts fall first and rise afterwards: after a fall the sequence has to
climb over the same stretch again to cover the present. -/
theorem singleSweep_iff_valley {l : List (Span T)} (hopen : ∀ a ∈ l.getLast?, a.stop = none) :
    SingleSweep l ↔ Valley l := by
  constructor
  · intro h i j a b c d hij ha hb hc hd hrise
    by_contra hfall
    -- some rise is at least as high as the fall, and a later leg climbs over it again
    obtain ⟨k, a', b', hkj, ha', hb', hrise', htop⟩ := exists_rise_above ha hb hrise j c hij hc
    have hlt : d.start < b'.start := lt_of_lt_of_le (not_le.mp hfall) htop
    obtain ⟨m, e, hjm, he, hem, hstop⟩ := exists_leg_to hopen _ (j + 1) d rfl hd hlt
    rcases h k m a' b' e (by omega) ha' hb' he hrise'
      (fun u hu => lt_of_lt_of_le hem (hstop u hu)) with hlate | ⟨u, hu, hearly⟩
    · exact absurd (lt_of_lt_of_le hem hlate) (lt_irrefl _)
    · exact absurd (lt_of_lt_of_le hrise' (hstop u hu)) (not_lt.mpr hearly)
  · intro h i j a b c hij ha hb hc hrise _
    left
    -- from the first rise on, every step of the sequence goes up
    have hmono : ∀ k d, i + 1 ≤ k → l[k]? = some d → b.start ≤ d.start := by
      intro k
      induction k with
      | zero => intro d hk _; omega
      | succ k ih =>
          intro d hk hd
          rcases Nat.lt_or_ge i k with hik | hik
          · have hklen : k < l.length := by have := (List.getElem?_eq_some_iff.mp hd).1; omega
            have he := List.getElem?_eq_getElem hklen
            exact (ih _ hik he).trans (h i k a b _ d hik ha hb he hd hrise)
          · have hki : k = i := by omega
            subst hki
            rw [hb] at hd
            rw [Option.some.inj hd]
    exact hmono j c hij hc

end Cover
