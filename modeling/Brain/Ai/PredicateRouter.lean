/-
`src/src/ai/predicate-router.service.ts`: what a query is about, asked from a model.

The model behind the router is untrusted: its reply is any JSON at all, or none. What `route`
returns is nothing or a pair of distributions over the two vocabularies (`classify_spec`), so in the
scores of a search the router can only raise a fact, and by a bounded factor (`predBoost_le`).

A call on a query that is not in the cache waits for the limiter, for the model, and once more
before it goes on; the calls and the replies come in any order, and several may ask for one query.
-/
import Brain.Ai.ExtractorInternals
import Brain.Common.Semaphore
import Brain.Lib.FifoCache
import Brain.Search.SearchService

set_option autoImplicit false

namespace Brain.PredicateRouter

/-! ## 1. Replies -/

/-- What `JSON.parse` returns; a number that overflows is one of the two infinities. -/
inductive Json where
  | null
  | bool (b : Bool)
  | number (x : WithBot (WithTop ℚ))
  | string (s : String)
  | array (xs : List Json)
  | object (members : List (String × Json))

/-- `value?.name`; of several members with the name the last one counts. -/
def Json.member (name : String) : Json → Option Json
  | .object members => members.reverse.lookup name
  | _ => none

/-- `value && typeof value === 'object'`. -/
def Json.isObject : Json → Bool
  | .object _ => true
  | .array _ => true
  | _ => false

/-- What the chat call comes back with. -/
inductive ChatReply where
  /-- The call throws. -/
  | thrown
  /-- There is no message, or no text in it. -/
  | empty
  /-- A text, with what `JSON.parse` makes of it unless it throws. -/
  | content (parsed : Option Json)

def DEFAULT_VOCABULARY : List String :=
  ["name", "email", "phone", "status", "tier", "intent", "preference", "complained_about",
    "interacted_with", "address", "dob", "said", "brand_voice", "brand_archetype",
    "tone_of_voice", "product_description", "target_audience_segment", "content_guideline",
    "tension_point", "reference_example", "narrative_pillar", "forbidden_pattern"]

def TYPE_VOCABULARY : List String :=
  ["customer", "staff", "asset", "project", "topic", "location", "other"]

/-- `Math.max(0, Math.min(1, v))`. -/
def clampUnit : WithBot (WithTop ℚ) → ℚ
  | none => 0
  | some none => 1
  | some (some x) => max 0 (min 1 x)

/-- The weight of a name before the sum is looked at. -/
def rawWeight (raw : Json) (k : String) : ℚ :=
  match raw.member k with
  | some (.number x) => clampUnit x
  | _ => 0

/-- The sum of the weights. -/
def mass (w : Weights) : ℚ := (w.map Prod.snd).sum

def normalizeDist (raw : Option Json) (vocab : List String) : Option Weights :=
  match raw with
  | none => none
  | some r =>
      if r.isObject then
        let cleaned : Weights := vocab.map (fun k => (k, rawWeight r k))
        if 0 < mass cleaned ∧ 5 / 100 < |mass cleaned - 1| then
          some (cleaned.map (fun e => (e.1, e.2 / mass cleaned)))
        else some cleaned
      else none

/-- `classify`, once the model has replied; `none` also where it throws. -/
def classify : ChatReply → Option RouterClassification
  | .content (some parsed) =>
      match normalizeDist (parsed.member "predicates") DEFAULT_VOCABULARY,
        normalizeDist (parsed.member "types") TYPE_VOCABULARY with
      | some predicates, some types => some ⟨predicates, types⟩
      | _, _ => none
  | _ => none

def ChatReply.outcome : ChatReply → Semaphore.Outcome
  | .thrown => .rejected
  | _ => .resolved

/-! ## 2. The service -/

/-- How the service is constructed. A digest is not empty, so the oldest key of the cache is
there whenever the cache is not empty. -/
structure Config (Digest : Type) where
  /-- `isEnabled()`. -/
  enabled : Bool
  concurrency : ℕ
  cacheLimit : ℕ
  sha256 : String → Digest
  toLowerCase : String → String

variable {Digest : Type} [DecidableEq Digest]

def Config.key (cfg : Config Digest) (query : String) : Digest :=
  cfg.sha256 (cfg.toLowerCase (trimString query))

/-- `queries` are those of the calls that have got to the limiter, which numbers them. -/
structure State (Digest : Type) where
  cache : InsertionMap Digest RouterClassification
  limiter : Semaphore.State
  queries : List String
  /-- What the model has replied, by the number of the call. -/
  replies : List (ℕ × ChatReply)
  /-- The calls whose `classify` has settled, and that have not gone on. -/
  unanswered : List ℕ
  /-- What the calls have returned that got to the limiter. -/
  answers : List (ℕ × Option RouterClassification)
  /-- What the others have returned. -/
  atOnce : List (String × Option RouterClassification)

def State.start : State Digest where
  cache := .empty
  limiter := .start
  queries := []
  replies := []
  unanswered := []
  answers := []
  atOnce := []

inductive Event where
  | route (query : String)
  /-- A call that has got its permit asks the model. -/
  | resume (c : ℕ)
  /-- The model replies, or the request fails. -/
  | reply (c : ℕ) (r : ChatReply)
  /-- A call gives its permit back. -/
  | leave (c : ℕ) (outcome : Semaphore.Outcome)
  /-- The rest of `route`. -/
  | goOn (c : ℕ)

def Event.isGoOn : Event → Bool
  | .goOn _ => true
  | _ => false

section Service

variable (cfg : Config Digest)

/-- What `classify` has come to in call `c`. -/
def State.dist (s : State Digest) (c : ℕ) : Option RouterClassification :=
  (s.replies.lookup c).bind classify

/-- The rest of `route`: a classification is stored, in the place of the oldest one. -/
def State.store (s : State Digest) (c : ℕ) : InsertionMap Digest RouterClassification :=
  match s.dist c with
  | none => s.cache
  | some dist => s.cache.fifoSet cfg.cacheLimit (cfg.key (s.queries.getD c "")) dist

def step (s : State Digest) : Event → State Digest
  | .route query =>
      if !cfg.enabled || (trimString query).isEmpty then
        { s with atOnce := s.atOnce ++ [(query, none)] }
      else
        match s.cache.get? (cfg.key query) with
        | some cached => { s with atOnce := s.atOnce ++ [(query, some cached)] }
        | none => { s with
            queries := s.queries ++ [query]
            limiter := Semaphore.step cfg.concurrency s.limiter .call }
  | .resume c => { s with limiter := Semaphore.step cfg.concurrency s.limiter (.resume c) }
  | .reply c r =>
      if c ∈ s.limiter.executing then
        { s with
          limiter := Semaphore.step cfg.concurrency s.limiter (.settle c r.outcome)
          replies := s.replies ++ [(c, r)]
          unanswered := s.unanswered ++ [c] }
      else s
  | .leave c outcome =>
      { s with limiter := Semaphore.step cfg.concurrency s.limiter (.leave c outcome) }
  | .goOn c =>
      if c ∈ s.unanswered ∧ c ∈ s.limiter.finished.map Prod.fst then
        { s with
          cache := s.store cfg c
          unanswered := s.unanswered.erase c
          answers := s.answers ++ [(c, s.dist c)] }
      else s

def run (events : List Event) : State Digest := events.foldl (step cfg) .start

end Service

/-! ## 3. Distributions -/

/-- Weights for the names of a vocabulary, in [0, 1]; together they are nothing, or 1 up to 0.05. -/
structure Distribution (vocab : List String) (w : Weights) : Prop where
  keys : w.map Prod.fst = vocab
  unit : ∀ e ∈ w, 0 ≤ e.2 ∧ e.2 ≤ 1
  mass : mass w = 0 ∨ |mass w - 1| ≤ 5 / 100

section Distributions

variable {vocab : List String} {raw : Option Json} {w : Weights} {parsed : Json} {r : ChatReply}
  {cl : RouterClassification}

theorem clampUnit_unit (x : WithBot (WithTop ℚ)) : 0 ≤ clampUnit x ∧ clampUnit x ≤ 1 := by
  match x with
  | none => exact ⟨le_refl 0, zero_le_one⟩
  | some none => exact ⟨zero_le_one, le_refl 1⟩
  | some (some x) => exact ⟨le_max_left _ _, max_le zero_le_one (min_le_left _ _)⟩

theorem rawWeight_unit (raw : Json) (k : String) : 0 ≤ rawWeight raw k ∧ rawWeight raw k ≤ 1 := by
  unfold rawWeight
  split
  · exact clampUnit_unit _
  · exact ⟨le_refl 0, zero_le_one⟩

/-- Weights over their mass. -/
theorem distribution_div (hkeys : w.map Prod.fst = vocab) (hunit : ∀ e ∈ w, 0 ≤ e.2 ∧ e.2 ≤ 1)
    (hpos : 0 < mass w) : Distribution vocab (w.map (fun e => (e.1, e.2 / mass w))) := by
  have hone : mass (w.map (fun e => (e.1, e.2 / mass w))) = 1 := by
    have hdiv : (w.map (fun e => e.2 / mass w)).sum = mass w / mass w := by
      simp only [div_eq_mul_inv]
      rw [List.sum_map_mul_right]
      rfl
    rw [mass, List.map_map]
    exact hdiv.trans (div_self hpos.ne')
  refine ⟨?_, fun e he => ?_, Or.inr ?_⟩
  · rw [List.map_map]
    exact hkeys
  · obtain ⟨e', hmem, rfl⟩ := List.mem_map.mp he
    have hle : e'.2 ≤ mass w := by
      refine List.single_le_sum (fun x hx => ?_) _ (List.mem_map_of_mem hmem)
      obtain ⟨e'', hmem', rfl⟩ := List.mem_map.mp hx
      exact (hunit e'' hmem').1
    exact ⟨div_nonneg (hunit e' hmem).1 hpos.le, (div_le_one hpos).mpr hle⟩
  · rw [hone, sub_self, abs_zero]
    norm_num

theorem normalizeDist_spec (h : normalizeDist raw vocab = some w) : Distribution vocab w := by
  unfold normalizeDist at h
  split at h
  · cases h
  · next r =>
      split at h
      swap
      · cases h
      have hkeys : (vocab.map (fun k => (k, rawWeight r k))).map Prod.fst = vocab := by
        rw [List.map_map]
        exact List.map_id vocab
      have hunit : ∀ e ∈ vocab.map (fun k => (k, rawWeight r k)), 0 ≤ e.2 ∧ e.2 ≤ 1 := by
        intro e he
        obtain ⟨k, _, rfl⟩ := List.mem_map.mp he
        exact rawWeight_unit r k
      dsimp only at h
      split at h
      · next hoff =>
          cases h
          exact distribution_div hkeys hunit hoff.1
      · next hon =>
          cases h
          refine ⟨hkeys, hunit, ?_⟩
          have hnonneg : 0 ≤ mass (vocab.map (fun k => (k, rawWeight r k))) := by
            refine List.sum_nonneg (fun x hx => ?_)
            obtain ⟨e, he, rfl⟩ := List.mem_map.mp hx
            exact (hunit e he).1
          rcases hnonneg.eq_or_lt with hzero | hpos
          · exact Or.inl hzero.symm
          · exact Or.inr (not_lt.mp (fun hlt => hon ⟨hpos, hlt⟩))

/-- Weights that are too great are cut, and then all are scaled. -/
example : normalizeDist (some (.object [("a", .number (some (some 2))),
    ("b", .number (some (some (1 / 2))))])) ["a", "b"] = some [("a", 2 / 3), ("b", 1 / 3)] := by
  decide +kernel

/-- **What the router takes over from a reply.** -/
theorem classify_spec (h : classify r = some cl) :
    Distribution DEFAULT_VOCABULARY cl.predicates ∧ Distribution TYPE_VOCABULARY cl.types := by
  unfold classify at h
  split at h
  · split at h
    · next hpredicates htypes =>
        cases h
        exact ⟨normalizeDist_spec hpredicates, normalizeDist_spec htypes⟩
    · cases h
  · cases h

theorem Distribution.at_unit (h : Distribution vocab w) (name : String) :
    0 ≤ w.at_ name ∧ w.at_ name ≤ 1 := by
  unfold Weights.at_
  cases hfind : w.find? (fun e => e.1 == name) with
  | none => exact ⟨le_refl 0, zero_le_one⟩
  | some e => exact h.unit e (List.mem_of_find?_eq_some hfind)

theorem predicateBoostAlpha_nonneg (predicate : String) : 0 ≤ predicateBoostAlpha predicate := by
  unfold predicateBoostAlpha
  split_ifs <;> norm_num

/-- **The router raises a fact, and by a bounded factor.** -/
theorem predBoost_le (h : Distribution vocab w) (scoring : Scoring) (now : Time) (row : FusedRow) :
    ∃ boost, (scoreRow scoring (some w) now row).score
        = (scoreRow scoring none now row).score * boost ∧
      1 ≤ boost ∧ boost ≤ 1 + predicateBoostAlpha row.predicate := by
  obtain ⟨hnonneg, hle⟩ := h.at_unit row.predicate
  have halpha := predicateBoostAlpha_nonneg row.predicate
  refine ⟨1 + predicateBoostAlpha row.predicate * w.at_ row.predicate, ?_, ?_, ?_⟩
  · show _ * _ * _ * _ = _ * _ * _ * 1 * _
    rw [mul_one]
  · exact le_add_of_nonneg_right (mul_nonneg halpha hnonneg)
  · exact add_le_add_right (mul_le_of_le_one_right halpha hle) 1

end Distributions

/-! ## 4. The invariant -/

section Invariant

variable {cfg : Config Digest} {s s' : State Digest} {k : Digest} {cl : RouterClassification}

/-- `cl` is what the model has said about a query with this key. -/
def From (cfg : Config Digest) (s : State Digest) (k : Digest) (cl : RouterClassification) : Prop :=
  ∃ c q r, (c, r) ∈ s.replies ∧ s.queries[c]? = some q ∧ cfg.key q = k ∧ classify r = some cl

structure Inv (cfg : Config Digest) (s : State Digest) : Prop where
  limiter : Semaphore.Inv cfg.concurrency s.limiter
  calls : s.limiter.calls = s.queries.length
  /-- The calls that the model has replied to have settled. -/
  replied : (s.replies.map Prod.fst).Perm
    (s.limiter.settled.map Prod.fst ++ s.limiter.finished.map Prod.fst)
  told : (s.unanswered ++ s.answers.map Prod.fst).Perm (s.replies.map Prod.fst)
  asked : ∀ q ∈ s.queries, cfg.enabled = true ∧ (trimString q).isEmpty = false
  answers : ∀ p ∈ s.answers, ∃ r, (p.1, r) ∈ s.replies ∧ p.2 = classify r
  cache : ∀ p ∈ s.cache.entries, From cfg s p.1 p.2
  atOnce : ∀ p ∈ s.atOnce, ∀ cl, p.2 = some cl → From cfg s (cfg.key p.1) cl
  size : s.cache.size ≤ max cfg.cacheLimit 1

omit [DecidableEq Digest] in
theorem From.mono (h : From cfg s k cl) (hreplies : s.replies ⊆ s'.replies)
    (hqueries : ∀ (c : ℕ) (q : String), s.queries[c]? = some q → s'.queries[c]? = some q) :
    From cfg s' k cl := by
  obtain ⟨c, q, r, hr, hq, hk, hcl⟩ := h
  exact ⟨c, q, r, hreplies hr, hqueries c q hq, hk, hcl⟩

omit [DecidableEq Digest] in
theorem inv_start : Inv cfg (.start : State Digest) where
  limiter := Semaphore.inv_start
  calls := rfl
  replied := List.Perm.refl _
  told := List.Perm.refl _
  asked _ hq := absurd hq List.not_mem_nil
  answers _ hp := absurd hp List.not_mem_nil
  cache _ hp := absurd hp List.not_mem_nil
  atOnce _ hp := absurd hp List.not_mem_nil
  size := Nat.zero_le _

theorem Inv.route (h : Inv cfg s) (query : String) : Inv cfg (step cfg s (.route query)) := by
  simp only [step]
  split
  · refine { h with atOnce := fun p hp cl hcl => ?_ }
    rcases List.mem_append.mp hp with hp | hp
    · exact h.atOnce p hp cl hcl
    · obtain rfl := List.mem_singleton.mp hp
      cases hcl
  · next hasks =>
      split
      · next cached hget =>
          refine { h with atOnce := fun p hp cl hcl => ?_ }
          rcases List.mem_append.mp hp with hp | hp
          · exact h.atOnce p hp cl hcl
          · obtain rfl := List.mem_singleton.mp hp
            cases hcl
            exact h.cache _ (InsertionMap.mem_of_get? hget)
      · have hmono : ∀ c q, s.queries[c]? = some q → (s.queries ++ [query])[c]? = some q :=
          fun c q hq => (List.getElem?_append_left (List.getElem?_eq_some_iff.mp hq).1).trans hq
        have hasks : cfg.enabled = true ∧ (trimString query).isEmpty = false := by
          simpa using hasks
        obtain ⟨hcalls, _, hsettled, hfinished⟩ := Semaphore.step_call cfg.concurrency s.limiter
        refine ⟨h.limiter.call, ?_, ?_, h.told, fun q hq => ?_, h.answers,
          fun p hp => (h.cache p hp).mono (List.Subset.refl _) hmono,
          fun p hp cl hcl => (h.atOnce p hp cl hcl).mono (List.Subset.refl _) hmono, h.size⟩
        · rw [List.length_append, List.length_singleton, hcalls, h.calls]
        · rw [hsettled, hfinished]
          exact h.replied
        · rcases List.mem_append.mp hq with hq | hq
          · exact h.asked q hq
          · obtain rfl := List.mem_singleton.mp hq
            exact hasks

theorem Inv.resume (h : Inv cfg s) (c : ℕ) : Inv cfg (step cfg s (.resume c)) := by
  have hframe : (Semaphore.step cfg.concurrency s.limiter (.resume c)).calls = s.limiter.calls ∧
      (Semaphore.step cfg.concurrency s.limiter (.resume c)).settled = s.limiter.settled ∧
      (Semaphore.step cfg.concurrency s.limiter (.resume c)).finished = s.limiter.finished := by
    simp only [Semaphore.step]
    split <;> exact ⟨rfl, rfl, rfl⟩
  obtain ⟨hcalls, hsettled, hfinished⟩ := hframe
  refine { h with limiter := h.limiter.resume c, calls := hcalls.trans h.calls, replied := ?_ }
  show (s.replies.map Prod.fst).Perm (List.map _ (Semaphore.step _ _ _).settled ++ List.map _
    (Semaphore.step _ _ _).finished)
  rw [hsettled, hfinished]
  exact h.replied

theorem Inv.reply (h : Inv cfg s) (c : ℕ) (r : ChatReply) : Inv cfg (step cfg s (.reply c r)) := by
  simp only [step]
  split
  swap
  · exact h
  next hc =>
    have hlimiter := h.limiter.settle c r.outcome
    simp only [Semaphore.step, if_pos hc] at hlimiter ⊢
    have hmore : s.replies ⊆ s.replies ++ [(c, r)] := List.subset_append_left _ _
    refine ⟨hlimiter, h.calls, ?_, ?_, h.asked, fun p hp => ?_,
      fun p hp => (h.cache p hp).mono hmore (fun _ _ hq => hq),
      fun p hp cl hcl => (h.atOnce p hp cl hcl).mono hmore (fun _ _ hq => hq), h.size⟩
    · rw [List.map_append, List.map_append, List.append_assoc]
      refine (h.replied.append_right [c]).trans ?_
      rw [List.append_assoc]
      exact List.perm_append_comm.append_left _
    · rw [List.map_append, List.append_assoc]
      refine (List.perm_append_comm.append_left s.unanswered).trans ?_
      rw [← List.append_assoc]
      exact h.told.append_right [c]
    · obtain ⟨r', hr', heq⟩ := h.answers p hp
      exact ⟨r', hmore hr', heq⟩

theorem Inv.leave (h : Inv cfg s) (c : ℕ) (outcome : Semaphore.Outcome) :
    Inv cfg (step cfg s (.leave c outcome)) := by
  obtain ⟨hcalls, _, hperm⟩ := Semaphore.step_leave cfg.concurrency s.limiter c outcome
  refine { h with
    limiter := h.limiter.leave c outcome, calls := hcalls.trans h.calls, replied := ?_ }
  have hids := hperm.map Prod.fst
  rw [List.map_append, List.map_append] at hids
  exact h.replied.trans hids.symm

omit [DecidableEq Digest] in
/-- A call that has been replied to has asked about its query. -/
theorem Inv.exists_reply (h : Inv cfg s) {c : ℕ} (hc : c ∈ s.unanswered) :
    ∃ r q, (c, r) ∈ s.replies ∧ s.queries[c]? = some q ∧ s.dist c = classify r := by
  have hmem : c ∈ s.replies.map Prod.fst := h.told.subset (List.mem_append_left _ hc)
  have hlt : c < s.queries.length := by
    have hplaced := h.limiter.placed (List.Perm.refl _) h.replied
    rw [← h.calls, ← List.mem_range]
    exact hplaced.subset (List.mem_append_right _ hmem)
  cases hlookup : s.replies.lookup c with
  | none =>
      rw [List.lookup_eq_none_iff] at hlookup
      obtain ⟨p, hp, rfl⟩ := List.mem_map.mp hmem
      exact absurd (hlookup p hp) (by simp)
  | some r =>
      obtain ⟨l₁, l₂, heq, _⟩ := List.lookup_eq_some_iff.mp hlookup
      refine ⟨r, _, heq ▸ List.mem_append_right l₁ List.mem_cons_self,
        List.getElem?_eq_getElem hlt, ?_⟩
      rw [State.dist, hlookup]
      rfl

theorem Inv.goOn (h : Inv cfg s) (c : ℕ) : Inv cfg (step cfg s (.goOn c)) := by
  simp only [step]
  split
  swap
  · exact h
  next hc =>
    obtain ⟨r, q, hr, hq, hdist⟩ := h.exists_reply hc.1
    have hstore : ∀ p ∈ (s.store cfg c).entries, p ∈ s.cache.entries ∨ From cfg s p.1 p.2 := by
      intro p hp
      unfold State.store at hp
      split at hp
      · exact Or.inl hp
      · next dist heq =>
          rcases InsertionMap.mem_entries_fifoSet hp with rfl | hp
          · refine Or.inr ⟨c, q, r, hr, hq, ?_, hdist.symm.trans heq⟩
            rw [List.getD_eq_getElem?_getD, hq]
            rfl
          · exact Or.inl hp
    refine ⟨h.limiter, h.calls, h.replied, ?_, h.asked, fun p hp => ?_, fun p hp => ?_, h.atOnce, ?_⟩
    · refine List.Perm.trans ?_ h.told
      rw [List.map_append, ← List.append_assoc]
      refine List.perm_append_comm.trans ?_
      rw [← List.append_assoc]
      exact (List.perm_cons_erase hc.1).symm.append_right _
    · rcases List.mem_append.mp hp with hp | hp
      · exact h.answers p hp
      · obtain rfl := List.mem_singleton.mp hp
        exact ⟨r, hr, hdist⟩
    · exact (hstore p hp).elim (h.cache p) id
    · show (s.store cfg c).size ≤ _
      unfold State.store
      split
      · exact h.size
      · exact InsertionMap.size_fifoSet_le h.size _ _

theorem Inv.step (h : Inv cfg s) (e : Event) : Inv cfg (step cfg s e) := by
  cases e with
  | route query => exact h.route query
  | resume c => exact h.resume c
  | reply c r => exact h.reply c r
  | leave c outcome => exact h.leave c outcome
  | goOn c => exact h.goOn c

theorem inv_run (cfg : Config Digest) (events : List Event) : Inv cfg (run cfg events) := by
  induction events using List.reverseRecOn with
  | nil => exact inv_start
  | append_singleton events e ih =>
      rw [run, List.foldl_append]
      exact ih.step e

end Invariant

/-! ## 5. What is returned -/

section Returned

variable {cfg : Config Digest} {s : State Digest} {k : Digest} {cl : RouterClassification}

/-- Only the rest of a call writes to the cache. -/
theorem cache_step {e : Event} (he : e.isGoOn = false) : (step cfg s e).cache = s.cache := by
  cases e with
  | route query =>
      simp only [step]
      split
      · rfl
      · split <;> rfl
  | resume c => rfl
  | reply c r =>
      simp only [step]
      split <;> rfl
  | leave c outcome => rfl
  | goOn c => cases he

/-- And it writes one classification, if any. -/
theorem cache_goOn (cfg : Config Digest) (s : State Digest) (c : ℕ) :
    (step cfg s (.goOn c)).cache = s.cache ∨
      ∃ k cl, (step cfg s (.goOn c)).cache = s.cache.fifoSet cfg.cacheLimit k cl := by
  simp only [step]
  split
  · unfold State.store
    split
    · exact Or.inl rfl
    · exact Or.inr ⟨_, _, rfl⟩
  · exact Or.inl rfl

/-- **What comes into the cache stays** while fewer calls go on than it has room for. -/
theorem behind_foldl {n : ℕ} : ∀ (later : List Event) (s : State Digest), s.cache.Behind k n →
    n + later.countP Event.isGoOn < cfg.cacheLimit →
    ∃ m, (later.foldl (step cfg) s).cache.Behind k m
  | [], _, h, _ => ⟨n, h⟩
  | e :: later, s, h, hroom => by
      rw [List.countP_cons] at hroom
      cases he : e.isGoOn with
      | false =>
          rw [he] at hroom
          refine behind_foldl later _ ?_ hroom
          rw [cache_step he]
          exact h
      | true =>
          rw [he, if_pos rfl] at hroom
          cases e with
          | goOn c =>
              refine behind_foldl (n := n + 1) later _ ?_ (by omega)
              rcases cache_goOn cfg s c with heq | ⟨k', cl', heq⟩
              · rw [heq]
                obtain ⟨l, v, r, hentries, hle⟩ := h
                exact ⟨l, v, r, hentries, hle.trans (Nat.le_succ n)⟩
              · rw [heq]
                exact h.fifoSet (by omega) k' cl'
          | route query => cases he
          | resume c => cases he
          | reply c r => cases he
          | leave c outcome => cases he

/-- What `route` has returned. -/
def State.Returned (s : State Digest) (cl : RouterClassification) : Prop :=
  (∃ c, (c, some cl) ∈ s.answers) ∨ ∃ q, (q, some cl) ∈ s.atOnce

structure Routed (cfg : Config Digest) (s : State Digest) : Prop where
  /-- A call that needs the model is in one place: it waits for its permit, or has got it, or waits
  for the model, or has been replied to, or has returned, once. -/
  placed : (s.limiter.waiters ++ s.limiter.granted ++ s.limiter.executing
    ++ (s.unanswered ++ s.answers.map Prod.fst)).Perm (List.range s.queries.length)
  bounded : s.limiter.executing.length ≤ cfg.concurrency
  /-- The model is asked nothing while the router is off, and nothing about a blank query. -/
  asked : ∀ q ∈ s.queries, cfg.enabled = true ∧ (trimString q).isEmpty = false
  /-- A call returns what the model has replied to it. -/
  answers : ∀ p ∈ s.answers, ∃ r, (p.1, r) ∈ s.replies ∧ p.2 = classify r
  /-- The cache returns what the model has replied to a query that differs at most in case and in
  the blanks around it, as far as their digests tell. -/
  atOnce : ∀ q cl, (q, some cl) ∈ s.atOnce → From cfg s (cfg.key q) cl
  size : s.cache.size ≤ max cfg.cacheLimit 1

omit [DecidableEq Digest] in
theorem Inv.routed (h : Inv cfg s) : Routed cfg s where
  placed := by
    rw [← h.calls]
    exact h.limiter.placed (List.Perm.refl _) (h.told.trans h.replied)
  bounded := h.limiter.safe.executing_le
  asked := h.asked
  answers := h.answers
  atOnce q cl hmem := h.atOnce _ hmem cl rfl
  size := h.size

omit [DecidableEq Digest] in
theorem Inv.classified (h : Inv cfg s) (hcl : s.Returned cl) : ∃ r, classify r = some cl := by
  rcases hcl with ⟨c, hmem⟩ | ⟨q, hmem⟩
  · obtain ⟨r, _, heq⟩ := h.answers _ hmem
    exact ⟨r, heq.symm⟩
  · obtain ⟨_, _, r, _, _, _, heq⟩ := h.atOnce _ hmem cl rfl
    exact ⟨r, heq⟩

/-- **What the router returns**, whatever the model replies and in whatever order calls and replies
come. (1) Each call that needs the model returns once, with what the model has replied to it, and no
more calls ask the model at a time than the limiter lets; the others return at once, from a cache of
bounded size. (2) What is returned are distributions over the two vocabularies, so that in a search
the router only raises facts, each by a bounded factor. (3) What comes into the cache answers its
query until as many further calls have gone on as the cache has room for. -/
theorem route_spec (cfg : Config Digest) (events : List Event) :
    Routed cfg (run cfg events) ∧
    (∀ cl, (run cfg events).Returned cl →
      Distribution DEFAULT_VOCABULARY cl.predicates ∧ Distribution TYPE_VOCABULARY cl.types ∧
      ∀ (scoring : Scoring) (now : Time) (row : FusedRow),
        ∃ boost, (scoreRow scoring (some cl.predicates) now row).score
            = (scoreRow scoring none now row).score * boost ∧
          1 ≤ boost ∧ boost ≤ 1 + predicateBoostAlpha row.predicate) ∧
    ∀ (c : ℕ) (query : String) (later : List Event),
      cfg.key query ∉ (run cfg events).cache.keys →
      cfg.key query ∈ (step cfg (run cfg events) (.goOn c)).cache.keys →
      later.countP Event.isGoOn < cfg.cacheLimit → (trimString query).isEmpty = false →
      ∃ cl, step cfg (run cfg (events ++ .goOn c :: later)) (.route query)
        = { run cfg (events ++ .goOn c :: later) with
            atOnce := (run cfg (events ++ .goOn c :: later)).atOnce ++ [(query, some cl)] } := by
  have hi := inv_run cfg events
  refine ⟨hi.routed, fun cl hcl => ?_, fun c query later hnew hmem hroom hnonblank => ?_⟩
  · obtain ⟨r, hr⟩ := hi.classified hcl
    obtain ⟨hpredicates, htypes⟩ := classify_spec hr
    exact ⟨hpredicates, htypes, predBoost_le hpredicates⟩
  · have hbehind : (step cfg (run cfg events) (.goOn c)).cache.Behind (cfg.key query) 0 := by
      rcases cache_goOn cfg (run cfg events) c with heq | ⟨k', cl', heq⟩
      · rw [heq] at hmem
        exact absurd hmem hnew
      · obtain ⟨p, hp, hkey⟩ := List.mem_map.mp (heq ▸ hmem)
        rcases InsertionMap.mem_entries_fifoSet hp with rfl | hp
        · have hkey : k' = cfg.key query := hkey
          rw [heq, hkey]
          exact InsertionMap.behind_fifoSet_self hnew cl'
        · exact absurd (hkey ▸ List.mem_map_of_mem hp) hnew
    have hrun : run cfg (events ++ .goOn c :: later)
        = later.foldl (step cfg) (step cfg (run cfg events) (.goOn c)) := by
      rw [run, List.foldl_append, List.foldl_cons]
      rfl
    obtain ⟨m, hm⟩ := behind_foldl later _ hbehind (by rwa [Nat.zero_add])
    obtain ⟨cl, hcl⟩ := hm.exists_get?
    rw [← hrun] at hcl
    have henabled : cfg.enabled = true := by
      obtain ⟨_, q, _, _, hq, _⟩ := (inv_run cfg (events ++ .goOn c :: later)).cache _
        (InsertionMap.mem_of_get? hcl)
      exact ((inv_run cfg _).asked q (List.mem_of_getElem? hq)).1
    refine ⟨cl, ?_⟩
    simp only [step, henabled, hnonblank, hcl]
    rfl

end Returned

end Brain.PredicateRouter
