/-
`src/src/ai/reranker.service.ts` and `src/src/ai/cross-encoder.service.ts`: the listwise
reranker with its permutation self-consistency, and the cross-encoder before it.

The models behind the two are untrusted. What a pass comes back with is any reply at all,
and each pass has one of its own; the draws of the shuffles are any numbers in their range.
-/
import Brain.Lib.Rankings
import Brain.Search.RerankWindow

set_option autoImplicit false

namespace Brain.Rerankers

open Rankings

/-! ## 1. Replies -/

/-- What `JSON.parse` returns; a number without a value is one that overflowed. -/
inductive JsonValue where
  | null
  | bool (b : Bool)
  | number (x : Option ℚ)
  | string (s : String)
  | array (xs : List JsonValue)
  | object (members : List (String × JsonValue))

/-- `value?.name`; of several members with the name the last one counts. -/
def JsonValue.member (name : String) : JsonValue → Option JsonValue
  | .object members => members.reverse.lookup name
  | _ => none

/-- An entry that is a number, whole and in `[0..n)`. A negative zero is a zero. -/
def JsonValue.index (n : ℕ) : JsonValue → Option ℕ
  | .number (some x) => if x.den = 1 ∧ 0 ≤ x.num ∧ x.num < n then some x.num.toNat else none
  | _ => none

/-- The loop of both services over the entries of a reply, with the set of those `seen`:
`none` where they return `identity`. -/
def distinctIndices (n : ℕ) : List ℕ → List (Option JsonValue) → Option (List ℕ)
  | _, [] => some []
  | seen, x :: xs =>
      match x.bind (JsonValue.index n) with
      | none => none
      | some i =>
          if i ∈ seen then none
          else (distinctIndices n (i :: seen) xs).map (fun rest => i :: rest)

/-! ## 2. One pass -/

/-- What the chat call of a pass comes back with. -/
inductive ChatReply where
  /-- The call throws. -/
  | thrown
  /-- There is no message, or no text in it. -/
  | empty
  /-- A text, with what `JSON.parse` makes of it unless it throws. -/
  | content (parsed : Option JsonValue)

/-- `items`. -/
def itemsOf (candidates : List RerankCandidate) (presentationOrder : List ℕ) : String :=
  "\n\n".intercalate (presentationOrder.mapIdx (fun presIdx parentIdx =>
    match candidates[parentIdx]? with
    | some c => "[" ++ toString presIdx ++ "] " ++ c.label ++ "\n" ++ c.body
    | none => ""))

/-- `hints && hints.trim()`, with the frame of the prompt around it. -/
def hintBlock (hints : Option String) : String :=
  let trimmed := String.ofList (trim (hints.getD "").toList)
  if trimmed.isEmpty then "" else "\n\nHints:\n" ++ trimmed ++ "\n"

/-- `userPrompt`. -/
def userPrompt (query : String) (candidates : List RerankCandidate) (hints : Option String)
    (presentationOrder : List ℕ) : String :=
  "Query: " ++ query ++ hintBlock hints ++ "\n\nCandidates:\n" ++
    itemsOf candidates presentationOrder

/-- The validation of `singleRerank`: a permutation of the indices that were presented,
mapped back. `none` where it returns `identity`. -/
def readRanking (n : ℕ) (presentationOrder : List ℕ) : ChatReply → Option (List ℕ)
  | .content (some parsed) =>
      match parsed.member "ranking" with
      | some (.array presentationRanking) =>
          match distinctIndices n [] (presentationRanking.map some) with
          | none => none
          | some xs =>
              let validatedParentIdx := xs.map (fun x => presentationOrder.getD x 0)
              if validatedParentIdx.length = n then some validatedParentIdx else none
      | _ => none
  | _ => none

/-- A chat model, asked with a prompt. -/
abbrev Chat := String → ChatReply

/-- What a pass ranks, if it succeeds. -/
def pass (query : String) (candidates : List RerankCandidate) (presentationOrder : List ℕ)
    (hints : Option String) (chat : Chat) : Option (List ℕ) :=
  readRanking candidates.length presentationOrder
    (chat (userPrompt query candidates hints presentationOrder))

/-- `singleRerank`. It never rejects: what throws is caught and answered by `identity`. -/
def singleRerank (query : String) (candidates : List RerankCandidate)
    (presentationOrder : List ℕ) (hints : Option String) (chat : Chat) : List ℕ :=
  (pass query candidates presentationOrder hints chat).getD (List.range candidates.length)

/-! ## 3. Self-consistency -/

/-- `Math.floor(Math.random() * (i + 1))`, for each `i` of a shuffle. -/
abbrev Draws := (i : ℕ) → Fin (i + 1)

/-- `[out[i], out[j]] = [out[j], out[i]]`. -/
def swap {α : Type} (out : List α) (i j : ℕ) : List α :=
  if h : i < out.length ∧ j < out.length then
    (out.set i (out.get ⟨j, h.2⟩)).set j (out.get ⟨i, h.1⟩)
  else out

/-- The loop of `shuffle`, from `i` downwards. -/
def shuffleFrom {α : Type} (draws : Draws) : ℕ → List α → List α
  | 0, out => out
  | i + 1, out => shuffleFrom draws i (swap out (i + 1) (draws (i + 1)))

/-- `shuffle`. -/
def shuffle {α : Type} (draws : Draws) (xs : List α) : List α :=
  shuffleFrom draws (xs.length - 1) xs

/-- The inner loop of `bordaAggregate`. -/
def addPoints (n : ℕ) (points : List ℤ) (rank : List ℕ) : List ℤ :=
  rank.zipIdx.foldl (fun points (candidate, pos) =>
    points.modify candidate (fun p => p + ((n : ℤ) - pos))) points

/-- `b.score - a.score || a.idx - b.idx` is not positive. -/
def byScore (a b : ℕ × ℤ) : Prop := b.2 < a.2 ∨ (a.2 = b.2 ∧ a.1 ≤ b.1)

instance : DecidableRel byScore := fun a b =>
  inferInstanceAs (Decidable (b.2 < a.2 ∨ (a.2 = b.2 ∧ a.1 ≤ b.1)))

/-- `bordaAggregate`. -/
def bordaAggregate (rankings : List (List ℕ)) (n : ℕ) : List ℕ :=
  let points := rankings.foldl (addPoints n) (List.replicate n 0)
  let indexed := (List.range n).map (fun i => (i, points.getD i 0))
  (indexed.insertionSort byScore).map Prod.fst

/-- What the service is constructed with. -/
structure RerankerService where
  /-- `SEARCH_RERANKER_ENABLED` is `1` and there is an API key. -/
  isEnabled : Bool
  /-- `parseInt` of `SEARCH_RERANKER_SC_N`, if it is a finite number. -/
  rawN : Option ℤ

namespace RerankerService

variable (svc : RerankerService)

/-- `scN`. -/
def scN : ℕ :=
  match svc.rawN with
  | some rawN => if 0 < rawN then rawN.toNat else 1
  | none => 1

/-- The call does not go to the model. -/
def skips (query : String) (candidates : List RerankCandidate) : Bool :=
  !svc.isEnabled || decide (candidates.length ≤ 1) || (trim query.toList).isEmpty

/-- `rankings`: what the passes under self-consistency are settled with, if it is as long
as the list of candidates. -/
def rankings (draws : ℕ → Draws) (chat : ℕ → Chat) (query : String)
    (candidates : List RerankCandidate) (hints : Option String) : List (List ℕ) :=
  let orderings := (List.range svc.scN).map (fun k =>
    shuffle (draws k) (List.range candidates.length))
  let settled := orderings.mapIdx (fun k ord => singleRerank query candidates ord hints (chat k))
  settled.filter (fun value => value.length == candidates.length)

/-- `RerankerService.rerank`. -/
def rerank (draws : ℕ → Draws) (chat : ℕ → Chat) (query : String)
    (candidates : List RerankCandidate) (hints : Option String) : List ℕ :=
  let identity := List.range candidates.length
  if svc.skips query candidates then identity
  else if svc.scN = 1 then singleRerank query candidates identity hints (chat 0)
  else
    match svc.rankings draws chat query candidates hints with
    | [] => identity
    | [ranking] => ranking
    | rankings => bordaAggregate rankings candidates.length

end RerankerService

/-! ## 4. The cross-encoder -/

/-- What the request of the cross-encoder comes back with. -/
inductive FetchReply where
  /-- An error, a timeout, a body that is not JSON. -/
  | thrown
  /-- A status that is not `ok`. -/
  | notOk
  | json (body : JsonValue)

/-- The documents that are sent. -/
def documents (candidates : List RerankCandidate) : List String :=
  candidates.map (fun c => if c.body.isEmpty then c.label else c.label ++ "\n" ++ c.body)

/-- The validation of `CrossEncoderService.rerank`: distinct indices, completed by those
that are missing. `none` where it returns `identity`. -/
def readResults (n : ℕ) : FetchReply → Option (List ℕ)
  | .json body =>
      match body.member "results" with
      | some (.array results) =>
          if results.isEmpty then none
          else
            (distinctIndices n [] (results.map (fun r => r.member "index"))).map (fun out =>
              out ++ (List.range n).filter (fun i => !out.contains i))
      | _ => none
  | _ => none

/-- `CrossEncoderService.rerank`. -/
def crossEncode (isEnabled : Bool) (fetch : String → List String → FetchReply) (query : String)
    (candidates : List RerankCandidate) : List ℕ :=
  let identity := List.range candidates.length
  if !isEnabled || decide (candidates.length ≤ 1) || (trim query.toList).isEmpty then identity
  else (readResults candidates.length (fetch query (documents candidates))).getD identity

/-! ## 5. Every ranking is a permutation -/

/-- `[0..n)` in some order. -/
abbrev IsPermutation (ranking : List ℕ) (n : ℕ) : Prop := ranking.Perm (List.range n)

theorem index_lt {n i : ℕ} {v : JsonValue} (h : v.index n = some i) : i < n := by
  cases v with
  | number x =>
      cases x with
      | none => cases h
      | some x =>
          rw [JsonValue.index] at h
          split at h
          · next hx =>
              obtain rfl : x.num.toNat = i := Option.some.inj h
              omega
          · cases h
  | null => cases h
  | bool b => cases h
  | string s => cases h
  | array xs => cases h
  | object members => cases h

/-- What passes the loop is distinct, in range, and new. -/
theorem distinctIndices_spec {n : ℕ} (xs : List (Option JsonValue)) :
    ∀ {seen out : List ℕ}, distinctIndices n seen xs = some out →
      out.Nodup ∧ (∀ i ∈ out, i < n) ∧ ∀ i ∈ out, i ∉ seen := by
  induction xs with
  | nil =>
      intro seen out h
      obtain rfl : [] = out := Option.some.inj h
      simp
  | cons x xs ih =>
      intro seen out h
      rw [distinctIndices] at h
      cases hx : x.bind (JsonValue.index n) with
      | none =>
          rw [hx] at h
          cases h
      | some i =>
          obtain ⟨v, -, hv⟩ := Option.bind_eq_some_iff.mp hx
          rw [hx] at h
          dsimp only at h
          split at h
          · cases h
          · next hseen =>
              obtain ⟨rest, hrest, rfl⟩ := Option.map_eq_some_iff.mp h
              obtain ⟨hnd, hlt, hnew⟩ := ih hrest
              -- `i` counts as seen for the rest, so it does not come again
              have hi : i ∉ rest := fun hi => hnew i hi List.mem_cons_self
              refine ⟨List.nodup_cons.mpr ⟨hi, hnd⟩, fun j hj => ?_, fun j hj => ?_⟩
              · rcases List.mem_cons.mp hj with rfl | hj
                · exact index_lt hv
                · exact hlt j hj
              · rcases List.mem_cons.mp hj with rfl | hj
                · exact hseen
                · exact fun hs => hnew j hj (List.mem_cons_of_mem i hs)

/-- Presented indices, mapped back. -/
theorem mapBack_perm {n : ℕ} {presentationOrder xs : List ℕ}
    (horder : IsPermutation presentationOrder n) (hxs : IsPermutation xs n) :
    IsPermutation (xs.map (fun x => presentationOrder.getD x 0)) n := by
  have hlen : presentationOrder.length = n := by
    rw [horder.length_eq, List.length_range]
  have hall : (List.range n).map (fun x => presentationOrder.getD x 0) = presentationOrder := by
    refine List.ext_getElem (by simp [hlen]) (fun i hi hi' => ?_)
    rw [List.getElem_map, List.getElem_range, List.getD_eq_getElem?_getD,
      List.getElem?_eq_getElem hi', Option.getD_some]
  refine (hxs.map _).trans ?_
  rw [hall]
  exact horder

/-- **A pass that succeeds ranks all candidates**, whatever the reply and the order in which
they were presented. -/
theorem readRanking_perm {n : ℕ} {presentationOrder ranking : List ℕ} {reply : ChatReply}
    (horder : IsPermutation presentationOrder n)
    (h : readRanking n presentationOrder reply = some ranking) : IsPermutation ranking n := by
  unfold readRanking at h
  split at h
  · split at h
    · split at h
      · cases h
      · next xs hxs =>
          dsimp only at h
          split at h
          · next hlen =>
              obtain ⟨hnd, hlt, -⟩ := distinctIndices_spec _ hxs
              rw [List.length_map] at hlen
              rw [← Option.some.inj h]
              exact mapBack_perm horder (perm_range hnd hlt hlen)
          · cases h
    · cases h
  · cases h

theorem swap_perm {α : Type} (out : List α) (i j : ℕ) : (swap out i j).Perm out := by
  unfold swap
  split
  · next h => exact List.set_set_perm h.1 h.2
  · exact List.Perm.refl out

theorem shuffle_perm {α : Type} (draws : Draws) (xs : List α) : (shuffle draws xs).Perm xs := by
  have hloop : ∀ (i : ℕ) (out : List α), (shuffleFrom draws i out).Perm out := by
    intro i
    induction i with
    | zero => exact fun out => List.Perm.refl out
    | succ i ih => exact fun out => (ih _).trans (swap_perm out _ _)
  exact hloop _ xs

theorem singleRerank_perm {query : String} {candidates : List RerankCandidate}
    {presentationOrder : List ℕ} {hints : Option String} {chat : Chat}
    (horder : IsPermutation presentationOrder candidates.length) :
    IsPermutation (singleRerank query candidates presentationOrder hints chat)
      candidates.length := by
  unfold singleRerank
  cases h : pass query candidates presentationOrder hints chat with
  | none => exact List.Perm.refl _
  | some ranking => exact readRanking_perm horder h

/-- The aggregate ranks all candidates, whatever the rankings. -/
theorem bordaAggregate_perm (rankings : List (List ℕ)) (n : ℕ) :
    IsPermutation (bordaAggregate rankings n) n := by
  unfold bordaAggregate
  refine ((List.perm_insertionSort _ _).map Prod.fst).trans ?_
  rw [List.map_map]
  simp [Function.comp_def]

theorem crossEncode_perm (isEnabled : Bool) (fetch : String → List String → FetchReply)
    (query : String) (candidates : List RerankCandidate) :
    IsPermutation (crossEncode isEnabled fetch query candidates) candidates.length := by
  unfold crossEncode
  dsimp only
  split
  · exact List.Perm.refl _
  · cases h : readResults candidates.length (fetch query (documents candidates)) with
    | none => exact List.Perm.refl _
    | some ranking =>
        unfold readResults at h
        split at h
        · split at h
          · split at h
            · cases h
            · obtain ⟨out, hout, rfl⟩ := Option.map_eq_some_iff.mp h
              obtain ⟨hnd, hlt, -⟩ := distinctIndices_spec _ hout
              exact perm_range_fill hnd hlt
          · cases h
        · cases h

/-! ## 6. Points -/

/-- By how many places the rankings put `a` before `b`, all told. -/
def lead (rankings : List (List ℕ)) (a b : ℕ) : ℤ :=
  (rankings.map (fun ranking => (ranking.idxOf b : ℤ) - ranking.idxOf a)).sum

@[simp] theorem lead_nil (a b : ℕ) : lead [] a b = 0 := rfl

theorem lead_cons (ranking : List ℕ) (rankings : List (List ℕ)) (a b : ℕ) :
    lead (ranking :: rankings) a b
      = ((ranking.idxOf b : ℤ) - ranking.idxOf a) + lead rankings a b := by
  unfold lead
  rw [List.map_cons, List.sum_cons]

theorem length_addPoints (n : ℕ) (points : List ℤ) (rank : List ℕ) :
    (addPoints n points rank).length = points.length := by
  have hfold : ∀ (xs : List (ℕ × ℕ)) (points : List ℤ),
      (xs.foldl (fun points (candidate, pos) =>
        points.modify candidate (fun p => p + ((n : ℤ) - pos))) points).length
        = points.length := by
    intro xs
    induction xs with
    | nil => exact fun _ => rfl
    | cons x xs ih =>
        intro points
        rw [List.foldl_cons, ih, List.length_modify]
  exact hfold _ points

/-- The loop over a ranking, from position `k` on. -/
theorem getD_foldl_points {n i : ℕ} (rank : List ℕ) (k : ℕ) (points : List ℤ)
    (hrank : rank.Nodup) (hlt : i < points.length) :
    ((rank.zipIdx k).foldl (fun points (candidate, pos) =>
      points.modify candidate (fun p => p + ((n : ℤ) - pos))) points).getD i 0
      = points.getD i 0 + if i ∈ rank then (n : ℤ) - (rank.idxOf i + k : ℕ) else 0 := by
  induction rank generalizing k points with
  | nil => simp
  | cons x rank ih =>
      obtain ⟨hx, hnd⟩ := List.nodup_cons.mp hrank
      rw [List.zipIdx_cons, List.foldl_cons, ih (k + 1) _ hnd (by rwa [List.length_modify])]
      simp only [List.getD_eq_getElem?_getD, List.getElem?_modify,
        List.getElem?_eq_getElem hlt, Option.map_eq_map, Option.map_some, Option.getD_some]
      by_cases hxi : x = i
      · -- its points come now; it is not in the rest
        subst hxi
        simp [hx]
      · rw [List.idxOf_cons_ne _ hxi, if_neg hxi]
        by_cases hmem : i ∈ rank
        · simp only [hmem, List.mem_cons, or_true, if_true]
          push_cast
          ring
        · have hnot : i ∉ x :: rank := by
            rw [List.mem_cons, not_or]
            exact ⟨Ne.symm hxi, hmem⟩
          rw [if_neg hmem, if_neg hnot]

/-- A ranking gives each candidate in it `n` points less its position. -/
theorem getD_addPoints {n i : ℕ} {rank : List ℕ} (hrank : rank.Nodup) (hi : i ∈ rank)
    {points : List ℤ} (hlt : i < points.length) :
    (addPoints n points rank).getD i 0 = points.getD i 0 + ((n : ℤ) - rank.idxOf i) := by
  have h := getD_foldl_points (n := n) rank 0 points hrank hlt
  rwa [if_pos hi, Nat.add_zero] at h

section Borda

variable {rankings : List (List ℕ)} {n a b : ℕ}

/-- The points of the aggregate differ by the lead. -/
theorem points_sub_points (h : ∀ ranking ∈ rankings, IsPermutation ranking n) (ha : a < n)
    (hb : b < n) :
    (rankings.foldl (addPoints n) (List.replicate n 0)).getD a 0
      - (rankings.foldl (addPoints n) (List.replicate n 0)).getD b 0 = lead rankings a b := by
  have hfold : ∀ (rankings : List (List ℕ)) (points : List ℤ), points.length = n →
      (∀ ranking ∈ rankings, IsPermutation ranking n) →
      (rankings.foldl (addPoints n) points).getD a 0
        - (rankings.foldl (addPoints n) points).getD b 0
        = (points.getD a 0 - points.getD b 0) + lead rankings a b := by
    intro rankings
    induction rankings with
    | nil =>
        intro points _ _
        rw [List.foldl_nil, lead_nil, add_zero]
    | cons ranking rankings ih =>
        intro points hlen h
        have hperm := h ranking List.mem_cons_self
        have hnd : ranking.Nodup := hperm.nodup_iff.mpr List.nodup_range
        have hmem : ∀ {i : ℕ}, i < n → i ∈ ranking :=
          fun hi => hperm.mem_iff.mpr (List.mem_range.mpr hi)
        rw [List.foldl_cons, ih _ (by rw [length_addPoints, hlen])
            (fun r hr => h r (List.mem_cons_of_mem _ hr)),
          getD_addPoints hnd (hmem ha) (by omega), getD_addPoints hnd (hmem hb) (by omega),
          lead_cons]
        ring
  rw [hfold rankings _ List.length_replicate h]
  simp [List.getD_eq_getElem?_getD, ha, hb]

/-- `byScore`, on the indices that the points belong to. -/
def ahead (points : ℕ → ℤ) (i j : ℕ) : Prop := byScore (i, points i) (j, points j)

instance (points : ℕ → ℤ) : DecidableRel (ahead points) := fun i j =>
  inferInstanceAs (Decidable (byScore (i, points i) (j, points j)))

instance (points : ℕ → ℤ) : Std.Total (ahead points) where
  total i j := by
    simp only [ahead, byScore]
    omega

instance (points : ℕ → ℤ) : IsTrans ℕ (ahead points) where
  trans i j k := by
    simp only [ahead, byScore]
    omega

instance (points : ℕ → ℤ) : Std.Antisymm (ahead points) where
  antisymm i j := by
    simp only [ahead, byScore]
    omega

theorem bordaAggregate_eq_sort (rankings : List (List ℕ)) (n : ℕ) :
    bordaAggregate rankings n = (List.range n).insertionSort (ahead (fun i =>
      (rankings.foldl (addPoints n) (List.replicate n 0)).getD i 0)) := by
  have hfst : ∀ points : ℕ → ℤ, Prod.fst ∘ (fun i => (i, points i)) = id := fun _ => rfl
  unfold bordaAggregate
  dsimp only
  rw [← List.map_insertionSort (ahead (fun i =>
      (rankings.foldl (addPoints n) (List.replicate n 0)).getD i 0)) byScore _ _
      (fun i _ j _ => Iff.rfl), List.map_map, hfst, List.map_id]

/-- **The order of the aggregate**: by the lead, and on a tie by the index. -/
theorem before_bordaAggregate_iff (h : ∀ ranking ∈ rankings, IsPermutation ranking n)
    (ha : a < n) (hb : b < n) :
    Before (bordaAggregate rankings n) a b
      ↔ 0 < lead rankings a b ∨ (lead rankings a b = 0 ∧ a < b) := by
  rw [bordaAggregate_eq_sort, before_insertionSort_iff List.nodup_range
    (List.mem_range.mpr ha) (List.mem_range.mpr hb), ← points_sub_points h ha hb]
  simp only [ahead, byScore, sub_pos, sub_eq_zero]
  by_cases hab : a = b
  · subst hab
    simp
  · omega

/-- What all rankings agree on, the aggregate agrees on. -/
theorem before_bordaAggregate (h : ∀ ranking ∈ rankings, IsPermutation ranking n)
    (hne : rankings ≠ []) (hall : ∀ ranking ∈ rankings, Before ranking a b) :
    Before (bordaAggregate rankings n) a b := by
  obtain ⟨first, hfirst⟩ := List.exists_mem_of_ne_nil rankings hne
  have hlt : ∀ i ∈ first, i < n :=
    fun i hi => List.mem_range.mp ((h first hfirst).mem_iff.mp hi)
  refine (before_bordaAggregate_iff h (hlt a (hall first hfirst).mem_left)
    (hlt b (hall first hfirst).mem_right)).mpr (Or.inl ?_)
  refine List.sum_pos _ (fun x hx => ?_) (by simpa using hne)
  obtain ⟨ranking, hr, rfl⟩ := List.mem_map.mp hx
  have hnd : ranking.Nodup := (h ranking hr).nodup_iff.mpr List.nodup_range
  have hpos := ((before_iff_idxOf hnd).mp (hall ranking hr)).2
  omega

/-- Rankings that are all the same are returned unchanged. -/
theorem bordaAggregate_unanimous {ranking : List ℕ} (hperm : IsPermutation ranking n)
    (hne : rankings ≠ []) (hall : ∀ r ∈ rankings, r = ranking) :
    bordaAggregate rankings n = ranking := by
  have h : ∀ r ∈ rankings, IsPermutation r n := fun r hr => (hall r hr).symm ▸ hperm
  have haggregate := bordaAggregate_perm rankings n
  refine (eq_of_before (haggregate.nodup_iff.mpr List.nodup_range)
    (hperm.trans haggregate.symm) (fun a b hab => ?_)).symm
  exact before_bordaAggregate h hne (fun r hr => (hall r hr).symm ▸ hab)

/-- Without rankings the order stays as it is. -/
theorem bordaAggregate_nil (n : ℕ) : bordaAggregate [] n = List.range n := by
  have haggregate := bordaAggregate_perm [] n
  refine (eq_of_before (haggregate.nodup_iff.mpr List.nodup_range) haggregate.symm
    (fun a b hab => ?_)).symm
  have ha := List.mem_range.mp hab.mem_left
  have hb := List.mem_range.mp hab.mem_right
  have hlt : a < b := hab.rel List.pairwise_lt_range
  exact (before_bordaAggregate_iff (by simp) ha hb).mpr (Or.inr ⟨rfl, hlt⟩)

end Borda

/-! ## 7. The services -/

namespace RerankerService

variable (svc : RerankerService) (draws : ℕ → Draws) (chat : ℕ → Chat) (query : String)
  (candidates : List RerankCandidate) (hints : Option String)

theorem scN_pos : 0 < svc.scN := by
  unfold scN
  split
  · split
    · omega
    · exact Nat.one_pos
  · exact Nat.one_pos

/-- The ranking with which the `k`-th pass under self-consistency is settled. -/
def settledPass (k : ℕ) : List ℕ :=
  singleRerank query candidates (shuffle (draws k) (List.range candidates.length)) hints (chat k)

theorem settledPass_perm (k : ℕ) :
    IsPermutation (settledPass draws chat query candidates hints k) candidates.length :=
  singleRerank_perm (shuffle_perm _ _)

/-- Every pass is settled with a ranking of all candidates, so every pass contributes. -/
theorem rankings_eq : svc.rankings draws chat query candidates hints
    = (List.range svc.scN).map (settledPass draws chat query candidates hints) := by
  have hsettled : ((List.range svc.scN).map (fun k =>
        shuffle (draws k) (List.range candidates.length))).mapIdx (fun k ord =>
          singleRerank query candidates ord hints (chat k))
      = (List.range svc.scN).map (settledPass draws chat query candidates hints) := by
    refine List.ext_getElem (by simp) (fun k hk hk' => ?_)
    simp only [List.getElem_mapIdx, List.getElem_map, List.getElem_range, settledPass]
  unfold rankings
  dsimp only
  rw [hsettled, List.filter_eq_self]
  intro ranking hr
  obtain ⟨k, -, rfl⟩ := List.mem_map.mp hr
  have hlen := (settledPass_perm draws chat query candidates hints k).length_eq
  rw [List.length_range] at hlen
  rw [hlen, beq_self_eq_true]

theorem rankings_perm {ranking : List ℕ}
    (h : ranking ∈ svc.rankings draws chat query candidates hints) :
    IsPermutation ranking candidates.length := by
  rw [rankings_eq] at h
  obtain ⟨k, -, rfl⟩ := List.mem_map.mp h
  exact settledPass_perm draws chat query candidates hints k

theorem rankings_ne_nil : svc.rankings draws chat query candidates hints ≠ [] := by
  rw [rankings_eq, Ne, List.map_eq_nil_iff, List.range_eq_nil]
  exact (scN_pos svc).ne'

/-- Under self-consistency the answer is the aggregate of what the passes are settled with. -/
theorem rerank_eq_borda (hskips : svc.skips query candidates = false) (hscN : svc.scN ≠ 1) :
    svc.rerank draws chat query candidates hints
      = bordaAggregate (svc.rankings draws chat query candidates hints) candidates.length := by
  have hne := svc.rankings_ne_nil draws chat query candidates hints
  unfold rerank
  dsimp only
  rw [if_neg (by rw [hskips]; exact Bool.false_ne_true), if_neg hscN]
  split
  · next hnil => exact absurd hnil hne
  · next ranking hone =>
      have hperm := svc.rankings_perm draws chat query candidates hints
        (hone.symm ▸ List.mem_singleton_self ranking)
      rw [hone, bordaAggregate_unanimous hperm (List.cons_ne_nil _ _)
        (fun r hr => List.mem_singleton.mp hr)]
  · rfl

theorem rerank_perm :
    IsPermutation (svc.rerank draws chat query candidates hints) candidates.length := by
  by_cases hskips : svc.skips query candidates = true
  · unfold rerank
    dsimp only
    rw [if_pos hskips]
  · by_cases hscN : svc.scN = 1
    · unfold rerank
      dsimp only
      rw [if_neg hskips, if_pos hscN]
      exact singleRerank_perm (List.Perm.refl _)
    · rw [svc.rerank_eq_borda draws chat query candidates hints
        (Bool.eq_false_iff.mpr hskips) hscN]
      exact bordaAggregate_perm _ _

end RerankerService

/-- **The rerankers permute.** Whatever the models reply, each service returns a permutation
of the candidates; and under self-consistency what all contributing passes agree on, the
aggregate agrees on, so that passes that agree on everything are returned unchanged. -/
theorem rerankers_permute (svc : RerankerService) (draws : ℕ → Draws) (chat : ℕ → Chat)
    (query : String) (candidates : List RerankCandidate) (hints : Option String) :
    IsPermutation (svc.rerank draws chat query candidates hints) candidates.length ∧
    (∀ (isEnabled : Bool) (fetch : String → List String → FetchReply),
      IsPermutation (crossEncode isEnabled fetch query candidates) candidates.length) ∧
    (svc.skips query candidates = false → svc.scN ≠ 1 →
      (∀ a b, (∀ ranking ∈ svc.rankings draws chat query candidates hints,
          Before ranking a b) →
        Before (svc.rerank draws chat query candidates hints) a b) ∧
      ∀ ranking, (∀ r ∈ svc.rankings draws chat query candidates hints, r = ranking) →
        svc.rerank draws chat query candidates hints = ranking) := by
  have hperm : ∀ ranking ∈ svc.rankings draws chat query candidates hints,
      IsPermutation ranking candidates.length :=
    fun ranking hr => svc.rankings_perm draws chat query candidates hints hr
  have hne := svc.rankings_ne_nil draws chat query candidates hints
  refine ⟨svc.rerank_perm draws chat query candidates hints,
    fun isEnabled fetch => crossEncode_perm isEnabled fetch query candidates, ?_⟩
  intro hskips hscN
  rw [svc.rerank_eq_borda draws chat query candidates hints hskips hscN]
  refine ⟨fun a b hall => before_bordaAggregate hperm hne hall, fun ranking hall => ?_⟩
  obtain ⟨first, hfirst⟩ := List.exists_mem_of_ne_nil _ hne
  have hranking : IsPermutation ranking candidates.length := hall first hfirst ▸ hperm first hfirst
  exact bordaAggregate_unanimous hranking hne hall

/-- The pipeline with the two services behind it has the permutations that it relies on. -/
theorem rerankersPermute_of_services (env : SearchEnv) (svc : RerankerService)
    (draws : ℕ → Draws) (chat : ℕ → Chat) (fetch : String → List String → FetchReply) :
    RerankersPermute { env with
      crossEncoder := some (crossEncode true fetch)
      reranker := some (svc.rerank draws chat) } where
  crossEncoder rerank h query candidates := by
    obtain rfl := Option.some.inj h
    exact crossEncode_perm true fetch query candidates
  reranker rerank h query candidates hints := by
    obtain rfl := Option.some.inj h
    exact svc.rerank_perm draws chat query candidates hints

end Brain.Rerankers
