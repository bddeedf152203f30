/-
`src/src/ai/embedder.service.ts` over `openai-embedder.provider.ts`: embedding one text, and
embedding many.

A batch is put together at three places. What the cache has, and what is blank, is put down at
once, and the indices of the others are noted down; the provider does the same for the blank
ones of those; and the items of a chunk go where their index in the chunk says. All three fill
the places of one array (`Placement`), each place once, so that none of the orders matters
(`embedMany_eq_embed`).
-/
import Brain.Ai.ExtractorInternals
import Brain.Lib.LruCache
import Brain.Lib.Placement

set_option autoImplicit false

namespace Brain.Embedder

abbrev Embedding := List ℚ

/-- `new Array(dimensions).fill(0)`. -/
def zeroVector (dimensions : ℕ) : Embedding := List.replicate dimensions 0

/-! ## 1. Providers -/

/-- `EmbedderProvider`, once it is ready. An element that `embedMany` leaves out is `none`. -/
structure EmbedderProvider where
  providerId : String
  dimensions : ℕ
  embed : String → Embedding
  embedMany : Option (List String → List (Option Embedding))

/-- An element of `data[]` in a response of `/embeddings`. -/
structure EmbeddingItem where
  index : ℕ
  embedding : Embedding

/-- `openai.embeddings.create`: what the call answers that is made for the inputs from `start`
on. -/
structure OpenAIApi where
  create : ℕ → List String → List EmbeddingItem

section OpenAI

variable (api : OpenAIApi) (dimensions : ℕ)

/-- `embed` of `OpenAIEmbedderProvider`. -/
def openAIEmbed (text : String) : Embedding :=
  let trimmed := trimString text
  if trimmed.isEmpty then zeroVector dimensions
  else ((api.create 0 [trimmed]).head?.map EmbeddingItem.embedding).getD []

/-- What the first loop of `embedMany` has come to. -/
structure Inputs where
  out : List (Option Embedding)
  indices : List ℕ
  inputs : List String

/-- One turn of the first loop. -/
def addInput (s : Inputs) (e : String × ℕ) : Inputs :=
  let trimmed := trimString e.1
  if trimmed.isEmpty then { s with out := s.out.set e.2 (some (zeroVector dimensions)) }
  else { s with indices := s.indices ++ [e.2], inputs := s.inputs ++ [trimmed] }

/-- `out[sliceIdx[d.index]] = d.embedding`. -/
def assignItem (sliceIdx : List ℕ) (out : List (Option Embedding)) (d : EmbeddingItem) :
    List (Option Embedding) :=
  match sliceIdx[d.index]? with
  | none => out
  | some i => out.set i (some d.embedding)

def CHUNK : ℕ := 512

/-- The loop over the chunks. Each turn takes an input at least, so as many turns as there are
inputs are enough. -/
def embedChunks (inputs : List String) (indices : List ℕ) :
    ℕ → ℕ → List (Option Embedding) → List (Option Embedding)
  | 0, _, out => out
  | turns + 1, start, out =>
      if start < inputs.length then
        let slice := (inputs.drop start).take CHUNK
        let sliceIdx := (indices.drop start).take CHUNK
        embedChunks inputs indices turns (start + CHUNK)
          ((api.create start slice).foldl (assignItem sliceIdx) out)
      else out

/-- `embedMany` of `OpenAIEmbedderProvider`. -/
def openAIEmbedMany (texts : List String) : List (Option Embedding) :=
  if texts.isEmpty then []
  else
    let s := texts.zipIdx.foldl (addInput dimensions) ⟨List.replicate texts.length none, [], []⟩
    if s.inputs.isEmpty then s.out
    else embedChunks api s.inputs s.indices s.inputs.length 0 s.out

/-- `OpenAIEmbedderProvider`. -/
def openAIProvider (model : String) : EmbedderProvider where
  providerId := "openai:" ++ model ++ ":" ++ toString dimensions
  dimensions := dimensions
  embed := openAIEmbed api dimensions
  embedMany := some (openAIEmbedMany api dimensions)

end OpenAI

/-- The contract of the API: each input gets the vector that is its own, under its index, and the
items come in any order. -/
def OpenAIApi.Answers (api : OpenAIApi) (vector : String → Embedding) : Prop :=
  ∀ start inputs, (api.create start inputs).Perm
    ((inputs.map vector).zipIdx.map (fun p => ⟨p.2, p.1⟩))

/-! ## 2. The service -/

/-- The cache; a value that was set as `undefined` is `none`. -/
abbrev EmbeddingCache := InsertionMap String (Option Embedding)

/-- `LRUCache.get`, which takes `undefined` for a miss. -/
def cacheGet (cache : EmbeddingCache) (key : String) : Option Embedding × EmbeddingCache :=
  match cache.get? key with
  | some (some v) => (some v, cache.touch key (some v))
  | _ => (none, cache)

section Service

variable (sha256 : String → String) (capacity : ℕ) (provider : EmbedderProvider)

def cacheKey (text : String) : String := sha256 (provider.providerId ++ ":" ++ text)

/-- `embed`; the vector, and the cache after it. -/
def embed (cache : EmbeddingCache) (text : String) : Embedding × EmbeddingCache :=
  let trimmed := trimString text
  if trimmed.isEmpty then (zeroVector provider.dimensions, cache)
  else
    let key := cacheKey sha256 provider trimmed
    match cacheGet cache key with
    | (some hit, cache) => (hit, cache)
    | (none, cache) =>
        let vector := provider.embed trimmed
        (vector, cache.lruSet capacity key (some vector))

/-- What the loops of `embedMany` have come to. -/
structure Batch where
  cache : EmbeddingCache
  out : List (Option Embedding)
  missIdx : List ℕ
  missTexts : List String

/-- One turn of the loop over the texts. -/
def lookUp (b : Batch) (e : String × ℕ) : Batch :=
  let trimmed := trimString e.1
  if trimmed.isEmpty then { b with out := b.out.set e.2 (some (zeroVector provider.dimensions)) }
  else
    match cacheGet b.cache (cacheKey sha256 provider trimmed) with
    | (some hit, cache) => { b with cache := cache, out := b.out.set e.2 (some hit) }
    | (none, cache) =>
        { b with
          cache := cache
          missIdx := b.missIdx ++ [e.2]
          missTexts := b.missTexts ++ [trimmed] }

/-- One turn of the loop over the misses. -/
def storeVector (vecs : List (Option Embedding)) (b : Batch) (e : String × ℕ) : Batch :=
  let vec := vecs[e.2]?.join
  { b with
    cache := b.cache.lruSet capacity (cacheKey sha256 provider e.1) vec
    out :=
      match b.missIdx[e.2]? with
      | none => b.out
      | some i => b.out.set i vec }

/-- What the provider is asked for: all at once if it can, or one by one. -/
def embedMisses (missTexts : List String) : List (Option Embedding) :=
  match provider.embedMany with
  | some many => many missTexts
  | none => missTexts.map (fun t => some (provider.embed t))

/-- `embedMany`; the vectors, and the cache after it. -/
def embedMany (cache : EmbeddingCache) (texts : List String) :
    List (Option Embedding) × EmbeddingCache :=
  if texts.isEmpty then ([], cache)
  else
    let b := texts.zipIdx.foldl (lookUp sha256 provider)
      ⟨cache, List.replicate texts.length none, [], []⟩
    let b :=
      if b.missTexts.isEmpty then b
      else b.missTexts.zipIdx.foldl
        (storeVector sha256 capacity provider (embedMisses provider b.missTexts)) b
    (b.out, b.cache)

/-- Embedding one text after the other. -/
def embedEach : EmbeddingCache → List String → List Embedding × EmbeddingCache
  | cache, [] => ([], cache)
  | cache, text :: texts =>
      let first := embed sha256 capacity provider cache text
      let rest := embedEach first.2 texts
      (first.1 :: rest.1, rest.2)

end Service

/-! ## 3. The provider -/

open Placement

section Provider

variable {api : OpenAIApi} {dimensions : ℕ} {vector : String → Embedding}

/-- One text, through an API that keeps its contract. -/
theorem openAIEmbed_eq (h : api.Answers vector) (text : String) :
    openAIEmbed api dimensions text = if (trimString text).isEmpty then zeroVector dimensions
      else vector (trimString text) := by
  unfold openAIEmbed
  have hone := h 0 [trimString text]
  rw [List.map_singleton, List.zipIdx_singleton, List.map_singleton,
    List.perm_singleton] at hone
  simp only [hone, List.head?_cons, Option.map_some, Option.getD_some]

/-- The items of a chunk, in the order in which the API returns them. -/
theorem foldl_assignItem (sliceIdx : List ℕ) (items : List EmbeddingItem) :
    ∀ out : List (Option Embedding), items.foldl (assignItem sliceIdx) out
      = fill out ((items.map (fun d => (d.embedding, d.index))).filterMap (placed sliceIdx)) := by
  induction items with
  | nil => exact fun out => rfl
  | cons d items ih =>
      intro out
      rw [List.foldl_cons, ih, List.map_cons, List.filterMap_cons, assignItem, placed]
      cases sliceIdx[d.index]? with
      | none => rfl
      | some i => rfl

/-- A chunk puts the vectors of its inputs where the indices say. -/
theorem foldl_chunk (h : api.Answers vector) {start : ℕ} {slice : List String} {sliceIdx : List ℕ}
    (hlength : slice.length = sliceIdx.length) (hnodup : sliceIdx.Nodup)
    (out : List (Option Embedding)) :
    (api.create start slice).foldl (assignItem sliceIdx) out
      = fill out ((slice.map vector).zip sliceIdx) := by
  have hperm : ((api.create start slice).map (fun d => (d.embedding, d.index))).Perm
      (slice.map vector).zipIdx := by
    have hitems := (h start slice).map (fun d => (d.embedding, d.index))
    rw [List.map_map] at hitems
    exact hitems.trans (List.Perm.of_eq (List.map_id _))
  rw [foldl_assignItem]
  exact fill_placed_of_perm hperm (by rw [List.length_map, hlength]) hnodup out

/-- **The loop over the chunks** does so for all inputs from `start` on. -/
theorem embedChunks_eq (h : api.Answers vector) {inputs : List String} {indices : List ℕ}
    (hlength : inputs.length = indices.length) (hnodup : indices.Nodup) :
    ∀ (turns start : ℕ) (out : List (Option Embedding)), inputs.length ≤ turns + start →
      embedChunks api inputs indices turns start out
        = fill out (((inputs.drop start).map vector).zip (indices.drop start)) := by
  intro turns
  induction turns with
  | zero =>
      intro start out hturns
      rw [List.drop_eq_nil_of_le (by omega)]
      rfl
  | succ turns ih =>
      intro start out hturns
      rw [embedChunks]
      by_cases hstart : start < inputs.length
      · have hslice : ((inputs.drop start).take CHUNK).length
            = ((indices.drop start).take CHUNK).length := by
          simp only [List.length_take, List.length_drop, hlength]
        have hdistinct : ((indices.drop start).take CHUNK).Nodup :=
          hnodup.sublist ((List.take_sublist _ _).trans (List.drop_sublist _ _))
        have hchunk : 0 < CHUNK := by decide
        -- this chunk's places, then those of the rest, are the places from `start` on
        rw [if_pos hstart]
        dsimp only
        rw [foldl_chunk h hslice hdistinct, ih _ _ (by omega), ← fill_append,
          ← List.zip_append (by rw [List.length_map, hslice]), ← List.map_append,
          ← List.drop_drop, ← List.drop_drop, List.take_append_drop, List.take_append_drop]
      · rw [if_neg hstart, List.drop_eq_nil_of_le (not_lt.mp hstart)]
        rfl

/-- Texts that are trimmed and embedded, with their places, are the texts with what they are
embedded to. -/
theorem zip_trimmed {f g : String → Embedding} (l : List (String × ℕ))
    (hfg : ∀ e ∈ l, f e.1 = g (trimString e.1)) :
    ((l.map (fun e => trimString e.1)).map g).zip (l.map Prod.snd) = l.map (Prod.map f id) := by
  rw [List.map_map, List.zip_map']
  refine List.map_congr_left (fun e he => ?_)
  rw [Prod.map_apply', hfg e he]
  rfl

/-- The text is blank. -/
def blank (e : String × ℕ) : Bool := (trimString e.1).isEmpty

/-- The first loop puts the zero vectors down, and notes the other inputs and their indices. -/
theorem foldl_addInput (l : List (String × ℕ)) : ∀ s : Inputs,
    l.foldl (addInput dimensions) s =
      { out := fill s.out ((l.filter blank).map (fun e => (zeroVector dimensions, e.2)))
        indices := s.indices ++ (l.filter (fun e => !blank e)).map Prod.snd
        inputs := s.inputs ++ (l.filter (fun e => !blank e)).map (fun e => trimString e.1) } := by
  induction l with
  | nil =>
      intro s
      simp only [List.foldl_nil, List.filter_nil, List.map_nil, List.append_nil]
      rfl
  | cons e l ih =>
      intro s
      rw [List.foldl_cons, ih, addInput]
      cases he : (trimString e.1).isEmpty with
      | true =>
          have hblank : blank e = true := he
          simp only [List.filter_cons, hblank, Bool.not_true, Bool.false_eq_true, if_true, if_false,
            List.map_cons]
          rfl
      | false =>
          have hblank : blank e = false := he
          simp only [List.filter_cons, hblank, Bool.not_false, Bool.false_eq_true, if_true,
            if_false, List.map_cons, List.append_assoc, List.singleton_append]

/-- **A batch of the provider** is its one-by-one embedding. -/
theorem openAIEmbedMany_eq (h : api.Answers vector) (texts : List String) :
    openAIEmbedMany api dimensions texts
      = texts.map (fun t => some (openAIEmbed api dimensions t)) := by
  have hparts := fill_parts (openAIEmbed api dimensions) blank texts
  have hzero : (texts.zipIdx.filter blank).map (fun e => (zeroVector dimensions, e.2))
      = (texts.zipIdx.filter blank).map (Prod.map (openAIEmbed api dimensions) id) := by
    refine List.map_congr_left (fun e he => ?_)
    have hblank : (trimString e.1).isEmpty = true := (List.mem_filter.mp he).2
    rw [Prod.map_apply', openAIEmbed_eq h, hblank]
    rfl
  have hvectors := zip_trimmed (f := openAIEmbed api dimensions) (g := vector)
    (texts.zipIdx.filter (fun e => !blank e)) (fun e he => by
      have hblank : (!(trimString e.1).isEmpty) = true := (List.mem_filter.mp he).2
      rw [Bool.not_eq_true'] at hblank
      rw [openAIEmbed_eq h, hblank]
      rfl)
  have hnodup : ((texts.zipIdx.filter (fun e => !blank e)).map Prod.snd).Nodup :=
    (nodup_places texts).sublist (List.filter_sublist.map Prod.snd)
  by_cases htexts : texts = []
  · rw [htexts]
    rfl
  have hempty : texts.isEmpty = false := List.isEmpty_eq_false_iff.mpr htexts
  rw [openAIEmbedMany, hempty, if_neg Bool.false_ne_true, foldl_addInput]
  dsimp only
  rw [List.nil_append, List.nil_append, hzero]
  by_cases hinputs : texts.zipIdx.filter (fun e => !blank e) = []
  · -- all texts are blank
    rw [hinputs, List.map_nil, List.isEmpty_nil, if_pos rfl]
    rw [hinputs, List.map_nil] at hparts
    exact hparts
  · have hmisses : ((texts.zipIdx.filter (fun e => !blank e)).map
        (fun e => trimString e.1)).isEmpty = false := by
      rw [List.isEmpty_eq_false_iff, ne_eq, List.map_eq_nil_iff]
      exact hinputs
    have hlength : ((texts.zipIdx.filter (fun e => !blank e)).map
        (fun e => trimString e.1)).length
          = ((texts.zipIdx.filter (fun e => !blank e)).map Prod.snd).length := by
      rw [List.length_map, List.length_map]
    rw [hmisses, if_neg Bool.false_ne_true, embedChunks_eq h hlength hnodup _ 0 _ le_self_add,
      List.drop_zero, List.drop_zero, hvectors]
    exact hparts

end Provider

/-! ## 4. The batch -/

/-- The provider embeds a batch as it embeds the texts one by one. -/
def EmbedderProvider.Uniform (provider : EmbedderProvider) : Prop :=
  ∀ many, provider.embedMany = some many →
    ∀ texts, many texts = texts.map (fun t => some (provider.embed t))

/-- What the cache answers to a key, if anything. -/
def cached (cache : EmbeddingCache) (key : String) : Option Embedding := (cache.get? key).join

theorem cacheGet_fst (cache : EmbeddingCache) (key : String) :
    (cacheGet cache key).1 = cached cache key := by
  unfold cacheGet cached
  rcases cache.get? key with _ | _ | v
  · rfl
  · rfl
  · rfl

/-- A `get` leaves what the cache answers as it is. -/
theorem get?_cacheGet (cache : EmbeddingCache) (key key' : String) :
    (cacheGet cache key).2.get? key' = cache.get? key' := by
  unfold cacheGet
  split
  · next v hget =>
      dsimp only
      by_cases hkey : key' = key
      · rw [hkey, InsertionMap.touch, InsertionMap.get?_set_self, hget]
      · rw [InsertionMap.touch, InsertionMap.get?_set_of_ne _ _ hkey,
          InsertionMap.get?_delete_of_ne _ hkey]
  · rfl

section Batch

variable {sha256 : String → String} {capacity : ℕ} {provider : EmbedderProvider}
  {cache : EmbeddingCache}

variable (sha256 provider cache) in
/-- The vector that `embed` returns for a text. -/
def vectorOf (text : String) : Embedding :=
  if (trimString text).isEmpty then zeroVector provider.dimensions
  else (cached cache (cacheKey sha256 provider (trimString text))).getD
    (provider.embed (trimString text))

variable (sha256 provider cache) in
/-- The text is blank, or in the cache. -/
def known (e : String × ℕ) : Bool :=
  (trimString e.1).isEmpty ||
    (cached cache (cacheKey sha256 provider (trimString e.1))).isSome

theorem embed_fst (text : String) :
    (embed sha256 capacity provider cache text).1 = vectorOf sha256 provider cache text := by
  unfold embed vectorOf
  dsimp only
  cases (trimString text).isEmpty with
  | true => rfl
  | false =>
      rw [if_neg Bool.false_ne_true, if_neg Bool.false_ne_true, ← cacheGet_fst]
      rcases cacheGet cache (cacheKey sha256 provider (trimString text)) with ⟨_ | hit, cache'⟩
      · rfl
      · rfl

/-- What is known is put down. -/
theorem lookUp_of_known {b : Batch} {e : String × ℕ} (hb : ∀ key, b.cache.get? key = cache.get? key)
    (hknown : known sha256 provider cache e = true) :
    ∃ cache', (∀ key, cache'.get? key = cache.get? key) ∧ lookUp sha256 provider b e =
      { b with cache := cache', out := put b.out (vectorOf sha256 provider cache e.1, e.2) } := by
  unfold lookUp vectorOf
  dsimp only
  cases hblank : (trimString e.1).isEmpty with
  | true => exact ⟨b.cache, hb, rfl⟩
  | false =>
      rw [known, hblank, Bool.false_or, Option.isSome_iff_exists] at hknown
      obtain ⟨v, hv⟩ := hknown
      have hget := get?_cacheGet b.cache (cacheKey sha256 provider (trimString e.1))
      have hfst := cacheGet_fst b.cache (cacheKey sha256 provider (trimString e.1))
      rw [cached, hb, ← cached, hv] at hfst
      rw [if_neg Bool.false_ne_true, if_neg Bool.false_ne_true, hv]
      rcases hgot : cacheGet b.cache (cacheKey sha256 provider (trimString e.1)) with ⟨found, cache'⟩
      rw [hgot] at hfst hget
      obtain rfl : found = some v := hfst
      exact ⟨cache', fun key => (hget key).trans (hb key), rfl⟩

/-- What is not is noted down. -/
theorem lookUp_of_miss {b : Batch} {e : String × ℕ} (hb : ∀ key, b.cache.get? key = cache.get? key)
    (hmiss : known sha256 provider cache e = false) :
    ∃ cache', (∀ key, cache'.get? key = cache.get? key) ∧ lookUp sha256 provider b e =
      { b with cache := cache', missIdx := b.missIdx ++ [e.2],
               missTexts := b.missTexts ++ [trimString e.1] } := by
  unfold lookUp
  dsimp only
  rw [known, Bool.or_eq_false_iff, Option.isSome_eq_false_iff, Option.isNone_iff_eq_none] at hmiss
  have hget := get?_cacheGet b.cache (cacheKey sha256 provider (trimString e.1))
  have hfst := cacheGet_fst b.cache (cacheKey sha256 provider (trimString e.1))
  rw [cached, hb, ← cached, hmiss.2] at hfst
  rw [hmiss.1, if_neg Bool.false_ne_true]
  rcases hgot : cacheGet b.cache (cacheKey sha256 provider (trimString e.1)) with ⟨found, cache'⟩
  rw [hgot] at hfst hget
  obtain rfl : found = none := hfst
  exact ⟨cache', fun key => (hget key).trans (hb key), rfl⟩

variable (sha256 provider) in
/-- The loop over the texts puts down what is known, and notes the misses and their indices. What
the cache answers stays the same meanwhile. -/
theorem foldl_lookUp (l : List (String × ℕ)) : ∀ b : Batch,
    (∀ key, b.cache.get? key = cache.get? key) →
    ∃ cache', (∀ key, cache'.get? key = cache.get? key) ∧
      l.foldl (lookUp sha256 provider) b =
        { cache := cache'
          out := fill b.out ((l.filter (known sha256 provider cache)).map
            (Prod.map (vectorOf sha256 provider cache) id))
          missIdx := b.missIdx ++
            (l.filter (fun e => !known sha256 provider cache e)).map Prod.snd
          missTexts := b.missTexts ++
            (l.filter (fun e => !known sha256 provider cache e)).map (fun e => trimString e.1) } := by
  induction l with
  | nil =>
      intro b hb
      refine ⟨b.cache, hb, ?_⟩
      simp only [List.foldl_nil, List.filter_nil, List.map_nil, List.append_nil]
      rfl
  | cons e l ih =>
      intro b hb
      cases hknown : known sha256 provider cache e with
      | true =>
          obtain ⟨cache₁, hcache₁, hstep⟩ := lookUp_of_known hb hknown
          obtain ⟨cache₂, hcache₂, hrest⟩ := ih (lookUp sha256 provider b e)
            (fun key => by rw [hstep]; exact hcache₁ key)
          refine ⟨cache₂, hcache₂, ?_⟩
          rw [List.foldl_cons, hrest, hstep]
          simp only [List.filter_cons, hknown, Bool.not_true, Bool.false_eq_true, if_true, if_false,
            List.map_cons]
          rfl
      | false =>
          obtain ⟨cache₁, hcache₁, hstep⟩ := lookUp_of_miss hb hknown
          obtain ⟨cache₂, hcache₂, hrest⟩ := ih (lookUp sha256 provider b e)
            (fun key => by rw [hstep]; exact hcache₁ key)
          refine ⟨cache₂, hcache₂, ?_⟩
          rw [List.foldl_cons, hrest, hstep]
          simp only [List.filter_cons, hknown, Bool.not_false, Bool.false_eq_true, if_true,
            if_false, List.map_cons, List.append_assoc, List.singleton_append]

/-- The loop over the misses puts their vectors where they were noted down. -/
theorem foldl_storeVector {vecs : List (Option Embedding)} (f : String → Embedding)
    (l : List (String × ℕ)) (hvecs : ∀ e ∈ l, vecs[e.2]?.join = some (f e.1)) : ∀ b : Batch,
    (l.foldl (storeVector sha256 capacity provider vecs) b).out
      = fill b.out ((l.map (Prod.map f id)).filterMap (placed b.missIdx)) := by
  induction l with
  | nil => exact fun b => rfl
  | cons e l ih =>
      intro b
      rw [List.foldl_cons, ih (fun e' he' => hvecs e' (List.mem_cons_of_mem e he')), List.map_cons,
        List.filterMap_cons, storeVector, hvecs e List.mem_cons_self, Prod.map_apply', placed]
      dsimp only [id]
      cases b.missIdx[e.2]? with
      | none => rfl
      | some i => rfl

/-- What the provider is asked for is what it embeds one by one. -/
theorem embedMisses_eq (h : provider.Uniform) (missTexts : List String) :
    embedMisses provider missTexts = missTexts.map (fun t => some (provider.embed t)) := by
  unfold embedMisses
  split
  · next many hmany => exact h many hmany missTexts
  · rfl

/-- **The vectors of a batch.** -/
theorem embedMany_fst (h : provider.Uniform) (texts : List String) :
    (embedMany sha256 capacity provider cache texts).1
      = texts.map (fun t => some (vectorOf sha256 provider cache t)) := by
  by_cases htexts : texts = []
  · rw [htexts]
    rfl
  have hempty : texts.isEmpty = false := List.isEmpty_eq_false_iff.mpr htexts
  have hparts := fill_parts (vectorOf sha256 provider cache) (known sha256 provider cache) texts
  obtain ⟨cache', _, hloop⟩ := foldl_lookUp sha256 provider texts.zipIdx
    ⟨cache, List.replicate texts.length none, [], []⟩ (fun _ => rfl)
  rw [embedMany, hempty, if_neg Bool.false_ne_true, hloop]
  dsimp only
  rw [List.nil_append, List.nil_append]
  by_cases hmisses : texts.zipIdx.filter (fun e => !known sha256 provider cache e) = []
  · -- the provider is not asked
    rw [hmisses, List.map_nil, List.isEmpty_nil, if_pos rfl]
    rw [hmisses, List.map_nil] at hparts
    exact hparts
  · have hsome : ((texts.zipIdx.filter (fun e => !known sha256 provider cache e)).map
        (fun e => trimString e.1)).isEmpty = false := by
      rw [List.isEmpty_eq_false_iff, ne_eq, List.map_eq_nil_iff]
      exact hmisses
    -- the vectors of the misses are numbered as their places are
    have hvecs : ∀ (missTexts : List String), ∀ e ∈ missTexts.zipIdx,
        (missTexts.map (fun t => some (provider.embed t)))[e.2]?.join
          = some (provider.embed e.1) := by
      intro missTexts e he
      have hget := List.mem_zipIdx_iff_getElem?.mp he
      rw [List.getElem?_map, hget]
      rfl
    have hvalues := zip_trimmed (f := vectorOf sha256 provider cache) (g := provider.embed)
      (texts.zipIdx.filter (fun e => !known sha256 provider cache e)) (fun e he => by
        have hmiss : (!known sha256 provider cache e) = true := (List.mem_filter.mp he).2
        rw [Bool.not_eq_true', known, Bool.or_eq_false_iff, Option.isSome_eq_false_iff,
          Option.isNone_iff_eq_none] at hmiss
        rw [vectorOf, hmiss.1, hmiss.2]
        rfl)
    rw [hsome, if_neg Bool.false_ne_true, embedMisses_eq h,
      foldl_storeVector provider.embed _ (hvecs _)]
    dsimp only
    rw [← List.zipIdx_map, filterMap_placed (by simp only [List.length_map]), hvalues]
    exact hparts

/-! ## 5. One by one -/

variable (sha256 provider) in
/-- What the cache has of the texts is what the provider makes of them. -/
def Fresh (texts : List String) (cache : EmbeddingCache) : Prop :=
  ∀ t ∈ texts, ∀ v, cached cache (cacheKey sha256 provider (trimString t)) = some v →
    v = provider.embed (trimString t)

variable (sha256 provider) in
/-- The digest tells the texts apart. -/
def NoCollision (texts : List String) : Prop :=
  ∀ t ∈ texts, ∀ t' ∈ texts, cacheKey sha256 provider (trimString t)
    = cacheKey sha256 provider (trimString t') → trimString t = trimString t'

/-- An entry of the cache after a vector was set is the new one, or was there before. -/
theorem get?_lruSet {key key' : String} {v w : Option Embedding}
    (h : (cache.lruSet capacity key v).get? key' = some w) :
    key' = key ∧ w = v ∨ cache.get? key' = some w := by
  rcases InsertionMap.mem_of_mem_lruSet (InsertionMap.mem_of_get? h) with heq | ⟨_, hmem⟩
  · obtain ⟨hkey, hv⟩ := Prod.mk.inj heq
    exact Or.inl ⟨hkey, hv⟩
  · exact Or.inr (InsertionMap.get?_of_mem hmem)

theorem cached_eq_some_iff {key : String} {v : Embedding} :
    cached cache key = some v ↔ cache.get? key = some (some v) := by
  rw [cached, Option.join_eq_some_iff]

/-- What `embed` adds to the cache is made by the provider. -/
theorem Fresh.embed {texts : List String} (h : Fresh sha256 provider texts cache)
    (hdistinct : NoCollision sha256 provider texts) (capacity : ℕ) {t : String} (ht : t ∈ texts) :
    Fresh sha256 provider texts (embed sha256 capacity provider cache t).2 := by
  unfold Embedder.embed
  dsimp only
  cases (trimString t).isEmpty with
  | true => exact h
  | false =>
      have hget := get?_cacheGet cache (cacheKey sha256 provider (trimString t))
      rw [if_neg Bool.false_ne_true]
      rcases hgot : cacheGet cache (cacheKey sha256 provider (trimString t)) with ⟨_ | hit, cache'⟩
      · -- a miss: the new entry can also be under the key of another text
        rw [hgot] at hget
        intro t' ht' v hv
        rw [cached_eq_some_iff] at hv
        rcases get?_lruSet hv with ⟨hkey, hnew⟩ | hold
        · rw [Option.some_inj] at hnew
          rw [hnew, hdistinct t' ht' t ht hkey]
        · exact h t' ht' v (cached_eq_some_iff.mpr ((hget _).symm.trans hold))
      · rw [hgot] at hget
        intro t' ht' v hv
        rw [cached_eq_some_iff] at hv
        exact h t' ht' v (cached_eq_some_iff.mpr ((hget _).symm.trans hv))

/-- The vector of a text, whatever the cache has of it. -/
theorem Fresh.vectorOf_eq {texts : List String} (h : Fresh sha256 provider texts cache) {t : String}
    (ht : t ∈ texts) : vectorOf sha256 provider cache t =
      if (trimString t).isEmpty then zeroVector provider.dimensions
      else provider.embed (trimString t) := by
  rw [vectorOf]
  split
  · rfl
  · cases hcached : cached cache (cacheKey sha256 provider (trimString t)) with
    | none => rfl
    | some v => exact h t ht v hcached

theorem embedEach_fst {all : List String} (hdistinct : NoCollision sha256 provider all)
    (texts : List String) (hall : ∀ t ∈ texts, t ∈ all) : ∀ cache : EmbeddingCache,
    Fresh sha256 provider all cache →
    (embedEach sha256 capacity provider cache texts).1
      = texts.map (fun t => if (trimString t).isEmpty then zeroVector provider.dimensions
          else provider.embed (trimString t)) := by
  induction texts with
  | nil => exact fun _ _ => rfl
  | cons t texts ih =>
      intro cache hfresh
      have ht := hall t List.mem_cons_self
      have hrest := ih (fun t' ht' => hall t' (List.mem_cons_of_mem t ht')) _
        (hfresh.embed hdistinct capacity ht)
      rw [embedEach, List.map_cons]
      dsimp only
      rw [hrest, embed_fst, hfresh.vectorOf_eq ht]

end Batch

/-! ## 6. A batch against one by one -/

/-- The providers there are: the one of OpenAI, over an API that keeps its contract, and one that
embeds one text at a time. -/
inductive Deterministic : EmbedderProvider → Prop
  | openAI (api : OpenAIApi) (dimensions : ℕ) (model : String) (vector : String → Embedding)
      (h : api.Answers vector) : Deterministic (openAIProvider api dimensions model)
  | oneByOne (provider : EmbedderProvider) (h : provider.embedMany = none) :
      Deterministic provider

theorem embed_openAIProvider (api : OpenAIApi) (dimensions : ℕ) (model : String) :
    (openAIProvider api dimensions model).embed = openAIEmbed api dimensions := by
  rw [openAIProvider]

theorem embedMany_openAIProvider (api : OpenAIApi) (dimensions : ℕ) (model : String) :
    (openAIProvider api dimensions model).embedMany = some (openAIEmbedMany api dimensions) := by
  rw [openAIProvider]

theorem Deterministic.uniform {provider : EmbedderProvider} (h : Deterministic provider) :
    provider.Uniform := by
  cases h with
  | openAI api dimensions model vector hanswers =>
      intro many hmany texts
      rw [embedMany_openAIProvider, Option.some_inj] at hmany
      rw [← hmany, embed_openAIProvider]
      exact openAIEmbedMany_eq hanswers texts
  | oneByOne provider hnone =>
      intro many hmany
      rw [hnone] at hmany
      cases hmany

/-- **A batch is embedded as its texts are**: `embedMany` returns a vector for each text, the one
that `embed` returns for it. With a cache that has nothing else than what the provider has made,
that is also what embedding one text after the other returns. -/
theorem embedMany_eq_embed (sha256 : String → String) (capacity : ℕ) (provider : EmbedderProvider)
    (hprovider : Deterministic provider) (cache : EmbeddingCache) (texts : List String) :
    (embedMany sha256 capacity provider cache texts).1.length = texts.length ∧
      (∀ (i : ℕ) (t : String), texts[i]? = some t → (embedMany sha256 capacity provider cache texts).1[i]?
        = some (some (embed sha256 capacity provider cache t).1)) ∧
      (NoCollision sha256 provider texts → Fresh sha256 provider texts cache →
        (embedMany sha256 capacity provider cache texts).1
          = (embedEach sha256 capacity provider cache texts).1.map some) := by
  rw [embedMany_fst hprovider.uniform]
  refine ⟨List.length_map _, fun i t ht => ?_, fun hdistinct hfresh => ?_⟩
  · rw [List.getElem?_map, ht, embed_fst]
    rfl
  · rw [embedEach_fst hdistinct texts (fun _ ht => ht) cache hfresh, List.map_map]
    refine List.map_congr_left (fun t ht => ?_)
    rw [hfresh.vectorOf_eq ht]
    rfl

/-- An API that returns its items last one first. -/
def backwardsApi : OpenAIApi where
  create _ inputs := ((inputs.map (fun t => [(t.length : ℚ)])).zipIdx.map
    (fun p => (⟨p.2, p.1⟩ : EmbeddingItem))).reverse

/-- A repeated text, a blank one, and a cache with room for one vector. -/
theorem embedMany_eq_embed_backwards :
    (embedMany id 1 (openAIProvider backwardsApi 1 "m") .empty ["a", " ", "bc", "a"]).1.length = 4 ∧
      (∀ (i : ℕ) (t : String), ["a", " ", "bc", "a"][i]? = some t →
        (embedMany id 1 (openAIProvider backwardsApi 1 "m") .empty ["a", " ", "bc", "a"]).1[i]?
          = some (some (embed id 1 (openAIProvider backwardsApi 1 "m") .empty t).1)) ∧
      (NoCollision id (openAIProvider backwardsApi 1 "m") ["a", " ", "bc", "a"] →
        Fresh id (openAIProvider backwardsApi 1 "m") ["a", " ", "bc", "a"] .empty →
          (embedMany id 1 (openAIProvider backwardsApi 1 "m") .empty ["a", " ", "bc", "a"]).1
            = (embedEach id 1 (openAIProvider backwardsApi 1 "m") .empty
                ["a", " ", "bc", "a"]).1.map some) :=
  embedMany_eq_embed id 1 _
    (.openAI backwardsApi 1 "m" (fun t => [(t.length : ℚ)]) (fun _ _ => List.reverse_perm _)) _ _

end Brain.Embedder
