/-
What becomes of the entities of a tenant through a history of links.

Two properties are followed through it. `MergesEnd` says that `mergedInto` leads from
every entity to a live one; `OneSurvivor` says that what accepted `identity_of` links
join leads to the same live one. Neither is kept by every link that the guard lets
through, and for both there is the exact condition on a link that keeps it: for the
first, that the survivor does not lead back to the loser further up than the guard
looks; for the second, moreover, that the loser is not taken away from a survivor it
already has.
-/
import Brain.Ingest.IngestLink
import Brain.Lib.Runs

set_option autoImplicit false

namespace Brain

open Forest

/-- `e` is the record of an entity with `mergedInto` NONE. -/
def Store.IsLive (s : Store) (e : EntityId) : Prop := s.HasEntity e ∧ s.mergedInto e = none

/-- Following `mergedInto` from `e` ends in the live entity `r`. -/
def Store.ResolvesTo (s : Store) (e r : EntityId) : Prop := Leads s.mergedInto e r ∧ s.IsLive r

/-- From every entity `mergedInto` leads to a live one. -/
def MergesEnd (s : Store) : Prop := ∀ e, s.HasEntity e → ∃ r, s.ResolvesTo e r

/-- Pointers are to entities that exist. -/
def PointersExist (s : Store) : Prop := ∀ a b, s.mergedInto a = some b → s.HasEntity b

section Resolution

variable {s : Store} {a b e r : EntityId}

theorem Store.ResolvesTo.root (h : s.ResolvesTo e r) : Root s.mergedInto e r := ⟨h.1, h.2.2⟩

/-- An entity that leads somewhere is there. -/
theorem Store.ResolvesTo.hasEntity (h : s.ResolvesTo e r) : s.HasEntity e := by
  obtain ⟨⟨n, hn⟩, hr, _⟩ := h
  cases n with
  | zero => exact Option.some.inj hn ▸ hr
  | succ n =>
      cases hnext : s.mergedInto e with
      | none =>
          rw [ancestor_succ_of_none hnext] at hn
          cases hn
      | some b => exact hasEntity_of_mergedInto hnext

/-- Pointers that exist lead from entities to entities. -/
theorem PointersExist.hasEntity_of_leads (h : PointersExist s) (he : s.HasEntity e)
    (hl : Leads s.mergedInto e r) : s.HasEntity r := by
  obtain ⟨n, hn⟩ := hl
  induction n generalizing e with
  | zero => exact Option.some.inj hn ▸ he
  | succ n ih =>
      cases hnext : s.mergedInto e with
      | none =>
          rw [ancestor_succ_of_none hnext] at hn
          cases hn
      | some b =>
          rw [ancestor_succ_of_some hnext] at hn
          exact ih (h e b hnext) hn

theorem PointersExist.resolvesTo (h : PointersExist s) (he : s.HasEntity e)
    (hr : Root s.mergedInto e r) : s.ResolvesTo e r :=
  ⟨hr.1, h.hasEntity_of_leads he hr.1, hr.2⟩

/-- Merges end in live entities exactly if the pointers are a forest on entities that
exist. -/
theorem mergesEnd_iff : MergesEnd s ↔ Grounded s.mergedInto ∧ PointersExist s := by
  constructor
  · intro h
    refine ⟨fun e => ?_, fun a b hab => ?_⟩
    · cases hnext : s.mergedInto e with
      | none => exact ⟨e, root_self hnext⟩
      | some b =>
          obtain ⟨r, hr⟩ := h e (hasEntity_of_mergedInto hnext)
          exact ⟨r, hr.root⟩
    -- the path from `a` to its live end has at least one step, and that goes to `b`
    · obtain ⟨r, ⟨n, hn⟩, hlive⟩ := h a (hasEntity_of_mergedInto hab)
      have hpos : n ≠ 0 := by
        rintro rfl
        have har : a = r := Option.some.inj hn
        rw [har, hlive.2] at hab
        cases hab
      obtain ⟨m, rfl⟩ := Nat.exists_eq_succ_of_ne_zero hpos
      rw [ancestor_succ_of_some hab] at hn
      exact Store.ResolvesTo.hasEntity ⟨⟨m, hn⟩, hlive⟩
  · rintro ⟨hg, hp⟩ e he
    obtain ⟨r, hr⟩ := hg e
    exact ⟨r, hp.resolvesTo he hr⟩

/-- Resolving the ends of a link keeps what an entity resolves to. -/
theorem Store.ResolvesTo.linkEnds (h : s.ResolvesTo e r) (dto : IngestLinkDto) :
    (linkEnds s dto).2.ResolvesTo e r := by
  refine ⟨?_, hasEntity_linkEnds dto h.2.1, ?_⟩
  · rw [mergedInto_linkEnds]
    exact h.1
  · rw [mergedInto_linkEnds]
    exact h.2.2

theorem MergesEnd.linkEnds (h : MergesEnd s) (dto : IngestLinkDto) :
    MergesEnd (linkEnds s dto).2 := by
  obtain ⟨hg, hp⟩ := mergesEnd_iff.mp h
  refine mergesEnd_iff.mpr ⟨?_, fun a b hab => ?_⟩
  · rw [mergedInto_linkEnds]
    exact hg
  · rw [mergedInto_linkEnds] at hab
    exact hasEntity_linkEnds dto (hp a b hab)

end Resolution

/-! ## Histories of links -/

/-- A call of `ingestLink` with the time it is executed at. -/
structure LinkCall where
  now : Time
  dto : IngestLinkDto

/-- The store after a call. -/
def afterLink (g : GraphStore) (c : LinkCall) : GraphStore := (ingestLink c.now g c.dto).2

/-- The ends of the `identity_of` link that a successful call has declared. -/
def acceptedIdentity (g : GraphStore) (c : LinkCall) : Option (EntityId × EntityId) :=
  match (ingestLink c.now g c.dto).1 with
  | .ok r => if r.kind = "identity_of" then some (r.fromEntityId, r.toEntityId) else none
  | .error _ => none

/-- What a call does: it resolves its ends, and, if it is an `identity_of` link that
the guard lets through, it merges them. -/
theorem afterLink_cases {g : GraphStore} {c : LinkCall} {s : Store} {fromId toId : EntityId}
    (hends : linkEnds g.toStore c.dto = ((fromId, toId), s)) :
    (c.dto.kind = "identity_of" → linkRejection s c.dto fromId toId ≠ none) ∧
        acceptedIdentity g c = none ∧ (afterLink g c).toStore = s ∨
      c.dto.kind = "identity_of" ∧ linkRejection s c.dto fromId toId = none ∧
        acceptedIdentity g c = some (fromId, toId) ∧
        (afterLink g c).toStore = mergeEntity s c.now toId fromId := by
  rw [acceptedIdentity, afterLink, ingestLink, hends]
  dsimp only
  cases hrej : linkRejection s c.dto fromId toId with
  | some e => exact Or.inl ⟨fun _ => Option.some_ne_none e, rfl, rfl⟩
  | none =>
      by_cases hkind : c.dto.kind = "identity_of"
      · exact Or.inr ⟨hkind, rfl, if_pos hkind, if_pos hkind⟩
      · exact Or.inl ⟨fun h => absurd h hkind, if_neg hkind, if_neg hkind⟩

/-! ## Merges end -/

/-- The condition under which a link keeps merges ending: a survivor that exists, and
that does not lead back to the loser beyond the reach of the guard. The ends are those
that the references of the link resolve to. -/
def EndsMerges (s : Store) (dto : IngestLinkDto) : Prop :=
  let ends := linkEnds s dto
  dto.kind = "identity_of" → ends.2.HasEntity ends.1.2 →
    ends.2.HasEntity ends.1.1 ∧ ¬ BeyondGuard ends.2 ends.1.1 ends.1.2

section Ends

variable {s : Store} {now : Time} {dto : IngestLinkDto} {fromId toId : EntityId}

/-- A merge keeps pointers to what exists exactly if the survivor exists. -/
theorem pointersExist_mergeEntity_iff (h : PointersExist s) (hto : s.HasEntity toId) :
    PointersExist (mergeEntity s now toId fromId) ↔ s.HasEntity fromId := by
  have hptr : (mergeEntity s now toId fromId).mergedInto = repoint s.mergedInto toId fromId := by
    rw [mergedInto_mergeEntity, if_pos hto]
  constructor
  · intro h'
    refine hasEntity_mergeEntity.mp (h' toId fromId ?_)
    rw [hptr, repoint_self]
  · intro hfrom a b hab
    rw [hasEntity_mergeEntity]
    rw [hptr] at hab
    by_cases ha : a = toId
    · rw [ha, repoint_self, Option.some.injEq] at hab
      rwa [← hab]
    · rw [repoint_of_ne ha] at hab
      exact h a b hab

/-- What the guard turns away would not have kept the forest, and meets the condition. -/
theorem not_beyondGuard_of_rejected (h : MergesEnd s) (hkind : dto.kind = "identity_of")
    (hrej : linkRejection s dto fromId toId ≠ none) (hto : s.HasEntity toId) :
    s.HasEntity fromId ∧ ¬ BeyondGuard s fromId toId := by
  have hg := (mergesEnd_iff.mp h).1
  rw [linkRejection, if_pos hkind] at hrej
  split at hrej
  · next heq =>
      rw [heq]
      refine ⟨hto, ?_⟩
      -- a link of an entity to itself: its path would come back to it
      rintro ⟨n, hn, hback⟩
      have := hg.ancestor_inj hback (ancestor_zero toId)
      omega
  · split at hrej
    · next hguard =>
        -- the guard has met the loser within its reach, so it is not beyond it: in a
        -- forest an entity stands on a path only once
        obtain ⟨n, hpos, hle, hn⟩ := comesTo_iff.mp hguard
        constructor
        · cases hnext : s.mergedInto fromId with
          | some b => exact hasEntity_of_mergedInto hnext
          | none =>
              obtain ⟨m, rfl⟩ := Nat.exists_eq_succ_of_ne_zero (Nat.ne_of_gt hpos)
              rw [ancestor_succ_of_none hnext] at hn
              cases hn
        · rintro ⟨m, hm, hback⟩
          have := hg.ancestor_inj hback hn
          omega
    · exact absurd rfl hrej

/-- One link: it keeps merges ending exactly if it meets the condition. -/
theorem mergesEnd_afterLink_iff {g : GraphStore} (h : MergesEnd g.toStore) (c : LinkCall) :
    MergesEnd (afterLink g c).toStore ↔ EndsMerges g.toStore c.dto := by
  obtain ⟨⟨⟨fromId, toId⟩, s⟩, hends⟩ : ∃ p, linkEnds g.toStore c.dto = p := ⟨_, rfl⟩
  have hs : MergesEnd s := by
    have := h.linkEnds c.dto
    rwa [hends] at this
  rw [EndsMerges, hends]
  dsimp only
  -- no merge, or one that repoints the loser
  rcases afterLink_cases hends with ⟨hrej, _, hstore⟩ | ⟨hkind, hrej, _, hstore⟩
  · rw [hstore]
    exact ⟨fun _ hkind hto => not_beyondGuard_of_rejected hs hkind (hrej hkind) hto, fun _ => hs⟩
  · rw [hstore]
    obtain ⟨hg, hp⟩ := mergesEnd_iff.mp hs
    by_cases hto : s.HasEntity toId
    · rw [mergesEnd_iff, pointersExist_mergeEntity_iff hp hto, mergedInto_mergeEntity, if_pos hto,
        grounded_repoint_iff hg, leads_iff_of_accepted hkind hrej]
      exact ⟨fun h' _ _ => h'.symm, fun h' => (h' hkind hto).symm⟩
    · -- the UPDATE of a loser that does not exist writes nothing
      refine ⟨fun _ _ h' => absurd h' hto, fun _ => ?_⟩
      rw [mergesEnd_iff, mergedInto_mergeEntity, if_neg hto]
      refine ⟨hg, fun a b hab => hasEntity_mergeEntity.mpr (hp a b ?_)⟩
      rwa [mergedInto_mergeEntity, if_neg hto] at hab

end Ends

/-- **Merges end after every history of links** exactly if every link met the
condition. -/
theorem mergesEnd_of_links_iff {g : GraphStore} (h : MergesEnd g.toStore) (calls : List LinkCall) :
    (∀ p, p <+: calls → MergesEnd (p.foldl afterLink g).toStore) ↔
      ∀ p c, p ++ [c] <+: calls → EndsMerges (p.foldl afterLink g).toStore c.dto :=
  Runs.prefixes_iff (P := fun g : GraphStore => MergesEnd g.toStore)
    (C := fun (g : GraphStore) (c : LinkCall) => EndsMerges g.toStore c.dto)
    (I := fun _ => True) trivial (fun _ _ _ => trivial) h
    (fun _ c _ hP => mergesEnd_afterLink_iff hP c) calls

/-! ## A chain longer than the guard looks -/

/-- A link between two given entities that merges the second into the first. -/
def mergeCall (fromId toId : EntityId) : LinkCall where
  now := 0
  dto := { from_ := .entity fromId, to_ := .entity toId, kind := "identity_of" }

/-- A link of kind `identity_of` between entities of the tenant. -/
def IsMergeCall (s : Store) (c : LinkCall) : Prop :=
  c.dto.kind = "identity_of" ∧
    ∃ a b, c.dto.from_ = .entity a ∧ c.dto.to_ = .entity b ∧ s.HasEntity a ∧ s.HasEntity b

theorem isMergeCall_mergeCall {s : Store} {a b : EntityId} (ha : s.HasEntity a)
    (hb : s.HasEntity b) : IsMergeCall s (mergeCall a b) :=
  ⟨rfl, a, b, rfl, rfl, ha, hb⟩

/-- A tenant with `n` entities and nothing else. -/
def tenantOf (n : ℕ) : GraphStore where
  entities := (List.range n).foldl
    (fun t _ => t.insert { type := "other", canonicalName := "entity" }) .empty

/-- Which are all live. -/
theorem mergedInto_tenantOf (n : ℕ) (e : EntityId) : (tenantOf n).mergedInto e = none := by
  -- for every table to start from, by induction on what is inserted
  have hrows : ∀ (l : List ℕ) (t : KeyedTable KnowledgeEntity),
      (∀ i r, t.get? i = some r → r.mergedInto = none) → ∀ i r,
        (l.foldl (fun t _ => t.insert { type := "other", canonicalName := "entity" }) t).get? i
          = some r → r.mergedInto = none := by
    intro l
    induction l with
    | nil => exact fun t ht => ht
    | cons _ l ih =>
        intro t ht
        rw [List.foldl_cons]
        refine ih _ (fun i r hr => ?_)
        rw [KeyedTable.get?_insert] at hr
        split at hr
        · rw [← Option.some.inj hr]
        · exact ht i r hr
  rw [Store.mergedInto, Option.bind_eq_none_iff]
  exact fun r hr => hrows (List.range n) .empty (fun i r hr => by cases hr) e r hr

/-- Without merges everything resolves to itself. -/
theorem mergesEnd_of_unmerged {s : Store} (h : ∀ e, s.mergedInto e = none) : MergesEnd s :=
  fun e he => ⟨e, ⟨0, rfl⟩, he, h e⟩

/-- Two entities, of which one is merged into the other. -/
theorem mergesEnd_of_links_iff_two :
    (∀ p, p <+: [mergeCall 1 0] → MergesEnd (p.foldl afterLink (tenantOf 2)).toStore) ↔
      ∀ p c, p ++ [c] <+: [mergeCall 1 0] →
        EndsMerges (p.foldl afterLink (tenantOf 2)).toStore c.dto :=
  mergesEnd_of_links_iff (mergesEnd_of_unmerged (mergedInto_tenantOf 2)) [mergeCall 1 0]

/-- Entity 0 is merged into 1, this into 2, and so on up to 33; the last link merges
33 into 0. -/
def longChain : List LinkCall :=
  (List.range 33).map (fun i => mergeCall (i + 1) i) ++ [mergeCall 0 33]

/-- From a pointer of which nothing is the end, nothing is reached. -/
theorem not_resolvesTo_of_cycle {s : Store} {next : EntityId → EntityId} {p : EntityId → Prop}
    (hnext : ∀ e, p e → s.mergedInto e = some (next e) ∧ p (next e)) {e r : EntityId} (he : p e) :
    ¬ s.ResolvesTo e r := by
  rintro ⟨⟨n, hn⟩, _, hr⟩
  induction n generalizing e with
  | zero =>
      have her : e = r := Option.some.inj hn
      rw [← her, (hnext e he).1] at hr
      cases hr
  | succ n ih =>
      rw [ancestor_succ_of_some (hnext e he).1] at hn
      exact ih (hnext e he).2 hn

/-- After the last link the pointers go round. -/
theorem mergedInto_longChain : ∀ e : ℕ, e < 34 →
    (longChain.foldl afterLink (tenantOf 34)).mergedInto e = some ((e + 1) % 34) := by
  decide +kernel

/-- **Thirty-four entities make a cycle**: the guard does not see the loser at the end
of a chain of 33. -/
theorem not_mergesEnd_of_longChain :
    ¬ ∀ (g : GraphStore) (calls : List LinkCall), (∀ e, g.mergedInto e = none) →
      (∀ c ∈ calls, IsMergeCall g.toStore c) → MergesEnd (calls.foldl afterLink g).toStore := by
  intro h
  have hents : ∀ e : ℕ, e < 34 → (tenantOf 34).HasEntity e := by decide +kernel
  have hcalls : ∀ c ∈ longChain, IsMergeCall (tenantOf 34).toStore c := by
    intro c hc
    rcases List.mem_append.mp hc with hc | hc
    · obtain ⟨i, hi, rfl⟩ := List.mem_map.mp hc
      have hi := List.mem_range.mp hi
      exact isMergeCall_mergeCall (hents (i + 1) (by omega)) (hents i (by omega))
    · rw [List.mem_singleton.mp hc]
      exact isMergeCall_mergeCall (hents 0 (by omega)) (hents 33 (by omega))
  have h0 : (longChain.foldl afterLink (tenantOf 34)).HasEntity 0 :=
    hasEntity_of_mergedInto (mergedInto_longChain 0 (by omega))
  obtain ⟨r, hr⟩ := h (tenantOf 34) longChain (mergedInto_tenantOf 34) hcalls 0 h0
  -- each of the 34 points on to the next, so none of them is an end
  have hround : ∀ e : ℕ, e < 34 →
      (longChain.foldl afterLink (tenantOf 34)).mergedInto e = some ((e + 1) % 34) ∧
        (e + 1) % 34 < 34 :=
    fun e he => ⟨mergedInto_longChain e he, Nat.mod_lt _ (by omega)⟩
  exact not_resolvesTo_of_cycle hround (Nat.succ_pos 33) hr

/-! ## What is linked has one survivor -/

/-- A tenant with the `identity_of` links that it has accepted. -/
structure LinkHistory where
  store : GraphStore
  links : List (EntityId × EntityId) := []

/-- A call, with what it adds to the accepted links. -/
def LinkHistory.next (h : LinkHistory) (c : LinkCall) : LinkHistory where
  store := afterLink h.store c
  links := h.links ++ (acceptedIdentity h.store c).toList

/-- Both resolve to the same live entity. -/
def SameSurvivor (s : Store) (a b : EntityId) : Prop := ∃ r, s.ResolvesTo a r ∧ s.ResolvesTo b r

/-- What accepted links join resolves to the same live entity. -/
def OneSurvivor (s : Store) (links : List (EntityId × EntityId)) : Prop :=
  ∀ a b, Joined links a b → SameSurvivor s a b

/-- The condition under which a link joins what its ends stand for: both exist, the
survivor does not lead back to the loser, and the loser is live or resolves where the
survivor does. -/
def JoinsSurvivors (s : Store) (dto : IngestLinkDto) : Prop :=
  let ends := linkEnds s dto
  dto.kind = "identity_of" → linkRejection ends.2 dto ends.1.1 ends.1.2 = none →
    ends.2.HasEntity ends.1.1 ∧ ends.2.HasEntity ends.1.2 ∧
      ¬ BeyondGuard ends.2 ends.1.1 ends.1.2 ∧
      (ends.2.mergedInto ends.1.2 = none ∨ SameSurvivor ends.2 ends.1.2 ends.1.1)

section Joining

variable {s : Store} {links : List (EntityId × EntityId)} {now : Time} {dto : IngestLinkDto}
  {fromId toId : EntityId}

theorem SameSurvivor.sameRoot {a b : EntityId} (h : SameSurvivor s a b) :
    SameRoot s.mergedInto a b := by
  obtain ⟨r, ha, hb⟩ := h
  exact ⟨r, ha.root, hb.root⟩

theorem OneSurvivor.oneRoot (h : OneSurvivor s links) : OneRoot s.mergedInto links :=
  fun a b hab => (h a b hab).sameRoot

/-- Pointers from links that have one survivor are to entities that exist. -/
theorem OneSurvivor.pointersExist (h : OneSurvivor s links) (hl : Linked s.mergedInto links) :
    PointersExist s := by
  intro a b hab
  obtain ⟨r, hb, _⟩ := h b a (joined_of_mem (hl a b hab))
  exact hb.hasEntity

/-- Every end of a link is joined to the other one. -/
theorem hasEntity_of_joined (h : ∀ a b, (a, b) ∈ links → s.HasEntity a ∧ s.HasEntity b)
    {a b : EntityId} (hab : Joined links a b) : s.HasEntity a := by
  induction hab with
  | single hab => exact hab.elim (fun hab => (h _ _ hab).1) (fun hba => (h _ _ hba).2)
  | tail _ _ ih => exact ih

/-- One survivor is one root, where the ends of the links and the pointers exist. -/
theorem oneSurvivor_of_oneRoot (h : OneRoot s.mergedInto links) (hp : PointersExist s)
    (hends : ∀ a b, (a, b) ∈ links → s.HasEntity a ∧ s.HasEntity b) : OneSurvivor s links := by
  intro a b hab
  obtain ⟨r, ha, hb⟩ := h a b hab
  exact ⟨r, hp.resolvesTo (hasEntity_of_joined hends hab) ha,
    hp.resolvesTo (hasEntity_of_joined hends hab.symm) hb⟩

theorem OneSurvivor.linkEnds (h : OneSurvivor s links) (dto : IngestLinkDto) :
    OneSurvivor (linkEnds s dto).2 links := by
  intro a b hab
  obtain ⟨r, ha, hb⟩ := h a b hab
  exact ⟨r, ha.linkEnds dto, hb.linkEnds dto⟩

/-- The ends of links that have one survivor exist. -/
theorem OneSurvivor.ends (h : OneSurvivor s links) (a b : EntityId) (hab : (a, b) ∈ links) :
    s.HasEntity a ∧ s.HasEntity b := by
  obtain ⟨r, ha, hb⟩ := h a b (joined_of_mem hab)
  exact ⟨ha.hasEntity, hb.hasEntity⟩

/-- **A merge that the guard lets through** keeps one survivor of what is joined,
itself included, exactly if it meets the condition. -/
theorem oneSurvivor_mergeEntity_iff (h : OneSurvivor s links) (hl : Linked s.mergedInto links)
    (hkind : dto.kind = "identity_of") (hrej : linkRejection s dto fromId toId = none) :
    OneSurvivor (mergeEntity s now toId fromId) (links ++ [(fromId, toId)]) ↔
      s.HasEntity fromId ∧ s.HasEntity toId ∧ ¬ BeyondGuard s fromId toId ∧
        (s.mergedInto toId = none ∨ SameSurvivor s toId fromId) := by
  have hp := h.pointersExist hl
  rw [← leads_iff_of_accepted hkind hrej]
  constructor
  -- the new link is one of those that are joined, so both its ends exist and have one root
  · intro h'
    obtain ⟨hfrom, hto⟩ := h'.ends fromId toId (by simp)
    rw [hasEntity_mergeEntity] at hfrom hto
    have hroot := h'.oneRoot
    rw [mergedInto_mergeEntity, if_pos hto, oneRoot_repoint_iff h.oneRoot hl] at hroot
    refine ⟨hfrom, hto, hroot.1, hroot.2.imp_right ?_⟩
    rintro ⟨r, hrt, hrf⟩
    exact ⟨r, hp.resolvesTo hto hrt, hp.resolvesTo hfrom hrf⟩
  · rintro ⟨hfrom, hto, hback, hlast⟩
    -- the forest gives one root; that it is a live entity is that the pointers and ends exist
    apply oneSurvivor_of_oneRoot
    · rw [mergedInto_mergeEntity, if_pos hto, oneRoot_repoint_iff h.oneRoot hl]
      exact ⟨hback, hlast.imp_right SameSurvivor.sameRoot⟩
    · exact (pointersExist_mergeEntity_iff hp hto).mpr hfrom
    · intro a b hab
      rw [hasEntity_mergeEntity, hasEntity_mergeEntity]
      rcases List.mem_append.mp hab with hab | hab
      · exact h.ends a b hab
      · obtain ⟨rfl, rfl⟩ := Prod.mk.injEq .. ▸ List.mem_singleton.mp hab
        exact ⟨hfrom, hto⟩

/-- Pointers come from accepted links, whatever links there are. -/
theorem linked_next {h : LinkHistory} (hl : Linked h.store.mergedInto h.links) (c : LinkCall) :
    Linked (h.next c).store.mergedInto (h.next c).links := by
  obtain ⟨⟨⟨fromId, toId⟩, s⟩, hends⟩ : ∃ p, linkEnds h.store.toStore c.dto = p := ⟨_, rfl⟩
  have hs : s.mergedInto = h.store.mergedInto := by
    have := mergedInto_linkEnds h.store.toStore c.dto
    rwa [hends] at this
  rw [LinkHistory.next]
  dsimp only
  rcases afterLink_cases hends with ⟨_, hacc, hstore⟩ | ⟨_, _, hacc, hstore⟩
  · rw [hacc, hstore, hs, Option.toList_none, List.append_nil]
    exact hl
  -- the pointer that is written is the new link, and the others were links before
  · rw [hacc, hstore, mergedInto_mergeEntity, hs, Option.toList_some]
    intro a b hab
    split at hab
    · by_cases ha : a = toId
      · rw [ha, repoint_self, Option.some.injEq] at hab
        simp [ha, hab]
      · rw [repoint_of_ne ha] at hab
        exact List.mem_append_left _ (hl a b hab)
    · exact List.mem_append_left _ (hl a b hab)

/-- One link: it keeps one survivor exactly if it meets the condition. -/
theorem oneSurvivor_next_iff {h : LinkHistory} (hl : Linked h.store.mergedInto h.links)
    (hone : OneSurvivor h.store.toStore h.links) (c : LinkCall) :
    OneSurvivor (h.next c).store.toStore (h.next c).links ↔
      JoinsSurvivors h.store.toStore c.dto := by
  obtain ⟨⟨⟨fromId, toId⟩, s⟩, hends⟩ : ∃ p, linkEnds h.store.toStore c.dto = p := ⟨_, rfl⟩
  have hs : s.mergedInto = h.store.mergedInto := by
    have := mergedInto_linkEnds h.store.toStore c.dto
    rwa [hends] at this
  have hone' : OneSurvivor s h.links := by
    have := hone.linkEnds c.dto
    rwa [hends] at this
  rw [JoinsSurvivors, hends, LinkHistory.next]
  dsimp only
  rcases afterLink_cases hends with ⟨hrej, hacc, hstore⟩ | ⟨hkind, hrej, hacc, hstore⟩
  · rw [hacc, hstore, Option.toList_none, List.append_nil]
    exact ⟨fun _ hkind h' => absurd h' (hrej hkind), fun _ => hone'⟩
  · rw [hacc, hstore, Option.toList_some,
      oneSurvivor_mergeEntity_iff hone' (by rwa [hs]) hkind hrej]
    exact ⟨fun h' _ _ => h', fun h' => h' hkind hrej⟩

end Joining

/-- **What accepted links join has one survivor** after every history of links, on a
tenant without merges at its start, exactly if every link met the condition. -/
theorem oneSurvivor_of_links_iff {g : GraphStore} (h : ∀ e, g.mergedInto e = none)
    (calls : List LinkCall) :
    (∀ p, p <+: calls → OneSurvivor (p.foldl LinkHistory.next ⟨g, []⟩).store.toStore
        (p.foldl LinkHistory.next ⟨g, []⟩).links) ↔
      ∀ p c, p ++ [c] <+: calls →
        JoinsSurvivors (p.foldl LinkHistory.next ⟨g, []⟩).store.toStore c.dto := by
  refine Runs.prefixes_iff (P := fun h : LinkHistory => OneSurvivor h.store.toStore h.links)
    (C := fun (h : LinkHistory) (c : LinkCall) => JoinsSurvivors h.store.toStore c.dto)
    (I := fun h : LinkHistory => Linked h.store.mergedInto h.links) ?_ (fun _ c hl => linked_next hl c)
    ?_ (fun _ c hl hone => oneSurvivor_next_iff hl hone c) calls
  -- at the start there are neither pointers nor links
  · intro a b hab
    rw [h a] at hab
    cases hab
  · intro a b hab
    obtain ⟨c, hac, _⟩ := Relation.TransGen.head'_iff.mp hab
    simp at hac

/-- Two entities, of which one is merged into the other. -/
theorem oneSurvivor_of_links_iff_two :
    (∀ p, p <+: [mergeCall 1 0] →
        OneSurvivor (p.foldl LinkHistory.next ⟨tenantOf 2, []⟩).store.toStore
          (p.foldl LinkHistory.next ⟨tenantOf 2, []⟩).links) ↔
      ∀ p c, p ++ [c] <+: [mergeCall 1 0] →
        JoinsSurvivors (p.foldl LinkHistory.next ⟨tenantOf 2, []⟩).store.toStore c.dto :=
  oneSurvivor_of_links_iff (mergedInto_tenantOf 2) [mergeCall 1 0]

/-- **A loser that is merged again** leaves its first survivor behind: entity 1 is
linked to 0 and then to 2, and 0 and 2 stay two. -/
theorem not_oneSurvivor_of_relinked :
    ¬ ∀ (g : GraphStore) (calls : List LinkCall), (∀ e, g.mergedInto e = none) →
      (∀ c ∈ calls, IsMergeCall g.toStore c) →
      OneSurvivor (calls.foldl LinkHistory.next ⟨g, []⟩).store.toStore
        (calls.foldl LinkHistory.next ⟨g, []⟩).links := by
  intro h
  have hents : ∀ e : ℕ, e < 3 → (tenantOf 3).HasEntity e := by decide +kernel
  have hcalls : ∀ c ∈ [mergeCall 0 1, mergeCall 2 1], IsMergeCall (tenantOf 3).toStore c := by
    intro c hc
    simp only [List.mem_cons, List.not_mem_nil, or_false] at hc
    rcases hc with rfl | rfl
    · exact isMergeCall_mergeCall (hents 0 (by decide)) (hents 1 (by decide))
    · exact isMergeCall_mergeCall (hents 2 (by decide)) (hents 1 (by decide))
  have hone := h (tenantOf 3) [mergeCall 0 1, mergeCall 2 1] (mergedInto_tenantOf 3) hcalls
  generalize hlast : [mergeCall 0 1, mergeCall 2 1].foldl LinkHistory.next ⟨tenantOf 3, []⟩ = last
    at hone
  have hlinks : (0, 1) ∈ last.links := by
    rw [← hlast]
    decide +kernel
  have h0 : last.store.mergedInto 0 = none := by
    rw [← hlast]
    decide +kernel
  have h1 : last.store.mergedInto 1 = some 2 := by
    rw [← hlast]
    decide +kernel
  have h2 : last.store.mergedInto 2 = none := by
    rw [← hlast]
    decide +kernel
  -- entity 0 is its own survivor, and that of entity 1 is 2
  obtain ⟨r, hr0, hr1⟩ := hone 0 1 (joined_of_mem hlinks)
  have hr : r = 0 := hr0.root.unique (root_self h0)
  have hr' : r = 2 := hr1.root.unique ((root_self h2).of_leads (leads_of_up h1))
  exact absurd (hr.symm.trans hr') (by decide)

end Brain
