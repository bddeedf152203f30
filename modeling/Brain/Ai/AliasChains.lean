/-
What a predicate resolves to. An alias points at another predicate, and a chain of aliases
may end in an active one. The loader of the snapshot follows at most `MAX_CHAIN` pointers,
so the direct hit of `canonicalize` is the end of every chain that is no longer than that
(`directHit_eq_some_iff`), and of no other.
-/
import Brain.Ai.Canonicalize

set_option autoImplicit false

namespace Brain

/-! ## 1. Rows -/

/-- The row of a predicate. -/
def rowOf (rows : List RegistryRow) (p : String) : Option RegistryRow :=
  rows.find? (fun row => decide (row.predicateId = p))

/-- Where a row points; the empty string is no pointer. -/
def RegistryRow.target (row : RegistryRow) : Option String :=
  if row.status = .aliased then row.aliasedTo.filter (fun a => !a.isEmpty) else none

/-- Where a predicate points. -/
def aliasOf (rows : List RegistryRow) (p : String) : Option String :=
  (rowOf rows p).bind RegistryRow.target

/-- The predicate is active. -/
def IsActive (rows : List RegistryRow) (p : String) : Prop :=
  ∃ row ∈ rows, row.predicateId = p ∧ row.status = .active

instance (rows : List RegistryRow) (p : String) : Decidable (IsActive rows p) :=
  inferInstanceAs (Decidable (∃ row ∈ rows, row.predicateId = p ∧ row.status = .active))

/-- The aliases lead from `p` to the active predicate `c` in at most `MAX_CHAIN` steps. -/
def Resolves (rows : List RegistryRow) (p c : String) : Prop :=
  ∃ n ≤ MAX_CHAIN, Forest.ancestor (aliasOf rows) n p = some c ∧ IsActive rows c

/-- No two rows have one identifier. -/
def UniqueIds (rows : List RegistryRow) : Prop := (rows.map (fun row => row.predicateId)).Nodup

instance (rows : List RegistryRow) : Decidable (UniqueIds rows) :=
  inferInstanceAs (Decidable (List.Nodup _))

section Rows

variable {rows : List RegistryRow} {row : RegistryRow} {p c : String} {n : ℕ}

theorem rowOf_of_mem (h : UniqueIds rows) (hrow : row ∈ rows) :
    rowOf rows row.predicateId = some row := by
  cases hfind : rowOf rows row.predicateId with
  | none =>
      have hne := List.find?_eq_none.mp hfind row hrow
      simp at hne
  | some row' =>
      have hid : row'.predicateId = row.predicateId := by simpa using List.find?_some hfind
      rw [List.inj_on_of_nodup_map h (List.mem_of_find?_eq_some hfind) hrow hid]

theorem aliasOf_of_mem (h : UniqueIds rows) (hrow : row ∈ rows) :
    aliasOf rows row.predicateId = row.target := by
  rw [aliasOf, rowOf_of_mem h hrow, Option.bind_some]

/-- What points has a row. -/
theorem mem_of_aliasOf {a : String} (ha : aliasOf rows p = some a) :
    p ∈ rows.map (fun row => row.predicateId) := by
  obtain ⟨row, hfind, _⟩ := Option.bind_eq_some_iff.mp ha
  have hid : row.predicateId = p := by simpa using List.find?_some hfind
  exact List.mem_map.mpr ⟨row, List.mem_of_find?_eq_some hfind, hid⟩

/-- An active predicate points nowhere. -/
theorem aliasOf_eq_none_of_isActive (h : UniqueIds rows) (hactive : IsActive rows c) :
    aliasOf rows c = none := by
  obtain ⟨row, hrow, rfl, hstatus⟩ := hactive
  rw [aliasOf_of_mem h hrow, RegistryRow.target, hstatus]
  rfl

/-- A chain has one end. -/
theorem length_unique (h : UniqueIds rows) {m : ℕ} {d : String}
    (hn : Forest.ancestor (aliasOf rows) n p = some c) (hc : IsActive rows c)
    (hm : Forest.ancestor (aliasOf rows) m p = some d) (hd : IsActive rows d) : n = m ∧ c = d := by
  have hcroot := aliasOf_eq_none_of_isActive h hc
  have hdroot := aliasOf_eq_none_of_isActive h hd
  refine ⟨?_, Forest.Root.unique ⟨⟨n, hn⟩, hcroot⟩ ⟨⟨m, hm⟩, hdroot⟩⟩
  rcases Nat.lt_trichotomy n m with hlt | heq | hlt
  · rw [Forest.ancestor_none_of_root hcroot hn hlt] at hm
    cases hm
  · exact heq
  · rw [Forest.ancestor_none_of_root hdroot hm hlt] at hn
    cases hn

theorem Resolves.unique (h : UniqueIds rows) {d : String} (hc : Resolves rows p c)
    (hd : Resolves rows p d) : c = d := by
  obtain ⟨n, _, hn, hactive⟩ := hc
  obtain ⟨m, _, hm, hactive'⟩ := hd
  exact (length_unique h hn hactive hm hactive').2

/-- The start of a chain has a row. -/
theorem mem_of_ancestor (hn : Forest.ancestor (aliasOf rows) n p = some c)
    (hactive : IsActive rows c) : p ∈ rows.map (fun row => row.predicateId) := by
  cases n with
  | zero =>
      obtain ⟨row, hrow, hid, _⟩ := hactive
      have hpc : p = c := Option.some.inj hn
      exact List.mem_map.mpr ⟨row, hrow, by rw [hid, hpc]⟩
  | succ n =>
      rw [Forest.ancestor_succ] at hn
      obtain ⟨a, ha, _⟩ := Option.bind_eq_some_iff.mp hn
      exact mem_of_aliasOf ha

/-- The end of a chain with at least one pointer is no empty string. -/
theorem ne_empty_of_ancestor (hn : Forest.ancestor (aliasOf rows) (n + 1) p = some c) : c ≠ "" := by
  rw [Forest.ancestor_succ'] at hn
  obtain ⟨q, _, hq⟩ := Option.bind_eq_some_iff.mp hn
  obtain ⟨row, _, htarget⟩ := Option.bind_eq_some_iff.mp hq
  unfold RegistryRow.target at htarget
  by_cases hstatus : row.status = .aliased
  · rw [if_pos hstatus] at htarget
    have hne := (Option.filter_eq_some_iff.mp htarget).2
    intro hempty
    rw [hempty] at hne
    revert hne
    decide
  · rw [if_neg hstatus] at htarget
    cases htarget

end Rows

/-! ## 2. The snapshot -/

/-- The rows by their identifiers, as the loader has them. -/
def allById (rows : List RegistryRow) : InsertionMap String RegistryRow :=
  .ofList ((rows.map deserializeRegistryRow).map (fun def_ => (def_.predicateId, def_)))

section Snapshot

variable {rows : List RegistryRow} {row : RegistryRow} {p c : String}

theorem status_deserialize : (deserializeRegistryRow row).status = row.status := rfl

theorem get?_allById (h : UniqueIds rows) {d : RegistryRow} :
    (allById rows).get? p = some d ↔
      ∃ row ∈ rows, row.predicateId = p ∧ deserializeRegistryRow row = d := by
  have hnodup : (((rows.map deserializeRegistryRow).map
      (fun def_ => (def_.predicateId, def_))).map Prod.fst).Nodup := by
    rw [List.map_map, List.map_map]
    exact h
  rw [allById, InsertionMap.get?_ofList_iff hnodup, List.mem_map]
  constructor
  · rintro ⟨d', hd', heq⟩
    obtain ⟨row, hrow, rfl⟩ := List.mem_map.mp hd'
    obtain ⟨hid, hd⟩ := Prod.mk.inj heq
    exact ⟨row, hrow, hid, hd⟩
  · rintro ⟨row, hrow, rfl, rfl⟩
    exact ⟨_, List.mem_map_of_mem hrow, rfl⟩

/-- A row that points nowhere is the end of its chain. -/
theorem ends_iff (h : UniqueIds rows) (hrow : row ∈ rows) (htarget : row.target = none)
    (fuel : ℕ) :
    (∃ n ≤ fuel, Forest.ancestor (aliasOf rows) n row.predicateId = some c ∧ IsActive rows c) ↔
      row.status = .active ∧ row.predicateId = c := by
  constructor
  · rintro ⟨n, _, hn, hactive⟩
    have hzero : n = 0 := by
      rcases n with _ | n
      · rfl
      · rw [Forest.ancestor_succ_of_none ((aliasOf_of_mem h hrow).trans htarget)] at hn
        cases hn
    rw [hzero, Forest.ancestor_zero, Option.some_inj] at hn
    obtain ⟨row', hrow', hid, hstatus⟩ := hactive
    rw [← List.inj_on_of_nodup_map h hrow' hrow (hid.trans hn.symm)]
    exact ⟨hstatus, hid⟩
  · rintro ⟨hstatus, rfl⟩
    exact ⟨0, Nat.zero_le _, rfl, row, hrow, rfl, hstatus⟩

/-- A row that points somewhere is not active, so its chain has a first pointer. -/
theorem goes_on_iff (h : UniqueIds rows) {a : String} (halias : aliasOf rows p = some a)
    (fuel : ℕ) :
    (∃ n ≤ fuel + 1, Forest.ancestor (aliasOf rows) n p = some c ∧ IsActive rows c) ↔
      ∃ n ≤ fuel, Forest.ancestor (aliasOf rows) n a = some c ∧ IsActive rows c := by
  constructor
  · rintro ⟨n, hn, hc, hactive⟩
    cases n with
    | zero =>
        rw [Forest.ancestor_zero, Option.some_inj] at hc
        rw [hc, aliasOf_eq_none_of_isActive h hactive] at halias
        cases halias
    | succ n =>
        rw [Forest.ancestor_succ_of_some halias] at hc
        exact ⟨n, Nat.le_of_succ_le_succ hn, hc, hactive⟩
  · rintro ⟨n, hn, hc, hactive⟩
    refine ⟨n + 1, Nat.succ_le_succ hn, ?_, hactive⟩
    rw [Forest.ancestor_succ_of_some halias, hc]

/-- The loop stops at a row that points nowhere. -/
theorem followAliases_of_end (htarget : row.target = none) (fuel : ℕ) :
    followAliases (allById rows) fuel (deserializeRegistryRow row)
      = some (deserializeRegistryRow row) := by
  cases fuel with
  | zero => rfl
  | succ fuel =>
      unfold RegistryRow.target at htarget
      rw [followAliases, status_deserialize]
      by_cases hstatus : row.status = .aliased
      · rw [if_pos hstatus] at htarget
        have hnone : (deserializeRegistryRow row).aliasedTo = none := htarget
        rw [if_pos hstatus, hnone]
      · rw [if_neg hstatus]

/-- And goes on from one that points somewhere. -/
theorem followAliases_of_target {a : String} (htarget : row.target = some a) (fuel : ℕ) :
    followAliases (allById rows) (fuel + 1) (deserializeRegistryRow row)
      = ((allById rows).get? a).bind (followAliases (allById rows) fuel) := by
  have hstatus : row.status = .aliased := by
    by_contra hnot
    rw [RegistryRow.target, if_neg hnot] at htarget
    cases htarget
  rw [RegistryRow.target, if_pos hstatus] at htarget
  have hsome : (deserializeRegistryRow row).aliasedTo = some a := htarget
  rw [followAliases, status_deserialize, if_pos hstatus, hsome]

/-- **What the loop comes to**, with `fuel` hops to go. -/
theorem followAliases_iff (h : UniqueIds rows) (fuel : ℕ) : ∀ {row : RegistryRow}, row ∈ rows →
    ((∃ d, followAliases (allById rows) fuel (deserializeRegistryRow row) = some d ∧
        d.status = .active ∧ d.predicateId = c) ↔
      ∃ n ≤ fuel, Forest.ancestor (aliasOf rows) n row.predicateId = some c ∧ IsActive rows c) := by
  induction fuel with
  | zero =>
      intro row hrow
      constructor
      · rintro ⟨d, hd, hstatus, hid⟩
        cases hd
        exact ⟨0, Nat.le_refl _, congrArg some hid, row, hrow, hid, hstatus⟩
      · rintro ⟨n, hn, hc, row', hrow', hid, hstatus⟩
        rw [Nat.le_zero.mp hn, Forest.ancestor_zero, Option.some_inj] at hc
        rw [List.inj_on_of_nodup_map h hrow' hrow (hid.trans hc.symm)] at hstatus
        exact ⟨_, rfl, hstatus, hc⟩
  | succ fuel ih =>
      intro row hrow
      cases htarget : row.target with
      | none =>
          rw [ends_iff h hrow htarget, followAliases_of_end htarget]
          constructor
          · rintro ⟨d, hd, hstatus, hid⟩
            cases hd
            exact ⟨hstatus, hid⟩
          · exact fun hends => ⟨_, rfl, hends.1, hends.2⟩
      | some a =>
          rw [followAliases_of_target htarget,
            goes_on_iff h ((aliasOf_of_mem h hrow).trans htarget)]
          cases hget : (allById rows).get? a with
          | none =>
              rw [Option.bind_none]
              constructor
              · rintro ⟨d, hd, _⟩
                cases hd
              · rintro ⟨n, _, hc, hactive⟩
                obtain ⟨row', hrow', hid⟩ := List.mem_map.mp (mem_of_ancestor hc hactive)
                rw [(get?_allById h).mpr ⟨row', hrow', hid, rfl⟩] at hget
                cases hget
          | some d =>
              obtain ⟨row', hrow', rfl, rfl⟩ := (get?_allById h).mp hget
              rw [Option.bind_some]
              exact ih hrow'

/-- The entry of a row names the active end of what the loop walks. -/
theorem aliasEntry_iff {m : InsertionMap String RegistryRow} {d : RegistryRow} :
    aliasEntry m d = some (p, c) ↔
      (∃ d', followAliases m MAX_CHAIN d = some d' ∧ d'.status = .active ∧ d'.predicateId = c) ∧
        p = d.predicateId := by
  unfold aliasEntry
  cases followAliases m MAX_CHAIN d with
  | none => simp
  | some d' =>
      by_cases hstatus : d'.status = .active
      · simp only [hstatus, if_true, Option.some_inj, Prod.mk.injEq, exists_eq_left', true_and]
        exact ⟨fun h => ⟨h.2, h.1.symm⟩, fun h => ⟨h.2.symm, h.1⟩⟩
      · simp [hstatus]

/-- The predicates of the snapshot are the active ones. -/
theorem has_byId : (loadSnapshot rows).byId.has c = true ↔ IsActive rows c := by
  rw [InsertionMap.has_iff]
  have hkeys : c ∈ (loadSnapshot rows).byId.keys ↔
      c ∈ ((((rows.map RegistryRow.toTenantPredicate).map deserializeFromRow).filter
        (fun def_ => def_.status == .active)).map (fun p => (p.predicateId, p))).map Prod.fst :=
    InsertionMap.mem_keys_ofList
  rw [hkeys, List.map_map, List.mem_map]
  constructor
  · rintro ⟨d, hd, rfl⟩
    obtain ⟨hd, hstatus⟩ := List.mem_filter.mp hd
    obtain ⟨t, ht, rfl⟩ := List.mem_map.mp hd
    obtain ⟨row, hrow, rfl⟩ := List.mem_map.mp ht
    exact ⟨row, hrow, rfl, beq_iff_eq.mp hstatus⟩
  · rintro ⟨row, hrow, rfl, hstatus⟩
    refine ⟨deserializeFromRow row.toTenantPredicate, List.mem_filter.mpr ⟨?_, ?_⟩, rfl⟩
    · exact List.mem_map_of_mem (List.mem_map_of_mem hrow)
    · exact beq_iff_eq.mpr hstatus

/-- **The alias map**: what a predicate resolves to. -/
theorem get?_aliasMap (h : UniqueIds rows) :
    (loadSnapshot rows).aliasMap.get? p = some c ↔ Resolves rows p c := by
  have hkeys : (((rows.map deserializeRegistryRow).filterMap
      (aliasEntry (allById rows))).map Prod.fst).Nodup := by
    refine List.Nodup.sublist (InsertionMap.map_fst_filterMap_sublist
      (fun _ _ he => (aliasEntry_iff.mp he).2) _) ?_
    rw [List.map_map]
    exact h
  have hmap : (loadSnapshot rows).aliasMap
      = .ofList ((rows.map deserializeRegistryRow).filterMap (aliasEntry (allById rows))) := rfl
  rw [hmap, InsertionMap.get?_ofList_iff hkeys, List.mem_filterMap]
  constructor
  · rintro ⟨d, hd, hentry⟩
    obtain ⟨row, hrow, rfl⟩ := List.mem_map.mp hd
    obtain ⟨hend, hid⟩ := aliasEntry_iff.mp hentry
    obtain ⟨n, hn, hc, hactive⟩ := (followAliases_iff h MAX_CHAIN hrow).mp hend
    exact ⟨n, hn, by rw [← hc]; exact congrArg _ hid, hactive⟩
  · rintro ⟨n, hn, hc, hactive⟩
    obtain ⟨row, hrow, rfl⟩ := List.mem_map.mp (mem_of_ancestor hc hactive)
    refine ⟨deserializeRegistryRow row, List.mem_map_of_mem hrow, ?_⟩
    exact aliasEntry_iff.mpr ⟨(followAliases_iff h MAX_CHAIN hrow).mpr ⟨n, hn, hc, hactive⟩, rfl⟩

theorem Resolves.isActive (h : Resolves rows p c) : IsActive rows c := by
  obtain ⟨_, _, _, hactive⟩ := h
  exact hactive

theorem resolves_self (h : IsActive rows p) : Resolves rows p p := ⟨0, Nat.zero_le _, rfl, h⟩

/-- The empty string resolves to itself at most: no pointer leads to it. -/
theorem Resolves.eq_empty (h : Resolves rows p "") : p = "" := by
  obtain ⟨n, _, hn, _⟩ := h
  cases n with
  | zero => exact Option.some.inj hn
  | succ n => exact absurd rfl (ne_empty_of_ancestor hn)

/-- **The direct hit** is what the predicate resolves to. -/
theorem directHit_eq_some_iff (h : UniqueIds rows) :
    directHit (loadSnapshot rows) p = some c ↔ Resolves rows p c := by
  unfold directHit
  constructor
  · intro hhit
    cases hfilter : ((loadSnapshot rows).aliasMap.get? p).filter
        (fun a => !a.isEmpty && (loadSnapshot rows).byId.has a) with
    | some a =>
        rw [hfilter, Option.some_inj] at hhit
        obtain ⟨hget, _⟩ := Option.filter_eq_some_iff.mp hfilter
        rw [← hhit]
        exact (get?_aliasMap h).mp hget
    | none =>
        rw [hfilter] at hhit
        by_cases hhas : (loadSnapshot rows).byId.has p = true
        · simp only [hhas, if_true, Option.some_inj] at hhit
          rw [← hhit]
          exact resolves_self (has_byId.mp hhas)
        · simp [hhas] at hhit
  · intro hc
    have hhas := has_byId.mpr hc.isActive
    have hget := (get?_aliasMap h).mpr hc
    by_cases hempty : c = ""
    · rw [hempty] at hc hhas hget ⊢
      rw [hc.eq_empty] at hget ⊢
      rw [hget]
      have hno : (some "").filter (fun a => !a.isEmpty && (loadSnapshot rows).byId.has a)
          = none := by
        rw [Option.filter_eq_none_iff]
        rintro a ha
        rw [← Option.some_inj.mp ha]
        simp
      rw [hno, hhas]
      rfl
    · have hyes : (some c).filter (fun a => !a.isEmpty && (loadSnapshot rows).byId.has a)
          = some c := by
        rw [Option.filter_some, hhas, Bool.and_true, if_pos]
        simp [hempty]
      rw [hget, hyes]

/-- What the direct hit misses. -/
theorem directHit_eq_none_iff (h : UniqueIds rows) :
    directHit (loadSnapshot rows) p = none ↔ ∀ c, ¬ Resolves rows p c := by
  rw [Option.eq_none_iff_forall_ne_some]
  exact forall_congr' (fun c => not_congr (directHit_eq_some_iff h))

end Snapshot

/-! ## 3. The registry -/

section Registry

variable {env : CanonicalizeEnv} {call : CanonicalizeCall} {r : Registry} {p c : String}

theorem getSnapshot_fst (expired : Bool) : (r.getSnapshot expired).1 = loadSnapshot r.rows := by
  unfold Registry.getSnapshot
  cases hcached : r.cached with
  | none => rfl
  | some snapshot =>
      cases expired with
      | true => rfl
      | false => exact r.current snapshot hcached

theorem rows_getSnapshot (expired : Bool) : (r.getSnapshot expired).2.rows = r.rows := by
  unfold Registry.getSnapshot
  cases r.cached with
  | none => rfl
  | some snapshot => cases expired <;> rfl

theorem rows_create (stored : Bool) (row : RegistryRow) : (r.create stored row).rows =
    if stored = true ∧ row.predicateId ∉ r.rows.map (fun row => row.predicateId)
      then r.rows ++ [row] else r.rows := by
  unfold Registry.create
  by_cases h : stored = true ∧ row.predicateId ∉ r.rows.map (fun row => row.predicateId)
  · rw [dif_pos h, if_pos h]
  · rw [dif_neg h, if_neg h]

theorem rows_create_of_mem {row : RegistryRow} (stored : Bool)
    (hmem : row.predicateId ∈ r.rows.map (fun row => row.predicateId)) :
    (r.create stored row).rows = r.rows := by
  rw [rows_create, if_neg (fun h => h.2 hmem)]

/-- A call on a predicate that resolves. -/
theorem canonicalize_of_resolves (env : CanonicalizeEnv) (h : Resolves r.rows call.predicate c) :
    (canonicalize env call r).1 = .matched c ∧ (canonicalize env call r).2.rows = r.rows := by
  have hhit : directHit (r.getSnapshot call.expired).1 call.predicate = some c := by
    rw [getSnapshot_fst, directHit_eq_some_iff r.unique]
    exact h
  unfold canonicalize
  simp only [hhit]
  exact ⟨trivial, rows_getSnapshot _⟩

/-- A call on a predicate that does not. -/
theorem canonicalize_of_unresolved (h : ∀ c, ¬ Resolves r.rows call.predicate c) :
    canonicalize env call r
      = decideNovel env call (loadSnapshot r.rows) (r.getSnapshot call.expired).2 := by
  have hmiss : directHit (r.getSnapshot call.expired).1 call.predicate = none := by
    rw [getSnapshot_fst, directHit_eq_none_iff r.unique]
    exact h
  rw [getSnapshot_fst] at hmiss
  unfold canonicalize
  simp only [getSnapshot_fst, hmiss]

/-- **What a miss decides**: the best match if it is good enough, and then an aliased row; the
predicate itself if it is not, and then a proposed row. -/
theorem decideNovel_cases (env : CanonicalizeEnv) (call : CanonicalizeCall)
    (snapshot : CanonicalSnapshot) (r : Registry) :
    (∃ best, bestMatch env snapshot (call.queryEmb env) = some best ∧
      env.canonicalizeThreshold ≤ best.2 ∧
      decideNovel env call snapshot r = (.aliased best.1 best.2 call.predicate,
        r.create call.stored (aliasedRow snapshot call.predicate best.1 (call.queryEmb env)))) ∨
    ((∀ best, bestMatch env snapshot (call.queryEmb env) = some best →
        best.2 < env.canonicalizeThreshold) ∧
      ∃ reported, decideNovel env call snapshot r =
        (.proposed call.predicate call.predicate reported,
          r.create call.stored (proposedRow call.predicate (call.queryEmb env)))) := by
  unfold decideNovel
  cases hbest : bestMatch env snapshot (call.queryEmb env) with
  | none =>
      refine Or.inr ⟨?_, none, by simp only [hbest]⟩
      intro best h
      cases h
  | some best =>
      by_cases hreach : env.canonicalizeThreshold ≤ best.2
      · refine Or.inl ⟨best, rfl, hreach, ?_⟩
        simp only [hbest, if_pos hreach]
      · refine Or.inr ⟨?_, if CANONICALIZE_REPORT_FLOOR ≤ best.2 then some best else none, ?_⟩
        · intro b hb
          rw [← Option.some_inj.mp hb]
          exact not_le.mp hreach
        · simp only [hbest, if_neg hreach]

/-- A miss matches nothing. -/
theorem decideNovel_ne_matched (snapshot : CanonicalSnapshot) :
    (decideNovel env call snapshot r).1 ≠ .matched c := by
  intro hmatched
  rcases decideNovel_cases env call snapshot r with ⟨best, _, _, heq⟩ | ⟨_, reported, heq⟩
  · rw [heq] at hmatched
    cases hmatched
  · rw [heq] at hmatched
    cases hmatched

/-- A miss on a predicate that has a row already writes nothing: the index refuses the row. -/
theorem rows_decideNovel_of_mem (snapshot : CanonicalSnapshot)
    (hmem : call.predicate ∈ r.rows.map (fun row => row.predicateId)) :
    (decideNovel env call snapshot r).2.rows = r.rows := by
  rcases decideNovel_cases env call snapshot r with ⟨best, _, _, heq⟩ | ⟨_, reported, heq⟩
  · rw [heq]
    exact rows_create_of_mem _ hmem
  · rw [heq]
    exact rows_create_of_mem _ hmem

/-- A call on a predicate whose aliases end in an active one answers with that one if there are
no more than `MAX_CHAIN` of them, and only then; in either case it writes nothing. -/
theorem canonicalize_chain (env : CanonicalizeEnv) (call : CanonicalizeCall) (r : Registry)
    (n : ℕ) (c : String) (hchain : Forest.ancestor (aliasOf r.rows) n call.predicate = some c)
    (hactive : IsActive r.rows c) :
    ((canonicalize env call r).1 = .matched c ↔ n ≤ MAX_CHAIN) ∧
      (canonicalize env call r).2.rows = r.rows := by
  by_cases hn : n ≤ MAX_CHAIN
  · obtain ⟨hmatched, hrows⟩ := canonicalize_of_resolves env ⟨n, hn, hchain, hactive⟩
    exact ⟨iff_of_true hmatched hn, hrows⟩
  · -- the chain has one end at one distance, so the predicate resolves to nothing
    have hnone : ∀ d, ¬ Resolves r.rows call.predicate d := by
      rintro d ⟨m, hm, hd, hdactive⟩
      have hlen := (length_unique r.unique hchain hactive hd hdactive).1
      omega
    have hmem := mem_of_ancestor hchain hactive
    rw [canonicalize_of_unresolved hnone]
    refine ⟨iff_of_false (decideNovel_ne_matched _) hn, ?_⟩
    rw [rows_decideNovel_of_mem _ (by rw [rows_getSnapshot]; exact hmem), rows_getSnapshot]

end Registry

/-- The rows of predicates each of which is an alias of the next; the last one is active. -/
def chainRows : List String → List RegistryRow
  | [] => []
  | [p] => [{ DEFAULT_FALLBACK with predicateId := p }]
  | p :: q :: ps =>
      { DEFAULT_FALLBACK with predicateId := p, status := .aliased, aliasedTo := some q }
        :: chainRows (q :: ps)

/-- An embedder that tells one text from the others, and the product of unit vectors. -/
def plainCanonicalizeEnv : CanonicalizeEnv where
  embed := fun text => if text = "enjoys: soup" then [1, 0] else [0, 1]
  cosineSimilarity := fun a b => (List.zipWith (· * ·) a b).sum

/-- The registry of such a chain. -/
def chainRegistry (ids : List String) (h : UniqueIds (chainRows ids)) : Registry where
  rows := chainRows ids
  unique := h
  current := fun _ h => by cases h

theorem canonicalize_chain_two :
    let r := chainRegistry ["likes_food", "fav_food", "favourite_food"] (by decide)
    let call : CanonicalizeCall := { predicate := "likes_food", contextText := "likes_food: soup" }
    (canonicalize plainCanonicalizeEnv call r).1 = .matched "favourite_food" ∧
      (canonicalize plainCanonicalizeEnv call r).2.rows = r.rows := by
  intro r call
  have hchain : Forest.ancestor (aliasOf r.rows) 2 call.predicate = some "favourite_food" := by
    decide
  have hactive : IsActive r.rows "favourite_food" := by decide
  obtain ⟨hmatched, hrows⟩ := canonicalize_chain plainCanonicalizeEnv call r 2 _ hchain hactive
  exact ⟨hmatched.mpr (by decide), hrows⟩

/-- Nine aliases, none of them in a loop: the ninth is not followed. -/
theorem ninth_alias_not_followed :
    ¬ ∀ (env : CanonicalizeEnv) (call : CanonicalizeCall) (r : Registry) (n : ℕ) (c : String),
      Forest.Grounded (aliasOf r.rows) →
      Forest.ancestor (aliasOf r.rows) n call.predicate = some c → IsActive r.rows c →
      (canonicalize env call r).1 = .matched c ∧ (canonicalize env call r).2.rows = r.rows := by
  intro hall
  let ids := ["p0", "p1", "p2", "p3", "p4", "p5", "p6", "p7", "p8", "p9"]
  let r := chainRegistry ids (by decide)
  let call : CanonicalizeCall := { predicate := "p0", contextText := "p0: soup" }
  have hends : ∀ p ∈ ids, ∃ n ∈ List.range 10,
      Forest.ancestor (aliasOf r.rows) n p = some "p9" := by decide
  have hgrounded : Forest.Grounded (aliasOf r.rows) := by
    intro p
    by_cases hp : p ∈ ids
    · obtain ⟨n, _, hn⟩ := hends p hp
      exact ⟨"p9", ⟨n, hn⟩, by decide⟩
    · refine ⟨p, Forest.root_self ?_⟩
      cases halias : aliasOf r.rows p with
      | none => rfl
      | some a => exact absurd (mem_of_aliasOf halias) hp
  have hchain : Forest.ancestor (aliasOf r.rows) 9 call.predicate = some "p9" := by decide
  have hactive : IsActive r.rows "p9" := by decide
  have hmatched := (hall plainCanonicalizeEnv call r 9 "p9" hgrounded hchain hactive).1
  revert hmatched
  decide

end Brain
