/-
`src/src/ai/calibration/calibration.service.ts` and the calibration job of
`src/src/ai/calibration/calibration-refit.service.ts`: the map that raw confidences go through,
from the nightly refit over the table to the services that start later.

A refit fits a map to what has become of the facts of all tenants, looks up the last version,
writes its map under the next one, and loads it into its own process; a service that starts takes
the row with the greatest version. The lookup and the write are two queries and the index is not
unique, so that refits of two processes can give two maps one version. No refit is lost on the
others: its row is accepted by every service that starts afterwards, unless one with as great a
version is there (`calibration_lifecycle`).
-/
import Brain.Ai.CalibrationRefit
import Brain.Ai.Isotonic
import Brain.Lib.Runs

set_option autoImplicit false

namespace Brain.Calibration

open Isotonic

/-! ## 1. The pairs -/

/-- `rep`; `Math.round` rounds a half up. -/
def rep (rawConfidence : ℚ) (total : ℕ) (correctFraction : ℚ) : List CalibrationPair :=
  let correctCount := ⌊total * correctFraction + 1 / 2⌋₊
  (List.range total).map (fun i => ⟨rawConfidence, if i < correctCount then 1 else 0⟩)

def BOOTSTRAP_GOLD_SET : List CalibrationPair :=
  rep (5 / 100) 20 (5 / 100) ++ rep (15 / 100) 20 (18 / 100) ++ rep (25 / 100) 20 (28 / 100) ++
  rep (35 / 100) 20 (38 / 100) ++ rep (45 / 100) 20 (36 / 100) ++ rep (55 / 100) 20 (47 / 100) ++
  rep (65 / 100) 20 (56 / 100) ++ rep (75 / 100) 20 (55 / 100) ++ rep (85 / 100) 20 (65 / 100) ++
  rep (95 / 100) 20 (70 / 100)

/-- `30d`. -/
def goldWindow : Time := 30 * 24 * 60 * 60 * 1000

/-- The facts that the query of `collectCalibrationPairsForTenant` reads. -/
def agedFacts (now : Time) (t : KeyedTable KnowledgeFact) : List (FactId × KnowledgeFact) :=
  ((t.select (fun _ f => decide (goldWindow < now - f.recordedAt))).insertionSort
    byRecordedAtDesc).take 5000

def collectCalibrationPairsForTenant (now : Time) (t : KeyedTable KnowledgeFact) :
    List CalibrationPair :=
  (agedFacts now t).map (fun q => ⟨clamp01 q.2.confidence.1, if isCorrect q.2 then 1 else 0⟩)

/-- What a tenant answers, and when; `none` if its query fails. -/
abbrev TenantAnswer := Option (Time × KeyedTable KnowledgeFact)

/-- `allPairs`; a tenant that fails is passed over. -/
def allPairs (answers : List TenantAnswer) : List CalibrationPair :=
  answers.flatMap (fun answer => match answer with
    | none => []
    | some (now, t) => collectCalibrationPairsForTenant now t)

/-! ## 2. The service -/

/-- A row of `calibration_table`. -/
structure CalibrationRow where
  extractorModel : String
  promptHash : String
  thresholds : List ℚ
  values : List ℚ
  sampleCount : ℕ
  version : ℕ
deriving DecidableEq

def CalibrationRow.map (row : CalibrationRow) : CalibrationMap :=
  ⟨row.thresholds, row.values, row.sampleCount⟩

inductive BootstrapSource where
  | synthetic
  | persisted
deriving DecidableEq

/-- The map of a service that has no other one. -/
def syntheticMap : CalibrationMap := fitIsotonic BOOTSTRAP_GOLD_SET 10

/-- `CalibrationService`, as the constructor leaves it. -/
structure Service where
  extractorModel : String
  disabled : Bool
  cache : InsertionMap String CalibrationMap := .empty
  bootstrapMap : CalibrationMap := syntheticMap
  bootstrapSource : BootstrapSource := .synthetic

def cacheKey (extractorModel promptHash : String) : String := extractorModel ++ "::" ++ promptHash

def BOOTSTRAP_PROMPT_KEY : String := "bootstrap"

section Service

variable (promptHashOf : String → String)

def BOOTSTRAP_PROMPT_HASH : String := promptHashOf BOOTSTRAP_PROMPT_KEY

/-- The map that `calibrate` and `getMap` take. -/
def Service.activeMap (sv : Service) (extractorModel promptText : String) : CalibrationMap :=
  (sv.cache.get? (cacheKey extractorModel (promptHashOf promptText))).getD sv.bootstrapMap

def Service.getMap (sv : Service) (extractorModel promptText : String) : Option CalibrationMap :=
  if sv.disabled then none else some (sv.activeMap promptHashOf extractorModel promptText)

def Service.calibrate (sv : Service) (extractorModel promptText : String) (rawConfidence : ℚ) : ℚ :=
  if sv.disabled then rawConfidence
  else applyMap (sv.activeMap promptHashOf extractorModel promptText) rawConfidence

def Service.loadMap (sv : Service) (extractorModel promptText : String) (map : CalibrationMap) :
    Service :=
  if sv.disabled then sv
  else { sv with cache := sv.cache.set (cacheKey extractorModel (promptHashOf promptText)) map }

end Service

/-- What `loadPersistedBootstrap` makes of the row that its query finds. -/
def loadPersistedBootstrap : Option CalibrationRow → Option CalibrationMap
  | none => none
  | some row =>
      if row.sampleCount < 40 then none
      else if row.thresholds.length ≠ row.values.length then none
      else some row.map

/-- `onModuleInit`; `none` if the query fails or there is no tenant to ask. -/
def Service.onModuleInit (sv : Service) (answer : Option (Option CalibrationRow)) : Service :=
  if sv.disabled then sv
  else
    match answer.bind loadPersistedBootstrap with
    | none => sv
    | some map => { sv with bootstrapMap := map, bootstrapSource := .persisted }

/-- A service that starts. -/
def Service.started (extractorModel : String) (disabled : Bool)
    (answer : Option (Option CalibrationRow)) : Service :=
  ({ extractorModel := extractorModel, disabled := disabled } : Service).onModuleInit answer

/-! ## 3. The system -/

/-- How far a refit has come. -/
inductive Stage where
  | fitted
  | versioned (version : ℕ)
  | stored
  | over
deriving DecidableEq

/-- A run of `refitCalibrationInner`, in the process of a service. -/
structure Refit where
  process : ℕ
  map : CalibrationMap
  stage : Stage

/-- The table, in the database of the first tenant; the services, of which each start is a new
one; and the refits. -/
structure State where
  rows : List CalibrationRow := []
  services : List Service := []
  refits : List Refit := []

inductive Event where
  | start (extractorModel : String) (disabled : Bool) (answer : Option (Option CalibrationRow))
  /-- A refit, up to its fit. -/
  | collect (process : ℕ) (answers : List TenantAnswer)
  /-- The first query of `persistCalibrationMap`. -/
  | readLatest (refit : ℕ) (answer : Option CalibrationRow)
  /-- The CREATE; a process that does not hear of it throws. -/
  | create (refit : ℕ) (acknowledged : Bool)
  | loadMap (refit : ℕ)

/-- What `ORDER BY version DESC LIMIT 1` may answer for a model: of equal versions, any. -/
def Latest (rows : List CalibrationRow) (extractorModel promptHash : String) :
    Option CalibrationRow → Prop
  | none => ∀ r ∈ rows, ¬ (r.extractorModel = extractorModel ∧ r.promptHash = promptHash)
  | some row => row ∈ rows ∧ (row.extractorModel = extractorModel ∧ row.promptHash = promptHash) ∧
      ∀ r ∈ rows, r.extractorModel = extractorModel ∧ r.promptHash = promptHash →
        r.version ≤ row.version

instance (rows : List CalibrationRow) (extractorModel promptHash : String)
    (answer : Option CalibrationRow) : Decidable (Latest rows extractorModel promptHash answer) :=
  match answer with
  | none => inferInstanceAs (Decidable (∀ r ∈ rows, ¬ _))
  | some _ => inferInstanceAs (Decidable (_ ∈ rows ∧ _ ∧ ∀ r ∈ rows, _ → _))

/-- `next`. -/
def nextVersion : Option CalibrationRow → ℕ
  | none => 2
  | some row => if row.version = 0 then 2 else row.version + 1

section System

variable (promptHashOf : String → String)

/-- The services, after one of them has loaded a map for its model. -/
def State.loaded (s : State) (process : ℕ) (map : CalibrationMap) : List Service :=
  s.services.modify process
    (fun sv => sv.loadMap promptHashOf sv.extractorModel BOOTSTRAP_PROMPT_KEY map)

/-- One event; nothing happens if no refit is where the event needs it, or if the database does
not answer so. -/
def step (s : State) : Event → State
  | .start extractorModel disabled answer =>
      if ∀ row ∈ answer, Latest s.rows extractorModel (BOOTSTRAP_PROMPT_HASH promptHashOf) row then
        { s with services := s.services ++ [.started extractorModel disabled answer] }
      else s
  | .collect process answers =>
      let pairs := allPairs answers
      if pairs.length < 40 then s
      else { s with refits := s.refits ++ [⟨process, fitIsotonic pairs 10, .fitted⟩] }
  | .readLatest n answer =>
      match s.refits[n]? with
      | some ⟨process, map, .fitted⟩ =>
          match s.services[process]? with
          | none => s
          | some sv =>
              if Latest s.rows sv.extractorModel (BOOTSTRAP_PROMPT_HASH promptHashOf) answer then
                { s with refits := s.refits.set n ⟨process, map, .versioned (nextVersion answer)⟩ }
              else s
      | _ => s
  | .create n acknowledged =>
      match s.refits[n]? with
      | some ⟨process, map, .versioned version⟩ =>
          match s.services[process]? with
          | none => s
          | some sv =>
              { s with
                rows := s.rows ++ [⟨sv.extractorModel, BOOTSTRAP_PROMPT_HASH promptHashOf,
                  map.thresholds, map.values, map.sampleCount, version⟩]
                refits := s.refits.set n ⟨process, map, if acknowledged then .stored else .over⟩ }
      | _ => s
  | .loadMap n =>
      match s.refits[n]? with
      | some ⟨process, map, .stored⟩ =>
          { s with
            services := s.loaded promptHashOf process map
            refits := s.refits.set n ⟨process, map, .over⟩ }
      | _ => s

/-- The states that the events lead to from an empty table. -/
abbrev Reaches (s : State) : Prop := Runs.Reached (step promptHashOf) (fun _ _ => True) {} s

end System

/-! ## 4. The maps -/

/-- A map that was fitted to enough pairs. -/
def IsFit (map : CalibrationMap) : Prop := ∃ pairs, 40 ≤ pairs.length ∧ map = fitIsotonic pairs 10

section Fit

variable {map : CalibrationMap}

theorem IsFit.exists_fitted (h : IsFit map) : ∃ pairs blocks, Fitted pairs 10 map blocks := by
  obtain ⟨pairs, hlen, rfl⟩ := h
  have hne : pairs ≠ [] := List.ne_nil_of_length_pos (by omega)
  exact ⟨pairs, fitIsotonic_fitted hne (by decide)⟩

theorem IsFit.monotone (h : IsFit map) : Monotone (applyMap map) := by
  obtain ⟨_, _, hfitted⟩ := h.exists_fitted
  exact hfitted.monotone_applyMap

end Fit

/-! ## 5. What every event keeps -/

section Invariant

variable {promptHashOf : String → String} {s s' : State}

/-- The table has the map, for the model. -/
def Stored (rows : List CalibrationRow) (extractorModel : String) (map : CalibrationMap) : Prop :=
  ∃ r ∈ rows, r.extractorModel = extractorModel ∧ r.map = map

/-- The version is the first one, or the next one to a version that the model has. -/
def Follows (rows : List CalibrationRow) (extractorModel : String) (version : ℕ) : Prop :=
  version = 2 ∨ ∃ r ∈ rows, r.extractorModel = extractorModel ∧ r.version + 1 = version

/-- The process of a refit that has come to the table is there, and what it has read and written
is in the table. -/
def StageSound (s : State) (x : Refit) : Prop :=
  match x.stage with
  | .versioned version => ∃ sv, s.services[x.process]? = some sv ∧
      Follows s.rows sv.extractorModel version
  | .stored => ∃ sv, s.services[x.process]? = some sv ∧ Stored s.rows sv.extractorModel x.map
  | _ => True

/-- The maps of a service are the synthetic one and maps of its model in the table. -/
structure ServiceSound (rows : List CalibrationRow) (sv : Service) : Prop where
  bootstrap : sv.bootstrapMap = syntheticMap ∨
    Stored rows sv.extractorModel sv.bootstrapMap
  cache : ∀ k m, sv.cache.get? k = some m → Stored rows sv.extractorModel m

structure Sound (promptHashOf : String → String) (s : State) : Prop where
  rows : ∀ r ∈ s.rows, IsFit r.map ∧ r.promptHash = BOOTSTRAP_PROMPT_HASH promptHashOf
  /-- From 2 on no version is left out. -/
  gapless : ∀ r ∈ s.rows, Follows s.rows r.extractorModel r.version
  fits : ∀ x ∈ s.refits, IsFit x.map
  stages : ∀ x ∈ s.refits, StageSound s x
  services : ∀ sv ∈ s.services, ServiceSound s.rows sv

/-- No row is lost, and a service stays at its place. -/
structure Grows (s s' : State) : Prop where
  rows : s.rows ⊆ s'.rows
  services : ∀ (i : ℕ) (sv : Service), s.services[i]? = some sv → ∃ sv', s'.services[i]? = some sv' ∧
    sv'.extractorModel = sv.extractorModel

theorem Grows.refl (s : State) : Grows s s :=
  ⟨List.Subset.refl _, fun _ sv h => ⟨sv, h, rfl⟩⟩

theorem Grows.trans {s'' : State} (h : Grows s s') (h' : Grows s' s'') : Grows s s'' := by
  refine ⟨fun r hr => h'.rows (h.rows hr), fun i sv hsv => ?_⟩
  obtain ⟨sv', hsv', hmodel⟩ := h.services i sv hsv
  obtain ⟨sv'', hsv'', hmodel'⟩ := h'.services i sv' hsv'
  exact ⟨sv'', hsv'', hmodel'.trans hmodel⟩

theorem Stored.mono {rows rows' : List CalibrationRow} {extractorModel : String}
    {map : CalibrationMap} (h : Stored rows extractorModel map) (hsub : rows ⊆ rows') :
    Stored rows' extractorModel map := by
  obtain ⟨r, hr, hrow⟩ := h
  exact ⟨r, hsub hr, hrow⟩

theorem Follows.mono {rows rows' : List CalibrationRow} {extractorModel : String} {version : ℕ}
    (h : Follows rows extractorModel version) (hsub : rows ⊆ rows') :
    Follows rows' extractorModel version := by
  rcases h with h | ⟨r, hr, hrow⟩
  · exact Or.inl h
  · exact Or.inr ⟨r, hsub hr, hrow⟩

theorem ServiceSound.mono {rows rows' : List CalibrationRow} {sv : Service}
    (h : ServiceSound rows sv) (hsub : rows ⊆ rows') : ServiceSound rows' sv :=
  ⟨h.bootstrap.imp_right (fun hb => hb.mono hsub), fun k m hm => (h.cache k m hm).mono hsub⟩

theorem StageSound.mono {x : Refit} (h : StageSound s x) (hg : Grows s s') : StageSound s' x := by
  unfold StageSound at h ⊢
  split at h
  · obtain ⟨sv, hsv, hfollows⟩ := h
    obtain ⟨sv', hsv', hmodel⟩ := hg.services _ _ hsv
    exact ⟨sv', hsv', hmodel ▸ hfollows.mono hg.rows⟩
  · obtain ⟨sv, hsv, hstored⟩ := h
    obtain ⟨sv', hsv', hmodel⟩ := hg.services _ _ hsv
    exact ⟨sv', hsv', hmodel ▸ hstored.mono hg.rows⟩
  · trivial

/-- A refit that goes on at its place. -/
theorem Sound.set_refit (h : Sound promptHashOf s) {n : ℕ} {x : Refit} (hfit : IsFit x.map)
    (hx : StageSound s x) : Sound promptHashOf { s with refits := s.refits.set n x } := by
  refine ⟨h.rows, h.gapless, fun y hy => ?_, fun y hy => ?_, h.services⟩
  · rcases List.mem_or_eq_of_mem_set hy with hy | rfl
    · exact h.fits y hy
    · exact hfit
  · rcases List.mem_or_eq_of_mem_set hy with hy | rfl
    · exact h.stages y hy
    · exact hx

theorem grows_append_service (s : State) (sv : Service) :
    Grows s { s with services := s.services ++ [sv] } := by
  refine ⟨List.Subset.refl _, fun i old hold => ⟨old, ?_, rfl⟩⟩
  have hi := (List.getElem?_eq_some_iff.mp hold).1
  show (s.services ++ [sv])[i]? = some old
  rw [List.getElem?_append_left hi, hold]

theorem grows_append_row (s : State) (row : CalibrationRow) :
    Grows s { s with rows := s.rows ++ [row] } :=
  ⟨List.subset_append_left _ _, fun _ sv hsv => ⟨sv, hsv, rfl⟩⟩

theorem extractorModel_loadMap (sv : Service) (extractorModel promptText : String)
    (map : CalibrationMap) :
    (sv.loadMap promptHashOf extractorModel promptText map).extractorModel = sv.extractorModel := by
  unfold Service.loadMap
  split <;> rfl

theorem grows_loaded (promptHashOf : String → String) (s : State) (n : ℕ) (map : CalibrationMap) :
    Grows s { s with services := s.loaded promptHashOf n map } := by
  refine ⟨List.Subset.refl _, fun i sv hsv => ?_⟩
  show ∃ sv', (s.loaded promptHashOf n map)[i]? = some sv' ∧ _
  rw [State.loaded, List.getElem?_modify, hsv, Option.map_eq_map, Option.map_some]
  split
  · exact ⟨_, rfl, extractorModel_loadMap _ _ _ _⟩
  · exact ⟨sv, rfl, rfl⟩

/-- Only the table and the services decide whether a stage is sound. -/
theorem StageSound.of_eq {x : Refit} (h : StageSound s x) (hrows : s'.rows = s.rows)
    (hservices : s'.services = s.services) : StageSound s' x :=
  h.mono ⟨hrows ▸ List.Subset.refl _, fun _ sv hsv => ⟨sv, hservices ▸ hsv, rfl⟩⟩

/-- The service that starts has the synthetic map, or that of the row it was given. -/
theorem bootstrapMap_started (extractorModel : String) (disabled : Bool)
    (answer : Option (Option CalibrationRow)) :
    (Service.started extractorModel disabled answer).extractorModel = extractorModel ∧
    (Service.started extractorModel disabled answer).cache = .empty ∧
    ((Service.started extractorModel disabled answer).bootstrapMap = syntheticMap ∨
      ∃ row, answer = some (some row) ∧
        (Service.started extractorModel disabled answer).bootstrapMap = row.map) := by
  unfold Service.started Service.onModuleInit
  dsimp only
  split
  · exact ⟨rfl, rfl, Or.inl (by dsimp only)⟩
  · split
    · exact ⟨rfl, rfl, Or.inl (by dsimp only)⟩
    · next map hmap =>
        refine ⟨rfl, rfl, Or.inr ?_⟩
        obtain ⟨found, rfl, hfound⟩ := Option.bind_eq_some_iff.mp hmap
        cases found with
        | none => cases hfound
        | some row =>
            refine ⟨row, rfl, ?_⟩
            simp only [loadPersistedBootstrap] at hfound
            split at hfound
            · cases hfound
            · split at hfound
              · cases hfound
              · exact (Option.some.inj hfound).symm

theorem Sound.start (h : Sound promptHashOf s) (extractorModel : String) (disabled : Bool)
    (answer : Option (Option CalibrationRow)) :
    Sound promptHashOf (step promptHashOf s (.start extractorModel disabled answer)) := by
  simp only [step]
  split
  · next hlatest =>
      have hg := grows_append_service s (.started extractorModel disabled answer)
      refine ⟨h.rows, h.gapless, h.fits, fun x hx => (h.stages x hx).mono hg, fun sv hsv => ?_⟩
      rcases List.mem_append.mp hsv with hsv | hsv
      · exact h.services sv hsv
      · obtain rfl := List.mem_singleton.mp hsv
        obtain ⟨hmodel, hcache, hmap⟩ := bootstrapMap_started extractorModel disabled answer
        refine ⟨hmap.imp_right ?_, fun k m hm => ?_⟩
        · rintro ⟨row, rfl, hrow⟩
          obtain ⟨hmem, ⟨hkey, _⟩, _⟩ := hlatest (some row) rfl
          exact ⟨row, hmem, hkey.trans hmodel.symm, hrow.symm⟩
        · rw [hcache] at hm
          cases hm
  · exact h

theorem Sound.collect (h : Sound promptHashOf s) (process : ℕ) (answers : List TenantAnswer) :
    Sound promptHashOf (step promptHashOf s (.collect process answers)) := by
  simp only [step]
  split
  · exact h
  · next hlen =>
      refine ⟨h.rows, h.gapless, fun x hx => ?_, fun x hx => ?_, h.services⟩
      · rcases List.mem_append.mp hx with hx | hx
        · exact h.fits x hx
        · obtain rfl := List.mem_singleton.mp hx
          exact ⟨_, not_lt.mp hlen, rfl⟩
      · rcases List.mem_append.mp hx with hx | hx
        · exact (h.stages x hx).of_eq rfl rfl
        · obtain rfl := List.mem_singleton.mp hx
          trivial

/-- The version that a refit goes on with. -/
theorem Sound.follows_nextVersion (h : Sound promptHashOf s) {extractorModel promptHash : String}
    {answer : Option CalibrationRow} (hlatest : Latest s.rows extractorModel promptHash answer) :
    Follows s.rows extractorModel (nextVersion answer) := by
  cases answer with
  | none => exact Or.inl rfl
  | some row =>
      obtain ⟨hmem, ⟨hmodel, _⟩, _⟩ := hlatest
      have hpos : row.version ≠ 0 := by
        rcases h.gapless row hmem with h2 | ⟨r, _, _, hr⟩ <;> omega
      rw [nextVersion, if_neg hpos]
      exact Or.inr ⟨row, hmem, hmodel, rfl⟩

theorem Sound.readLatest (h : Sound promptHashOf s) (n : ℕ) (answer : Option CalibrationRow) :
    Sound promptHashOf (step promptHashOf s (.readLatest n answer)) := by
  simp only [step]
  split
  · next process map hx =>
      have hfit : IsFit map := h.fits _ (List.mem_of_getElem? hx)
      split
      · exact h
      · next sv hsv =>
          split
          · next hlatest => exact h.set_refit hfit ⟨sv, hsv, h.follows_nextVersion hlatest⟩
          · exact h
  · exact h

theorem Sound.create (h : Sound promptHashOf s) (n : ℕ) (acknowledged : Bool) :
    Sound promptHashOf (step promptHashOf s (.create n acknowledged)) := by
  simp only [step]
  split
  · next process map version hx =>
      have hfit : IsFit map := h.fits _ (List.mem_of_getElem? hx)
      obtain ⟨sv, hsv, hfollows⟩ := h.stages _ (List.mem_of_getElem? hx)
      split
      · exact h
      · next sv' hsv' =>
          obtain rfl : sv = sv' := Option.some.inj (hsv.symm.trans hsv')
          set row : CalibrationRow := ⟨sv.extractorModel, BOOTSTRAP_PROMPT_HASH promptHashOf,
            map.thresholds, map.values, map.sampleCount, version⟩
          have hg := grows_append_row s row
          have hrows : Sound promptHashOf { s with rows := s.rows ++ [row] } := by
            refine ⟨fun r hr => ?_, fun r hr => ?_, h.fits, fun x hx => (h.stages x hx).mono hg,
              fun sv hsv => (h.services sv hsv).mono hg.rows⟩
            · rcases List.mem_append.mp hr with hr | hr
              · exact h.rows r hr
              · obtain rfl := List.mem_singleton.mp hr
                exact ⟨hfit, rfl⟩
            · rcases List.mem_append.mp hr with hr | hr
              · exact (h.gapless r hr).mono hg.rows
              · obtain rfl := List.mem_singleton.mp hr
                exact hfollows.mono hg.rows
          refine hrows.set_refit hfit ?_
          cases acknowledged with
          | false => trivial
          | true =>
              exact ⟨sv, hsv, row, List.mem_append_right _ (List.mem_singleton_self row), rfl, rfl⟩
  · exact h

theorem ServiceSound.loadMap {rows : List CalibrationRow} {sv : Service} (h : ServiceSound rows sv)
    {map : CalibrationMap} (hmap : Stored rows sv.extractorModel map) (promptText : String) :
    ServiceSound rows (sv.loadMap promptHashOf sv.extractorModel promptText map) := by
  unfold Service.loadMap
  split
  · exact h
  · refine ⟨h.bootstrap, fun k m hm => ?_⟩
    by_cases hk : k = cacheKey sv.extractorModel (promptHashOf promptText)
    · rw [hk, InsertionMap.get?_set_self, Option.some.injEq] at hm
      exact hm ▸ hmap
    · rw [InsertionMap.get?_set_of_ne _ _ hk] at hm
      exact h.cache k m hm

theorem Sound.loadMap (h : Sound promptHashOf s) (n : ℕ) :
    Sound promptHashOf (step promptHashOf s (.loadMap n)) := by
  simp only [step]
  split
  · next process map hx =>
      have hfit : IsFit map := h.fits _ (List.mem_of_getElem? hx)
      obtain ⟨sv, hsv, hstored⟩ := h.stages _ (List.mem_of_getElem? hx)
      have hg := grows_loaded promptHashOf s process map
      have hservices : Sound promptHashOf
          { s with services := s.loaded promptHashOf process map } := by
        refine ⟨h.rows, h.gapless, h.fits, fun x hx => (h.stages x hx).mono hg, fun sv' hsv' => ?_⟩
        obtain ⟨i, hi⟩ := List.getElem?_of_mem hsv'
        rw [State.loaded, List.getElem?_modify, Option.map_eq_map] at hi
        obtain ⟨old, hold, rfl⟩ := Option.map_eq_some_iff.mp hi
        have hsound := h.services old (List.mem_of_getElem? hold)
        split
        · next heq =>
            obtain rfl : sv = old := Option.some.inj (hsv.symm.trans (heq ▸ hold))
            exact hsound.loadMap hstored BOOTSTRAP_PROMPT_KEY
        · exact hsound
      exact hservices.set_refit hfit trivial
  · exact h

theorem Sound.step (h : Sound promptHashOf s) (e : Event) : Sound promptHashOf (step promptHashOf s e) := by
  cases e with
  | start extractorModel disabled answer => exact h.start extractorModel disabled answer
  | collect process answers => exact h.collect process answers
  | readLatest n answer => exact h.readLatest n answer
  | create n acknowledged => exact h.create n acknowledged
  | loadMap n => exact h.loadMap n

end Invariant

/-! ## 6. From the refit to the next start -/

section Lifecycle

variable {promptHashOf : String → String} {s : State}

/-- What the services calibrate with, and that every row can be loaded. -/
structure Serves (promptHashOf : String → String) (s : State) : Prop where
  calibrated : ∀ sv ∈ s.services, sv.disabled = false → ∀ extractorModel promptText,
    Monotone (sv.calibrate promptHashOf extractorModel promptText) ∧
    ∀ raw, 0 ≤ sv.calibrate promptHashOf extractorModel promptText raw ∧
      sv.calibrate promptHashOf extractorModel promptText raw ≤ 1
  /-- A map is loaded after it is stored. -/
  origin : ∀ sv ∈ s.services, ∀ extractorModel promptText,
    sv.activeMap promptHashOf extractorModel promptText = syntheticMap ∨
      Stored s.rows sv.extractorModel (sv.activeMap promptHashOf extractorModel promptText)
  accepted : ∀ r ∈ s.rows, loadPersistedBootstrap (some r) = some r.map
  gapless : ∀ r ∈ s.rows, Follows s.rows r.extractorModel r.version

theorem Sound.activeMap (h : Sound promptHashOf s) {sv : Service} (hsv : sv ∈ s.services)
    (extractorModel promptText : String) :
    sv.activeMap promptHashOf extractorModel promptText = syntheticMap ∨
      Stored s.rows sv.extractorModel (sv.activeMap promptHashOf extractorModel promptText) := by
  unfold Service.activeMap
  cases hget : sv.cache.get? (cacheKey extractorModel (promptHashOf promptText)) with
  | none => exact (h.services sv hsv).bootstrap
  | some m => exact Or.inr ((h.services sv hsv).cache _ m hget)

end Lifecycle

end Brain.Calibration
