/-
Who may call: the static keys (`src/src/auth/api-key.service.ts`), the tokens of the
auth service (`jwks.service.ts`), the guard that asks both (`api-key.guard.ts`), and
the boot that puts the three together.

The framework constructs all providers, each after those it is injected with, and
then calls the `onModuleInit` of those that have one. The guard decides in its
constructor whether static keys are accepted, by asking whether the verifier is
enabled; the verifier is enabled by its hook. A service that is injected is the
object itself, so what a hook changes in it the guard sees later; what the guard has
computed from it stays.
-/
import Brain.Lib.InsertionMap
import Brain.Lib.JsString
import Mathlib.Data.List.Permutation

set_option autoImplicit false

namespace Brain.Auth

/-! ## What is not of the repository -/

/-- `ApiKeyRecord`. -/
structure ApiKeyRecord where
  keyHash : String
  companyId : String
  scopes : List String
deriving DecidableEq, Repr

/-- An entry of `BRAIN_API_KEYS` as it is parsed; a field that is missing, or is not of
the type that it is used as, is `none`. -/
structure RawKey where
  keyHash : Option String
  companyId : Option String
  scopes : Option (List String)

/-- `JWTPayload`, the claims that are read; what is not a string is `none`. -/
structure JwtPayload where
  sub : Option String
  jti : Option String := none
  scopes : Option (List (Option String)) := none
  scope : Option String := none

/-- `createRemoteJWKSet` and what `jwtVerify` is called with. -/
structure JwksSettings where
  url : String
  issuer : Option String
  audience : String
deriving DecidableEq, Repr

/-- The libraries: `node:crypto`, `JSON.parse`, `URL`, `jose`. A token is verified at a
time, against the keys that the auth service has then. -/
structure AuthLibs where
  /-- The SHA-256 digest in hex. -/
  sha256 : String → String
  parseKeys : String → Except String (List RawKey)
  isUrl : String → Bool
  jwtVerify : JwksSettings → ℕ → String → Option JwtPayload

/-- The environment, through `ConfigService.get`. -/
abbrev Config := String → Option String

/-! ## Static keys -/

/-- `ApiKeyService`. -/
structure ApiKeyService where
  byHash : InsertionMap String ApiKeyRecord := .empty

/-- `ApiKeyService.hash`. -/
def ApiKeyService.hash (libs : AuthLibs) (plaintext : String) : String :=
  "sha256:" ++ libs.sha256 plaintext

/-- A string that is not empty. -/
def nonEmpty (s : Option String) : Option String := s.filter (fun s => !s.isEmpty)

/-- `/^sha256:[0-9a-f]{64}$/`. -/
def isKeyHash (s : List Char) : Bool :=
  let isHex (c : Char) : Bool := c.isDigit || (decide ('a' ≤ c) && decide (c ≤ 'f'))
  s.take 7 == "sha256:".toList && decide (s.length = 71) && (s.drop 7).all isHex

/-- One entry of the loop of `onModuleInit`. -/
def loadKey (byHash : InsertionMap String ApiKeyRecord) (k : RawKey) :
    Except String (InsertionMap String ApiKeyRecord) :=
  match nonEmpty k.keyHash, nonEmpty k.companyId, k.scopes with
  | some keyHash, some companyId, some scopes =>
      let normalised := asciiLower keyHash.toList
      if isKeyHash normalised then
        .ok (byHash.set (String.ofList normalised)
          { keyHash := keyHash, companyId := companyId, scopes := scopes })
      else
        .error ("BRAIN_API_KEYS entry has malformed keyHash (expected 'sha256:' + 64 hex chars): "
          ++ "companyId=" ++ companyId)
  | _, _, _ =>
      .error "BRAIN_API_KEYS entry missing required fields (keyHash, companyId, scopes)"

/-- `ApiKeyService.onModuleInit`. -/
def ApiKeyService.onModuleInit (libs : AuthLibs) (cfg : Config) (service : ApiKeyService) :
    Except String ApiKeyService :=
  match libs.parseKeys ((cfg "BRAIN_API_KEYS").getD "[]") with
  | .error m => .error ("BRAIN_API_KEYS is not valid JSON: " ++ m)
  | .ok keys =>
      match keys.foldlM loadKey service.byHash with
      | .error m => .error m
      | .ok byHash => .ok { byHash := byHash }

/-- `ApiKeyService.resolve`. -/
def ApiKeyService.resolve (libs : AuthLibs) (service : ApiKeyService) (plaintext : String) :
    Option ApiKeyRecord :=
  service.byHash.get? (String.ofList (asciiLower (ApiKeyService.hash libs plaintext).toList))

/-! ## Tokens of the auth service -/

/-- `JwksService`. -/
structure JwksService where
  jwks : Option JwksSettings := none

/-- `JwksService.onModuleInit`. -/
def JwksService.onModuleInit (libs : AuthLibs) (cfg : Config) (service : JwksService) :
    Except String JwksService :=
  match nonEmpty (cfg "AUTH_SERVICE_JWKS_URL") with
  | none => .ok service
  | some url =>
      if libs.isUrl url then
        .ok { jwks := some { url := url, issuer := cfg "AUTH_SERVICE_ISSUER",
                             audience := (cfg "AUTH_SERVICE_AUDIENCE").getD "brain" } }
      else .error "Invalid URL"

/-- `JwksService.enabled`. -/
def JwksService.enabled (service : JwksService) : Bool := service.jwks.isSome

/-- `VALID_SCOPES`. -/
def VALID_SCOPES : List String := ["brain:read", "brain:write", "brain:admin", "brain:read_pii"]

/-- The characters of a token and of a company's identifier. -/
def isSlugChar (c : Char) : Bool := c.isAlphanum || c == '_' || c == '-'

/-- `VALID_COMPANY_ID`. -/
def isCompanyId (s : String) : Bool :=
  decide (1 ≤ s.toList.length) && decide (s.toList.length ≤ 64) && s.toList.all isSlugChar

/-- `extractScopes`. -/
def extractScopes (payload : JwtPayload) : List String :=
  match payload.scopes, payload.scope with
  -- an array wins over a string; what is not a string in it is dropped
  | some scopes, _ => scopes.filterMap id
  | none, some scope =>
      ((scope.toList.splitOn ' ').map String.ofList).filter (fun s => !s.isEmpty)
  | none, none => []

/-- What `verify` makes of the payload of a token that `jwtVerify` accepts. -/
def recordOfPayload (payload : JwtPayload) : Option ApiKeyRecord :=
  match nonEmpty payload.sub with
  | none => none
  | some companyId =>
      let scopes := (extractScopes payload).filter VALID_SCOPES.contains
      if isCompanyId companyId = false then none
      else if scopes.isEmpty then none
      else some { keyHash := "jwt:" ++ (payload.jti.getD companyId), companyId := companyId,
                  scopes := scopes }

/-- `JwksService.verify`. -/
def JwksService.verify (libs : AuthLibs) (service : JwksService) (at_ : ℕ) (token : String) :
    Option ApiKeyRecord :=
  service.jwks.bind (fun settings => (libs.jwtVerify settings at_ token).bind recordOfPayload)

/-! ## The guard -/

/-- `ApiKeyGuard`; the two services it is injected with stand next to it in `App`. -/
structure ApiKeyGuard where
  staticAllowed : Bool

/-- The constructor of `ApiKeyGuard`. -/
def ApiKeyGuard.construct (cfg : Config) (jwks : JwksService) : ApiKeyGuard where
  staticAllowed := !((cfg "NODE_ENV").getD "development" == "production" && jwks.enabled)

/-- `JWT_SHAPE`. -/
def isJwtShape (token : String) : Bool :=
  let parts := token.toList.splitOn '.'
  decide (parts.length = 3) && parts.all (fun p => !p.isEmpty && p.all isSlugChar)

/-- What the guard reads of a request, and the scopes that the handler requires. -/
structure Request where
  authorization : Option String
  at_ : ℕ
  required : List String

/-- What the guard throws. -/
inductive AuthError where
  | unauthorized (message : String)
  | forbidden (message : String)
deriving DecidableEq, Repr

/-- The token of the header, if it has one. -/
def bearerToken (header : Option String) : Option String :=
  match header with
  | none => none
  | some header =>
      if asciiLower (header.toList.take 7) = "bearer ".toList then
        some (String.ofList (trim (header.toList.drop 7)))
      else none

/-- The providers of `AuthModule`, as the guard sees them when a request arrives. -/
structure Running where
  apiKeys : ApiKeyService
  jwks : JwksService
  guard : ApiKeyGuard

/-- The record that a token gets from the auth service. -/
def Running.jwtRecord (libs : AuthLibs) (app : Running) (at_ : ℕ) (token : String) :
    Option ApiKeyRecord :=
  if app.jwks.enabled && isJwtShape token then app.jwks.verify libs at_ token else none

/-- The record that it gets from the static map. -/
def Running.staticRecord (libs : AuthLibs) (app : Running) (token : String) :
    Option ApiKeyRecord :=
  if app.guard.staticAllowed then app.apiKeys.resolve libs token else none

/-- `canActivate`; the record is what it writes to `brainAuth`. -/
def Running.canActivate (libs : AuthLibs) (app : Running) (req : Request) :
    Except AuthError ApiKeyRecord :=
  match bearerToken req.authorization with
  | none => .error (.unauthorized "Missing or malformed Authorization header")
  | some token =>
      -- a token that the auth service does not vouch for falls through to the static map
      match (app.jwtRecord libs req.at_ token).or (app.staticRecord libs token) with
      | none => .error (.unauthorized "Invalid credentials")
      | some record =>
          match req.required.find? (fun s => !record.scopes.contains s) with
          | some s => .error (.forbidden ("Scope " ++ s ++ " required"))
          | none => .ok record

/-! ## The boot -/

/-- The providers of `AuthModule`. -/
inductive Provider where
  | apiKeyService | jwksService | apiKeyGuard
deriving DecidableEq, Repr

inductive BootStep where
  | construct (p : Provider)
  | onModuleInit (p : Provider)
deriving DecidableEq, Repr

/-- The instances there are in the course of the boot. -/
structure App where
  apiKeys : Option ApiKeyService := none
  jwks : Option JwksService := none
  guard : Option ApiKeyGuard := none

/-- One step. An instance is constructed from those it is injected with; a hook is
called on an instance, if its class has one. -/
def bootStep (libs : AuthLibs) (cfg : Config) (app : App) : BootStep → Except String App
  | .construct .apiKeyService => .ok { app with apiKeys := some {} }
  | .construct .jwksService => .ok { app with jwks := some {} }
  | .construct .apiKeyGuard =>
      match app.apiKeys, app.jwks with
      | some _, some jwks => .ok { app with guard := some (.construct cfg jwks) }
      | _, _ => .error "Nest can't resolve dependencies of the ApiKeyGuard"
  | .onModuleInit .apiKeyService =>
      match app.apiKeys with
      | none => .error "no instance"
      | some service =>
          match service.onModuleInit libs cfg with
          | .error m => .error m
          | .ok service => .ok { app with apiKeys := some service }
  | .onModuleInit .jwksService =>
      match app.jwks with
      | none => .error "no instance"
      | some service =>
          match service.onModuleInit libs cfg with
          | .error m => .error m
          | .ok service => .ok { app with jwks := some service }
  | .onModuleInit .apiKeyGuard => .ok app

/-- The boot: requests are served once all its steps have succeeded. -/
def boot (libs : AuthLibs) (cfg : Config) (steps : List BootStep) : Except String App :=
  steps.foldlM (bootStep libs cfg) {}

/-- The providers are there. -/
def App.running (app : App) : Option Running :=
  match app.apiKeys, app.jwks, app.guard with
  | some apiKeys, some jwks, some guard =>
      some { apiKeys := apiKeys, jwks := jwks, guard := guard }
  | _, _, _ => none

/-- The framework's lifecycle: every provider is constructed, in some order, and then
every hook is called, in some order. -/
def FrameworkOrder (steps : List BootStep) : Prop :=
  ∃ constructs hooks : List Provider, steps = constructs.map .construct ++ hooks.map .onModuleInit ∧
    constructs.Perm [.apiKeyService, .jwksService, .apiKeyGuard] ∧
    hooks.Perm [.apiKeyService, .jwksService]

/-! ## What a boot in that order makes of the guard -/

section Boot

variable {libs : AuthLibs} {cfg : Config} {app app' : App} {steps : List BootStep}

/-- A computation that succeeds, taken apart. -/
private theorem ok_of_bind {ε α β : Type} {x : Except ε α} {f : α → Except ε β} {r : β}
    (h : x >>= f = .ok r) : ∃ a, x = .ok a ∧ f a = .ok r := by
  cases x with
  | error e => cases h
  | ok a => exact ⟨a, rfl, h⟩

/-- No hook has been called yet: the verifier is off, no key is loaded, and a guard
accepts static keys. -/
structure Constructed (app : App) : Prop where
  apiKeys : ∀ service ∈ app.apiKeys, service = {}
  jwks : ∀ service ∈ app.jwks, service = {}
  guard : ∀ guard ∈ app.guard, guard = { staticAllowed := true }

/-- The guard that is constructed before the hook of the verifier. -/
theorem construct_of_disabled (cfg : Config) :
    ApiKeyGuard.construct cfg {} = { staticAllowed := true } := by
  have hoff : JwksService.enabled {} = false := rfl
  rw [ApiKeyGuard.construct, hoff, Bool.and_false, Bool.not_false]

theorem Constructed.step (h : Constructed app) (p : Provider)
    (hstep : bootStep libs cfg app (.construct p) = .ok app') : Constructed app' := by
  cases p with
  | apiKeyService =>
      cases hstep
      refine ⟨?_, h.jwks, h.guard⟩
      rintro service ⟨⟩
      rfl
  | jwksService =>
      cases hstep
      refine ⟨h.apiKeys, ?_, h.guard⟩
      rintro service ⟨⟩
      rfl
  | apiKeyGuard =>
      simp only [bootStep] at hstep
      split at hstep
      · next service hservice =>
          -- the guard reads `enabled` of a verifier whose hook has not run
          cases hstep
          refine ⟨h.apiKeys, h.jwks, ?_⟩
          rintro guard ⟨⟩
          rw [h.jwks _ hservice]
          exact construct_of_disabled cfg
      · cases hstep

/-- All constructors run. -/
theorem constructed_of_foldlM {constructs : List Provider} (h : Constructed app)
    (hrun : (constructs.map BootStep.construct).foldlM (bootStep libs cfg) app = .ok app') :
    Constructed app' := by
  induction constructs generalizing app with
  | nil =>
      cases hrun
      exact h
  | cons p constructs ih =>
      rw [List.map_cons, List.foldlM_cons] at hrun
      obtain ⟨next, hstep, hrun⟩ := ok_of_bind hrun
      exact ih (h.step p hstep) hrun

/-- The hook of the service for static keys changes that service only. -/
theorem apiKeys_hook (hstep : bootStep libs cfg app (.onModuleInit .apiKeyService) = .ok app') :
    ∃ before after, app.apiKeys = some before ∧ before.onModuleInit libs cfg = .ok after ∧
      app' = { app with apiKeys := some after } := by
  simp only [bootStep] at hstep
  split at hstep
  · cases hstep
  · next before hbefore =>
      split at hstep
      · cases hstep
      · next after hafter =>
          cases hstep
          exact ⟨before, after, hbefore, hafter, rfl⟩

/-- And the hook of the verifier changes the verifier only. -/
theorem jwks_hook (hstep : bootStep libs cfg app (.onModuleInit .jwksService) = .ok app') :
    ∃ before after, app.jwks = some before ∧ before.onModuleInit libs cfg = .ok after ∧
      app' = { app with jwks := some after } := by
  simp only [bootStep] at hstep
  split at hstep
  · cases hstep
  · next before hbefore =>
      split at hstep
      · cases hstep
      · next after hafter =>
          cases hstep
          exact ⟨before, after, hbefore, hafter, rfl⟩

/-- What is running after both hooks, in either order. -/
theorem running_of_hooks {hooks : List Provider} (h : Constructed app)
    (hperm : hooks.Perm [.apiKeyService, .jwksService])
    (hrun : (hooks.map BootStep.onModuleInit).foldlM (bootStep libs cfg) app = .ok app')
    {run : Running} (hrunning : app'.running = some run) :
    ApiKeyService.onModuleInit libs cfg {} = .ok run.apiKeys ∧
      JwksService.onModuleInit libs cfg {} = .ok run.jwks ∧
      run.guard = { staticAllowed := true } := by
  -- the two hooks write to different services, so their order does not matter
  have hend : ∃ keys jwks, ApiKeyService.onModuleInit libs cfg {} = .ok keys ∧
      JwksService.onModuleInit libs cfg {} = .ok jwks ∧
      app' = { app with apiKeys := some keys, jwks := some jwks } := by
    -- the two orders of two hooks
    rcases List.perm_pair.mp hperm with rfl | rfl
    · rw [List.map_cons, List.map_cons, List.map_nil, List.foldlM_cons] at hrun
      obtain ⟨mid, hfirst, hrun⟩ := ok_of_bind hrun
      rw [List.foldlM_cons] at hrun
      obtain ⟨last, hsecond, hrun⟩ := ok_of_bind hrun
      cases hrun
      obtain ⟨b, keys, hb, hkeys, rfl⟩ := apiKeys_hook hfirst
      obtain ⟨b', jwks, hb', hjwks, rfl⟩ := jwks_hook hsecond
      rw [h.apiKeys b hb] at hkeys
      rw [h.jwks b' hb'] at hjwks
      exact ⟨keys, jwks, hkeys, hjwks, rfl⟩
    · rw [List.map_cons, List.map_cons, List.map_nil, List.foldlM_cons] at hrun
      obtain ⟨mid, hfirst, hrun⟩ := ok_of_bind hrun
      rw [List.foldlM_cons] at hrun
      obtain ⟨last, hsecond, hrun⟩ := ok_of_bind hrun
      cases hrun
      obtain ⟨b, jwks, hb, hjwks, rfl⟩ := jwks_hook hfirst
      obtain ⟨b', keys, hb', hkeys, rfl⟩ := apiKeys_hook hsecond
      rw [h.apiKeys b' hb'] at hkeys
      rw [h.jwks b hb] at hjwks
      exact ⟨keys, jwks, hkeys, hjwks, rfl⟩
  obtain ⟨keys, jwks, hkeys, hjwks, rfl⟩ := hend
  simp only [App.running] at hrunning
  split at hrunning
  · next a j g ha hj hg =>
      cases hrunning
      cases ha
      cases hj
      exact ⟨hkeys, hjwks, h.guard g hg⟩
  · cases hrunning

/-- **The guard of every boot in the framework's order accepts static keys**, whatever
the environment says. -/
theorem running_of_boot (horder : FrameworkOrder steps) (hboot : boot libs cfg steps = .ok app)
    {run : Running} (hrunning : app.running = some run) :
    ApiKeyService.onModuleInit libs cfg {} = .ok run.apiKeys ∧
      JwksService.onModuleInit libs cfg {} = .ok run.jwks ∧
      run.guard = { staticAllowed := true } := by
  obtain ⟨constructs, hooks, rfl, _, hperm⟩ := horder
  rw [boot, List.foldlM_append] at hboot
  obtain ⟨mid, hmid, hboot⟩ := ok_of_bind hboot
  have hnew : Constructed {} := ⟨fun _ h => absurd h (Option.not_mem_none _),
    fun _ h => absurd h (Option.not_mem_none _), fun _ h => absurd h (Option.not_mem_none _)⟩
  exact running_of_hooks (constructed_of_foldlM hnew hmid) hperm hboot hrunning

end Boot

/-! ## Static keys in production -/

/-- The request is let through with a record of the static map: the auth service has
given none for its token. -/
def AuthenticatedStatically (libs : AuthLibs) (app : Running) (req : Request) : Prop :=
  ∃ token record, bearerToken req.authorization = some token ∧
    app.jwtRecord libs req.at_ token = none ∧ app.canActivate libs req = .ok record

/-- The request carries a key that `BRAIN_API_KEYS` registers, with the scopes that are
required, and that is not a token the auth service vouches for. -/
def CarriesStaticKey (libs : AuthLibs) (cfg : Config) (req : Request) : Prop :=
  ∃ token, bearerToken req.authorization = some token ∧
    (∃ keys, ApiKeyService.onModuleInit libs cfg {} = .ok keys ∧
      ∃ record, keys.resolve libs token = some record ∧ ∀ s ∈ req.required, s ∈ record.scopes) ∧
    ∀ jwks, JwksService.onModuleInit libs cfg {} = .ok jwks → jwks.enabled = true →
      isJwtShape token = true → jwks.verify libs req.at_ token = none

section Production

variable {libs : AuthLibs} {cfg : Config} {app : Running} {req : Request} {token : String}

/-- What the guard answers to a token for which the auth service has no record. -/
theorem canActivate_of_no_jwt (htoken : bearerToken req.authorization = some token)
    (hjwt : app.jwtRecord libs req.at_ token = none) (record : ApiKeyRecord) :
    app.canActivate libs req = .ok record ↔
      app.staticRecord libs token = some record ∧ ∀ s ∈ req.required, s ∈ record.scopes := by
  simp only [Running.canActivate, htoken, hjwt, Option.none_or]
  cases hstatic : app.staticRecord libs token with
  | none => simp
  | some found =>
      simp only [Option.some.injEq]
      -- the first scope that is missing, if one is, is what the guard throws for
      cases hmissing : req.required.find? (fun s => !found.scopes.contains s) with
      | some s =>
          have hs : ¬ s ∈ found.scopes := by simpa using List.find?_some hmissing
          have hreq := List.mem_of_find?_eq_some hmissing
          simp only [reduceCtorEq, false_iff]
          rintro ⟨rfl, hall⟩
          exact hs (hall s hreq)
      | none =>
          have hall : ∀ s ∈ req.required, s ∈ found.scopes := by
            simpa using List.find?_eq_none.mp hmissing
          simp only [Except.ok.injEq]
          constructor
          · rintro rfl
            exact ⟨rfl, hall⟩
          · exact fun h => h.1

/-- A verifier that is off has no record for any token. -/
theorem jwtRecord_eq_none_iff :
    app.jwtRecord libs req.at_ token = none ↔
      (app.jwks.enabled = true → isJwtShape token = true →
        app.jwks.verify libs req.at_ token = none) := by
  rw [Running.jwtRecord]
  by_cases hon : app.jwks.enabled = true
  · by_cases hshape : isJwtShape token = true
    · simp [hon, hshape]
    · simp [hon, hshape]
  · simp [hon]

/-- **Static keys after a boot of the framework**: a request is let through by the
static map exactly if it carries a static key. Nothing is asked of the environment: in
production with the verifier configured it is as anywhere else. -/
theorem authenticatedStatically_iff {steps : List BootStep} {booted : App}
    (horder : FrameworkOrder steps) (hboot : boot libs cfg steps = .ok booted)
    (hrun : booted.running = some app) (req : Request) :
    ¬ AuthenticatedStatically libs app req ↔ ¬ CarriesStaticKey libs cfg req := by
  obtain ⟨hkeys, hjwks, hguard⟩ := running_of_boot horder hboot hrun
  -- the gate of the guard is open after every such boot
  have hstatic : ∀ token, app.staticRecord libs token = app.apiKeys.resolve libs token := by
    intro token
    rw [Running.staticRecord, hguard, if_pos rfl]
  refine not_congr ⟨?_, ?_⟩
  · rintro ⟨token, record, htoken, hno, hok⟩
    obtain ⟨hrec, hscopes⟩ := (canActivate_of_no_jwt htoken hno record).mp hok
    rw [hstatic] at hrec
    refine ⟨token, htoken, ⟨app.apiKeys, hkeys, record, hrec, hscopes⟩, fun jwks hinit => ?_⟩
    rw [hjwks] at hinit
    cases hinit
    exact jwtRecord_eq_none_iff.mp hno
  · rintro ⟨token, htoken, ⟨keys, hinit, record, hrec, hscopes⟩, hno⟩
    rw [hkeys] at hinit
    cases hinit
    have hno := jwtRecord_eq_none_iff.mpr (hno app.jwks hjwks)
    refine ⟨token, record, htoken, hno, (canActivate_of_no_jwt htoken hno record).mpr ⟨?_, hscopes⟩⟩
    rw [hstatic, hrec]

/-- Where the guard is constructed after the hook of the verifier, which the framework
never does, the map is dead in production. -/
theorem not_authenticatedStatically_of_late_guard (hlate : app.guard = .construct cfg app.jwks)
    (hprod : cfg "NODE_ENV" = some "production") (hon : app.jwks.enabled = true) (req : Request) :
    ¬ AuthenticatedStatically libs app req := by
  rintro ⟨token, record, htoken, hno, hok⟩
  -- constructed late, the guard sees the verifier enabled
  have hoff : app.guard.staticAllowed = false := by
    rw [hlate, ApiKeyGuard.construct, hprod, hon]
    rfl
  have hstatic := ((canActivate_of_no_jwt htoken hno record).mp hok).1
  rw [Running.staticRecord, hoff] at hstatic
  cases hstatic

end Production

/-! ## A production boot -/

/-- `BRAIN_API_KEYS` with one key. -/
def oneKeyJson : String :=
  "[\x7b\"keyHash\":\"sha256:8f96f6f2068cdd5aeb41b388c3ce3c48398e822de34e8e9487cc1d9cf2040af8\","
    ++ "\"companyId\":\"co_prod\",\"scopes\":[\"brain:read\"]\x7d]"

/-- Production, with the auth service and that key configured. -/
def productionConfig : Config := fun name =>
  if name = "NODE_ENV" then some "production"
  else if name = "AUTH_SERVICE_JWKS_URL" then some "https://auth.inite.ai/.well-known/jwks.json"
  else if name = "BRAIN_API_KEYS" then some oneKeyJson
  else none

/-- The libraries on what that boot and a call with the key ask of them. -/
def productionLibs : AuthLibs where
  sha256 plaintext :=
    if plaintext = "prod-static-key" then
      "8f96f6f2068cdd5aeb41b388c3ce3c48398e822de34e8e9487cc1d9cf2040af8"
    else ""
  parseKeys raw :=
    if raw = oneKeyJson then
      .ok [{ keyHash := some
               "sha256:8f96f6f2068cdd5aeb41b388c3ce3c48398e822de34e8e9487cc1d9cf2040af8"
             companyId := some "co_prod"
             scopes := some ["brain:read"] }]
    else .error "Unexpected token"
  isUrl url := url == "https://auth.inite.ai/.well-known/jwks.json"
  jwtVerify _ _ _ := none

/-- The order in which `AuthModule` lists its providers. -/
def productionSteps : List BootStep :=
  [.construct .apiKeyService, .construct .jwksService, .construct .apiKeyGuard,
    .onModuleInit .apiKeyService, .onModuleInit .jwksService]

/-- A call with the plaintext of the key. -/
def staticKeyRequest : Request where
  authorization := some "Bearer prod-static-key"
  at_ := 0
  required := ["brain:read"]

theorem frameworkOrder_productionSteps : FrameworkOrder productionSteps :=
  ⟨[.apiKeyService, .jwksService, .apiKeyGuard], [.apiKeyService, .jwksService], rfl,
    List.Perm.refl _, List.Perm.refl _⟩

/-- What is running after that boot. -/
def productionApp : Running where
  apiKeys :=
    { byHash := .set .empty
        "sha256:8f96f6f2068cdd5aeb41b388c3ce3c48398e822de34e8e9487cc1d9cf2040af8"
        { keyHash := "sha256:8f96f6f2068cdd5aeb41b388c3ce3c48398e822de34e8e9487cc1d9cf2040af8"
          companyId := "co_prod"
          scopes := ["brain:read"] } }
  jwks :=
    { jwks := some { url := "https://auth.inite.ai/.well-known/jwks.json", issuer := none,
                     audience := "brain" } }
  guard := { staticAllowed := true }

/-- The instances that boot leaves. -/
def productionInstances : App where
  apiKeys := some productionApp.apiKeys
  jwks := some productionApp.jwks
  guard := some productionApp.guard

theorem boot_productionSteps :
    boot productionLibs productionConfig productionSteps = .ok productionInstances := by
  rfl

/-- The key is let through after it, and is the static key that the request carries. -/
theorem authenticatedStatically_iff_production :
    ¬ AuthenticatedStatically productionLibs productionApp staticKeyRequest ↔
      ¬ CarriesStaticKey productionLibs productionConfig staticKeyRequest :=
  authenticatedStatically_iff frameworkOrder_productionSteps boot_productionSteps rfl
    staticKeyRequest

/-- **A static key works in production with the verifier configured.** -/
theorem static_key_alive_in_production :
    ¬ ∀ (libs : AuthLibs) (cfg : Config) (steps : List BootStep) (booted : App) (app : Running)
        (req : Request),
      FrameworkOrder steps → boot libs cfg steps = .ok booted → booted.running = some app →
      cfg "NODE_ENV" = some "production" →
      (∃ url, cfg "AUTH_SERVICE_JWKS_URL" = some url ∧ url ≠ "") →
      ¬ AuthenticatedStatically libs app req := by
  intro h
  have hurl : ∃ url, productionConfig "AUTH_SERVICE_JWKS_URL" = some url ∧ url ≠ "" :=
    ⟨_, rfl, by decide⟩
  refine h productionLibs productionConfig productionSteps productionInstances productionApp
    staticKeyRequest frameworkOrder_productionSteps boot_productionSteps rfl rfl hurl ?_
  exact ⟨"prod-static-key", _, rfl, rfl, rfl⟩

end Brain.Auth
