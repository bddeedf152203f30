/-
The connection pools of `src/src/db/surreal.service.ts`: `withCompany`, `withAdminDb` and
`withScopedCompany` from the acquire to the release.

What a call does between two of its awaits is one step, and the steps of different calls
interleave as they like. A callback may do anything to the session of its connection and may
never come to its end. A failed sign-in leaves another one under way, and so does the round over
the idle scoped connections after a migration: such a sign-in may come through while somebody
else holds the connection.

Both pools are hand-off pools, and every callback starts on the database of its own call, with
the scopes of its own call (`poolSafe_of_reached`). This rests on each path binding the
connection again before its callback, and on a sign-in changing neither the database nor the
variables of a session.
-/
import Brain.Lib.HandOff
import Brain.Lib.Runs

set_option autoImplicit false

namespace Brain.ConnectionPool

/-! ## 1. The service -/

/-- What the service relies on of the driver: the session of a connection. -/
structure Driver where
  Session : Type
  /-- After `connect`. -/
  connected : Session
  signin : Session → Session
  use : String → Session → Session
  /-- `LET $caller_scopes`. -/
  letScopes : List String → Session → Session
  /-- The selected database. -/
  database : Session → Option String
  /-- `$caller_scopes`. -/
  callerScopes : Session → Option (List String)
  database_use : ∀ name s, database (use name s) = some name
  database_signin : ∀ s, database (signin s) = database s
  database_letScopes : ∀ scopes s, database (letScopes scopes s) = database s
  callerScopes_letScopes : ∀ scopes s, callerScopes (letScopes scopes s) = some scopes

inductive PoolKind where
  | root
  | scoped
deriving DecidableEq

structure Config where
  /-- The user of the scoped pool is configured. -/
  scopedEnabled : Bool
  poolSize : ℕ
  scopedPoolSize : ℕ

inductive Request where
  | withCompany (companyId : String)
  | withAdminDb
  | withScopedCompany (companyId : String) (scopes : List String)

/-- `/^[a-zA-Z0-9_-]+$/`. -/
def isCompanyId (s : String) : Bool :=
  !s.isEmpty && s.toList.all (fun c => c.isAlphanum || c == '_' || c == '-')

namespace Request

/-- What is asked before a connection is acquired. -/
def valid : Request → Bool
  | withCompany companyId => isCompanyId companyId
  | withAdminDb => true
  | withScopedCompany companyId _ => isCompanyId companyId

def database : Request → String
  | withCompany companyId => "co_" ++ companyId
  | withAdminDb => "system"
  | withScopedCompany companyId _ => "co_" ++ companyId

/-- What is bound before the callback. -/
def scopes : Request → Option (List String)
  | withCompany _ => none
  | withAdminDb => none
  | withScopedCompany _ scopes => some scopes

/-- Without a scoped pool, `withScopedCompany` is `withCompany` with a callback that binds the
scopes first. -/
def pool (config : Config) : Request → PoolKind
  | withCompany _ => .root
  | withAdminDb => .root
  | withScopedCompany _ _ => if config.scopedEnabled then .scoped else .root

end Request

/-- Where a call stands. -/
inductive Stage where
  /-- `acquireWithTimeout`: in the queue, or its promise is resolved. -/
  | acquiring
  /-- `ensureRootSession`. -/
  | signing
  /-- `conn.use`. -/
  | selecting
  /-- `ensureSchema`, which leaves the connection alone. -/
  | checking
  /-- `LET $caller_scopes`. -/
  | binding
  /-- The callback. -/
  | running
  /-- It has returned or thrown. -/
  | finished
  /-- Its acquire was rejected. -/
  | timedOut
deriving DecidableEq

structure Call where
  request : Request
  stage : Stage

/-- A callback starts. -/
structure Start (driver : Driver) where
  request : Request
  session : driver.Session

/-- The service; connections and calls are numbered. -/
structure World (driver : Driver) where
  pools : PoolKind → HandOff.Pool ℕ ℕ
  /-- `all`, less the connection of the migrator. -/
  all : List ℕ
  nextConn : ℕ
  sessions : ℕ → driver.Session
  /-- Sign-ins that no call waits for. -/
  signins : List ℕ
  calls : List Call
  starts : List (Start driver)

namespace Config

def rootConns (config : Config) : List ℕ := List.range config.poolSize

def scopedConns (config : Config) : List ℕ :=
  if config.scopedEnabled then List.range' config.poolSize config.scopedPoolSize else []

/-- How many connections there are. -/
def size (config : Config) : ℕ :=
  config.poolSize + if config.scopedEnabled then config.scopedPoolSize else 0

end Config

/-- `onModuleInit`, when it is done. -/
def initial (driver : Driver) (config : Config) : World driver where
  pools := fun
    | .root => ⟨config.rootConns, [], fun _ => none⟩
    | .scoped => ⟨config.scopedConns, [], fun _ => none⟩
  all := config.rootConns ++ config.scopedConns
  nextConn := config.poolSize + config.scopedPoolSize
  sessions := fun _ => driver.signin driver.connected
  signins := []
  calls := []
  starts := []

/-! ## 2. Steps -/

/-- What happens. -/
inductive Event (driver : Driver) where
  | enter (request : Request)
  /-- The timer of a call. -/
  | timeout (k : ℕ)
  /-- What a call waits for is there, or fails. -/
  | proceed (k : ℕ) (ok : Bool)
  /-- The sign-in fails, and a new connection is built. -/
  | rebuild (k : ℕ)
  /-- A callback does something to the session. -/
  | touch (k : ℕ) (session : driver.Session)
  /-- `resignScopedConns` comes to an idle connection. -/
  | resign (c : ℕ)
  /-- A sign-in that no call waits for comes to its end. -/
  | signedIn (c : ℕ) (ok : Bool)

namespace World

variable {driver : Driver}

def setPool (w : World driver) (p : PoolKind) (pool : HandOff.Pool ℕ ℕ) : World driver :=
  { w with pools := Function.update w.pools p pool }

def setStage (w : World driver) (k : ℕ) (call : Call) (stage : Stage) : World driver :=
  { w with calls := w.calls.set k { call with stage := stage } }

def setSession (w : World driver) (c : ℕ) (session : driver.Session) : World driver :=
  { w with sessions := Function.update w.sessions c session }

/-- The `finally` block: `releaseRoot` or `releaseScoped`. -/
def release (config : Config) (w : World driver) (k : ℕ) (call : Call) : World driver :=
  let p := call.request.pool config
  (w.setPool p ((w.pools p).giveBack k)).setStage k call .finished

/-- `fn(conn)`. -/
def start (w : World driver) (k : ℕ) (call : Call) (c : ℕ) : World driver :=
  let started : World driver := { w with starts := w.starts ++ [⟨call.request, w.sessions c⟩] }
  started.setStage k call .running

/-- The next step of a call that has a connection. -/
def stepCall (config : Config) (w : World driver) (k : ℕ) (call : Call) (c : ℕ) (ok : Bool) :
    World driver :=
  match call.stage with
  | .acquiring =>
      w.setStage k call (if call.request.pool config = .root then .signing else .selecting)
  | .signing =>
      if ok then (w.setSession c (driver.signin (w.sessions c))).setStage k call .selecting
      else
        let late : World driver := { w with signins := c :: w.signins }
        late.release config k call
  | .selecting =>
      if ok then
        (w.setSession c (driver.use call.request.database (w.sessions c))).setStage k call .checking
      else w.release config k call
  | .checking =>
      if ok then
        match call.request.scopes with
        | some _ => w.setStage k call .binding
        | none => w.start k call c
      else w.release config k call
  | .binding =>
      match call.request.scopes with
      | some scopes =>
          if ok then (w.setSession c (driver.letScopes scopes (w.sessions c))).start k call c
          else w.release config k call
      | none => w
  | .running => w.release config k call
  | .finished => w
  | .timedOut => w

/-- A new connection in the place of `c`, which `k` holds; the old sign-in is still under way. -/
def replaceConn (w : World driver) (p : PoolKind) (k c : ℕ) : World driver :=
  { w with
    pools := Function.update w.pools p ((w.pools p).swap k w.nextConn)
    all := w.all.set (w.all.idxOf c) w.nextConn
    nextConn := w.nextConn + 1
    sessions := Function.update w.sessions w.nextConn (driver.signin driver.connected)
    signins := c :: w.signins }

/-- `ensureRootSession`, when the sign-in has failed and the new connection stands. -/
def rebuild (config : Config) (w : World driver) (k : ℕ) (call : Call) (c : ℕ) : World driver :=
  (w.replaceConn (call.request.pool config) k c).setStage k call .selecting

end World

/-- The service after an event. -/
def exec {driver : Driver} (config : Config) (w : World driver) : Event driver → World driver
  | .enter request =>
      if request.valid then
        let p := request.pool config
        let entered : World driver := { w with calls := w.calls ++ [⟨request, .acquiring⟩] }
        entered.setPool p ((w.pools p).acquire w.calls.length)
      else { w with calls := w.calls ++ [⟨request, .finished⟩] }
  | .timeout k =>
      match w.calls[k]? with
      | none => w
      | some call =>
          let p := call.request.pool config
          -- the timer is cleared when the connection is handed over
          if k ∈ (w.pools p).waiters then
            (w.setPool p ((w.pools p).giveUp k)).setStage k call .timedOut
          else w
  | .proceed k ok =>
      match w.calls[k]? with
      | none => w
      | some call =>
          match (w.pools (call.request.pool config)).held k with
          | none => w
          | some c => w.stepCall config k call c ok
  | .rebuild k =>
      match w.calls[k]? with
      | none => w
      | some call =>
          match (w.pools (call.request.pool config)).held k with
          | none => w
          | some c => if call.stage = .signing then w.rebuild config k call c else w
  | .touch k session =>
      match w.calls[k]? with
      | none => w
      | some call =>
          match (w.pools (call.request.pool config)).held k with
          | none => w
          | some c => if call.stage = .running then w.setSession c session else w
  | .resign c =>
      if c ∈ (w.pools .scoped).idle then { w with signins := c :: w.signins } else w
  | .signedIn c ok =>
      if c ∈ w.signins then
        let done : World driver := { w with signins := w.signins.erase c }
        if ok then done.setSession c (driver.signin (w.sessions c)) else done
      else w

/-! ## 3. The invariant -/

/-- The call may have a connection. -/
def Stage.Open (stage : Stage) : Prop := stage ≠ .finished ∧ stage ≠ .timedOut

/-- The database of the call is selected. -/
def Stage.Selected (stage : Stage) : Prop := stage = .checking ∨ stage = .binding

instance (stage : Stage) : Decidable stage.Open := inferInstanceAs (Decidable (_ ∧ _))

instance (stage : Stage) : Decidable stage.Selected := inferInstanceAs (Decidable (_ ∨ _))

/-- The callback starts on its own database, with its own scopes. -/
def Start.Own {driver : Driver} (s : Start driver) : Prop :=
  driver.database s.session = some s.request.database ∧
    ∀ scopes, s.request.scopes = some scopes → driver.callerScopes s.session = some scopes

section Invariant

variable {driver : Driver} {config : Config} {w : World driver}

/-- Call number `k` is `call`, on pool `p`. -/
def OnPool (config : Config) (w : World driver) (p : PoolKind) (k : ℕ) (call : Call) : Prop :=
  w.calls[k]? = some call ∧ call.request.pool config = p

/-- What holds of the service at all times; `size` is the number of its connections. -/
structure Inv (config : Config) (size : ℕ) (w : World driver) : Prop where
  sound : ∀ p, (w.pools p).Sound
  apart : ∀ c, (w.pools .root).Member c → ¬ (w.pools .scoped).Member c
  mem_all : ∀ c, c ∈ w.all ↔ ∃ p, (w.pools p).Member c
  all_nodup : w.all.Nodup
  all_length : w.all.length = size
  known : ∀ c ∈ w.all, c < w.nextConn
  holders : ∀ p k c, (w.pools p).held k = some c →
    ∃ call, OnPool config w p k call ∧ call.stage.Open
  waiters : ∀ p, ∀ k ∈ (w.pools p).waiters, ∃ call, OnPool config w p k call ∧
    call.stage = .acquiring
  selected : ∀ p k c call, OnPool config w p k call → call.stage.Selected →
    (w.pools p).held k = some c → driver.database (w.sessions c) = some call.request.database
  starts : ∀ s ∈ w.starts, s.Own

variable {size : ℕ}

theorem Inv.pool_unique (h : Inv config size w) {p p' : PoolKind} {c : ℕ}
    (hp : (w.pools p).Member c) (hp' : (w.pools p').Member c) : p = p' := by
  cases p <;> cases p'
  · rfl
  · exact absurd hp' (h.apart c hp)
  · exact absurd hp (h.apart c hp')
  · rfl

/-- A connection is in one pool, and has one holder. -/
theorem Inv.holder_unique (h : Inv config size w) {p p' : PoolKind} {k k' c : ℕ}
    (hheld : (w.pools p).held k = some c) (hheld' : (w.pools p').held k' = some c) :
    p = p' ∧ k = k' := by
  obtain rfl := h.pool_unique (Or.inr ⟨k, hheld⟩) (Or.inr ⟨k', hheld'⟩)
  exact ⟨rfl, (h.sound p).exclusive k k' c hheld hheld'⟩

theorem pools_setPool_self {p : PoolKind} {q : HandOff.Pool ℕ ℕ} :
    (w.setPool p q).pools p = q := Function.update_self _ _ _

theorem pools_setPool_of_ne {p p' : PoolKind} {q : HandOff.Pool ℕ ℕ} (h : p' ≠ p) :
    (w.setPool p q).pools p' = w.pools p' := Function.update_of_ne h _ _

theorem sessions_setSession_self {c : ℕ} {session : driver.Session} :
    (w.setSession c session).sessions c = session := Function.update_self _ _ _

theorem sessions_setSession_of_ne {c c' : ℕ} {session : driver.Session} (h : c' ≠ c) :
    (w.setSession c session).sessions c' = w.sessions c' := Function.update_of_ne h _ _

/-- A pool after an operation that moves its connections around: who holds one held it before,
or is acquiring, and who waits is acquiring. -/
theorem Inv.setPool (h : Inv config size w) {p : PoolKind} {q : HandOff.Pool ℕ ℕ}
    (hsound : q.Sound) (hmember : ∀ c, q.Member c ↔ (w.pools p).Member c)
    (hheld : ∀ k c, q.held k = some c → (w.pools p).held k = some c ∨
      ∃ call, OnPool config w p k call ∧ call.stage = .acquiring)
    (hwaiters : ∀ k ∈ q.waiters, ∃ call, OnPool config w p k call ∧ call.stage = .acquiring) :
    Inv config size (w.setPool p q) := by
  have hmembers : ∀ p' c, ((w.setPool p q).pools p').Member c ↔ (w.pools p').Member c := by
    intro p' c
    by_cases hp : p' = p
    · subst hp
      rw [pools_setPool_self]
      exact hmember c
    · rw [pools_setPool_of_ne hp]
  have hholds : ∀ p' k c, ((w.setPool p q).pools p').held k = some c →
      (w.pools p').held k = some c ∨
        ∃ call, OnPool config w p' k call ∧ call.stage = .acquiring := by
    intro p' k c hk
    by_cases hp : p' = p
    · subst hp
      rw [pools_setPool_self] at hk
      exact hheld k c hk
    · rw [pools_setPool_of_ne hp] at hk
      exact Or.inl hk
  refine ⟨fun p' => ?_, fun c hroot hscoped => ?_, fun c => ?_, h.all_nodup, h.all_length, h.known,
    fun p' k c hk => ?_, fun p' k hk => ?_, fun p' k c call hcall hstage hk => ?_, h.starts⟩
  · by_cases hp : p' = p
    · subst hp
      rw [pools_setPool_self]
      exact hsound
    · rw [pools_setPool_of_ne hp]
      exact h.sound p'
  · exact h.apart c ((hmembers _ c).mp hroot) ((hmembers _ c).mp hscoped)
  · simp only [hmembers]
    exact h.mem_all c
  · rcases hholds p' k c hk with hold | ⟨call, hcall, hstage⟩
    · exact h.holders p' k c hold
    · exact ⟨call, hcall, by rw [hstage]; decide⟩
  · by_cases hp : p' = p
    · subst hp
      rw [pools_setPool_self] at hk
      exact hwaiters k hk
    · rw [pools_setPool_of_ne hp] at hk
      exact h.waiters p' k hk
  · rcases hholds p' k c hk with hold | ⟨call', hcall', hacquiring⟩
    · exact h.selected p' k c call hcall hstage hold
    · -- a call that is acquiring has selected nothing
      cases hcall.1.symm.trans hcall'.1
      rw [hacquiring] at hstage
      exact absurd hstage (by decide)

/-- A call at another stage. -/
theorem Inv.setStage (h : Inv config size w) {k : ℕ} {call : Call} {stage : Stage}
    (hcall : w.calls[k]? = some call)
    (hopen : stage.Open ∨ (w.pools (call.request.pool config)).held k = none)
    (hwait : k ∉ (w.pools (call.request.pool config)).waiters)
    (hselected : stage.Selected → ∀ c, (w.pools (call.request.pool config)).held k = some c →
      driver.database (w.sessions c) = some call.request.database) :
    Inv config size (w.setStage k call stage) := by
  have hself : (w.calls.set k { call with stage := stage })[k]? =
      some { call with stage := stage } :=
    List.getElem?_set_self (List.getElem?_eq_some_iff.mp hcall).1
  have hother : ∀ j, j ≠ k → (w.calls.set k { call with stage := stage })[j]? = w.calls[j]? :=
    fun j hj => List.getElem?_set_ne (Ne.symm hj)
  refine ⟨h.sound, h.apart, h.mem_all, h.all_nodup, h.all_length, h.known, fun p j c hj => ?_,
    fun p j hj => ?_, fun p j c call' hcall' hstage hj => ?_, h.starts⟩
  · obtain ⟨call', ⟨hcall', hpool⟩, hopen'⟩ := h.holders p j c hj
    by_cases hjk : j = k
    · subst hjk
      cases hcall.symm.trans hcall'
      have hheld : (w.pools p).held j = some c := hj
      refine ⟨_, ⟨hself, hpool⟩, hopen.resolve_right ?_⟩
      rw [hpool, hheld]
      exact Option.some_ne_none c
    · exact ⟨call', ⟨(hother j hjk).trans hcall', hpool⟩, hopen'⟩
  · obtain ⟨call', ⟨hcall', hpool⟩, hacquiring⟩ := h.waiters p j hj
    have hjk : j ≠ k := by
      intro heq
      subst heq
      cases hcall.symm.trans hcall'
      rw [hpool] at hwait
      exact hwait hj
    exact ⟨call', ⟨(hother j hjk).trans hcall', hpool⟩, hacquiring⟩
  · obtain ⟨hcall', hpool⟩ := hcall'
    by_cases hjk : j = k
    · subst hjk
      cases hself.symm.trans hcall'
      have hheld : (w.pools (call.request.pool config)).held j = some c := hpool ▸ hj
      exact hselected hstage c hheld
    · exact h.selected p j c call' ⟨(hother j hjk).symm.trans hcall', hpool⟩ hstage hj

/-- A session that is left on the database that its holder has selected, if it has. -/
theorem Inv.setSession (h : Inv config size w) {c : ℕ} {session : driver.Session}
    (hselected : ∀ p k call, OnPool config w p k call → call.stage.Selected →
      (w.pools p).held k = some c → driver.database session = some call.request.database) :
    Inv config size (w.setSession c session) := by
  refine ⟨h.sound, h.apart, h.mem_all, h.all_nodup, h.all_length, h.known, h.holders, h.waiters,
    fun p k c' call hcall hstage hk => ?_, h.starts⟩
  by_cases hc : c' = c
  · subst hc
    rw [sessions_setSession_self]
    exact hselected p k call hcall hstage hk
  · rw [sessions_setSession_of_ne hc]
    exact h.selected p k c' call hcall hstage hk

/-- A sign-in changes no database, whoever holds the connection. -/
theorem Inv.signin (h : Inv config size w) (c : ℕ) :
    Inv config size (w.setSession c (driver.signin (w.sessions c))) :=
  h.setSession (fun p k call hcall hstage hk =>
    (driver.database_signin _).trans (h.selected p k c call hcall hstage hk))

theorem Inv.signins (h : Inv config size w) (signins : List ℕ) :
    Inv config size { w with signins := signins } :=
  ⟨h.sound, h.apart, h.mem_all, h.all_nodup, h.all_length, h.known, h.holders, h.waiters,
    h.selected, h.starts⟩

/-- Who has a connection waits for none. -/
theorem Inv.not_waiting (h : Inv config size w) {p : PoolKind} {k c : ℕ}
    (hheld : (w.pools p).held k = some c) : k ∉ (w.pools p).waiters := by
  intro hmem
  rw [(h.sound p).held_of_waiter k hmem] at hheld
  cases hheld

/-- The release of a connection. -/
theorem Inv.release (h : Inv config size w) {k c : ℕ} {call : Call}
    (hcall : w.calls[k]? = some call)
    (hheld : (w.pools (call.request.pool config)).held k = some c) :
    Inv config size (w.release config k call) := by
  have hsound := h.sound (call.request.pool config)
  have hgiven : Inv config size (w.setPool (call.request.pool config)
      ((w.pools (call.request.pool config)).giveBack k)) :=
    h.setPool hsound.giveBack (fun _ => HandOff.Pool.member_giveBack hsound)
      (fun j c' hj => (HandOff.Pool.of_held_giveBack hj).imp_right (h.waiters _ j))
      (fun j hj => h.waiters _ j (HandOff.Pool.of_mem_waiters_giveBack hj))
  refine hgiven.setStage hcall (Or.inr ?_) ?_ (fun hstage => ?_)
  · rw [pools_setPool_self]
    exact hsound.held_giveBack_self
  · rw [pools_setPool_self]
    exact fun hmem => h.not_waiting hheld (HandOff.Pool.of_mem_waiters_giveBack hmem)
  · exact absurd hstage (by decide)

/-- A call that has a connection goes on to a stage where no database needs to be selected. -/
theorem Inv.goOn (h : Inv config size w) {k c : ℕ} {call : Call} {stage : Stage}
    (hcall : w.calls[k]? = some call)
    (hheld : (w.pools (call.request.pool config)).held k = some c) (hopen : stage.Open)
    (hselected : ¬ stage.Selected) : Inv config size (w.setStage k call stage) :=
  h.setStage hcall (Or.inl hopen) (h.not_waiting hheld) (fun hstage => absurd hstage hselected)

/-- The same, with the database selected. -/
theorem Inv.goOn_selected (h : Inv config size w) {k c : ℕ} {call : Call} {stage : Stage}
    (hcall : w.calls[k]? = some call)
    (hheld : (w.pools (call.request.pool config)).held k = some c) (hopen : stage.Open)
    (hdatabase : driver.database (w.sessions c) = some call.request.database) :
    Inv config size (w.setStage k call stage) := by
  refine h.setStage hcall (Or.inl hopen) (h.not_waiting hheld) (fun _ c' hc' => ?_)
  cases hheld.symm.trans hc'
  exact hdatabase

/-- **The start of a callback**, on a session with the database and the scopes of the call. -/
theorem Inv.start (h : Inv config size w) {k c : ℕ} {call : Call}
    (hcall : w.calls[k]? = some call)
    (hheld : (w.pools (call.request.pool config)).held k = some c)
    (hown : Start.Own ⟨call.request, w.sessions c⟩) : Inv config size (w.start k call c) := by
  have hstarted : Inv config size
      { w with starts := w.starts ++ [⟨call.request, w.sessions c⟩] } := by
    refine ⟨h.sound, h.apart, h.mem_all, h.all_nodup, h.all_length, h.known, h.holders, h.waiters,
      h.selected, fun s hs => ?_⟩
    rcases List.mem_append.mp hs with hs | hs
    · exact h.starts s hs
    · rw [List.mem_singleton.mp hs]
      exact hown
  exact hstarted.goOn hcall hheld (by decide) (by decide)

/-- An element of a list replaced by another one. -/
theorem mem_set_idxOf {l : List ℕ} {a b q : ℕ} (hnodup : l.Nodup) (ha : a ∈ l) :
    q ∈ l.set (l.idxOf a) b ↔ q = b ∨ q ∈ l ∧ q ≠ a := by
  obtain ⟨before, after, rfl⟩ := List.append_of_mem ha
  obtain ⟨_, hafter, hdisjoint⟩ := List.nodup_append.mp hnodup
  have hbefore : a ∉ before := fun hmem => hdisjoint a hmem a List.mem_cons_self rfl
  have hafter' := (List.nodup_cons.mp hafter).1
  rw [List.idxOf_append_of_notMem hbefore, List.idxOf_cons_self, Nat.add_zero,
    List.set_append_right _ _ (le_refl _), Nat.sub_self, List.set_cons_zero]
  simp only [List.mem_append, List.mem_cons]
  constructor
  · rintro (hq | hq | hq)
    · exact Or.inr ⟨Or.inl hq, fun heq => hbefore (heq ▸ hq)⟩
    · exact Or.inl hq
    · exact Or.inr ⟨Or.inr (Or.inr hq), fun heq => hafter' (heq ▸ hq)⟩
  · rintro (hq | ⟨hq | hq | hq, hne⟩)
    · exact Or.inr (Or.inl hq)
    · exact Or.inl hq
    · exact absurd hq hne
    · exact Or.inr (Or.inr hq)

theorem pools_replaceConn_self {p : PoolKind} {k c : ℕ} :
    (w.replaceConn p k c).pools p = (w.pools p).swap k w.nextConn := Function.update_self _ _ _

theorem pools_replaceConn_of_ne {p p' : PoolKind} {k c : ℕ} (h : p' ≠ p) :
    (w.replaceConn p k c).pools p' = w.pools p' := Function.update_of_ne h _ _

/-- The old connection is in no pool any more, and the new one is in this one. -/
theorem Inv.member_replaceConn (h : Inv config size w) {p p' : PoolKind} {k c q : ℕ}
    (hheld : (w.pools p).held k = some c) :
    ((w.replaceConn p k c).pools p').Member q ↔
      q = w.nextConn ∧ p' = p ∨ (w.pools p').Member q ∧ q ≠ c := by
  by_cases hp : p' = p
  · subst hp
    rw [pools_replaceConn_self, HandOff.Pool.member_swap (h.sound p') hheld, and_iff_left rfl]
  · rw [pools_replaceConn_of_ne hp]
    constructor
    · intro hq
      refine Or.inr ⟨hq, fun heq => hp ?_⟩
      exact h.pool_unique (heq ▸ hq) (Or.inr ⟨k, hheld⟩)
    · rintro (⟨_, heq⟩ | ⟨hq, _⟩)
      · exact absurd heq hp
      · exact hq

theorem of_held_replaceConn {p p' : PoolKind} {k c j q : ℕ}
    (h : ((w.replaceConn p k c).pools p').held j = some q) :
    p' = p ∧ j = k ∨ (w.pools p').held j = some q := by
  by_cases hp : p' = p
  · subst hp
    rw [pools_replaceConn_self] at h
    rcases HandOff.Pool.held_update h with ⟨heq, _⟩ | ⟨_, hold⟩
    · exact Or.inl ⟨rfl, heq⟩
    · exact Or.inr hold
  · rw [pools_replaceConn_of_ne hp] at h
    exact Or.inr h

/-- A connection that is rebuilt: the new one takes the place of the old one everywhere. -/
theorem Inv.replaceConn (h : Inv config size w) {p : PoolKind} {k c : ℕ} {call : Call}
    (hcall : OnPool config w p k call) (hheld : (w.pools p).held k = some c)
    (hstage : call.stage = .signing) : Inv config size (w.replaceConn p k c) := by
  have hall : c ∈ w.all := (h.mem_all c).mpr ⟨p, Or.inr ⟨k, hheld⟩⟩
  have hnew : w.nextConn ∉ w.all := fun hmem => absurd (h.known _ hmem) (lt_irrefl _)
  have hnew' : ∀ p', ¬ (w.pools p').Member w.nextConn :=
    fun p' hp' => hnew ((h.mem_all _).mpr ⟨p', hp'⟩)
  have hmembers : ∀ p' q, ((w.replaceConn p k c).pools p').Member q ↔
      q = w.nextConn ∧ p' = p ∨ (w.pools p').Member q ∧ q ≠ c :=
    fun _ _ => h.member_replaceConn hheld
  refine ⟨fun p' => ?_, fun q hroot hscoped => ?_, fun q => ?_, h.all_nodup.set hnew, ?_,
    fun q hq => ?_, fun p' j q hj => ?_, fun p' j hj => ?_,
    fun p' j q call' hcall' hselected hj => ?_, h.starts⟩
  · by_cases hp : p' = p
    · subst hp
      rw [pools_replaceConn_self]
      exact (h.sound p').swap hheld (hnew' p')
    · rw [pools_replaceConn_of_ne hp]
      exact h.sound p'
  · rcases (hmembers _ q).mp hroot with ⟨rfl, hp⟩ | ⟨hroot, _⟩
    · rcases (hmembers _ _).mp hscoped with ⟨_, hp'⟩ | ⟨hscoped, _⟩
      · cases hp.trans hp'.symm
      · exact hnew' _ hscoped
    · rcases (hmembers _ q).mp hscoped with ⟨rfl, _⟩ | ⟨hscoped, _⟩
      · exact hnew' _ hroot
      · exact h.apart q hroot hscoped
  · show q ∈ w.all.set (w.all.idxOf c) w.nextConn ↔ _
    rw [mem_set_idxOf h.all_nodup hall, h.mem_all q]
    simp only [hmembers]
    constructor
    · rintro (rfl | ⟨⟨p', hp'⟩, hne⟩)
      · exact ⟨p, Or.inl ⟨rfl, rfl⟩⟩
      · exact ⟨p', Or.inr ⟨hp', hne⟩⟩
    · rintro ⟨p', ⟨rfl, _⟩ | ⟨hp', hne⟩⟩
      · exact Or.inl rfl
      · exact Or.inr ⟨⟨p', hp'⟩, hne⟩
  · exact List.length_set.trans h.all_length
  · rcases (mem_set_idxOf h.all_nodup hall).mp hq with rfl | ⟨hq, _⟩
    · exact Nat.lt_succ_self _
    · exact Nat.lt_succ_of_lt (h.known q hq)
  · rcases of_held_replaceConn hj with ⟨rfl, rfl⟩ | hold
    · exact ⟨call, hcall, by rw [hstage]; decide⟩
    · exact h.holders p' j q hold
  · by_cases hp : p' = p
    · subst hp
      rw [pools_replaceConn_self] at hj
      exact h.waiters p' j hj
    · rw [pools_replaceConn_of_ne hp] at hj
      exact h.waiters p' j hj
  · rcases of_held_replaceConn hj with ⟨rfl, rfl⟩ | hold
    · -- the call that holds it has not selected a database yet
      cases hcall.1.symm.trans hcall'.1
      rw [hstage] at hselected
      exact absurd hselected (by decide)
    · have hne : q ≠ w.nextConn := fun heq => hnew' p' (Or.inr ⟨j, heq ▸ hold⟩)
      show driver.database (Function.update w.sessions w.nextConn _ q) = _
      rw [Function.update_of_ne hne]
      exact h.selected p' j q call' hcall' hselected hold

theorem Inv.rebuild (h : Inv config size w) {k c : ℕ} {call : Call}
    (hcall : w.calls[k]? = some call)
    (hheld : (w.pools (call.request.pool config)).held k = some c)
    (hstage : call.stage = .signing) : Inv config size (w.rebuild config k call c) := by
  have hreplaced := h.replaceConn ⟨hcall, rfl⟩ hheld hstage
  have hheld' : ((w.replaceConn (call.request.pool config) k c).pools
      (call.request.pool config)).held k = some w.nextConn := by
    rw [pools_replaceConn_self]
    exact Function.update_self _ _ _
  exact hreplaced.goOn hcall hheld' (by decide) (by decide)

/-- A step of a call keeps the invariant. -/
theorem Inv.stepCall (h : Inv config size w) {k c : ℕ} {call : Call} {ok : Bool}
    (hcall : w.calls[k]? = some call)
    (hheld : (w.pools (call.request.pool config)).held k = some c) :
    Inv config size (w.stepCall config k call c ok) := by
  have hrelease := h.release hcall hheld
  unfold World.stepCall
  cases hstage : call.stage with
  | acquiring =>
      dsimp only
      split
      · exact h.goOn hcall hheld (by decide) (by decide)
      · exact h.goOn hcall hheld (by decide) (by decide)
  | signing =>
      cases ok with
      | false => exact (h.signins (c :: w.signins)).release hcall hheld
      | true => exact (h.signin c).goOn hcall hheld (by decide) (by decide)
  | selecting =>
      cases ok with
      | false => exact hrelease
      | true =>
          -- nobody else has the connection
          have hused : Inv config size
              (w.setSession c (driver.use call.request.database (w.sessions c))) := by
            refine h.setSession (fun p j call' hcall' hselected hj => ?_)
            obtain ⟨_, rfl⟩ := h.holder_unique hj hheld
            cases hcall.symm.trans hcall'.1
            exact driver.database_use _ _
          refine hused.goOn_selected hcall hheld (by decide) ?_
          rw [sessions_setSession_self]
          exact driver.database_use _ _
  | checking =>
      have hselected := h.selected _ k c call ⟨hcall, rfl⟩ (Or.inl hstage) hheld
      cases ok with
      | false => exact hrelease
      | true =>
          dsimp only
          cases hscopes : call.request.scopes with
          | some scopes => exact h.goOn_selected hcall hheld (by decide) hselected
          | none =>
              refine h.start hcall hheld ⟨hselected, fun scopes hsome => ?_⟩
              rw [hscopes] at hsome
              cases hsome
  | binding =>
      have hselected := h.selected _ k c call ⟨hcall, rfl⟩ (Or.inr hstage) hheld
      dsimp only
      cases hscopes : call.request.scopes with
      | none => exact h
      | some scopes =>
          cases ok with
          | false => exact hrelease
          | true =>
              have hbound : Inv config size
                  (w.setSession c (driver.letScopes scopes (w.sessions c))) := by
                refine h.setSession (fun p j call' hcall' hstage' hj => ?_)
                rw [driver.database_letScopes]
                exact h.selected p j c call' hcall' hstage' hj
              refine hbound.start hcall hheld ?_
              rw [sessions_setSession_self]
              refine ⟨(driver.database_letScopes _ _).trans hselected, fun scopes' hsome => ?_⟩
              cases hscopes.symm.trans hsome
              exact driver.callerScopes_letScopes _ _
  | running => exact hrelease
  | finished => exact h
  | timedOut => exact h

/-- A new call, which neither holds a connection nor waits. -/
theorem Inv.append (h : Inv config size w) (call : Call) :
    Inv config size { w with calls := w.calls ++ [call] } := by
  have hkept : ∀ {k : ℕ} {call' : Call}, w.calls[k]? = some call' →
      (w.calls ++ [call])[k]? = some call' := by
    intro k call' hcall'
    rw [List.getElem?_append_left (List.getElem?_eq_some_iff.mp hcall').1, hcall']
  refine ⟨h.sound, h.apart, h.mem_all, h.all_nodup, h.all_length, h.known, fun p k c hk => ?_,
    fun p k hk => ?_, fun p k c call' hcall' hstage hk => ?_, h.starts⟩
  · obtain ⟨call', ⟨hcall', hpool⟩, hopen⟩ := h.holders p k c hk
    exact ⟨call', ⟨hkept hcall', hpool⟩, hopen⟩
  · obtain ⟨call', ⟨hcall', hpool⟩, hacquiring⟩ := h.waiters p k hk
    exact ⟨call', ⟨hkept hcall', hpool⟩, hacquiring⟩
  · obtain ⟨old, ⟨hold, hpool⟩, _⟩ := h.holders p k c hk
    cases (hkept hold).symm.trans hcall'.1
    exact h.selected p k c _ ⟨hold, hpool⟩ hstage hk

/-- A number that no call has yet. -/
theorem Inv.fresh_call (h : Inv config size w) (p : PoolKind) :
    w.calls.length ∉ (w.pools p).waiters ∧ (w.pools p).held w.calls.length = none := by
  have hnone : w.calls[w.calls.length]? = none := List.getElem?_eq_none (le_refl _)
  constructor
  · intro hmem
    obtain ⟨call, ⟨hcall, _⟩, _⟩ := h.waiters p _ hmem
    rw [hnone] at hcall
    cases hcall
  · cases hheld : (w.pools p).held w.calls.length with
    | none => rfl
    | some c =>
        obtain ⟨call, ⟨hcall, _⟩, _⟩ := h.holders p _ c hheld
        rw [hnone] at hcall
        cases hcall

theorem Inv.enter (h : Inv config size w) (request : Request) :
    Inv config size (exec config w (.enter request)) := by
  unfold ConnectionPool.exec
  dsimp only
  split
  · have happended := h.append ⟨request, .acquiring⟩
    obtain ⟨hwait, hheld⟩ := h.fresh_call (request.pool config)
    have hcall : OnPool config { w with calls := w.calls ++ [⟨request, .acquiring⟩] }
        (request.pool config) w.calls.length ⟨request, .acquiring⟩ :=
      ⟨List.getElem?_concat_length, rfl⟩
    have hsound := happended.sound (request.pool config)
    refine happended.setPool (hsound.acquire hwait hheld)
      (fun _ => HandOff.Pool.member_acquire hheld) (fun k c hk => ?_) (fun k hk => ?_)
    · rcases HandOff.Pool.of_held_acquire hk with rfl | hold
      · exact Or.inr ⟨_, hcall, rfl⟩
      · exact Or.inl hold
    · rcases HandOff.Pool.of_mem_waiters_acquire hk with rfl | hold
      · exact ⟨_, hcall, rfl⟩
      · exact happended.waiters _ k hold
  · exact h.append _

/-- **A timed-out acquire** takes its place in the queue with it, and nothing else. -/
theorem Inv.timeout (h : Inv config size w) {k : ℕ} {call : Call}
    (hcall : w.calls[k]? = some call) (hwait : k ∈ (w.pools (call.request.pool config)).waiters) :
    Inv config size ((w.setPool (call.request.pool config)
      ((w.pools (call.request.pool config)).giveUp k)).setStage k call .timedOut) := by
  have hsound := h.sound (call.request.pool config)
  have hgiven : Inv config size (w.setPool (call.request.pool config)
      ((w.pools (call.request.pool config)).giveUp k)) :=
    h.setPool hsound.giveUp (fun _ => HandOff.Pool.member_giveUp) (fun _ _ hj => Or.inl hj)
      (fun j hj => h.waiters _ j (List.mem_of_mem_erase hj))
  refine hgiven.setStage hcall (Or.inr ?_) ?_ (fun hstage => absurd hstage (by decide))
  · rw [pools_setPool_self]
    exact hsound.held_of_waiter k hwait
  · rw [pools_setPool_self]
    exact hsound.waiters_nodup.not_mem_erase

/-- What an event can do. -/
inductive Turn (config : Config) (w : World driver) : World driver → Prop
  | none : Turn config w w
  | enter (request : Request) : Turn config w (exec config w (.enter request))
  | timeout {k : ℕ} {call : Call} (hcall : w.calls[k]? = some call)
      (hwait : k ∈ (w.pools (call.request.pool config)).waiters) :
      Turn config w ((w.setPool (call.request.pool config)
        ((w.pools (call.request.pool config)).giveUp k)).setStage k call .timedOut)
  | step {k c : ℕ} {call : Call} {ok : Bool} (hcall : w.calls[k]? = some call)
      (hheld : (w.pools (call.request.pool config)).held k = some c) :
      Turn config w (w.stepCall config k call c ok)
  | rebuild {k c : ℕ} {call : Call} (hcall : w.calls[k]? = some call)
      (hheld : (w.pools (call.request.pool config)).held k = some c)
      (hstage : call.stage = .signing) : Turn config w (w.rebuild config k call c)
  | touch {k c : ℕ} {call : Call} {session : driver.Session} (hcall : w.calls[k]? = some call)
      (hheld : (w.pools (call.request.pool config)).held k = some c)
      (hstage : call.stage = .running) : Turn config w (w.setSession c session)
  | signins {signins : List ℕ} : Turn config w { w with signins := signins }
  | signin {signins : List ℕ} {c : ℕ} : Turn config w
      (World.setSession { w with signins := signins } c (driver.signin (w.sessions c)))

theorem turn_exec (event : Event driver) : Turn config w (exec config w event) := by
  cases event with
  | enter request => exact .enter request
  | timeout k =>
      unfold exec
      dsimp only
      split
      · exact .none
      · next hcall =>
          split
          · next hwait => exact .timeout hcall hwait
          · exact .none
  | proceed k ok =>
      unfold exec
      dsimp only
      split
      · exact .none
      · next hcall =>
          split
          · exact .none
          · next hheld => exact .step hcall hheld
  | rebuild k =>
      unfold exec
      dsimp only
      split
      · exact .none
      · next hcall =>
          split
          · exact .none
          · next hheld =>
              split
              · next hstage => exact .rebuild hcall hheld hstage
              · exact .none
  | touch k session =>
      unfold exec
      dsimp only
      split
      · exact .none
      · next hcall =>
          split
          · exact .none
          · next hheld =>
              split
              · next hstage => exact .touch hcall hheld hstage
              · exact .none
  | resign c =>
      unfold exec
      dsimp only
      split
      · exact .signins
      · exact .none
  | signedIn c ok =>
      unfold exec
      dsimp only
      split
      · split
        · exact .signin
        · exact .signins
      · exact .none

/-- **Every event keeps the invariant.** -/
theorem Inv.turn (h : Inv config size w) {w' : World driver} (hturn : Turn config w w') :
    Inv config size w' := by
  cases hturn with
  | none => exact h
  | enter request => exact h.enter request
  | timeout hcall hwait => exact h.timeout hcall hwait
  | step hcall hheld => exact h.stepCall hcall hheld
  | rebuild hcall hheld hstage => exact h.rebuild hcall hheld hstage
  | touch hcall hheld hstage =>
      refine h.setSession (fun p j call' hcall' hselected hj => ?_)
      -- the callback has the connection for itself
      obtain ⟨_, rfl⟩ := h.holder_unique hj hheld
      cases hcall.symm.trans hcall'.1
      rw [hstage] at hselected
      exact absurd hselected (by decide)
  | signins => exact h.signins _
  | signin => exact (h.signins _).signin _

/-! ## 4. Every run -/

theorem mem_rootConns {c : ℕ} : c ∈ config.rootConns ↔ c < config.poolSize := List.mem_range

theorem of_mem_scopedConns {c : ℕ} (h : c ∈ config.scopedConns) :
    config.poolSize ≤ c ∧ c < config.poolSize + config.scopedPoolSize := by
  unfold Config.scopedConns at h
  split at h
  · exact List.mem_range'_1.mp h
  · cases h

theorem scopedConns_nodup : config.scopedConns.Nodup := by
  unfold Config.scopedConns
  split
  · exact List.nodup_range'
  · exact List.nodup_nil

theorem scopedConns_length :
    config.scopedConns.length = if config.scopedEnabled then config.scopedPoolSize else 0 := by
  unfold Config.scopedConns
  split
  · exact List.length_range'
  · rfl

/-- A pool where everything lies idle. -/
theorem sound_of_idle {l : List ℕ} (h : l.Nodup) :
    (⟨l, [], fun _ => none⟩ : HandOff.Pool ℕ ℕ).Sound := by
  refine ⟨h, List.nodup_nil, fun hne => absurd rfl hne, fun _ _ => rfl, fun _ _ _ hheld => ?_,
    fun _ _ hheld => ?_⟩
  · cases hheld
  · cases hheld

theorem member_of_idle {l : List ℕ} {c : ℕ} :
    (⟨l, [], fun _ => none⟩ : HandOff.Pool ℕ ℕ).Member c ↔ c ∈ l := by
  simp [HandOff.Pool.Member]

theorem inv_initial : Inv config config.size (initial driver config) := by
  have hheld : ∀ p k c, ((initial driver config).pools p).held k ≠ some c := by
    intro p k c hk
    cases p <;> cases hk
  have hwaiters : ∀ p, ((initial driver config).pools p).waiters = [] := fun p => by cases p <;> rfl
  have hdisjoint : ∀ c ∈ config.rootConns, c ∉ config.scopedConns := by
    intro c hroot hscoped
    have hlt := mem_rootConns.mp hroot
    have hle := (of_mem_scopedConns hscoped).1
    omega
  refine ⟨fun p => ?_, fun c hroot hscoped => ?_, fun c => ?_, ?_, ?_, fun c hc => ?_,
    fun p k c hk => absurd hk (hheld p k c), fun p k hk => ?_,
    fun p k c _ _ _ hk => absurd hk (hheld p k c), fun s hs => ?_⟩
  · cases p
    · exact sound_of_idle List.nodup_range
    · exact sound_of_idle scopedConns_nodup
  · exact hdisjoint c (member_of_idle.mp hroot) (member_of_idle.mp hscoped)
  · constructor
    · intro hc
      rcases List.mem_append.mp hc with hc | hc
      · exact ⟨.root, member_of_idle.mpr hc⟩
      · exact ⟨.scoped, member_of_idle.mpr hc⟩
    · rintro ⟨p, hp⟩
      cases p
      · exact List.mem_append_left _ (member_of_idle.mp hp)
      · exact List.mem_append_right _ (member_of_idle.mp hp)
  · refine List.nodup_append.mpr ⟨List.nodup_range, scopedConns_nodup, ?_⟩
    intro a ha b hb hab
    exact hdisjoint a ha (hab ▸ hb)
  · show (config.rootConns ++ config.scopedConns).length = config.size
    rw [List.length_append, scopedConns_length, Config.rootConns, List.length_range, Config.size]
  · rcases List.mem_append.mp hc with hc | hc
    · exact Nat.lt_add_right _ (mem_rootConns.mp hc)
    · exact (of_mem_scopedConns hc).2
  · rw [hwaiters p] at hk
    cases hk
  · cases hs

theorem Inv.of_reached {w' : World driver} (h : Inv config size w)
    (hreached : Runs.Reached (exec config) (fun _ _ => True) w w') : Inv config size w' :=
  hreached.invariant h (fun _ event hinv _ => hinv.turn (turn_exec event))

/-- A call that is over has no connection and waits for none. -/
theorem Inv.of_not_open (h : Inv config size w) {k : ℕ} {call : Call}
    (hcall : w.calls[k]? = some call) (hover : ¬ call.stage.Open) (p : PoolKind) :
    (w.pools p).held k = none ∧ k ∉ (w.pools p).waiters := by
  constructor
  · cases hheld : (w.pools p).held k with
    | none => rfl
    | some c =>
        obtain ⟨call', ⟨hcall', _⟩, hopen⟩ := h.holders p k c hheld
        cases hcall.symm.trans hcall'
        exact absurd hopen hover
  · intro hmem
    obtain ⟨call', ⟨hcall', _⟩, hacquiring⟩ := h.waiters p k hmem
    cases hcall.symm.trans hcall'
    exact hover (by rw [hacquiring]; decide)

/-- A step of a call leaves the other ones alone. -/
theorem stepCall_calls_of_ne {j k c : ℕ} {call : Call} {ok : Bool} (hne : j ≠ k) :
    (w.stepCall config j call c ok).calls[k]? = w.calls[k]? := by
  have hset : ∀ stage, (w.calls.set j { call with stage := stage })[k]? = w.calls[k]? :=
    fun _ => List.getElem?_set_ne hne
  unfold World.stepCall
  split
  · exact hset _
  · split
    · exact hset _
    · exact hset _
  · split
    · exact hset _
    · exact hset _
  · split
    · split
      · exact hset _
      · exact hset _
    · exact hset _
  · split
    · split
      · exact hset _
      · exact hset _
    · rfl
  · exact hset _
  · rfl
  · rfl

/-- A call that is over stays as it is. -/
theorem Inv.turn_calls (h : Inv config size w) {w' : World driver} (hturn : Turn config w w')
    {k : ℕ} {call : Call} (hcall : w.calls[k]? = some call) (hover : ¬ call.stage.Open) :
    w'.calls[k]? = some call := by
  have hne : ∀ p j c, (w.pools p).held j = some c → j ≠ k := by
    intro p j c hj heq
    rw [heq, (h.of_not_open hcall hover p).1] at hj
    cases hj
  cases hturn with
  | none => exact hcall
  | enter request =>
      have happended : ∀ call', (w.calls ++ [call'])[k]? = some call := fun call' => by
        rw [List.getElem?_append_left (List.getElem?_eq_some_iff.mp hcall).1, hcall]
      unfold exec
      dsimp only
      split
      · exact happended _
      · exact happended _
  | @timeout j _ _ hwait =>
      have hjk : j ≠ k := fun heq => (h.of_not_open hcall hover _).2 (heq ▸ hwait)
      exact (List.getElem?_set_ne hjk).trans hcall
  | step _ hheld => exact (stepCall_calls_of_ne (hne _ _ _ hheld)).trans hcall
  | rebuild _ hheld _ => exact (List.getElem?_set_ne (hne _ _ _ hheld)).trans hcall
  | touch _ _ _ => exact hcall
  | signins => exact hcall
  | signin => exact hcall

/-- What the pools promise. -/
structure PoolSafe (config : Config) (w : World driver) : Prop where
  /-- A connection lies idle in one of the pools, or one call holds it, which is at work. -/
  idle_or_held : ∀ c ∈ w.all,
    ((∃! p, c ∈ (w.pools p).idle) ∧ ∀ p k, (w.pools p).held k ≠ some c) ∨
    ((∀ p, c ∉ (w.pools p).idle) ∧ ∃ p k, (w.pools p).held k = some c ∧
      (∀ p' k', (w.pools p').held k' = some c → p' = p ∧ k' = k) ∧
      ∃ call, OnPool config w p k call ∧ call.stage.Open)
  /-- None is handed out that is not one of theirs. -/
  mem_all : ∀ p c, (w.pools p).Member c → c ∈ w.all
  idle_nodup : ∀ p, (w.pools p).idle.Nodup
  /-- None gets lost. -/
  all_nodup : w.all.Nodup
  all_length : w.all.length = config.size
  idle_of_waiters : ∀ p, (w.pools p).waiters ≠ [] → (w.pools p).idle = []
  /-- After its timeout a call neither gets a connection nor waits for one. -/
  timedOut : ∀ k call, w.calls[k]? = some call → call.stage = .timedOut →
    ∀ w', Runs.Reached (exec config) (fun _ _ => True) w w' →
      ∀ p, (w'.pools p).held k = none ∧ k ∉ (w'.pools p).waiters
  /-- Every callback starts on its own database, with its own scopes. -/
  starts : ∀ s ∈ w.starts, s.Own

theorem Inv.idle_or_held (h : Inv config size w) {c : ℕ} (hc : c ∈ w.all) :
    ((∃! p, c ∈ (w.pools p).idle) ∧ ∀ p k, (w.pools p).held k ≠ some c) ∨
    ((∀ p, c ∉ (w.pools p).idle) ∧ ∃ p k, (w.pools p).held k = some c ∧
      (∀ p' k', (w.pools p').held k' = some c → p' = p ∧ k' = k) ∧
      ∃ call, OnPool config w p k call ∧ call.stage.Open) := by
  obtain ⟨p, hidle | ⟨k, hheld⟩⟩ := (h.mem_all c).mp hc
  · refine Or.inl ⟨⟨p, hidle, fun p' hp' => h.pool_unique (Or.inl hp') (Or.inl hidle)⟩, ?_⟩
    intro p' k' hk'
    obtain rfl := h.pool_unique (Or.inr ⟨k', hk'⟩) (Or.inl hidle)
    exact (h.sound p').not_idle k' c hk' hidle
  · refine Or.inr ⟨fun p' hp' => ?_, p, k, hheld, fun p' k' hk' => h.holder_unique hk' hheld,
      h.holders p k c hheld⟩
    obtain rfl := h.pool_unique (Or.inl hp') (Or.inr ⟨k, hheld⟩)
    exact (h.sound p').not_idle k c hheld hp'

/-- **Whatever the calls do, and in whatever order**: the pools hand out every connection to one
call at a time and lose none, and a callback finds its own database and its own scopes. -/
theorem poolSafe_of_reached
    (h : Runs.Reached (exec config) (fun _ _ => True) (initial driver config) w) :
    PoolSafe config w := by
  have hinv : Inv config config.size w := inv_initial.of_reached h
  refine ⟨fun c hc => hinv.idle_or_held hc, fun p c hc => (hinv.mem_all c).mpr ⟨p, hc⟩,
    fun p => (hinv.sound p).idle_nodup, hinv.all_nodup, hinv.all_length,
    fun p => (hinv.sound p).idle_of_waiters, fun k call hcall hstage w' hreached p => ?_,
    hinv.starts⟩
  have hover : ¬ call.stage.Open := fun hopen => hopen.2 hstage
  have hlater : Inv config config.size w' ∧ w'.calls[k]? = some call :=
    hreached.invariant (P := fun w' => Inv config config.size w' ∧ w'.calls[k]? = some call)
      ⟨hinv, hcall⟩ (fun _ event ih _ =>
        ⟨ih.1.turn (turn_exec event), ih.1.turn_calls (turn_exec event) ih.2 hover⟩)
  exact hlater.1.of_not_open hlater.2 hover p

end Invariant

/-- A session that is its database and its scopes. -/
def plainDriver : Driver where
  Session := Option String × Option (List String)
  connected := (none, none)
  signin := id
  use := fun name s => (some name, s.2)
  letScopes := fun scopes s => (s.1, some scopes)
  database := Prod.fst
  callerScopes := Prod.snd
  database_use := fun _ _ => rfl
  database_signin := fun _ => rfl
  database_letScopes := fun _ _ => rfl
  callerScopes_letScopes := fun _ _ => rfl

/-- Two tenants on one connection of each pool: a call times out in the queue, a callback leaves
its session on another database, and what it gives back goes to the next one. -/
def handedOn : List (Event plainDriver) :=
  [.enter (.withCompany "a"), .enter .withAdminDb, .enter (.withCompany "b"),
    .enter (.withScopedCompany "b" ["hr"]), .proceed 0 true, .proceed 0 true, .proceed 0 true,
    .proceed 0 true, .timeout 1, .touch 0 (some "co_c", some ["all"]), .proceed 0 false,
    .proceed 2 true, .proceed 2 true, .proceed 2 true, .proceed 2 true, .resign 1,
    .proceed 3 true, .proceed 3 true, .proceed 3 true, .signedIn 1 true, .proceed 3 true]

theorem poolSafe_handedOn :
    PoolSafe ⟨true, 1, 1⟩ (handedOn.foldl (exec ⟨true, 1, 1⟩) (initial plainDriver ⟨true, 1, 1⟩)) :=
  poolSafe_of_reached (Runs.reached_foldl .start handedOn)

example : ((handedOn.foldl (exec ⟨true, 1, 1⟩) (initial plainDriver ⟨true, 1, 1⟩)).starts.map
    Start.session) =
      [(some "co_a", none), (some "co_b", some ["all"]), (some "co_b", some ["hr"])] := rfl

end Brain.ConnectionPool
