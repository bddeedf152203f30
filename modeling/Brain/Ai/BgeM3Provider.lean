/-
`src/src/ai/embedder/bge-m3-embedder.provider.ts` in the worker mode, and
`src/src/ai/embedder/bge-m3.worker.ts`: embedding in a thread of its own.

The provider sends numbered requests and keeps a table of who waits for which number. A call waits
for a permit of the limiter before it is sent, the worker finishes its tasks in any order, a
request whose timer fires is struck out, and the thread can die at any point; what it still
posts, or has posted before, comes in at any time. A call that is answered is answered with the
vector of its own text (`worker_protocol`), each is settled once or still waits where something
will settle it, and a provider that has stopped being ready stays so.

The `embedMany` message, which the provider never sends, is left out, and so is a second `warmup`,
which the service never asks for.
-/
import Brain.Ai.EmbedderService
import Brain.Common.Semaphore
import Brain.Lib.Correlation
import Mathlib.Data.List.DropRight

set_option autoImplicit false

namespace Brain.BgeM3

open Embedder Correlation

/-! ## 1. The worker -/

inductive Request where
  | warmup
  | embed (text : String)

/-- A reply: `ok` with its result, or not. -/
inductive Answer where
  | ready
  | vector (v : Embedding)
  | failed
deriving DecidableEq

/-- `warmupPromise`: not there, pending, resolved, rejected. -/
inductive Warmup where
  | none
  | loading
  | loaded
  | failed
deriving DecidableEq

/-- What the thread gives to its parent. -/
inductive Signal where
  | reply (id : ℕ) (answer : Answer)
  | error
  | exit

structure Worker where
  alive : Bool := true
  inbox : List (ℕ × Request) := []
  /-- The handlers that are at an `await`. -/
  tasks : List (ℕ × Request) := []
  warmup : Warmup := .none
  outbox : List Signal := []

/-- `shapeVector`. -/
def shapeVector (dimensions : ℕ) (v : Embedding) : Embedding :=
  if v.length = dimensions then v
  else if dimensions < v.length then v.take dimensions
  else v ++ List.replicate (dimensions - v.length) 0

section Worker

variable (dimensions : ℕ) (model : String → Embedding)

/-- `embed` of the worker, when the pipeline answers. -/
def workerEmbed (text : String) : Embedding :=
  let trimmed := trimString text
  if trimmed.isEmpty then zeroVector dimensions else shapeVector dimensions (model trimmed)

/-- The handler of the next message, up to its first `await`. -/
def Worker.deliver (w : Worker) : Worker :=
  match w.inbox with
  | [] => w
  | (id, .warmup) :: inbox =>
      { w with inbox := inbox, tasks := w.tasks ++ [(id, .warmup)]
               warmup := if w.warmup = .none then .loading else w.warmup }
  | (id, .embed text) :: inbox =>
      -- without a warmup there is nothing to wait for, and no pipeline
      if w.warmup = .none then
        { w with inbox := inbox, outbox := w.outbox ++ [.reply id .failed] }
      else { w with inbox := inbox, tasks := w.tasks ++ [(id, .embed text)] }

/-- The pipeline is there, or has failed to load. -/
def Worker.load (w : Worker) (ok : Bool) : Worker :=
  if w.warmup = .loading then { w with warmup := if ok then .loaded else .failed } else w

/-- What a handler replies when the warmup is over; `ok` if the pipeline does not throw. -/
def replyOf (warmup : Warmup) (ok : Bool) : Request → Option Answer
  | .warmup =>
      match warmup with
      | .loaded => some .ready
      | .failed => some .failed
      | _ => none
  | .embed text =>
      match warmup with
      | .loaded => some (if ok then .vector (workerEmbed dimensions model text) else .failed)
      | .failed => some .failed
      | _ => none

/-- A handler goes on after its `await`, and replies. -/
def Worker.finish (w : Worker) (n : ℕ) (ok : Bool) : Worker :=
  match w.tasks[n]? with
  | none => w
  | some (id, request) =>
      match replyOf dimensions model w.warmup ok request with
      | none => w
      | some answer =>
          { w with tasks := w.tasks.eraseIdx n, outbox := w.outbox ++ [.reply id answer] }

/-- The thread dies. -/
def Worker.die (w : Worker) (signals : List Signal) : Worker :=
  { w with alive := false, inbox := [], tasks := [], outbox := w.outbox ++ signals }

end Worker

/-! ## 2. The provider -/

/-- Who waits for a number: `warmupWorker`, or a call of `embed` by its number. -/
inductive Owner where
  | warmup
  | embed (c : ℕ)
deriving DecidableEq

def Owner.call? : Owner → Option ℕ
  | .warmup => none
  | .embed c => some c

/-- `texts` are those of the calls of `embed` that have got to the limiter, which numbers them,
and `outcomes` their promises that are settled. -/
structure State where
  process : Option Worker := none
  /-- `this.worker` is not `null`. -/
  attached : Bool := false
  workerReady : Bool := false
  desk : Desk Owner := {}
  limiter : Semaphore.State := .start
  texts : List String := []
  outcomes : List (ℕ × Answer) := []

inductive Event where
  /-- `warmup`; whether the thread can be started. -/
  | warmup (starts : Bool)
  | embed (text : String)
  /-- A call goes on that has got its permit. -/
  | resume (c : ℕ)
  /-- A call gives its permit back. -/
  | leave (c : ℕ) (outcome : Semaphore.Outcome)
  /-- One of the signals of the thread is handled. -/
  | receive (n : ℕ)
  /-- The timer of a request fires. -/
  | timeout (id : ℕ)
  | terminate
  | deliver
  | load (ok : Bool)
  | finish (n : ℕ) (ok : Bool)
  /-- The thread dies, of an error or not. -/
  | die (error : Bool)

def Answer.outcome : Answer → Semaphore.Outcome
  | .failed => .rejected
  | _ => .resolved

section Provider

variable (limit dimensions : ℕ) (model : String → Embedding)

/-- The promise of an owner settles. -/
def State.settle (s : State) (owner : Owner) (answer : Answer) : State :=
  match owner with
  -- the rest of `warmupWorker`
  | .warmup => { s with workerReady := decide (answer ≠ .failed) }
  | .embed c => { s with
      limiter := Semaphore.step limit s.limiter (.settle c answer.outcome)
      outcomes := s.outcomes ++ [(c, answer)] }

/-- `handleReply`. -/
def State.handleReply (s : State) (id : ℕ) (answer : Answer) : State :=
  match s.desk.pending.get? id with
  | none => s
  | some owner => { s with desk := s.desk.take id }.settle limit owner answer

/-- `failAllPending`. -/
def State.failAllPending (s : State) : State :=
  let failed := s.desk.pending.values.foldl (fun s owner => s.settle limit owner .failed) s
  { failed with desk := s.desk.clear }

/-- `failAllPending`, and the worker is not ready any more. -/
def State.fail (s : State) : State := { s.failAllPending limit with workerReady := false }

/-- A message is posted; a thread that is dead does not get it. -/
def State.post (s : State) (id : ℕ) (request : Request) : State :=
  { s with process := s.process.map (fun w =>
      if w.alive then { w with inbox := w.inbox ++ [(id, request)] } else w) }

/-- `rpc`. -/
def State.rpc (s : State) (owner : Owner) (request : Request) : State :=
  if s.attached then { s with desk := s.desk.issue owner }.post s.desk.next request
  else s.settle limit owner .failed

/-- The handler of a signal. -/
def State.handle (s : State) : Signal → State
  | .reply id answer => s.handleReply limit id answer
  | .error => s.fail limit
  | .exit => s.fail limit

def step (s : State) : Event → State
  | .warmup starts =>
      if s.process.isSome then s
      else if starts then
        { s with process := some {}, attached := true }.rpc limit .warmup .warmup
      else { s with workerReady := false }
  | .embed text =>
      -- a call on a worker that is not ready throws, and a blank text is a zero vector
      if s.workerReady && !(trimString text).isEmpty then
        { s with texts := s.texts ++ [trimString text]
                 limiter := Semaphore.step limit s.limiter .call }
      else s
  | .resume c =>
      if c ∈ s.limiter.granted then
        { s with limiter := Semaphore.step limit s.limiter (.resume c) }.rpc limit (.embed c)
          (.embed (s.texts.getD c ""))
      else s
  | .leave c outcome => { s with limiter := Semaphore.step limit s.limiter (.leave c outcome) }
  | .receive n =>
      match s.process with
      | none => s
      | some w =>
          match w.outbox[n]? with
          | none => s
          | some signal =>
              { s with process := some { w with outbox := w.outbox.eraseIdx n } }.handle limit signal
  | .timeout id =>
      match s.desk.pending.get? id with
      | none => s
      | some owner =>
          { s with desk := s.desk.take id, workerReady := false }.settle limit owner .failed
  | .terminate =>
      if s.attached then
        { s.fail limit with
          attached := false
          process := s.process.map (fun w => if w.alive then w.die [.exit] else w) }
      else { s with workerReady := false }
  | .deliver => { s with process := s.process.map Worker.deliver }
  | .load ok => { s with process := s.process.map (fun w => w.load ok) }
  | .finish n ok => { s with process := s.process.map (fun w => w.finish dimensions model n ok) }
  | .die error =>
      { s with process := s.process.map (fun w =>
          if w.alive then w.die (if error then [.error, .exit] else [.exit]) else w) }

def run (events : List Event) : State := events.foldl (step limit dimensions model) {}

end Provider

/-! ## 3. What the messages say -/

section Wire

variable (dimensions : ℕ) (model : String → Embedding)

/-- What is asked for an owner. -/
def requestOf (texts : List String) : Owner → Option Request
  | .warmup => some .warmup
  | .embed c => texts[c]?.map .embed

/-- An answer that an owner may get. -/
def Right (texts : List String) : Owner → Answer → Prop
  | .warmup, answer => answer = .ready ∨ answer = .failed
  | .embed c, answer => answer = .failed ∨
      ∃ t, texts[c]? = some t ∧ answer = .vector (workerEmbed dimensions model t)

/-- Every message is about the request that was sent under its number. -/
structure Sane (issued : List (ℕ × Owner)) (texts : List String) (w : Worker) : Prop where
  inbox : ∀ p ∈ w.inbox, ∃ o, (p.1, o) ∈ issued ∧ requestOf texts o = some p.2
  tasks : ∀ p ∈ w.tasks, ∃ o, (p.1, o) ∈ issued ∧ requestOf texts o = some p.2
  outbox : ∀ id answer, Signal.reply id answer ∈ w.outbox →
    ∃ o, (id, o) ∈ issued ∧ Right dimensions model texts o answer
  ready : ∀ id, Signal.reply id .ready ∈ w.outbox → w.warmup = .loaded

variable {dimensions model} {issued issued' : List (ℕ × Owner)} {texts : List String} {w : Worker}

theorem requestOf_append {o : Owner} {request : Request} (h : requestOf texts o = some request)
    (more : List String) : requestOf (texts ++ more) o = some request := by
  cases o with
  | warmup => exact h
  | embed c =>
      obtain ⟨t, ht, rfl⟩ := Option.map_eq_some_iff.mp h
      have hlt := (List.getElem?_eq_some_iff.mp ht).1
      rw [requestOf, List.getElem?_append_left hlt, ht]
      rfl

theorem Right.append {o : Owner} {answer : Answer} (h : Right dimensions model texts o answer)
    (more : List String) : Right dimensions model (texts ++ more) o answer := by
  cases o with
  | warmup => exact h
  | embed c =>
      rcases h with h | ⟨t, ht, h⟩
      · exact Or.inl h
      · have hlt := (List.getElem?_eq_some_iff.mp ht).1
        exact Or.inr ⟨t, (List.getElem?_append_left hlt).trans ht, h⟩

theorem right_failed (o : Owner) : Right dimensions model texts o .failed := by
  cases o with
  | warmup => exact Or.inr rfl
  | embed c => exact Or.inl rfl

theorem Sane.mono (h : Sane dimensions model issued texts w) (hsub : issued ⊆ issued') :
    Sane dimensions model issued' texts w :=
  ⟨fun p hp => (h.inbox p hp).imp (fun _ ho => ⟨hsub ho.1, ho.2⟩),
    fun p hp => (h.tasks p hp).imp (fun _ ho => ⟨hsub ho.1, ho.2⟩),
    fun id a ha => (h.outbox id a ha).imp (fun _ ho => ⟨hsub ho.1, ho.2⟩), h.ready⟩

theorem Sane.append (h : Sane dimensions model issued texts w) (more : List String) :
    Sane dimensions model issued (texts ++ more) w :=
  ⟨fun p hp => (h.inbox p hp).imp (fun _ ho => ⟨ho.1, requestOf_append ho.2 more⟩),
    fun p hp => (h.tasks p hp).imp (fun _ ho => ⟨ho.1, requestOf_append ho.2 more⟩),
    fun id a ha => (h.outbox id a ha).imp (fun _ ho => ⟨ho.1, ho.2.append more⟩), h.ready⟩

/-- A worker that posts one reply more. -/
theorem Sane.reply (h : Sane dimensions model issued texts w) {id : ℕ} {o : Owner}
    {answer : Answer} (ho : (id, o) ∈ issued) (ha : Right dimensions model texts o answer)
    (hready : answer = .ready → w.warmup = .loaded) {inbox tasks : List (ℕ × Request)}
    (hinbox : inbox ⊆ w.inbox) (htasks : tasks ⊆ w.tasks) :
    Sane dimensions model issued texts
      { w with inbox := inbox, tasks := tasks, outbox := w.outbox ++ [.reply id answer] } := by
  refine ⟨fun p hp => h.inbox p (hinbox hp), fun p hp => h.tasks p (htasks hp),
    fun id' answer' hmem => ?_, fun id' hmem => ?_⟩
  · rcases List.mem_append.mp hmem with hmem | hmem
    · exact h.outbox id' answer' hmem
    · cases List.mem_singleton.mp hmem
      exact ⟨o, ho, ha⟩
  · rcases List.mem_append.mp hmem with hmem | hmem
    · exact h.ready id' hmem
    · cases List.mem_singleton.mp hmem
      exact hready rfl

theorem Sane.deliver (h : Sane dimensions model issued texts w) :
    Sane dimensions model issued texts w.deliver ∧
      (w.warmup = .loaded → w.deliver.warmup = .loaded) := by
  unfold Worker.deliver
  split
  · exact ⟨h, id⟩
  · next id inbox heq =>
      have hloaded : w.warmup = .loaded →
          (if w.warmup = .none then Warmup.loading else w.warmup) = .loaded := by
        intro hw
        rw [hw, if_neg (by decide)]
      refine ⟨⟨fun p hp => h.inbox p (heq ▸ List.mem_cons_of_mem _ hp), fun p hp => ?_, h.outbox,
        fun id' hmem => hloaded (h.ready id' hmem)⟩, hloaded⟩
      rcases List.mem_append.mp hp with hp | hp
      · exact h.tasks p hp
      · obtain rfl := List.mem_singleton.mp hp
        exact h.inbox _ (heq ▸ List.mem_cons_self)
  · next id text inbox heq =>
      have hfirst := h.inbox (id, .embed text) (heq ▸ List.mem_cons_self)
      have htail : inbox ⊆ w.inbox := fun p hp => heq ▸ List.mem_cons_of_mem _ hp
      split
      · obtain ⟨o, ho, _⟩ := hfirst
        exact ⟨h.reply ho (right_failed o) (fun hne => by cases hne) htail (List.Subset.refl _),
          fun hw => hw⟩
      · refine ⟨⟨fun p hp => h.inbox p (htail hp), fun p hp => ?_, h.outbox, h.ready⟩, fun hw => hw⟩
        rcases List.mem_append.mp hp with hp | hp
        · exact h.tasks p hp
        · obtain rfl := List.mem_singleton.mp hp
          exact hfirst

theorem Sane.load (h : Sane dimensions model issued texts w) (ok : Bool) :
    Sane dimensions model issued texts (w.load ok) ∧
      (w.warmup = .loaded → (w.load ok).warmup = .loaded) := by
  unfold Worker.load
  split
  · next hloading =>
      refine ⟨⟨h.inbox, h.tasks, h.outbox, fun id hmem => ?_⟩, fun hw => ?_⟩
      · rw [h.ready id hmem] at hloading
        cases hloading
      · rw [hw] at hloading
        cases hloading
  · exact ⟨h, fun hw => hw⟩

/-- **A handler replies to its own request.** -/
theorem Sane.finish (h : Sane dimensions model issued texts w) (n : ℕ) (ok : Bool) :
    Sane dimensions model issued texts (w.finish dimensions model n ok) ∧
      (w.warmup = .loaded → (w.finish dimensions model n ok).warmup = .loaded) := by
  unfold Worker.finish
  split
  · exact ⟨h, fun hw => hw⟩
  · next id request htask =>
      obtain ⟨o, ho, hrequest⟩ := h.tasks _ (List.mem_of_getElem? htask)
      split
      · exact ⟨h, fun hw => hw⟩
      · next answer hanswer =>
          refine ⟨h.reply ho ?_ ?_ (List.Subset.refl _) (List.eraseIdx_subset), fun hw => hw⟩
          · cases o with
            | warmup =>
                cases hrequest
                cases hw : w.warmup <;> rw [hw] at hanswer <;> cases hanswer
                · exact Or.inl rfl
                · exact Or.inr rfl
            | embed c =>
                obtain ⟨t, ht, rfl⟩ := Option.map_eq_some_iff.mp hrequest
                cases hw : w.warmup <;> rw [hw] at hanswer <;> cases hanswer
                · cases ok with
                  | false => exact Or.inl rfl
                  | true => exact Or.inr ⟨t, ht, rfl⟩
                · exact Or.inl rfl
          · rintro rfl
            cases request with
            | warmup => cases hw : w.warmup <;> simp [replyOf, hw] at hanswer ⊢
            | embed text => cases hw : w.warmup <;> cases ok <;> simp [replyOf, hw] at hanswer

theorem Sane.die (h : Sane dimensions model issued texts w) {signals : List Signal}
    (hsignals : ∀ id answer, Signal.reply id answer ∉ signals) :
    Sane dimensions model issued texts (w.die signals) := by
  refine ⟨fun _ hp => absurd hp List.not_mem_nil, fun _ hp => absurd hp List.not_mem_nil,
    fun id answer hmem => ?_, fun id hmem => ?_⟩
  · exact h.outbox id answer ((List.mem_append.mp hmem).resolve_right (hsignals id answer))
  · exact h.ready id ((List.mem_append.mp hmem).resolve_right (hsignals id _))

end Wire

/-! ## 4. Who waits, and who is told -/

section Calls

variable {limit dimensions : ℕ} {model : String → Embedding} {s : State} {owners : List Owner}
  {o : Owner} {answer : Answer}

/-- The model has been loaded in the thread. -/
def State.Loaded (s : State) : Prop := ∃ w, s.process = some w ∧ w.warmup = .loaded

/-- The provider, with the owners that still wait for a number. -/
structure Waiting (limit dimensions : ℕ) (model : String → Embedding) (s : State)
    (owners : List Owner) : Prop where
  limiter : Semaphore.Inv limit s.limiter
  calls : s.limiter.calls = s.texts.length
  desk : s.desk.Sound
  /-- The calls whose bodies execute are those that wait for a number. -/
  executing : s.limiter.executing.Perm (owners.filterMap Owner.call?)
  told : (s.outcomes.map (fun p => (p.1, p.2.outcome))).Perm (s.limiter.settled ++ s.limiter.finished)
  known : ∀ c, .embed c ∈ s.desk.issued.map Prod.snd →
    c ∈ s.limiter.executing ∨ c ∈ s.outcomes.map Prod.fst
  texts : ∀ t ∈ s.texts, trimString t = t ∧ t.isEmpty = false
  right : ∀ p ∈ s.outcomes, Right dimensions model s.texts (.embed p.1) p.2
  fresh : s.process = none → s.desk.issued = [] ∧ s.attached = false
  ready : s.workerReady = true → s.attached = true ∧ .warmup ∉ owners ∧ s.Loaded

theorem Waiting.perm (h : Waiting limit dimensions model s owners) {owners' : List Owner}
    (hperm : owners.Perm owners') : Waiting limit dimensions model s owners' :=
  { h with
    executing := h.executing.trans (hperm.filterMap _)
    ready := fun hr => ⟨(h.ready hr).1, fun hm => (h.ready hr).2.1 (hperm.mem_iff.mpr hm),
      (h.ready hr).2.2⟩ }

/-- **An owner is told**, and does not wait any more. -/
theorem Waiting.settle (h : Waiting limit dimensions model s (o :: owners))
    (hright : Right dimensions model s.texts o answer)
    (hready : o = .warmup → answer ≠ .failed → s.attached = true ∧ .warmup ∉ owners ∧ s.Loaded) :
    Waiting limit dimensions model (s.settle limit o answer) owners := by
  cases o with
  | warmup =>
      refine { h with executing := h.executing, ready := fun hr => ?_ }
      exact hready rfl (of_decide_eq_true hr)
  | embed c =>
      have hc : c ∈ s.limiter.executing := h.executing.mem_iff.mpr List.mem_cons_self
      have hstep : Semaphore.step limit s.limiter (.settle c answer.outcome)
          = { s.limiter with
              executing := s.limiter.executing.erase c
              settled := s.limiter.settled ++ [(c, answer.outcome)] } := by
        simp only [Semaphore.step, if_pos hc]
      have hlimiter := h.limiter.settle c answer.outcome
      unfold State.settle
      dsimp only
      rw [hstep] at hlimiter ⊢
      refine ⟨hlimiter, h.calls, h.desk, ?_, ?_, fun c' hc' => ?_, h.texts, fun p hp => ?_, h.fresh,
        fun hr => ?_⟩
      · have herase := h.executing.erase c
        have hcons : (Owner.embed c :: owners).filterMap Owner.call?
            = c :: owners.filterMap Owner.call? := rfl
        rwa [hcons, List.erase_cons_head] at herase
      · show ((s.outcomes ++ [(c, answer)]).map (fun p => (p.1, p.2.outcome))).Perm
          (s.limiter.settled ++ [(c, answer.outcome)] ++ s.limiter.finished)
        rw [List.map_append, List.append_assoc]
        refine (h.told.append_right _).trans ?_
        rw [List.append_assoc]
        exact List.Perm.append_left _ List.perm_append_comm
      · rw [List.map_append]
        rcases h.known c' hc' with hexec | hout
        · by_cases heq : c' = c
          · exact Or.inr (List.mem_append_right _ (heq ▸ List.mem_singleton_self c))
          · exact Or.inl ((List.mem_erase_of_ne heq).mpr hexec)
        · exact Or.inr (List.mem_append_left _ hout)
      · rcases List.mem_append.mp hp with hp | hp
        · exact h.right p hp
        · obtain rfl := List.mem_singleton.mp hp
          exact hright
      · obtain ⟨hatt, hno, hloaded⟩ := h.ready hr
        exact ⟨hatt, fun hm => hno (List.mem_cons_of_mem _ hm), hloaded⟩

/-- What settling an owner leaves alone. -/
theorem settle_frame (limit : ℕ) (s : State) (o : Owner) (answer : Answer) :
    (s.settle limit o answer).process = s.process ∧ (s.settle limit o answer).desk = s.desk ∧
      (s.settle limit o answer).texts = s.texts ∧
      (s.settle limit o answer).attached = s.attached := by
  cases o <;> exact ⟨rfl, rfl, rfl, rfl⟩

/-- The loop of `failAllPending` leaves the same alone. -/
theorem foldl_settle_frame (limit : ℕ) : ∀ (owners : List Owner) (s : State),
    (owners.foldl (fun s o => s.settle limit o .failed) s).process = s.process ∧
    (owners.foldl (fun s o => s.settle limit o .failed) s).desk = s.desk ∧
    (owners.foldl (fun s o => s.settle limit o .failed) s).texts = s.texts ∧
    (owners.foldl (fun s o => s.settle limit o .failed) s).attached = s.attached
  | [], _ => ⟨rfl, rfl, rfl, rfl⟩
  | o :: owners, s => by
      obtain ⟨hprocess, hdesk, htexts, hattached⟩ := settle_frame limit s o .failed
      obtain ⟨hprocess', hdesk', htexts', hattached'⟩ :=
        foldl_settle_frame limit owners (s.settle limit o .failed)
      exact ⟨hprocess'.trans hprocess, hdesk'.trans hdesk, htexts'.trans htexts,
        hattached'.trans hattached⟩

/-- It tells everybody. -/
theorem Waiting.failAll : ∀ {owners : List Owner} {s : State},
    Waiting limit dimensions model s owners →
    Waiting limit dimensions model (owners.foldl (fun s o => s.settle limit o .failed) s) []
  | [], _, h => h
  | _ :: _, _, h => (h.settle (right_failed _) (fun _ hne => absurd rfl hne)).failAll

end Calls

/-! ## 5. What every event keeps -/

section Invariant

variable {limit dimensions : ℕ} {model : String → Embedding} {s s' : State}

structure Inv (limit dimensions : ℕ) (model : String → Embedding) (s : State) : Prop where
  waiting : Waiting limit dimensions model s s.desk.pending.values
  /-- Nobody waits for a worker that has been let go. -/
  detached : s.attached = false → s.desk.pending.values = []
  wire : ∀ w, s.process = some w → Sane dimensions model s.desk.issued s.texts w

theorem inv_start : Inv limit dimensions model {} where
  waiting :=
    { limiter := Semaphore.inv_start
      calls := rfl
      desk := Desk.sound_new
      executing := List.Perm.refl _
      told := List.Perm.refl _
      known := fun _ hc => absurd hc List.not_mem_nil
      texts := fun _ ht => absurd ht List.not_mem_nil
      right := fun _ hp => absurd hp List.not_mem_nil
      fresh := fun _ => ⟨rfl, rfl⟩
      ready := fun hr => by cases hr }
  detached _ := rfl
  wire := fun _ hw => by cases hw

/-- What the worker does by itself. -/
theorem Inv.map_worker (h : Inv limit dimensions model s) {f : Worker → Worker}
    (hf : ∀ w, Sane dimensions model s.desk.issued s.texts w →
      Sane dimensions model s.desk.issued s.texts (f w) ∧
        (w.warmup = .loaded → (f w).warmup = .loaded)) :
    Inv limit dimensions model { s with process := s.process.map f } := by
  refine ⟨⟨h.waiting.limiter, h.waiting.calls, h.waiting.desk, h.waiting.executing,
    h.waiting.told, h.waiting.known, h.waiting.texts, h.waiting.right, fun hnone => ?_,
    fun hr => ?_⟩, h.detached, fun w hw => ?_⟩
  · exact h.waiting.fresh (Option.map_eq_none_iff.mp hnone)
  · obtain ⟨hatt, hno, w, hw, hloaded⟩ := h.waiting.ready hr
    refine ⟨hatt, hno, f w, ?_, (hf w (h.wire w hw)).2 hloaded⟩
    show s.process.map f = some (f w)
    rw [hw]
    rfl
  · obtain ⟨w₀, hw₀, rfl⟩ := Option.map_eq_some_iff.mp hw
    exact (hf w₀ (h.wire w₀ hw₀)).1

theorem Inv.unready (h : Inv limit dimensions model s) :
    Inv limit dimensions model { s with workerReady := false } :=
  ⟨⟨h.waiting.limiter, h.waiting.calls, h.waiting.desk, h.waiting.executing, h.waiting.told,
    h.waiting.known, h.waiting.texts, h.waiting.right, h.waiting.fresh, fun hr => by cases hr⟩,
    h.detached, h.wire⟩

/-- **A reply is for the one who waits for its number.** -/
theorem Inv.handleReply (h : Inv limit dimensions model s) {id : ℕ} {answer : Answer}
    (hanswer : ∃ o, (id, o) ∈ s.desk.issued ∧ Right dimensions model s.texts o answer)
    (hready : answer = .ready → s.Loaded) :
    Inv limit dimensions model (s.handleReply limit id answer) := by
  unfold State.handleReply
  split
  · exact h
  · next owner hget =>
      obtain ⟨o, ho, hright⟩ := hanswer
      obtain rfl : o = owner :=
        h.waiting.desk.owner_unique ho (h.waiting.desk.issued_of_get? hget)
      have hvalues := Desk.values_take hget
      have hperm := h.waiting.perm hvalues
      have htaken : Waiting limit dimensions model { s with desk := s.desk.take id }
          (o :: (s.desk.take id).pending.values) :=
        ⟨hperm.limiter, hperm.calls, hperm.desk.take id, hperm.executing, hperm.told, hperm.known,
          hperm.texts, hperm.right, hperm.fresh, hperm.ready⟩
      have hmem : o ∈ s.desk.pending.values := hvalues.mem_iff.mpr List.mem_cons_self
      have hattached : s.attached = true := by
        by_contra hne
        rw [h.detached (Bool.eq_false_iff.mpr hne)] at hmem
        cases hmem
      have hnodup := (hvalues.nodup_iff.mp h.waiting.desk.nodup_values)
      have hsettled := htaken.settle hright (fun hw hne => ?_)
      · obtain ⟨hprocess, hdesk, htexts, hatt⟩ := settle_frame limit
          { s with desk := s.desk.take id } o answer
        refine ⟨?_, fun hfalse => ?_, fun w hw => ?_⟩
        · rw [hdesk]
          exact hsettled
        · rw [hatt] at hfalse
          exact absurd (hattached.symm.trans hfalse) (by decide)
        · rw [hdesk, htexts]
          exact h.wire w (hprocess.symm.trans hw)
      · subst hw
        exact ⟨hattached, (List.nodup_cons.mp hnodup).1, hready (hright.resolve_right hne)⟩

/-- All who wait are told, and the worker is not ready any more. -/
theorem Inv.fail (h : Inv limit dimensions model s) : Inv limit dimensions model (s.fail limit) ∧
    (s.fail limit).process = s.process ∧ (s.fail limit).desk = s.desk.clear ∧
    (s.fail limit).attached = s.attached := by
  have hfailed := h.waiting.failAll
  obtain ⟨hprocess, hdesk, htexts, hattached⟩ :=
    foldl_settle_frame limit s.desk.pending.values s
  have hissued : (s.desk.pending.values.foldl (fun s o => s.settle limit o .failed) s).desk.issued
      = s.desk.issued := by rw [hdesk]
  refine ⟨⟨⟨hfailed.limiter, hfailed.calls, h.waiting.desk.clear, hfailed.executing, hfailed.told,
    fun c hc => ?_, hfailed.texts, hfailed.right, fun hnone => ?_, fun hr => by cases hr⟩,
    fun _ => rfl, fun w hw => ?_⟩, hprocess, rfl, hattached⟩
  · exact hfailed.known c (hissued ▸ hc)
  · obtain ⟨hnil, hatt⟩ := hfailed.fresh hnone
    exact ⟨hissued ▸ hnil, hatt⟩
  · have hsane := h.wire w (hprocess.symm.trans hw)
    rw [← htexts] at hsane
    exact hsane

/-- A request is sent, or turned down at once. -/
theorem Inv.rpc {o : Owner} {request : Request}
    (h : Waiting limit dimensions model s (s.desk.pending.values ++ [o]))
    (hdetached : s.attached = false → s.desk.pending.values = [])
    (hwire : ∀ w, s.process = some w → Sane dimensions model s.desk.issued s.texts w)
    (hnew : o ∉ s.desk.issued.map Prod.snd) (hrequest : requestOf s.texts o = some request) :
    Inv limit dimensions model (s.rpc limit o request) := by
  unfold State.rpc
  split
  · next hattached =>
      have hvalues := h.desk.values_issue o
      have hposted : ∀ w, Sane dimensions model s.desk.issued s.texts w →
          Sane dimensions model (s.desk.issue o).issued s.texts
            (if w.alive then { w with inbox := w.inbox ++ [(s.desk.next, request)] } else w) := by
        intro w hw
        have hmono : Sane dimensions model (s.desk.issue o).issued s.texts w :=
          hw.mono (List.subset_append_left _ _)
        split
        · refine ⟨fun p hp => ?_, hmono.tasks, hmono.outbox, hmono.ready⟩
          rcases List.mem_append.mp hp with hp | hp
          · exact hmono.inbox p hp
          · obtain rfl := List.mem_singleton.mp hp
            exact ⟨o, List.mem_append_right _ (List.mem_singleton_self _), hrequest⟩
        · exact hmono
      refine ⟨?_, fun hfalse => absurd (hattached.symm.trans hfalse) (by decide), fun w hw => ?_⟩
      · show Waiting limit dimensions model _ (s.desk.issue o).pending.values
        rw [hvalues]
        refine ⟨h.limiter, h.calls, h.desk.issue hnew, h.executing, h.told, fun c hc => ?_, h.texts,
          h.right, fun hnone => ?_, fun hr => ?_⟩
        · have hc : Owner.embed c ∈ (s.desk.issued ++ [(s.desk.next, o)]).map Prod.snd := hc
          rw [List.map_append] at hc
          rcases List.mem_append.mp hc with hc | hc
          · exact h.known c hc
          · obtain rfl : Owner.embed c = o := List.mem_singleton.mp hc
            refine Or.inl (h.executing.mem_iff.mpr (List.mem_filterMap.mpr
              ⟨.embed c, ?_, rfl⟩))
            exact List.mem_append_right _ (List.mem_singleton_self _)
        · have hfalse := (h.fresh (Option.map_eq_none_iff.mp hnone)).2
          exact absurd (hattached.symm.trans hfalse) (by decide)
        · obtain ⟨hatt, hno, w, hw, hloaded⟩ := h.ready hr
          refine ⟨hatt, hno, _, congrArg (Option.map _) hw, ?_⟩
          dsimp only
          split
          · exact hloaded
          · exact hloaded
      · obtain ⟨w₀, hw₀, rfl⟩ := Option.map_eq_some_iff.mp hw
        exact hposted w₀ (hwire w₀ hw₀)
  · next hattached =>
      have hnil := hdetached (Bool.eq_false_iff.mpr hattached)
      rw [hnil, List.nil_append] at h
      have hsettled := h.settle (right_failed o) (fun _ hne => absurd rfl hne)
      obtain ⟨hprocess, hdesk, htexts, _⟩ := settle_frame limit s o .failed
      refine ⟨?_, fun _ => ?_, fun w hw => ?_⟩
      · rw [hdesk, hnil]
        exact hsettled
      · rw [hdesk, hnil]
      · rw [hdesk, htexts]
        exact hwire w (hprocess.symm.trans hw)

theorem trim_trim (l : List Char) : trim (trim l) = trim l := by
  set front := l.dropWhile isTrimmed with hfront
  have htrim : trim l = front.rdropWhile isTrimmed := rfl
  -- what is left begins as the list without its blanks in front does
  have hhead : (front.rdropWhile isTrimmed).dropWhile isTrimmed = front.rdropWhile isTrimmed := by
    rw [List.dropWhile_eq_self_iff]
    intro hpos
    have hpre : front.rdropWhile isTrimmed <+: front := List.rdropWhile_prefix _ _
    have hlen : 0 < front.length := hpos.trans_le hpre.length_le
    rw [hpre.getElem hpos]
    exact List.dropWhile_get_zero_not isTrimmed l hlen
  rw [htrim, trim, hhead]
  exact List.rdropWhile_idempotent _ _

theorem trimString_trimString (t : String) : trimString (trimString t) = trimString t := by
  unfold trimString
  rw [String.toList_ofList, trim_trim]

theorem Inv.embed (h : Inv limit dimensions model s) (text : String) :
    Inv limit dimensions model (step limit dimensions model s (.embed text)) := by
  simp only [step]
  split
  · next hok =>
      have hok : s.workerReady = true ∧ (trimString text).isEmpty = false := by simpa using hok
      obtain ⟨hcalls, hexec, hsettled, hfinished⟩ := Semaphore.step_call limit s.limiter
      have hw := h.waiting
      refine ⟨⟨hw.limiter.call, ?_, hw.desk, ?_, ?_, fun c hc => ?_, fun t ht => ?_, fun p hp => ?_,
        hw.fresh, hw.ready⟩, h.detached, fun w hproc => (h.wire w hproc).append _⟩
      · rw [hcalls, List.length_append, hw.calls]
        rfl
      · rw [hexec]
        exact hw.executing
      · rw [hsettled, hfinished]
        exact hw.told
      · rw [hexec]
        exact hw.known c hc
      · rcases List.mem_append.mp ht with ht | ht
        · exact hw.texts t ht
        · obtain rfl := List.mem_singleton.mp ht
          exact ⟨trimString_trimString text, hok.2⟩
      · exact (hw.right p hp).append _
  · exact h

/-- A call with a permit is new to the table. -/
theorem Inv.not_issued_of_granted (h : Inv limit dimensions model s) {c : ℕ}
    (hc : c ∈ s.limiter.granted) : Owner.embed c ∉ s.desk.issued.map Prod.snd := by
  intro hissued
  have hlimiter := h.waiting.limiter
  have hnodup := hlimiter.conserved.symm.nodup hlimiter.nodup_grants
  rw [Semaphore.State.holders, List.append_assoc, List.append_assoc] at hnodup
  refine (List.disjoint_of_nodup_append hnodup) hc ?_
  rcases h.waiting.known c hissued with hexec | hout
  · exact List.mem_append_left _ hexec
  · have htold := h.waiting.told.map Prod.fst
    rw [List.map_map, List.map_append] at htold
    exact List.mem_append_right _ (htold.mem_iff.mp hout)

theorem Inv.resume (h : Inv limit dimensions model s) (c : ℕ) :
    Inv limit dimensions model (step limit dimensions model s (.resume c)) := by
  simp only [step]
  split
  · next hc =>
      have hw := h.waiting
      have hlimiter := hw.limiter.resume c
      have hgrant : c ∈ s.limiter.grants := hw.limiter.conserved.subset
        (List.mem_append_left _ (List.mem_append_left _ (List.mem_append_left _ hc)))
      have hlt : c < s.texts.length := by
        rw [← hw.calls, ← List.mem_range, ← hw.limiter.arrival]
        exact List.mem_append_left _ hgrant
      simp only [Semaphore.step, if_pos hc] at hlimiter ⊢
      refine Inv.rpc ⟨hlimiter, hw.calls, hw.desk, ?_, hw.told, fun c' hc' => ?_, hw.texts, hw.right,
        hw.fresh, fun hr => ?_⟩ h.detached h.wire (h.not_issued_of_granted hc) ?_
      · rw [List.filterMap_append]
        exact hw.executing.append_right [c]
      · exact (hw.known c' hc').imp_left (List.mem_append_left _)
      · obtain ⟨hatt, hno, hloaded⟩ := hw.ready hr
        refine ⟨hatt, fun hm => ?_, hloaded⟩
        rcases List.mem_append.mp hm with hm | hm
        · exact hno hm
        · cases List.mem_singleton.mp hm
      · show s.texts[c]?.map Request.embed = some (.embed (s.texts.getD c ""))
        rw [List.getD_eq_getElem?_getD, List.getElem?_eq_getElem hlt]
        rfl
  · exact h

theorem Inv.leave (h : Inv limit dimensions model s) (c : ℕ) (outcome : Semaphore.Outcome) :
    Inv limit dimensions model (step limit dimensions model s (.leave c outcome)) := by
  obtain ⟨hcalls, hexec, hperm⟩ := Semaphore.step_leave limit s.limiter c outcome
  have hw := h.waiting
  refine ⟨⟨hw.limiter.leave c outcome, hcalls.trans hw.calls, hw.desk, ?_, hw.told.trans hperm.symm,
    fun c' hc' => ?_, hw.texts, hw.right, hw.fresh, hw.ready⟩, h.detached, h.wire⟩
  · show (Semaphore.step limit s.limiter (.leave c outcome)).executing.Perm _
    rw [hexec]
    exact hw.executing
  · show c' ∈ (Semaphore.step limit s.limiter (.leave c outcome)).executing ∨ _
    rw [hexec]
    exact hw.known c' hc'

theorem Inv.warmup (h : Inv limit dimensions model s) (starts : Bool) :
    Inv limit dimensions model (step limit dimensions model s (.warmup starts)) := by
  simp only [step]
  split
  · exact h
  · next hnone =>
      have hprocess : s.process = none := by simpa using hnone
      have hw := h.waiting
      obtain ⟨hissued, hattached⟩ := hw.fresh hprocess
      split
      · refine Inv.rpc ⟨hw.limiter, hw.calls, hw.desk, ?_, hw.told, hw.known, hw.texts, hw.right,
          fun hne => (by cases hne), fun hr => ?_⟩ (fun hfalse => (by cases hfalse))
          (fun w hproc => ?_) ?_ rfl
        · have hnone : [Owner.warmup].filterMap Owner.call? = [] := rfl
          rw [List.filterMap_append, hnone, List.append_nil]
          exact hw.executing
        · obtain ⟨_, _, w, hproc, _⟩ := hw.ready hr
          rw [hprocess] at hproc
          cases hproc
        · obtain rfl := Option.some.inj hproc
          exact ⟨fun _ hp => absurd hp List.not_mem_nil, fun _ hp => absurd hp List.not_mem_nil,
            fun _ _ hm => absurd hm List.not_mem_nil, fun _ hm => absurd hm List.not_mem_nil⟩
        · show Owner.warmup ∉ s.desk.issued.map Prod.snd
          rw [hissued]
          exact List.not_mem_nil
      · exact h.unready

theorem Inv.receive (h : Inv limit dimensions model s) (n : ℕ) :
    Inv limit dimensions model (step limit dimensions model s (.receive n)) := by
  simp only [step]
  split
  · exact h
  · next w hproc =>
      split
      · exact h
      · next signal hsignal =>
          have hmem := List.mem_of_getElem? hsignal
          have hsane := h.wire w hproc
          have hread : Inv limit dimensions model
              { s with process := some { w with outbox := w.outbox.eraseIdx n } } := by
            have hmap := h.map_worker (f := fun w => { w with outbox := w.outbox.eraseIdx n })
              (fun w hw => ⟨⟨hw.inbox, hw.tasks,
                fun id a hm => hw.outbox id a (List.eraseIdx_subset hm),
                fun id hm => hw.ready id (List.eraseIdx_subset hm)⟩, fun hl => hl⟩)
            rwa [hproc] at hmap
          cases signal with
          | reply id answer =>
              refine hread.handleReply (hsane.outbox id answer hmem) ?_
              rintro rfl
              exact ⟨_, rfl, hsane.ready id hmem⟩
          | error => exact hread.fail.1
          | exit => exact hread.fail.1

theorem Inv.timeout (h : Inv limit dimensions model s) (id : ℕ) :
    Inv limit dimensions model (step limit dimensions model s (.timeout id)) := by
  simp only [step]
  split
  · exact h
  · next owner hget =>
      have hissued := h.waiting.desk.issued_of_get? hget
      have hreply := h.unready.handleReply ⟨owner, hissued, @right_failed dimensions model _ owner⟩
        (fun hne => by cases hne)
      simp only [State.handleReply, hget] at hreply
      exact hreply

theorem Inv.die (h : Inv limit dimensions model s) {signals : List Signal}
    (hsignals : ∀ id answer, Signal.reply id answer ∉ signals) :
    Inv limit dimensions model { s with process := s.process.map (fun w =>
      if w.alive then w.die signals else w) } := by
  refine h.map_worker (fun w hw => ?_)
  split
  · exact ⟨hw.die hsignals, fun hl => hl⟩
  · exact ⟨hw, fun hl => hl⟩

theorem Inv.terminate (h : Inv limit dimensions model s) :
    Inv limit dimensions model (step limit dimensions model s .terminate) := by
  simp only [step]
  split
  · obtain ⟨hfail, hprocess, hdesk, _⟩ := h.fail
    have hno : ∀ id answer, Signal.reply id answer ∉ [Signal.exit] := by simp
    have hdie := hfail.die hno
    rw [hprocess] at hdie
    have hw := hdie.waiting
    refine ⟨⟨hw.limiter, hw.calls, hw.desk, hw.executing, hw.told, hw.known, hw.texts, hw.right,
      fun hnone => ⟨(hw.fresh hnone).1, rfl⟩, fun hr => by cases hr⟩, fun _ => rfl, hdie.wire⟩
  · exact h.unready

theorem Inv.step (h : Inv limit dimensions model s) (e : Event) :
    Inv limit dimensions model (step limit dimensions model s e) := by
  cases e with
  | warmup starts => exact h.warmup starts
  | embed text => exact h.embed text
  | resume c => exact h.resume c
  | leave c outcome => exact h.leave c outcome
  | receive n => exact h.receive n
  | timeout id => exact h.timeout id
  | terminate => exact h.terminate
  | deliver => exact h.map_worker (fun w hw => hw.deliver)
  | load ok => exact h.map_worker (fun w hw => hw.load ok)
  | finish n ok => exact h.map_worker (fun w hw => hw.finish n ok)
  | die error => exact h.die (by cases error <;> simp)

theorem inv_run (events : List Event) :
    Inv limit dimensions model (run limit dimensions model events) := by
  induction events using List.reverseRecOn with
  | nil => exact inv_start
  | append_singleton events e ih =>
      rw [run, List.foldl_append]
      exact ih.step e

end Invariant

/-! ## 6. The protocol -/

section Protocol

variable {limit dimensions : ℕ} {model : String → Embedding} {s : State}

theorem length_shapeVector (dimensions : ℕ) (v : Embedding) :
    (shapeVector dimensions v).length = dimensions := by
  unfold shapeVector
  split_ifs with heq hlt
  · exact heq
  · rw [List.length_take]
    omega
  · rw [List.length_append, List.length_replicate]
    omega

/-- The calls that wait for a number. -/
def State.sent (s : State) : List ℕ := s.desk.pending.values.filterMap Owner.call?

structure Exact (limit dimensions : ℕ) (model : String → Embedding) (s : State) : Prop where
  /-- A call waits for its permit, or goes on with it, or waits for its reply, or is settled. -/
  placed : (s.limiter.waiters ++ s.limiter.granted ++ s.sent ++ s.outcomes.map Prod.fst).Perm
    (List.range s.texts.length)
  /-- What is resolved is resolved with the vector of its own text. -/
  right : ∀ c answer, (c, answer) ∈ s.outcomes → answer = .failed ∨ ∃ text v,
    s.texts[c]? = some text ∧ answer = .vector v ∧ v = shapeVector dimensions (model text) ∧
      v.length = dimensions
  bounded : s.sent.length ≤ limit
  ready : s.workerReady = true → s.attached = true ∧ s.Loaded

theorem Inv.exact (h : Inv limit dimensions model s) : Exact limit dimensions model s := by
  have hw := h.waiting
  refine ⟨?_, fun c answer hmem => ?_, ?_, fun hr => ⟨(hw.ready hr).1, (hw.ready hr).2.2⟩⟩
  · have htold := hw.told.map Prod.fst
    rw [List.map_map, List.map_append] at htold
    rw [← hw.calls]
    exact hw.limiter.placed hw.executing htold
  · rcases hw.right _ hmem with hfailed | ⟨text, htext, hvector⟩
    · exact Or.inl hfailed
    · obtain ⟨htrim, hne⟩ := hw.texts text (List.mem_of_getElem? htext)
      have hvector : answer = .vector (workerEmbed dimensions model text) := hvector
      refine Or.inr ⟨text, _, htext, ?_, rfl, length_shapeVector _ _⟩
      rw [hvector, workerEmbed, htrim, hne]
      rfl
  · have hlen := hw.executing.length_eq
    have hholders := hw.limiter.holders
    have hle := hw.limiter.active_le
    rw [Semaphore.State.holders, List.length_append, List.length_append] at hholders
    rw [State.sent, ← hlen]
    omega

/-- A timer that fires strikes its number out. -/
theorem pending_timeout (s : State) (id : ℕ) :
    (step limit dimensions model s (.timeout id)).desk.pending.entries
      = s.desk.pending.entries.filter (fun e => decide (e.1 ≠ id)) := by
  simp only [step]
  split
  · next hnone =>
      rw [InsertionMap.get?_eq_none_iff] at hnone
      refine (List.filter_eq_self.mpr (fun e he => ?_)).symm
      rw [decide_eq_true_iff]
      rintro rfl
      exact hnone (List.mem_map_of_mem he)
  · next owner _ =>
      rw [(settle_frame _ _ owner _).2.1]
      rfl

/-- When all timers have fired nobody waits for a reply. -/
theorem pending_timeouts : ∀ (ids : List ℕ) (s : State), s.desk.pending.keys ⊆ ids →
    ((ids.map Event.timeout).foldl (step limit dimensions model) s).desk.pending.entries = []
  | [], s, hsub => List.map_eq_nil_iff.mp (List.subset_nil.mp hsub)
  | id :: ids, s, hsub => by
      refine pending_timeouts ids _ (fun k hk => ?_)
      rw [InsertionMap.keys, pending_timeout] at hk
      obtain ⟨e, he, rfl⟩ := List.mem_map.mp hk
      obtain ⟨hmem, hne⟩ := List.mem_filter.mp he
      exact (List.mem_cons.mp (hsub (List.mem_map_of_mem hmem))).resolve_left (of_decide_eq_true hne)

/-- The warmup is over. -/
def WarmedUp (s : State) : Prop := s.process ≠ none ∧ .warmup ∉ s.desk.pending.values

/-- A fault leaves nobody waiting. -/
theorem warmedUp_fail (h : s.process ≠ none) : WarmedUp (s.fail limit) := by
  have hprocess := (foldl_settle_frame limit s.desk.pending.values s).1
  refine ⟨fun hnone => h (hprocess.symm.trans hnone), ?_⟩
  exact List.not_mem_nil

/-- After the warmup only faults change whether the worker is ready. -/
theorem WarmedUp.step (hi : Inv limit dimensions model s) (h : WarmedUp s) (e : Event) :
    WarmedUp (step limit dimensions model s e) ∧
      ((step limit dimensions model s e).workerReady = true → s.workerReady = true) := by
  have hmap : ∀ f : Worker → Worker, s.process.map f ≠ none :=
    fun f hnone => h.1 (Option.map_eq_none_iff.mp hnone)
  have htake : ∀ {id : ℕ} {o : Owner}, s.desk.pending.get? id = some o →
      o ≠ .warmup ∧ .warmup ∉ (s.desk.take id).pending.values := by
    intro id o hget
    have hvalues := Desk.values_take hget
    refine ⟨fun heq => h.2 (hvalues.mem_iff.mpr (heq ▸ List.mem_cons_self)), fun hm => ?_⟩
    exact h.2 (hvalues.mem_iff.mpr (List.mem_cons_of_mem _ hm))
  cases e with
  | warmup starts =>
      have hsome : s.process.isSome = true := Option.isSome_iff_ne_none.mpr h.1
      simp only [BgeM3.step, if_pos hsome]
      exact ⟨h, id⟩
  | embed text =>
      simp only [BgeM3.step]
      split
      · exact ⟨h, id⟩
      · exact ⟨h, id⟩
  | resume c =>
      simp only [BgeM3.step]
      split
      · unfold State.rpc
        split
        · refine ⟨⟨hmap _, ?_⟩, id⟩
          show Owner.warmup ∉ (s.desk.issue (.embed c)).pending.values
          rw [hi.waiting.desk.values_issue]
          intro hm
          rcases List.mem_append.mp hm with hm | hm
          · exact h.2 hm
          · cases List.mem_singleton.mp hm
        · exact ⟨h, id⟩
      · exact ⟨h, id⟩
  | leave c outcome => exact ⟨h, id⟩
  | receive n =>
      simp only [BgeM3.step]
      split
      · exact ⟨h, id⟩
      · next w hproc =>
          split
          · exact ⟨h, id⟩
          · next signal hsignal =>
              cases signal with
              | reply id answer =>
                  show WarmedUp (State.handleReply _ _ _ _) ∧ _
                  unfold State.handle State.handleReply
                  dsimp only
                  split
                  · exact ⟨⟨Option.some_ne_none _, h.2⟩, fun hr => hr⟩
                  · next owner hget =>
                      obtain ⟨hne, hno⟩ := htake hget
                      cases owner with
                      | warmup => exact absurd rfl hne
                      | embed c => exact ⟨⟨Option.some_ne_none _, hno⟩, fun hr => hr⟩
              | error => exact ⟨warmedUp_fail (Option.some_ne_none _), fun hr => by cases hr⟩
              | exit => exact ⟨warmedUp_fail (Option.some_ne_none _), fun hr => by cases hr⟩
  | timeout id =>
      simp only [BgeM3.step]
      split
      · exact ⟨h, fun hr => hr⟩
      · next owner hget =>
          obtain ⟨hne, hno⟩ := htake hget
          cases owner with
          | warmup => exact absurd rfl hne
          | embed c => exact ⟨⟨h.1, hno⟩, fun hr => by cases hr⟩
  | terminate =>
      simp only [BgeM3.step]
      split
      · exact ⟨⟨hmap _, (@warmedUp_fail limit _ h.1).2⟩, fun hr => by cases hr⟩
      · exact ⟨h, fun hr => by cases hr⟩
  | deliver => exact ⟨⟨hmap _, h.2⟩, id⟩
  | load ok => exact ⟨⟨hmap _, h.2⟩, id⟩
  | finish n ok => exact ⟨⟨hmap _, h.2⟩, id⟩
  | die error => exact ⟨⟨hmap _, h.2⟩, id⟩

theorem WarmedUp.foldl (hi : Inv limit dimensions model s) (h : WarmedUp s)
    (hunready : s.workerReady = false) : ∀ events : List Event,
    (events.foldl (BgeM3.step limit dimensions model) s).workerReady = false := by
  intro events
  induction events generalizing s with
  | nil => exact hunready
  | cons e events ih =>
      obtain ⟨hwarm, hready⟩ := h.step hi e
      exact ih (hi.step e) hwarm (Bool.eq_false_iff.mpr (fun hr => by
        rw [hready hr] at hunready
        cases hunready))

/-- **The worker protocol**, whatever is asked, in whatever order the worker finishes, and wherever
timers fire, the thread dies or the provider is shut down. (1) Each call of `embed` that has got to
the limiter is in one place: it waits for its permit, or for a reply, or is settled, once; what is
resolved is resolved with the vector of its own text, which has the right length; no more requests
are out than the limiter lets; and a worker that is ready has loaded its model. (2) Nobody waits
for ever: when the timers have fired, nobody waits for a reply. (3) A worker that has stopped being
ready is never ready again. -/
theorem worker_protocol (limit dimensions : ℕ) (model : String → Embedding) (events : List Event) :
    Exact limit dimensions model (run limit dimensions model events) ∧
    (((run limit dimensions model events).desk.pending.keys.map Event.timeout).foldl
      (step limit dimensions model) (run limit dimensions model events)).sent = [] ∧
    ∀ (e : Event) (later : List Event), (run limit dimensions model events).workerReady = true →
      (step limit dimensions model (run limit dimensions model events) e).workerReady = false →
      (later.foldl (step limit dimensions model)
        (step limit dimensions model (run limit dimensions model events) e)).workerReady = false := by
  have hi := @inv_run limit dimensions model events
  refine ⟨hi.exact, ?_, fun e later hready hunready => ?_⟩
  · have hnil := @pending_timeouts limit dimensions model _ _
      (List.Subset.refl (run limit dimensions model events).desk.pending.keys)
    rw [State.sent, InsertionMap.values, hnil]
    rfl
  · obtain ⟨_, hno, w, hw, _⟩ := hi.waiting.ready hready
    have hwarm : WarmedUp (run limit dimensions model events) :=
      ⟨fun hnone => (by rw [hw] at hnone; cases hnone), hno⟩
    exact (hwarm.step hi e).1.foldl (hi.step e) hunready later

end Protocol

end Brain.BgeM3
