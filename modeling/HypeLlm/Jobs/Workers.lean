import HypeLlm.Jobs.Store
import HypeLlm.Lib.Runs

/-!
# Clients and workers of the job store

Any number of threads share a store.  A client submits a job, or asks for one to be cancelled; a worker
takes jobs and tries them, one after the other; a shutdown flags what has not started.  Between two of
its critical sections a thread holds what it has read, and the others go on.  A task tells how far a
thread has come; one step of a thread is one section under a lock, or one reading of a cancellation
flag.

* `Task` — the places between the sections;
* `Router.step` — one step of one of the threads;
* `Router.parks`, `Router.releases` — how often a job was counted as parked demand, and how often that
  was undone.
-/

namespace HypeLlm.Jobs

open HypeLlm.Words HypeLlm.Routing

/-! ### What threads hold between sections -/

/-- A call to submit a job, which the caller may have counted as parked demand. -/
structure Submission where
  request : CanonicalRequest
  terms : SubmitTerms
  nowWallMs : ℕ
  nowMs : ℕ
  deriving Repr, DecidableEq

/-- One pass of one job. -/
structure Pass where
  work : Work
  generation : ℕ
  parked : Bool
  /-- It holds its reservations: the pipeline has admitted it. -/
  admitted : Bool
  deriving Repr, DecidableEq

/-- What a pass came to.  Only one that failed, with nothing sent, may find the job waiting. -/
inductive Outcome where
  /-- An artifact job has an output, any other a response, if it can be rendered. -/
  | succeeded (output : Option (List PartView × ℕ)) (rendered : Except JobError (List UInt8))
  | failed (error : JobError) (wait : Option Wait)

/-- A pass that has ended. -/
structure Over where
  pass : Pass
  outcome : Outcome
  nowWallMs : ℕ
  nowMs : ℕ
  /-- It was still only waiting when its patience ran out. -/
  expired : Bool

/-- What is recorded of a job that ends. -/
inductive Ending where
  | cancelled
  | failed (error : JobError)
  | succeeded (payload : List UInt8)
  | spooled (parts : List PartView) (spooledBytes : ℕ)
  deriving Repr, DecidableEq

def patienceRanOut : JobError := ⟨"deadline_exceeded", "the job's patience ran out while it waited"⟩

def cancelledByCaller : JobError := ⟨"cancelled", "the job was cancelled by its caller"⟩

/-- The record of a job that ends. -/
def Ending.record (ending : Ending) (limits : JobLimits) (nowWallMs nowMs revision : ℕ) (job : Job) : Job :=
  match ending with
  | .cancelled => job.finish limits nowWallMs nowMs revision .cancelled none (some cancelledByCaller)
  | .failed error => job.finish limits nowWallMs nowMs revision .failed none (some error)
  | .succeeded payload => job.finish limits nowWallMs nowMs revision .succeeded (some payload) none
  | .spooled parts bytes => job.finishParts limits nowWallMs nowMs revision parts bytes

namespace Over

variable (o : Over)

def work : Work := o.pass.work

/-- How the job would wait, before the flag and the clock are asked. -/
def rawWait : Option Wait :=
  match o.outcome with
  | .failed _ wait => wait
  | .succeeded _ _ => none

/-- What is recorded once the job has left the queue, with the flag as it is then. -/
def ending (cancelled : Bool) : Ending :=
  if cancelled then .cancelled
  else if o.expired then .failed patienceRanOut
  else
    match o.outcome with
    | .succeeded (some output) _ => .spooled output.1 output.2
    | .succeeded none (.ok payload) => .succeeded payload
    | .succeeded none (.error error) => .failed error
    | .failed error _ => .failed error

/-- How long the job is kept back, at most until its patience runs out. -/
def backoff (wait : Wait) (attempts recoveryRemaining nowMs : ℕ) : ℕ :=
  min (if wait = .recovery then min 2000 recoveryRemaining else requeueBackoffMs attempts)
    (o.work.request.deadlineMs - nowMs)

end Over

/-- Where a thread is. -/
inductive Task where
  | idle
  /-- A submission, before it has an identifier. -/
  | submitting (call : Submission)
  /-- It has an identifier; about to enter the table. -/
  | minted (id : JobId) (call : Submission)
  /-- Its record is in the table; about to be queued. -/
  | recorded (id : JobId) (call : Submission)
  /-- It was refused; the caller is to release what it parked. -/
  | refused (id : JobId) (parked : Option Capability)
  /-- A shutdown, between its halves. -/
  | flagging
  /-- A worker about to look at the queue. -/
  | taking
  /-- A worker that found nothing to do. -/
  | waiting (moves : Bool)
  /-- An entry left the queue without running; its flag is to be read again. -/
  | discarding (entry : Entry)
  /-- The flag is read; parked demand is to be released. -/
  | discarded (work : Work) (parked : Option Capability) (expired : Bool)
  | passing (pass : Pass)
  /-- The entry is marked as started; the record is not. -/
  | starting (pass : Pass) (nowWallMs : ℕ)
  | ended (o : Over)
  /-- A machine is unreachable; the recovery window is to be looked up. -/
  | recovering (o : Over) (cancelled : Bool) (budgetMs : ℕ)
  /-- Refused by governance; the refusals so far are to be looked up. -/
  | counting (o : Over)
  /-- Its model has still to be started; to be counted as parked demand, unless it is already. -/
  | parking (o : Over)
  | puttingBack (o : Over) (wait : Wait) (parked : Option Capability) (backoffMs : ℕ)
  /-- Back in the queue; the record is to say so. -/
  | requeued (id : JobId) (wait : Wait) (backoffMs nowWallMs : ℕ)
  /-- Its mark is cleared, and it is to leave the queue: it was cancelled, or the store stops. -/
  | puttingDown (o : Over)
  | leaving (o : Over)
  /-- It has left the queue; the others are to be woken. -/
  | left (o : Over) (parked : Option Capability)
  | releasing (o : Over) (parked : Option Capability)
  /-- The flag is to be read for the last time. -/
  | finishing (o : Over)
  | recording (id : JobId) (ending : Ending) (nowWallMs nowMs : ℕ)
  | stopped

def Task.isIdle : Task → Bool
  | .idle => true
  | _ => false

theorem Task.eq_idle {t : Task} (h : t.isIdle = true) : t = .idle := by
  cases t <;> first | rfl | cases h

/-- What the pipeline does next in a pass. -/
inductive PassEvent where
  | admitted
  | progress (permille etaMs : ℕ)
  | returned (outcome : Outcome)

/-- What the rest of the world answers in one step of a thread. -/
structure Answers where
  nowWallMs : ℕ := 0
  nowMs : ℕ := 0
  /-- The identifier that is minted, unless entropy fails. -/
  id : Option JobId := none
  order : Option JobOrder := none
  event : PassEvent := .admitted
  recoveryBudgetMs : ℕ := 0
  /-- The capability the job is counted as parked demand for, unless that is refused. -/
  parked : Option Capability := none

structure Router where
  store : JobStore
  tasks : ℕ → Task
  /-- The identifiers drawn so far. -/
  minted : List JobId
  parks : JobId → ℕ
  releases : JobId → ℕ

inductive Event where
  | submit (w : ℕ) (call : Submission)
  | cancel (id : JobId) (tenant : TenantId) (nowWallMs nowMs : ℕ)
  | read (id : JobId) (tenant : TenantId) (nowMs : ℕ)
  | shutdown (w : ℕ)
  | work (w : ℕ)
  | proceed (w : ℕ) (a : Answers)

namespace Router

variable (s : Router) (w : ℕ)

def boot (limits : JobLimits) : Router := ⟨.new limits, fun _ => .idle, [], fun _ => 0, fun _ => 0⟩

def goTo (t : Task) : Router := { s with tasks := Function.update s.tasks w t }

def withStore (store : JobStore) : Router := { s with store := store }

/-- A job is counted as parked demand. -/
def park (id : JobId) (parked : Option Capability) : Router :=
  { s with parks := Function.update s.parks id (s.parks id + parked.elim 0 fun _ => 1) }

/-- A count of parked demand is undone, if there is one. -/
def release (id : JobId) (parked : Option Capability) : Router :=
  { s with releases := Function.update s.releases id (s.releases id + parked.elim 0 fun _ => 1) }

/-! ### Submission -/

/-- The identifier of a submission is drawn: a hundred and twenty-eight random bits, never drawn
before.  A refused caller that has no identifier yet has nothing counted under one. -/
def mint (call : Submission) (id : Option JobId) : Router :=
  if s.store.stopping then s.goTo w .idle
  else
    match id with
    | none => s.goTo w .idle
    | some id =>
      if id ∈ s.minted then s
      else { s with minted := id :: s.minted }.park id call.terms.parked |>.goTo w (.minted id call)

def accept (id : JobId) (call : Submission) : Router :=
  match s.store.accept id call.nowWallMs call.nowMs call.request call.terms with
  | (store, none) => (s.withStore store).goTo w (.recorded id call)
  | (store, some _) => (s.withStore store).goTo w (.refused id call.terms.parked)

def enqueue (id : JobId) (call : Submission) : Router :=
  match s.store.enqueue id call.nowMs call.request call.terms with
  | (store, none) => (s.withStore store).goTo w .idle
  | (store, some _) => (s.withStore store).goTo w (.refused id call.terms.parked)

/-! ### A worker -/

def take (a : Answers) : Router :=
  match s.store.take a.nowMs a.order with
  | (store, .attempt work generation parked) =>
    (s.withStore store).goTo w (.passing ⟨work, generation, parked, false⟩)
  | (store, .discard entry) => (s.withStore store).goTo w (.discarding entry)
  | (store, .stopped) => (s.withStore store).goTo w .stopped
  | (store, .idle moves) => (s.withStore store).goTo w (.waiting moves)

/-- The pipeline goes on with a pass. -/
def pass (p : Pass) (a : Answers) : Router :=
  match a.event with
  | .admitted =>
    (s.withStore (s.store.amendEntry p.work.id JobStore.begun)).goTo w
      (.starting { p with admitted := true } a.nowWallMs)
  | .progress permille etaMs =>
    s.withStore (s.store.amend p.work.id fun revision job =>
      job.progress a.nowWallMs revision permille etaMs)
  | .returned outcome => s.goTo w (.ended ⟨p, outcome, a.nowWallMs, a.nowMs, false⟩)

/-- The flag and the clock have been asked: whether and how the job waits. -/
def resolve (o : Over) (cancelled : Bool) (recoveryRemaining nowMs : ℕ) : Router :=
  match o.rawWait.filter fun _ => !cancelled && !o.expired && 0 < recoveryRemaining with
  | none => s.goTo w (.leaving o)
  | some .backoff => s.goTo w (.counting o)
  | some .activation => s.goTo w (.parking o)
  | some wait => s.goTo w (.puttingBack o wait none (o.backoff wait 0 recoveryRemaining nowMs))

/-- After a pass: the flag is read, and the clock. -/
def judge (o : Over) (a : Answers) : Router :=
  let cancelled := s.store.isCancelled o.work.id
  let o := { o with expired := o.rawWait.isSome && !cancelled && o.work.request.isExpired a.nowMs }
  if o.rawWait = some .recovery then s.goTo w (.recovering o cancelled a.recoveryBudgetMs)
  else s.resolve w o cancelled u64Max a.nowMs

def recover (o : Over) (cancelled : Bool) (budgetMs : ℕ) (a : Answers) : Router :=
  match s.store.recoveryRemaining o.work.id o.nowMs budgetMs with
  | (store, remaining) => (s.withStore store).resolve w o cancelled remaining a.nowMs

def count (o : Over) (a : Answers) : Router :=
  let attempts := satAdd u32Max (s.store.attempts o.work.id) 1
  if attempts < maxJobAttempts then
    s.goTo w (.puttingBack o .backoff none (o.backoff .backoff attempts u64Max a.nowMs))
  else s.goTo w (.leaving o)

def putBack (o : Over) (wait : Wait) (parked : Option Capability) (backoffMs : ℕ) : Router :=
  match s.store.putBack o.work.id o.nowMs wait o.pass.generation parked backoffMs with
  | (store, .waits) => (s.withStore store).goTo w (.requeued o.work.id wait backoffMs o.nowWallMs)
  | (store, .missing parked) => (s.withStore store).goTo w (.releasing o parked)
  | (store, .leaves) => (s.withStore store).goTo w (.puttingDown o)

def leave (o : Over) : Router :=
  match s.store.leave o.work.id with
  | (store, parked) => (s.withStore store).goTo w (.left o parked)

/-- The next section of a thread. -/
def proceed (a : Answers) : Router :=
  match s.tasks w with
  | .idle | .stopped => s
  | .submitting call => s.mint w call a.id
  | .minted id call => s.accept w id call
  | .recorded id call => s.enqueue w id call
  | .refused id parked => (s.release id parked).goTo w .idle
  | .flagging => (s.withStore s.store.flagWaiting).goTo w .idle
  | .taking => s.take w a
  | .waiting moves => (s.withStore (if moves then s.store.leftQueue else s.store)).goTo w .taking
  | .discarding entry =>
    (s.withStore s.store.leftQueue).goTo w
      (.discarded entry.work entry.parked (!s.store.isCancelled entry.work.id))
  | .discarded work parked expired =>
    (s.release work.id parked).goTo w
      (if expired then .recording work.id (.failed patienceRanOut) a.nowWallMs a.nowMs else .taking)
  | .passing p => s.pass w p a
  | .starting p nowWallMs =>
    (s.withStore (s.store.amend p.work.id fun revision job =>
      job.start nowWallMs revision (s.store.isCancelled p.work.id))).goTo w (.passing p)
  | .ended o => s.judge w o a
  | .recovering o cancelled budgetMs => s.recover w o cancelled budgetMs a
  | .counting o => s.count w o a
  | .parking o =>
    let parked := if o.pass.parked then none else a.parked
    (s.park o.work.id parked).goTo w
      (.puttingBack o .activation parked (o.backoff .activation 0 u64Max a.nowMs))
  | .puttingBack o wait parked backoffMs => s.putBack w o wait parked backoffMs
  | .requeued id wait backoffMs nowWallMs =>
    (s.withStore (s.store.amend id fun revision job =>
      job.requeue nowWallMs revision wait backoffMs)).goTo w .taking
  | .puttingDown o | .leaving o => s.leave w o
  | .left o parked => (s.withStore s.store.leftQueue).goTo w (.releasing o parked)
  | .releasing o parked => (s.release o.work.id parked).goTo w (.finishing o)
  | .finishing o =>
    s.goTo w (.recording o.work.id (o.ending (s.store.isCancelled o.work.id)) o.nowWallMs o.nowMs)
  | .recording id ending nowWallMs nowMs =>
    (s.withStore (s.store.amend id fun revision job =>
      some (ending.record s.store.limits nowWallMs nowMs revision job))).goTo w .taking

/-- One step.  A thread that is idle may begin something; one that is not goes on. -/
def step : Event → Router
  | .submit w call => if (s.tasks w).isIdle then s.goTo w (.submitting call) else s
  | .cancel id tenant nowWallMs nowMs => s.withStore (s.store.cancel id nowWallMs nowMs tenant).1
  | .read id tenant nowMs => s.withStore (s.store.get id nowMs tenant).1
  | .shutdown w =>
    if (s.tasks w).isIdle then (s.withStore s.store.stop).goTo w .flagging else s
  | .work w => if (s.tasks w).isIdle then s.goTo w .taking else s
  | .proceed w a => s.proceed w a

end Router

end HypeLlm.Jobs
