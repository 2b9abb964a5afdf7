import HypeLlm.Jobs.Schedule
import HypeLlm.Lib.Tables
import HypeLlm.Routing.Target

/-!
# The job store

A table of records, which clients read, and a queue of entries, which workers take from, each under its
own lock.  A job is in both from its submission on; a worker that tries a job marks its entry, and the
entry keeps its place until the pass ends.  Each function here is what happens under one lock; an
operation of the source that takes both locks, one after the other, is two functions.

* `Job.cancel`, `Job.requeue`, `Job.start`, `Job.progress`, `Job.finish` — what is written to a record,
  or nothing;
* `JobStore.enqueue`, `JobStore.take`, `JobStore.putBack`, `JobStore.leave` — what is done to the queue.

The cancellation flag of a job is shared by its record and its entry.
-/

namespace HypeLlm.Jobs

open HypeLlm.Words HypeLlm.Routing HypeLlm.Tables

abbrev JobId := String

inductive JobState where
  | queued
  | running
  | succeeded
  | failed
  | cancelled
  deriving Repr, DecidableEq

namespace JobState

/-- No further transition is possible. -/
def isTerminal : JobState → Bool
  | .succeeded | .failed | .cancelled => true
  | .queued | .running => false

end JobState

/-- One part of an artifact job's result. -/
structure PartView where
  name : String
  mediaType : String
  bytes : ℕ
  sha256 : String
  deriving Repr, DecidableEq

/-- An error code and its message. -/
structure JobError where
  code : String
  message : String
  deriving Repr, DecidableEq

/-- One job's observable state. -/
structure JobView where
  id : JobId
  state : JobState
  progressPermille : ℕ
  etaMs : ℕ
  error : Option JobError
  createdMs : ℕ
  updatedMs : ℕ
  resultBytes : ℕ
  priority : PriorityClass
  /-- While queued, why. -/
  waitingFor : Option String
  parts : List PartView
  deriving Repr, DecidableEq

/-- A job's record. -/
structure Job where
  view : JobView
  tenant : TenantId
  principal : PrincipalId
  result : Option (List UInt8)
  /-- Spool bytes its parts hold. -/
  spooledBytes : ℕ
  /-- When a terminal job stops being readable. -/
  expiresMs : Option ℕ
  revision : ℕ
  deriving Repr, DecidableEq

/-- What the store reads of a request. -/
structure CanonicalRequest where
  tenant : TenantId
  principal : PrincipalId
  requestedModel : AliasId
  deadlineMs : ℕ
  deriving Repr, DecidableEq

def CanonicalRequest.isExpired (request : CanonicalRequest) (nowMs : ℕ) : Bool :=
  request.deadlineMs ≤ nowMs

/-- What a worker needs to run a job, fixed at submission. -/
structure Work where
  id : JobId
  request : CanonicalRequest
  seq : ℕ
  submittedMs : ℕ
  priority : PriorityClass
  principalRound : ℕ
  tenantRound : ℕ
  deriving Repr, DecidableEq

/-- One queued job, and what changes while it waits. -/
structure Entry where
  work : Work
  /-- Passes refused by fleet governance so far. -/
  attempts : ℕ
  notBeforeMs : ℕ
  recoveryUntilMs : Option ℕ
  /-- A worker is trying it now. -/
  trying : Bool
  /-- The pass holds its reservations. -/
  started : Bool
  /-- Found blocked under this wake generation. -/
  blockedIn : Option ℕ
  /-- The capability it is counted as parked demand for. -/
  parked : Option Capability
  deriving Repr, DecidableEq

def Entry.isDue (e : Entry) (nowMs generation : ℕ) : Bool :=
  !e.trying && e.notBeforeMs ≤ nowMs && e.blockedIn.all (· < generation)

/-- How the queue is ordered: the reordering bound, and how the model of a request stands. -/
structure JobOrder where
  boundMs : ℕ
  jobClass : CanonicalRequest → JobClass

/-- What a job is submitted under, besides the request itself. -/
structure SubmitTerms where
  priority : PriorityClass
  /-- The capability the caller counted it as parked demand for. -/
  parked : Option Capability
  tenantCap : Option UInt32
  principalCap : Option UInt32
  deriving Repr, DecidableEq

inductive SubmitRefusal where
  | tenantAtCapacity
  | principalAtCapacity
  | queueFull
  | noEntropy
  | shuttingDown
  deriving Repr, DecidableEq

structure JobLimits where
  maxPerTenant : UInt32
  maxQueued : UInt32
  maxQueuedBatch : UInt32
  maxResultBytes : ℕ
  retentionMs : ℕ
  deriving Repr, DecidableEq

def JobLimits.default : JobLimits := ⟨32, 64, 32, 8 * 1024 * 1024, 900000⟩

/-- Why a pass ended without the job finishing. -/
inductive Wait where
  | slot
  | activation
  | recovery
  | backoff
  deriving Repr, DecidableEq

def Wait.asStr : Wait → String
  | .slot => "slot"
  | .activation => "activation"
  | .recovery => "recovery"
  | .backoff => "backoff"

def maxJobAttempts : ℕ := 16

def firstRequeueBackoffMs : ℕ := 1000

def maxRequeueBackoffMs : ℕ := 60000

/-- The backoff after a governance refusal: doubling from one second, capped. -/
def requeueBackoffMs (attempts : ℕ) : ℕ :=
  min (satMul u64Max firstRequeueBackoffMs (2 ^ min (attempts - 1) 16)) maxRequeueBackoffMs

/-! ### Records -/

namespace Job

def id (job : Job) : JobId := job.view.id

variable (job : Job) (limits : JobLimits) (nowWallMs nowMs revision : ℕ)

def expireAt : Option ℕ := some (satAdd u64Max nowMs limits.retentionMs)

/-- A job that waits is cancelled at once. -/
def cancel : Option Job :=
  if job.view.state = .queued then
    some { job with
      view := { job.view with state := .cancelled, waitingFor := none, updatedMs := nowWallMs }
      expiresMs := expireAt limits nowMs
      revision := revision }
  else none

/-- What the record of a job that is put back says is still needed. -/
def requeueEta (wait : Wait) (backoffMs : ℕ) : ℕ :=
  if wait = .backoff ∨ wait = .recovery then backoffMs else 0

/-- A pass ended with the job waiting. -/
def requeue (wait : Wait) (backoffMs : ℕ) : Option Job :=
  if job.view.state.isTerminal then none
  else if job.view.state ≠ .queued ∨ job.view.waitingFor ≠ some wait.asStr ∨
      job.view.etaMs ≠ requeueEta wait backoffMs then
    some { job with
      view := { job.view with
        state := .queued
        waitingFor := some wait.asStr
        etaMs := requeueEta wait backoffMs
        updatedMs := nowWallMs }
      revision := revision }
  else none

/-- Its pass holds every reservation it needs. -/
def start (cancelled : Bool) : Option Job :=
  if job.view.state ≠ .queued ∨ cancelled = true then none
  else
    some { job with
      view := { job.view with state := .running, waitingFor := none, etaMs := 0, updatedMs := nowWallMs }
      revision := revision }

def progress (permille etaMs : ℕ) : Option Job :=
  if job.view.state ≠ .running ∨
      job.view.progressPermille = min permille 1000 ∧ job.view.etaMs = etaMs then none
  else
    some { job with
      view := { job.view with
        progressPermille := min permille 1000
        etaMs := etaMs
        updatedMs := nowWallMs }
      revision := revision }

/-- A succeeded artifact job's parts are recorded. -/
def finishParts (parts : List PartView) (spooledBytes : ℕ) : Job :=
  { job with
    view := { job.view with
      state := .succeeded
      progressPermille := 1000
      etaMs := 0
      waitingFor := none
      updatedMs := nowWallMs
      resultBytes := spooledBytes
      parts := parts }
    spooledBytes := spooledBytes
    expiresMs := expireAt limits nowMs
    revision := revision }

/-- The error of a result that is larger than the spool allows. -/
def tooLarge (bytes : ℕ) : JobError :=
  ⟨"job_result_too_large", "the result is " ++ toString bytes ++ " bytes, beyond this router's " ++
    toString limits.maxResultBytes ++ "-byte job spool"⟩

/-- A terminal state is recorded, with the result or the error. -/
def finishAs (state : JobState) (result : Option (List UInt8)) (error : Option JobError) : Job :=
  { job with
    view := { job.view with
      state := state
      progressPermille := if state = .succeeded then 1000 else 0
      etaMs := 0
      waitingFor := none
      updatedMs := nowWallMs
      resultBytes := result.elim 0 List.length
      error := error.or job.view.error }
    result := result
    expiresMs := expireAt limits nowMs
    revision := revision }

/-- A result that is too large is not recorded: the job fails. -/
def finish (state : JobState) (result : Option (List UInt8)) (error : Option JobError) : Job :=
  if result.any fun bytes => limits.maxResultBytes < bytes.length then
    job.finishAs limits nowWallMs nowMs revision .failed none
      (some (tooLarge limits (result.elim 0 List.length)))
  else job.finishAs limits nowWallMs nowMs revision state result error

end Job

/-! ### The store -/

structure JobStore where
  jobs : Table Job.id
  /-- Waiting jobs, in submission order. -/
  queue : List Entry
  limits : JobLimits
  stopping : Bool
  revisions : ℕ
  sequence : ℕ
  /-- Moves on whenever blocked work might have become unblocked. -/
  generation : ℕ
  /-- The jobs whose cancellation flag is up. -/
  cancelled : List JobId

namespace JobStore

def new (limits : JobLimits) : JobStore := ⟨.empty, [], limits, false, 0, 0, 1, []⟩

variable (s : JobStore) (id : JobId) (nowWallMs nowMs : ℕ)

def job? : Option Job := s.jobs.find? id

def entryOf : Option Entry := s.queue.find? fun e => e.work.id = id

def isCancelled : Bool := decide (id ∈ s.cancelled)

/-- A record takes the place of the one with its identifier. -/
def write (job : Job) : JobStore :=
  { s with jobs := s.jobs.replace job, revisions := wrapAdd 64 s.revisions 1 }

/-- The record of a job is rewritten, if it is there and `f` has something to write. -/
def amend (f : ℕ → Job → Option Job) : JobStore := ((s.job? id).bind (f s.revisions)).elim s s.write

/-- The entry of a job is rewritten, if it is there: a job has no more than one. -/
def amendEntry (f : Entry → Entry) : JobStore :=
  { s with queue := mapAt (·.work.id) id f s.queue }

/-- Terminal jobs whose retention window has closed are dropped. -/
def sweep : JobStore := { s with jobs := s.jobs.filter fun job => job.expiresMs.all (nowMs < ·) }

/-! #### Submission -/

/-- The records a tenant holds, and those of one principal. -/
def tenantHeld (tenant : TenantId) : ℕ := s.jobs.rows.countP fun job => job.tenant = tenant

def principalHeld (tenant : TenantId) (principal : PrincipalId) : ℕ :=
  s.jobs.rows.countP fun job => job.tenant = tenant ∧ job.principal = principal

/-- The record of a job that was just accepted. -/
def newJob (request : CanonicalRequest) (terms : SubmitTerms) : Job where
  view :=
    { id := id, state := .queued, progressPermille := 0, etaMs := 0, error := none,
      createdMs := nowWallMs, updatedMs := nowWallMs, resultBytes := 0, priority := terms.priority,
      waitingFor := some "turn", parts := [] }
  tenant := request.tenant
  principal := request.principal
  result := none
  spooledBytes := 0
  expiresMs := none
  revision := s.revisions

def insert (job : Job) : JobStore :=
  { s with jobs := s.jobs.insert job, revisions := wrapAdd 64 s.revisions 1 }

/-- Under the table's lock: expiry first, then the caps, then the record. -/
def accept (request : CanonicalRequest) (terms : SubmitTerms) : JobStore × Option SubmitRefusal :=
  let s := s.sweep nowMs
  if (terms.tenantCap.getD s.limits.maxPerTenant).toNat ≤ min (s.tenantHeld request.tenant) u32Max then
    (s, some .tenantAtCapacity)
  else if terms.principalCap.any (·.toNat ≤ min (s.principalHeld request.tenant request.principal) u32Max) then
    (s, some .principalAtCapacity)
  else (s.insert (s.newJob id nowWallMs request terms), none)

/-- The entries that count toward a newcomer's rounds. -/
def sameClass (priority : PriorityClass) (tenant : TenantId) : List Entry :=
  s.queue.filter fun e => !e.started && e.work.priority = priority && e.work.request.tenant = tenant

def rounds (priority : PriorityClass) (tenant : TenantId) (principal : PrincipalId) : ℕ × ℕ :=
  let same := s.sameClass priority tenant
  (min (same.countP fun e => e.work.request.principal = principal) u32Max, min same.length u32Max)

def isFull (priority : PriorityClass) : Bool :=
  s.limits.maxQueued.toNat ≤ min s.queue.length u32Max ||
    priority = .batch &&
      s.limits.maxQueuedBatch.toNat ≤ min (s.queue.countP fun e => e.work.priority = .batch) u32Max

def remove : JobStore := { s with jobs := s.jobs.remove id }

/-- What is queued for a job that was just accepted. -/
def newEntry (request : CanonicalRequest) (terms : SubmitTerms) : Entry :=
  let rounds := s.rounds terms.priority request.tenant request.principal
  { work :=
      { id := id, request := request, seq := s.sequence, submittedMs := nowMs,
        priority := terms.priority, principalRound := rounds.1, tenantRound := rounds.2 }
    attempts := 0, notBeforeMs := 0, recoveryUntilMs := none, trying := false, started := false,
    blockedIn := none, parked := terms.parked }

/-- Under the queue's lock: the job is queued, or its record is taken back. -/
def enqueue (request : CanonicalRequest) (terms : SubmitTerms) : JobStore × Option SubmitRefusal :=
  if s.isFull terms.priority then (s.remove id, some .queueFull)
  else
    ({ s with
      queue := s.queue ++ [s.newEntry id nowMs request terms]
      sequence := wrapAdd 64 s.sequence 1 }, none)

/-! #### Clients -/

def get (tenant : TenantId) : JobStore × Option JobView :=
  let s := s.sweep nowMs
  (s, ((s.job? id).filter fun job => job.tenant = tenant).map Job.view)

def cancel (tenant : TenantId) : JobStore × Option JobView :=
  match (s.job? id).filter fun job => job.tenant = tenant with
  | none => (s, none)
  | some job =>
    if job.view.state.isTerminal then (s, some job.view)
    else
      let s := { s with cancelled := id :: s.cancelled }
      match job.cancel s.limits nowWallMs nowMs s.revisions with
      | none => (s, some job.view)
      | some job => (s.write job, some job.view)

/-- The first half of a shutdown. -/
def stop : JobStore := { s with stopping := true }

/-- The second half: every job that has not started is flagged. -/
def flagWaiting : JobStore :=
  { s with cancelled := (s.queue.filter fun e => !e.started).map (·.work.id) ++ s.cancelled }

/-! #### Workers -/

/-- The entry is to be discarded: it was cancelled, or its patience ran out. -/
def isSpent (e : Entry) : Bool :=
  !e.trying && (s.isCancelled e.work.id || e.work.request.isExpired nowMs)

/-- The models of the jobs whose passes hold no reservations yet. -/
def contested : List AliasId :=
  (s.queue.filter fun e => e.trying && !e.started).map (·.work.request.requestedModel)

/-- An entry as the picker sees it. -/
def jobEntry (order : Option JobOrder) (e : Entry) : JobEntry :=
  let due := e.isDue nowMs s.generation && decide (e.work.request.requestedModel ∉ s.contested)
  { seq := e.work.seq
    submittedMs := e.work.submittedMs
    due := due
    jobClass := match order with
      | some order => if due && order.boundMs != 0 then order.jobClass e.work.request else .warm
      | none => .warm
    priority := e.work.priority
    principalRound := e.work.principalRound
    tenantRound := e.work.tenantRound }

/-- The queue position a worker should take, if any job is due. -/
def pick (order : Option JobOrder) : Option ℕ :=
  pickJob (s.queue.map (s.jobEntry nowMs order)) nowMs (order.elim 0 JobOrder.boundMs)

/-- What a worker does after one look at the queue. -/
inductive Taken where
  /-- The job is tried. -/
  | attempt (work : Work) (generation : ℕ) (parked : Bool)
  /-- The entry left the queue without running. -/
  | discard (entry : Entry)
  /-- Nothing to do, and the store stops. -/
  | stopped
  /-- Nothing to do; `moves` tells whether the generation moves on after the wait. -/
  | idle (moves : Bool)
  deriving Repr, DecidableEq

def tried (e : Entry) : Entry := { e with trying := true }

/-- The pass holds its reservations. -/
def begun (e : Entry) : Entry := { e with started := true }

/-- Only backing-off work is queued: the worker sleeps until the first of it is due. -/
def backingOff : Bool :=
  (s.queue.any fun e => !e.trying && e.blockedIn.isNone && nowMs < e.notBeforeMs) &&
    !s.queue.any fun e => !e.trying && e.blockedIn.isSome

/-- One look at the queue, under its lock. -/
def take (order : Option JobOrder) : JobStore × Taken :=
  match s.queue.find? (s.isSpent nowMs) with
  | some entry => ({ s with queue := s.queue.eraseP (s.isSpent nowMs) }, .discard entry)
  | none =>
    match (s.pick nowMs order).bind (s.queue[·]?) with
    | some entry =>
      (s.amendEntry entry.work.id tried, .attempt entry.work s.generation entry.parked.isSome)
    | none =>
      if s.stopping then (s, .stopped)
      else (s, .idle (!s.backingOff nowMs && s.queue.any fun e => !e.trying))

/-- A job left the queue. -/
def leftQueue : JobStore := { s with generation := wrapAdd 64 s.generation 1 }

/-- The entry of a job that is put back. -/
def replaced (wait : Wait) (generation backoffMs : ℕ) (e : Entry) : Entry :=
  let e := { e with
    trying := false
    started := false
    recoveryUntilMs := if wait = Wait.recovery then e.recoveryUntilMs else none }
  match wait with
  | .slot | .activation => { e with blockedIn := some generation }
  | .recovery => { e with blockedIn := none, notBeforeMs := satAdd u64Max nowMs backoffMs }
  | .backoff =>
    { e with
      attempts := satAdd u32Max e.attempts 1
      blockedIn := none
      notBeforeMs := satAdd u64Max nowMs backoffMs }

/-- What the queue's half of putting a job back came to. -/
inductive PutBack where
  | waits
  /-- It is not queued any more: what was newly parked is handed back. -/
  | missing (parked : Option Capability)
  /-- It was cancelled, or the store stops: it is to leave. -/
  | leaves
  deriving Repr, DecidableEq

/-- Demand newly parked by the pass goes to an entry that has none. -/
def keepParked (parked : Option Capability) (e : Entry) : Entry := { e with parked := e.parked.or parked }

/-- The entry of a job that is to leave. -/
def released (parked : Option Capability) (e : Entry) : Entry := { keepParked parked e with trying := false }

/-- The queue's half of putting a job back. -/
def putBack (wait : Wait) (generation : ℕ) (parked : Option Capability) (backoffMs : ℕ) :
    JobStore × PutBack :=
  match s.entryOf id with
  | none => (s, .missing parked)
  | some _ =>
    if s.stopping || s.isCancelled id then
      (s.amendEntry id (released parked), .leaves)
    else (s.amendEntry id fun e => replaced nowMs wait generation backoffMs (keepParked parked e), .waits)

def attempts : ℕ := (s.entryOf id).elim 0 Entry.attempts

/-- An outage window has an end. -/
def awaiting (untilMs : ℕ) (e : Entry) : Entry := { e with recoveryUntilMs := some untilMs }

/-- An outage window begins once; what remains of it. -/
def recoveryRemaining (budgetMs : ℕ) : JobStore × ℕ :=
  match s.entryOf id with
  | none => (s, 0)
  | some entry =>
    let untilMs := entry.recoveryUntilMs.getD (satAdd u64Max nowMs budgetMs)
    (s.amendEntry id (awaiting untilMs), untilMs - nowMs)

/-- The entry of a job is removed; the demand it held is handed back. -/
def leave : JobStore × Option Capability :=
  ({ s with queue := s.queue.eraseP fun e => e.work.id = id }, (s.entryOf id).bind Entry.parked)

end JobStore

end HypeLlm.Jobs
