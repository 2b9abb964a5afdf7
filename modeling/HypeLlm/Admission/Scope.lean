import HypeLlm.Ids
import HypeLlm.Admission.Bucket

/-!
# One level of the admission hierarchy

A scope counts the requests in flight through it against a limit, charges two token buckets, keeps
a spend budget over a fixed period and, where one is configured, a waiting line.  The order of the
line is by class, then by the round stamped on arrival, then by arrival.

The counters are those of the source: `inFlight` is an `AtomicU32` and `acquired` and `released`
are `AtomicU64`, whose additions and subtractions go round.  `queued` mirrors the length of the
line, and the scope carries the proof that it does.  Every operation is taken to be atomic; waking
waiters is left out, since being woken only gives leave to try again.
-/

namespace HypeLlm.Admission

open HypeLlm.Words

inductive BudgetPeriod where
  | daily
  | monthly
  deriving Repr, DecidableEq

def BudgetPeriod.millis : BudgetPeriod → ℕ
  | .daily => 24 * 60 * 60 * 1000
  | .monthly => 30 * 24 * 60 * 60 * 1000

/-- Limits for one scope; zero means unlimited, and no queue for `maxQueued`. -/
structure ScopeLimits where
  maxConcurrency : UInt32
  maxQueued : ℕ
  requestsPerSecond : ℕ
  requestBurst : ℕ
  tokensPerMinute : ℕ
  tokenBurst : ℕ
  budgetMinorUnits : ℕ
  budgetPeriod : BudgetPeriod
  deriving Repr, DecidableEq

/-- A scope that imposes no limit of its own. -/
def ScopeLimits.unlimited : ScopeLimits := ⟨0, 0, 0, 0, 0, 0, 0, .daily⟩

/-- Why admission was refused. -/
inductive Rejection where
  | concurrencyExhausted
  | queueFull
  | queueTimeout
  | requestRateExceeded
  | byteRateExceeded
  | budgetExhausted
  | tokenRateExceeded
  | memoryExhausted
  deriving Repr, DecidableEq

/-- One waiter in a scope's queue. -/
structure Waiter where
  seq : ℕ
  priority : PriorityClass
  tenant : TenantId
  /-- The number of the tenant's own waiters already in line, stamped on arrival. -/
  round : ℕ
  deriving Repr, DecidableEq

/-- `(class, round, seq) < (class, round, seq)`, in the derived lexicographic order. -/
def Waiter.before (w v : Waiter) : Bool :=
  w.priority.rank < v.priority.rank || (w.priority.rank = v.priority.rank &&
    (w.round < v.round || (w.round = v.round && w.seq < v.seq)))

/-- The waiting line for one scope. -/
structure QueueState where
  waiting : List Waiter
  nextSeq : ℕ
  nextSeq_le : nextSeq ≤ u64Max
  deriving Repr, DecidableEq

namespace QueueState

def empty : QueueState := ⟨[], 0, Nat.zero_le _⟩

/-- The waiter that ranks first; of several that rank the same, the first in line. -/
def first : List Waiter → Option Waiter
  | [] => none
  | w :: rest =>
    match first rest with
    | none => some w
    | some v => if v.before w then some v else some w

/-- The sequence number of the waiter that should be admitted next. -/
def head (q : QueueState) : Option ℕ := (first q.waiting).map (·.seq)

/-- The round to stamp on a new waiter of this tenant and class. -/
def nextRound (q : QueueState) (priority : PriorityClass) (tenant : TenantId) : ℕ :=
  q.waiting.countP fun w => w.priority = priority && w.tenant = tenant

end QueueState

structure Scope where
  name : String
  limits : ScopeLimits
  inFlight : UInt32
  queued : ℕ
  requestBucket : Option TokenBucket
  tokenBucket : Option TokenBucket
  acquired : UInt64
  released : UInt64
  queue : QueueState
  /-- Minor currency units spent in the current budget period. -/
  spent : ℕ
  periodStart : ℕ
  queued_eq : queued = min queue.waiting.length u32Max

/-- The request-rate bucket shape `limits` asks for, if any. -/
def requestShape (limits : ScopeLimits) : Option BucketShape :=
  if 0 < limits.requestsPerSecond then
    some (.perSecond limits.requestsPerSecond limits.requestBurst)
  else none

/-- The token-rate bucket shape `limits` asks for, if any. -/
def tokenShape (limits : ScopeLimits) : Option BucketShape :=
  if 0 < limits.tokensPerMinute then some (.perMinute limits.tokensPerMinute limits.tokenBurst)
  else none

namespace Scope

def new (name : String) (limits : ScopeLimits) (nowMs : ℕ) : Scope where
  name := name
  limits := limits
  inFlight := 0
  queued := 0
  requestBucket := (requestShape limits).map (TokenBucket.full · nowMs)
  tokenBucket := (tokenShape limits).map (TokenBucket.full · nowMs)
  acquired := 0
  released := 0
  queue := .empty
  spent := 0
  periodStart := nowMs
  queued_eq := rfl

/-- Change what this scope enforces, keeping everything it has counted. -/
def reconfigure (s : Scope) (limits : ScopeLimits) (nowMs : ℕ) : Scope :=
  { s with
    requestBucket := reshape s.requestBucket (requestShape limits) nowMs
    tokenBucket := reshape s.tokenBucket (tokenShape limits) nowMs
    limits := limits }

def hasCapacity (s : Scope) : Bool :=
  s.limits.maxConcurrency = 0 || s.inFlight < s.limits.maxConcurrency

/-- Roll the budget period if it has elapsed, and report the spend so far. -/
def spendInPeriod (s : Scope) (nowMs : ℕ) : ℕ × Scope :=
  if s.limits.budgetPeriod.millis ≤ nowMs - s.periodStart then
    (0, { s with periodStart := nowMs, spent := 0 })
  else (s.spent, s)

/-- Add actual spend to the current period. -/
def recordSpend (s : Scope) (minorUnits nowMs : ℕ) : Scope :=
  let s := (s.spendInPeriod nowMs).2
  { s with spent := satAdd u64Max s.spent minorUnits }

/-- The period roll on the admission path: only a scope with a budget looks at its period. -/
def rollBudget (s : Scope) (nowMs : ℕ) : Scope :=
  if 0 < s.limits.budgetMinorUnits then (s.spendInPeriod nowMs).2 else s

/-- Past its budget for the period. -/
def overBudget (s : Scope) (nowMs : ℕ) : Bool :=
  0 < s.limits.budgetMinorUnits && s.limits.budgetMinorUnits ≤ (s.spendInPeriod nowMs).1

/-- Someone is in line, and it is not the holder of `ticket` whose turn it is. -/
def mustYield (s : Scope) (ticket : Option ℕ) : Bool :=
  (0 < s.limits.maxQueued || 0 < s.queued) &&
    match s.queue.head with
    | some head => ticket ≠ some head
    | none => false

/-- Try to reserve, optionally as the holder of queue ticket `ticket`. -/
def tryAcquireAs (s : Scope) (tokens nowMs : ℕ) (ticket : Option ℕ) : Except Rejection Unit × Scope :=
  let s' := s.rollBudget nowMs
  if s.overBudget nowMs then (.error .budgetExhausted, s')
  -- An arrival must not barge past people already in line.
  else if s.mustYield ticket then (.error .concurrencyExhausted, s')
  else if !s.hasCapacity then (.error .concurrencyExhausted, s')
  else
    let s' := { s' with inFlight := s'.inFlight + 1 }
    let (admitted, requestBucket) := withBucket s'.requestBucket (·.tryTake 1 nowMs)
    let s' := { s' with requestBucket := requestBucket }
    if !admitted then (.error .requestRateExceeded, { s' with inFlight := s'.inFlight - 1 })
    else
      let (admitted, tokenBucket) := withBucket s'.tokenBucket (·.tryTake tokens nowMs)
      let s' := { s' with tokenBucket := tokenBucket }
      if !admitted then
        (.error .tokenRateExceeded, { s' with
          requestBucket := s'.requestBucket.map (·.refund 1)
          inFlight := s'.inFlight - 1 })
      else (.ok (), { s' with acquired := s'.acquired + 1 })

/-- Return a reservation, reconciling the estimate against actual usage. -/
def release (s : Scope) (reserved actual nowMs : ℕ) : Scope :=
  { s with
    inFlight := s.inFlight - 1
    tokenBucket := s.tokenBucket.map fun bucket =>
      if actual < reserved then bucket.refund (reserved - actual)
      else if reserved < actual then bucket.charge (actual - reserved) nowMs
      else bucket
    released := s.released + 1 }

/-- Undo a successful acquisition whose reservation was refused elsewhere: the slot, the
request-rate token and the whole estimate go back. -/
def rollback (s : Scope) (tokens : ℕ) : Scope :=
  { s with
    inFlight := s.inFlight - 1
    requestBucket := s.requestBucket.map (·.refund 1)
    tokenBucket := s.tokenBucket.map (·.refund tokens)
    released := s.released + 1 }

/-- The scope with its waiting line replaced, `queued` stored with it. -/
def withQueue (s : Scope) (queue : QueueState) : Scope :=
  { s with queue := queue, queued := min queue.waiting.length u32Max, queued_eq := rfl }

/-- Join the waiting line, if there is room; the answer is the ticket. -/
def joinQueue (s : Scope) (priority : PriorityClass) (tenant : TenantId) : Except Rejection ℕ × Scope :=
  if s.limits.maxQueued = 0 then (.error .concurrencyExhausted, s)
  else if s.limits.maxQueued ≤ min s.queue.waiting.length u32Max then (.error .queueFull, s)
  else
    let seq := s.queue.nextSeq
    let waiter : Waiter := ⟨seq, priority, tenant, s.queue.nextRound priority tenant⟩
    (.ok seq, s.withQueue ⟨s.queue.waiting ++ [waiter], satAdd u64Max seq 1, Nat.min_le_right _ _⟩)

/-- Leave the waiting line. -/
def leaveQueue (s : Scope) (ticket : ℕ) : Scope :=
  s.withQueue { s.queue with waiting := s.queue.waiting.filter fun w => w.seq ≠ ticket }

/-- What `wait_for_turn` waits for: this ticket at the head, with capacity. -/
def isTurn (s : Scope) (ticket : ℕ) : Bool := s.queue.head = some ticket && s.hasCapacity

end Scope

end HypeLlm.Admission
