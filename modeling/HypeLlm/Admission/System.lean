import HypeLlm.Lib.Runs
import HypeLlm.Admission.Controller

/-!
# Requests, reservations and publications

The controller together with everyone who uses it: the reservations it has handed out, and the
requests that are inside `reserve_queued_as`.  That function blocks, so it is cut at the points where
other callers can come between: after its first attempt, before and after it has joined a line, when
it is woken, around each retry, while it waits for a machine's memory, and when it gives its place
up on the way out.  A `Client` is a request with the point it has reached.

Every call of the controller is one step, and a run is any list of steps.  Budgets of time are not
modelled: a step of a waiting request is told whether its time is up.
-/

namespace HypeLlm.Admission

open HypeLlm.Words HypeLlm.Machine HypeLlm.Runs

/-- The arguments of `reserve_queued_as`. -/
structure Ask where
  route : Route
  estimatedTokens : ℕ
  priority : PriorityClass
  /-- Whether there is no time to wait at all. -/
  noBudget : Bool
  key : Option String
  deriving Repr, DecidableEq

/-- Where a request inside `reserve_queued_as` has got to.  The names are those of the scope or machine
that refused it. -/
inductive Phase where
  /-- The first attempt was refused for memory. -/
  | memoryRefused (name : String)
  /-- The first attempt was refused for concurrency. -/
  | concurrencyRefused (name : String)
  /-- In the line of `scope`, with the ticket it issued. -/
  | waiting (scope : ScopeRef) (ticket : ℕ) (name : String)
  /-- It was this ticket's turn; the acquisition is still to be tried. -/
  | woken (scope : ScopeRef) (ticket : ℕ) (name : String)
  /-- On the way out, with a place in line to give up. -/
  | leaving (scope : ScopeRef) (ticket : ℕ) (refusal : Option (Rejection × String))
  /-- In line for a machine's memory. -/
  | waitingMemory (ledger : LedgerRef) (bytes : ℕ) (priority : PriorityClass) (key name : String)
  /-- Holding the memory it waited for. -/
  | holding (ledger : LedgerRef) (hold : MachineHold)
  /-- Done: refused, or with a reservation. -/
  | returned (refusal : Option (Rejection × String))
  deriving Repr, DecidableEq

structure Client where
  ask : Ask
  phase : Phase
  deriving Repr, DecidableEq

/-- One call of `acquire_chain`. -/
structure Call where
  route : Route
  estimatedTokens : ℕ
  holder : Option (ScopeRef × ℕ)
  memory : MemoryAsk
  clock : Readings
  deriving Repr, DecidableEq

def Controller.call (c : Controller) (k : Call) : Except (Rejection × String) Reservation × Controller :=
  c.acquireChain k.route k.estimatedTokens k.holder k.memory k.clock

namespace Ask

/-- The first attempt. -/
def firstCall (a : Ask) (clock : Readings) : Call :=
  ⟨a.route, a.estimatedTokens, none, .take a.priority a.key, clock⟩

/-- The attempt of a request whose turn it is in a line. -/
def retryCall (a : Ask) (scope : ScopeRef) (ticket : ℕ) (clock : Readings) : Call :=
  ⟨a.route, a.estimatedTokens, some (scope, ticket), .take a.priority a.key, clock⟩

/-- The attempt of a request that holds its memory already. -/
def heldCall (a : Ask) (ledger : LedgerRef) (hold : MachineHold) (clock : Readings) : Call :=
  ⟨a.route, a.estimatedTokens, none, .held ledger hold, clock⟩

end Ask

/-! ### The pieces of `reserve_queued_as` -/

namespace Phase

def afterFirst : Except (Rejection × String) Reservation → Phase
  | .ok _ => .returned none
  | .error (.memoryExhausted, name) => .memoryRefused name
  | .error (.concurrencyExhausted, name) => .concurrencyRefused name
  | .error refusal => .returned (some refusal)

/-- A request that lost the slot between the wake and the acquisition keeps its place in line. -/
def afterRetry (scope : ScopeRef) (ticket : ℕ) (name : String) (timedOut : Bool) :
    Except (Rejection × String) Reservation → Phase
  | .ok _ => .leaving scope ticket none
  | .error (rejection, again) =>
    if rejection = .concurrencyExhausted ∧ again = name then
      if timedOut then .leaving scope ticket (some (.queueTimeout, name))
      else .waiting scope ticket name
    else .leaving scope ticket (some (rejection, again))

def afterHeld : Except (Rejection × String) Reservation → Phase
  | .ok _ => .returned none
  | .error refusal => .returned (some refusal)

/-- `wait_for_turn`. -/
def afterWait (s : Scope) (scope : ScopeRef) (ticket : ℕ) (name : String) (timedOut : Bool) : Phase :=
  if s.isTurn ticket then .woken scope ticket name
  else if timedOut then .leaving scope ticket (some (.queueTimeout, name))
  else .waiting scope ticket name

end Phase

namespace Controller

/-- Join the line of the scope `i`, named `name`, which refused for concurrency. -/
def joinAt (c : Controller) (a : Ask) (name : String) (i : ScopeRef) : Phase × Controller :=
  if (c.scopes.cell i).limits.maxQueued = 0 || a.noBudget then
    (.returned (some (.concurrencyExhausted, name)), c)
  else
    match (c.scopes.cell i).joinQueue a.priority a.route.tenant with
    | (.ok ticket, s) => (.waiting i ticket name, { c with scopes := c.scopes.set i s })
    | (.error rejection, s) =>
      (.returned (some (rejection, name)), { c with scopes := c.scopes.set i s })

/-- Refused for concurrency at the scope `name`: look it up again and join its line. -/
def joinLine (c : Controller) (a : Ask) (name : String) (clock : Readings) : Phase × Controller :=
  let found := c.scopeNamed name a.route clock
  match found.1 with
  | none => (.returned (some (.concurrencyExhausted, name)), found.2)
  | some i => found.2.joinAt a name i

/-- `Drop` of a `QueuedTicket`. -/
def leaveLine (c : Controller) (scope : ScopeRef) (ticket : ℕ) : Controller :=
  { c with scopes := c.scopes.modify scope (·.leaveQueue ticket) }

/-- Refused for memory: leave a claim, or wait on the machine. -/
def awaitMemory (c : Controller) (a : Ask) (name : String) (nowMs : ℕ) : Phase × Controller :=
  let refused : Phase := .returned (some (.memoryExhausted, name))
  match c.machineFor a.route.target a.priority with
  | none => (refused, c)
  | some (ledger, bytes, priority) =>
    if a.noBudget then
      match a.key with
      | some key =>
        (refused, { c with ledgers := c.ledgers.modify ledger fun m =>
          (m.claim key priority bytes nowMs).2 })
      | none => (refused, c)
    else
      match a.key with
      | some key => (.waitingMemory ledger bytes priority key name, c)
      | none =>
        (.waitingMemory ledger bytes priority ("wait-" ++ toString c.nextWait) name,
          { c with nextWait := wrapAdd 64 c.nextWait 1 })

/-- One round of `hold_waiting`. -/
def attemptMemory (c : Controller) (a : Ask) (ledger : LedgerRef) (bytes : ℕ)
    (priority : PriorityClass) (key name : String) (timedOut : Bool) (nowMs : ℕ) :
    Phase × Controller :=
  match (c.ledgers.cell ledger).tryHold a.route.target bytes priority (some key) nowMs with
  | (.ok hold, m) => (.holding ledger hold, { c with ledgers := c.ledgers.set ledger m })
  | (.error _, m) =>
    let renewed := m.claim key priority bytes nowMs
    if timedOut then
      (.returned (some (.queueTimeout, name)),
        { c with ledgers := c.ledgers.set ledger (m.dropClaim key) })
    else if !renewed.1 then
      (.returned (some (.queueTimeout, name)),
        { c with ledgers := c.ledgers.set ledger (renewed.2.dropClaim key) })
    else
      (.waitingMemory ledger bytes priority key name,
        { c with ledgers := c.ledgers.set ledger renewed.2 })

end Controller

/-! ### The system -/

inductive Op where
  | apply (plan : AdmissionPlan) (nowMs : ℕ)
  | setDefaultTenantLimits (limits : ScopeLimits)
  | setDefaultPrincipalLimits (limits : ScopeLimits)
  /-- `reserve_for`, and `reserve` where the route has no alias. -/
  | reserveFor (route : Route) (estimatedTokens : ℕ) (clock : Readings)
  /-- Enter `reserve_queued_as`. -/
  | request (ask : Ask) (clock : Readings)
  /-- The next piece of `reserve_queued_as`. -/
  | advance (client : ℕ) (timedOut : Bool) (clock : Readings)
  | commit (id actualTokens nowMs : ℕ)
  | releaseUnused (id nowMs : ℕ)
  | drop (id nowMs : ℕ)
  | tryAdmitBytes (inbound nowMs : ℕ)
  | recordOutputBytes (outbound nowMs : ℕ)
  | recordSpend (tenant : TenantId) (principal : PrincipalId) (aliased : Option (AliasId × Operation))
      (target : Option TargetId) (minorUnits nowMs : ℕ) (clock : Readings)
  | dropMachineClaims (key : String)
  | machineViews (nowMs : ℕ)

structure System where
  controller : Controller
  reservations : List Reservation
  clients : List Client

namespace System

def init (global : ScopeLimits) (nowMs : ℕ) : System := ⟨.new global nowMs, [], []⟩

/-- A call of `acquire_chain`, its reservation kept. -/
def acquire (s : System) (k : Call) : Except (Rejection × String) Reservation × System :=
  match s.controller.call k with
  | (.ok r, c) => (.ok r, { s with controller := c, reservations := s.reservations ++ [r] })
  | (.error refusal, c) => (.error refusal, { s with controller := c })

def setPhase (s : System) (id : ℕ) (ask : Ask) (phase : Phase) : System :=
  { s with clients := s.clients.set id ⟨ask, phase⟩ }

/-- The next piece of client `id`, which is `⟨ask, phase⟩`. -/
def advance (s : System) (id : ℕ) (ask : Ask) (timedOut : Bool) (clock : Readings) : Phase → System
  | .memoryRefused name =>
    let out := s.controller.awaitMemory ask name clock.now
    { s with controller := out.2 }.setPhase id ask out.1
  | .concurrencyRefused name =>
    let out := s.controller.joinLine ask name clock
    { s with controller := out.2 }.setPhase id ask out.1
  | .waiting scope ticket name =>
    s.setPhase id ask
      (.afterWait (s.controller.scopes.cell scope) scope ticket name timedOut)
  | .woken scope ticket name =>
    let out := s.acquire (ask.retryCall scope ticket clock)
    out.2.setPhase id ask (.afterRetry scope ticket name timedOut out.1)
  | .leaving scope ticket refusal =>
    { s with controller := s.controller.leaveLine scope ticket }.setPhase id ask (.returned refusal)
  | .waitingMemory ledger bytes priority key name =>
    let out := s.controller.attemptMemory ask ledger bytes priority key name timedOut clock.now
    { s with controller := out.2 }.setPhase id ask out.1
  | .holding ledger hold =>
    let out := s.acquire (ask.heldCall ledger hold clock)
    out.2.setPhase id ask (.afterHeld out.1)
  | .returned _ => s

/-- End reservation `id` by `f`. -/
def finish (s : System) (id : ℕ) (f : Reservation → Controller → Reservation × Controller) : System :=
  match s.reservations[id]? with
  | none => s
  | some r =>
    let done := f r s.controller
    { s with controller := done.2, reservations := s.reservations.set id done.1 }

def step (s : System) : Op → System
  | .apply plan nowMs => { s with controller := s.controller.apply plan nowMs }
  | .setDefaultTenantLimits limits =>
    { s with controller := { s.controller with defaultTenantLimits := limits } }
  | .setDefaultPrincipalLimits limits =>
    { s with controller := { s.controller with defaultPrincipalLimits := limits } }
  | .reserveFor route estimatedTokens clock =>
    (s.acquire ⟨route, estimatedTokens, none, .take .standard none, clock⟩).2
  | .request ask clock =>
    let out := s.acquire (ask.firstCall clock)
    { out.2 with clients := out.2.clients ++ [⟨ask, .afterFirst out.1⟩] }
  | .advance id timedOut clock =>
    match s.clients[id]? with
    | none => s
    | some client => s.advance id client.ask timedOut clock client.phase
  | .commit id actualTokens nowMs => s.finish id (·.commit actualTokens nowMs)
  | .releaseUnused id nowMs => s.finish id (·.releaseUnused nowMs)
  | .drop id nowMs => s.finish id (·.drop nowMs)
  | .tryAdmitBytes inbound nowMs =>
    { s with controller := (s.controller.tryAdmitBytes inbound nowMs).2 }
  | .recordOutputBytes outbound nowMs =>
    { s with controller := s.controller.recordOutputBytes outbound nowMs }
  | .recordSpend tenant principal aliased target minorUnits nowMs clock =>
    { s with controller :=
      s.controller.recordSpend tenant principal aliased target minorUnits nowMs clock }
  | .dropMachineClaims key => { s with controller := s.controller.dropMachineClaims key }
  | .machineViews nowMs => { s with controller := (s.controller.machineViews nowMs).2 }

/-- The state after `ops`, from a new controller. -/
def after (global : ScopeLimits) (nowMs : ℕ) (ops : List Op) : System :=
  run step (init global nowMs) ops

/-- The call of `acquire_chain` a step makes, if it makes one. -/
def callOf (s : System) : Op → Option Call
  | .reserveFor route estimatedTokens clock =>
    some ⟨route, estimatedTokens, none, .take .standard none, clock⟩
  | .request ask clock => some (ask.firstCall clock)
  | .advance id _ clock =>
    match s.clients[id]? with
    | some ⟨ask, .woken scope ticket _⟩ => some (ask.retryCall scope ticket clock)
    | some ⟨ask, .holding ledger hold⟩ => some (ask.heldCall ledger hold clock)
    | _ => none
  | _ => none

end System

end HypeLlm.Admission
