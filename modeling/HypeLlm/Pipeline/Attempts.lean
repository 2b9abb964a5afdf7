import HypeLlm.Admission.Scope
import HypeLlm.Budget.Ledger
import HypeLlm.Fleet.ActivationQueue
import HypeLlm.Pipeline.Exchange
import HypeLlm.Pipeline.HiddenModels

/-!
# One pass through routing and the attempt loop

A pass routes the request and tries the candidates in order.  Each try takes up to four things in
sequence (a permit of the target's breaker, an admission reservation, a hold on the budget of the
key, a hold on the deployment), makes one exchange, or two when the current credential is refused
and a superseded one may still be live, and gives everything back according to how the exchange
ended.  A dozen ways out lie between.

What the world answers while one candidate is tried is a `Turn`.  The pass keeps a record of what it
did, one list of actions for each candidate it got as far as asking about.
-/

namespace HypeLlm.Pipeline

open HypeLlm.Words HypeLlm.Routing HypeLlm.Fleet
open HypeLlm.Admission (Rejection)
open HypeLlm.Budget (BudgetRefusal BudgetReservation BudgetLedger Settlement)
open HypeLlm.Health (UpstreamErrorClass)

/-! ### Requests and their estimates -/

/-- A request as the pipeline reads it. -/
structure Request where
  canonical : CanonicalRequest
  idempotencyKey : Option String
  /-- The key the request was made with. -/
  key : Option KeyId

def ReasoningEffort.defaultOutputMultiplier : ReasoningEffort → ℕ
  | .unset | .minimal => 1
  | .low => 2
  | .medium => 4
  | .high => 8

/-- The compiled-in estimate, with no declaration of a target. -/
def defaultEstimate (effort : ReasoningEffort) : TokenEstimate :=
  ⟨4096, ReasoningEffort.defaultOutputMultiplier effort, defaultBytesPerTokenHundredths⟩

namespace Request

variable (r : Request)

def idempotent : Bool := r.idempotencyKey.isSome

def estimatedInputTokens : ℕ :=
  r.canonical.estimatedInputTokensFor (defaultEstimate r.canonical.reasoningEffort)

def estimatedOutputTokensWith (outputMultiplier : ℕ) : ℕ :=
  if r.canonical.operation = .job then 0
  else satMul u64Max (r.canonical.limits.maxOutputTokens.getD 0) (max outputMultiplier 1)

def estimatedTotalTokens : ℕ :=
  satAdd u64Max r.estimatedInputTokens
    (r.estimatedOutputTokensWith (defaultEstimate r.canonical.reasoningEffort).outputMultiplier)

/-- Operations whose cost is not counted in tokens are not charged. -/
def metered : Bool := r.canonical.operation != .tokenize && r.canonical.operation != .job

end Request

/-- The tokens one attempt against `target` reserves from the budget of the key. -/
def budgetTokens (r : Request) (target : Target) (defaultDocumentTokenEstimate : ℕ) : ℕ :=
  let estimate := target.tokenEstimate r.canonical.reasoningEffort defaultDocumentTokenEstimate
  let output := match r.canonical.operation with
    | .embeddings | .rerank | .tokenize | .job => 0
    | .chat | .responses =>
      let cap := r.canonical.limits.maxOutputTokens.getD
        (if target.capabilities.maxOutputTokens = 0 then target.capabilities.maxContextTokens
          else target.capabilities.maxOutputTokens)
      satMul u64Max cap (max estimate.outputMultiplier 1)
  satAdd u64Max (r.canonical.estimatedInputTokensFor estimate) output

/-! ### What the world answers -/

def exclusionReason : Rejection → ExclusionReason
  | .concurrencyExhausted | .queueFull | .queueTimeout | .memoryExhausted => .capacityExhausted
  | .requestRateExceeded | .tokenRateExceeded | .byteRateExceeded | .budgetExhausted =>
    .budgetExceeded

def rejectionCode : Rejection → ErrorCode
  | .concurrencyExhausted | .queueFull | .queueTimeout | .memoryExhausted => .capacityExhausted
  | .requestRateExceeded | .tokenRateExceeded | .byteRateExceeded | .budgetExhausted => .rateLimited

/-- How a wait for an activation of somebody else's ends. -/
inductive Awaited where
  | noFleet
  | ready
  | timedOut
  | failed
  deriving Repr, DecidableEq

def waitFor : Awaited → Except ExclusionReason Unit
  | .noFleet => .error .fleetAgentUnavailable
  | .ready => .ok ()
  | .timedOut => .error .activationExceedsDeadline
  | .failed => .error .hostCapacityInsufficient

inductive ActivationResult where
  | ready
  | failed (code : String)
  deriving Repr, DecidableEq

/-- What `activate_for` meets, in order: access, a fleet, a plan, the answer of the queue where the
alias has a capability, and the activation itself. -/
structure Activation where
  permitted : Bool
  fleet : Bool
  planned : Bool
  admission : Option QueueAdmission
  result : ActivationResult
  deriving Repr, DecidableEq

def activated : ActivationResult → Except ExclusionReason Unit
  | .ready => .ok ()
  | .failed code =>
    .error (if code = "fleet_budget_exhausted" then .activationBudgetExhausted
      else if code = "fleet_busy" then .activationQueued
      else if code = "fleet_activation_timeout" then .activationExceedsDeadline
      else if code = "fleet_unavailable" then .fleetAgentUnavailable
      else .hostCapacityInsufficient)

/-- Make a cold candidate ready, or say why it could not be. -/
def activateFor (a : Activation) : Except ExclusionReason Unit :=
  if !a.permitted then .error .fleetAccessDenied
  else if !a.fleet then .error .fleetAgentUnavailable
  else if !a.planned then .error .fleetStateStale
  else
    match a.admission with
    | none => activated a.result
    | some .activate => activated a.result
    | some (.wait _) => .error .activationQueued
    | some .full => .error .activationBudgetExhausted

/-- The answer to entering a dispatch: without a deployment there is nothing to hold. -/
inductive Entry where
  | unmanaged
  | held
  | stopping
  deriving Repr, DecidableEq

/-- What the world answers while one candidate is tried. -/
structure Turn where
  /-- The deadline has passed. -/
  expired : Bool
  /-- The breaker gives a permit. -/
  permits : Bool
  bytes : Except Rejection Unit
  reserves : Except Rejection Unit
  funds : Except BudgetRefusal Unit
  awaited : Awaited
  activation : Activation
  entry : Entry
  /-- The upstream, presented with the current credential. -/
  current : Upstream
  /-- The upstream, presented with the superseded one. -/
  superseded : Upstream

/-! ### The record of a pass -/

/-- Which secret an attempt presents. -/
inductive CredentialChoice where
  | current
  | superseded
  deriving Repr, DecidableEq

/-- An exchange about to be made, with what the pass had come to by then. -/
structure Dispatch (σ : Type) where
  target : TargetId
  family : ProviderFamily
  choice : CredentialChoice
  upstream : Upstream
  state : σ
  exclusions : List Exclusion
  deriving DecidableEq

inductive PermitFinish where
  | released
  | success
  | failure (errorClass : UpstreamErrorClass)
  deriving Repr, DecidableEq

inductive ReservationFinish where
  | releaseUnused
  | commit (actual : ℕ)
  deriving Repr, DecidableEq

inductive HoldFinish where
  | settle (actual : ℕ)
  | retain
  | release
  deriving Repr, DecidableEq

inductive Action (σ : Type) where
  | permitTaken
  | permitFinished (how : PermitFinish)
  | reserved
  | reservationFinished (how : ReservationFinish)
  | held (tokens : ℕ)
  | holdFinished (how : HoldFinish)
  | dispatchEntered
  | dispatchLeft
  | sent (d : Dispatch σ)
  | delivered (e : CanonicalEvent)
  | ended (choice : CredentialChoice) (result : Except AttemptFailure AttemptSummary)
  deriving DecidableEq

inductive AttemptOutcome where
  | success
  | failedBeforeAcceptance (errorClass : UpstreamErrorClass)
  | failedAfterAcceptance (errorClass : UpstreamErrorClass)
  | failedAfterOutput (errorClass : UpstreamErrorClass)
  | cancelled
  | deadlineExceeded
  deriving Repr, DecidableEq

def AttemptFailure.outcome (f : AttemptFailure) : AttemptOutcome :=
  if f.clientCancelled then .cancelled
  else
    match f.phase with
    | .beforeAcceptance => .failedBeforeAcceptance f.errorClass
    | .afterAcceptance => .failedAfterAcceptance f.errorClass
    | .afterOutput => .failedAfterOutput f.errorClass

structure Attempt where
  target : TargetId
  outcome : AttemptOutcome
  deriving Repr, DecidableEq

/-- The result of running a request, as far as it decides what follows. -/
structure Outcome where
  exclusions : List Exclusion
  attempts : List Attempt
  chosen : Option TargetId
  summary : Option AttemptSummary
  error : Option RouterError
  sawOutput : Bool
  deriving Repr, DecidableEq

def Outcome.isSuccess (o : Outcome) : Bool := o.error.isNone

/-- What a pass has come to. -/
structure PassState (σ : Type) where
  exclusions : List Exclusion
  attempts : List Attempt
  lastFailure : Option AttemptFailure
  sawOutput : Bool
  /-- The family of the first target dispatched to. -/
  firstFamily : Option ProviderFamily
  state : σ
  /-- What was done for each candidate, in order. -/
  visits : List (List (Action σ))

namespace PassState

variable {σ : Type} (p : PassState σ)

def start (exclusions : List Exclusion) (state : σ) : PassState σ :=
  ⟨exclusions, [], none, false, none, state, []⟩

def exclude (target : TargetId) (reason : ExclusionReason) : PassState σ :=
  { p with exclusions := p.exclusions ++ [⟨target, reason⟩] }

def failing (f : AttemptFailure) : PassState σ := { p with lastFailure := some f }

/-- One more candidate, and what was done for it. -/
def visited (actions : List (Action σ)) : PassState σ := { p with visits := p.visits ++ [actions] }

def attempt (target : TargetId) (outcome : AttemptOutcome) : PassState σ :=
  { p with attempts := p.attempts ++ [⟨target, outcome⟩] }

/-- The outcome of a pass that ends with an error. -/
def failed (error : RouterError) : Outcome :=
  ⟨p.exclusions, p.attempts, none, none, some error, p.sawOutput⟩

/-- Every action of the pass, in order. -/
def log : List (Action σ) := p.visits.flatten

end PassState

/-- A candidate is passed over or failed over from, or the pass is over. -/
inductive Verdict (σ : Type) where
  | next (p : PassState σ)
  | done (outcome : Outcome) (p : PassState σ)

/-- What a pass runs under. -/
structure Setting (σ : Type) where
  snapshot : PolicySnapshot
  adapterFor : ProviderFamily → Adapter
  sink : Sink σ
  request : Request
  maxAttempts : ℕ

/-! ### The exchanges of one candidate -/

section Candidates

variable {σ : Type} (s : Setting σ)

/-- What the exchanges of one candidate came to. -/
structure Sent (σ : Type) where
  result : Except AttemptFailure AttemptSummary
  state : σ
  actions : List (Action σ)

/-- The exchange of a dispatch. -/
def Dispatch.exchange (s : Setting σ) (d : Dispatch σ) : Exchanged σ :=
  HypeLlm.Pipeline.exchange (s.adapterFor d.family) s.sink s.request.estimatedInputTokens d.upstream
    d.state

def send (d : Dispatch σ) : Sent σ :=
  let x := d.exchange s
  ⟨x.result, x.state, .sent d :: x.delivered.map Action.delivered ++ [Action.ended d.choice x.result]⟩

/-- Whether a refused credential may be answered by the superseded one. -/
def triesSuperseded (provider : Provider) (f : AttemptFailure) : Bool :=
  f.errorClass = .authentication && f.phase = .beforeAcceptance && provider.credentialRef.isSome

/-- The result that stands after both: the second one counts only if it succeeded. -/
def standing (f : AttemptFailure) :
    Except AttemptFailure AttemptSummary → Except AttemptFailure AttemptSummary
  | .ok summary => .ok summary
  | .error _ => .error f

/-- One exchange with the current credential and, where that one was refused, one with the
superseded, which counts only if it succeeds. -/
def attempt (target : TargetId) (provider : Provider) (t : Turn) (p : PassState σ) : Sent σ :=
  let first := send s ⟨target, provider.family, .current, t.current, p.state, p.exclusions⟩
  match first.result with
  | .ok _ => first
  | .error f =>
    if triesSuperseded provider f then
      let retried :=
        send s ⟨target, provider.family, .superseded, t.superseded, first.state, p.exclusions⟩
      { result := standing f retried.result
        state := retried.state
        actions := first.actions ++ retried.actions }
    else first

/-- How the hold on a budget ends, by how the exchange did. -/
def holdFinish : Except AttemptFailure AttemptSummary → HoldFinish
  | .ok summary => if summary.usage.isReported then .settle summary.usage.total else .retain
  | .error f =>
    match f.phase with
    | .beforeAcceptance => .release
    | .afterAcceptance | .afterOutput => .retain

def reservationFinish : Except AttemptFailure AttemptSummary → ReservationFinish
  | .ok summary => .commit summary.usage.total
  | .error f =>
    match f.phase with
    | .beforeAcceptance => .releaseUnused
    | .afterAcceptance | .afterOutput => .commit s.request.estimatedTotalTokens

def permitFinish : Except AttemptFailure AttemptSummary → PermitFinish
  | .ok _ => .success
  | .error f => if f.clientCancelled then .released else .failure f.errorClass

/-- The actions on a hold, if the attempt has one. -/
def onHold (hold : Option ℕ) (how : HoldFinish) : List (Action σ) :=
  if hold.isSome then [.holdFinished how] else []

/-- Everything taken for a dispatch given back, by how the exchange ended. -/
def concluded (hold : Option ℕ) (entered : Bool) (result : Except AttemptFailure AttemptSummary) :
    List (Action σ) :=
  (if entered then [.dispatchLeft] else []) ++ .reservationFinished (reservationFinish s result) ::
    onHold hold (holdFinish result) ++ [Action.permitFinished (permitFinish result)]

/-- Everything taken given back, with nothing sent. -/
def unused (hold : Option ℕ) : List (Action σ) :=
  .reservationFinished .releaseUnused :: onHold hold .release ++ [Action.permitFinished .released]

/-- What is taken before a dispatch. -/
def taken (hold : Option ℕ) : List (Action σ) :=
  .permitTaken :: .reserved :: hold.toList.map .held

/-! ### One candidate -/

/-- The dispatch, and what follows from how it ended. -/
def dispatchTo (target : TargetId) (provider : Provider) (t : Turn) (hold : Option ℕ)
    (entered : Bool) (p : PassState σ) : Verdict σ :=
  let sent := attempt s target provider t p
  let p := { p with
    firstFamily := p.firstFamily <|> some provider.family
    state := sent.state }
  let p := p.visited (taken hold ++ (if entered then [.dispatchEntered] else []) ++ sent.actions ++
    concluded s hold entered sent.result)
  match sent.result with
  | .ok summary =>
    let p := { p with sawOutput := p.sawOutput || summary.sawOutput }.attempt target .success
    .done ⟨p.exclusions, p.attempts, some target, some summary, none, p.sawOutput⟩ p
  | .error f =>
    let p := ({ p with sawOutput := p.sawOutput || decide (f.phase = AttemptPhase.afterOutput) }.attempt target
      f.outcome).failing f
    if f.mayFailover s.request.idempotent then .next p else .done (p.failed f.error) p

/-- The deployment entered, unless an idle stop has claimed it. -/
def enterDispatch (target : TargetId) (provider : Provider) (t : Turn) (hold : Option ℕ)
    (p : PassState σ) : Verdict σ :=
  match t.entry with
  | .unmanaged => dispatchTo s target provider t hold false p
  | .held => dispatchTo s target provider t hold true p
  | .stopping =>
    .next ((p.exclude target .activationQueued).visited (taken hold ++ unused hold))

def capabilityUnavailable : AttemptFailure :=
  ⟨.beforeAcceptance, .connection, .new .noEligibleTarget "the requested capability is not available",
    none, false⟩

/-- The fleet step: after every reservation, before any outbound I/O. -/
def makeReady (residency : ResidencyClass) (target : TargetId) (provider : Provider) (t : Turn)
    (hold : Option ℕ) (p : PassState σ) : Verdict σ :=
  let p := { p with state := s.sink.admitted p.state }
  if residency = .activating then
    match waitFor t.awaited with
    | .ok () => enterDispatch s target provider t hold p
    | .error reason => .next ((p.exclude target reason).visited (taken hold ++ unused hold))
  else if residency.requiresActivation then
    match activateFor t.activation with
    | .ok () => enterDispatch s target provider t hold p
    | .error reason =>
      .next (((p.exclude target reason).visited (taken hold ++ unused hold)).failing
        capabilityUnavailable)
  else enterDispatch s target provider t hold p

def refusalError : BudgetRefusal → RouterError
  | .exhausted _ => .new .tokenBudgetExhausted
      "The API key's token budget is exhausted or insufficient for this request."
  | .unavailable => .internal

/-- The budget of the key, where the request is charged to one.  A refusal ends the request. -/
def fund (residency : ResidencyClass) (target : Target) (provider : Provider) (t : Turn)
    (p : PassState σ) : Verdict σ :=
  if s.request.key.isSome && s.request.metered then
    match t.funds with
    | .ok () =>
      let tokens := budgetTokens s.request target s.snapshot.defaultDocumentTokenEstimate
      makeReady s residency target.id provider t (some tokens) p
    | .error refusal =>
      let p := (p.exclude target.id .budgetExceeded).visited
        (.permitTaken :: .reserved :: [.reservationFinished .releaseUnused, .permitFinished .released])
      .done (p.failed (refusalError refusal)) p
  else makeReady s residency target.id provider t none p

def limitExceeded (rejection : Rejection) : AttemptFailure :=
  ⟨.beforeAcceptance, .rateLimited,
    .new (rejectionCode rejection) "the request exceeded a configured capacity or rate limit",
    none, false⟩

/-- With a permit: the byte rate, then the reservation, both refused without ending the pass. -/
def reserve (residency : ResidencyClass) (target : Target) (provider : Provider) (t : Turn)
    (p : PassState σ) : Verdict σ :=
  match t.bytes with
  | .error rejection =>
    .next ((p.exclude target.id (exclusionReason rejection)).visited
      [.permitTaken, .permitFinished .released])
  | .ok () =>
    match t.reserves with
    | .error rejection =>
      .next (((p.exclude target.id (exclusionReason rejection)).visited
        [.permitTaken, .permitFinished .released]).failing (limitExceeded rejection))
    | .ok () => fund s residency target provider t p

def deadlineExceeded : RouterError :=
  .new .deadlineExceeded "the request deadline expired before a provider responded"

/-- Try one candidate. -/
def visit (c : Candidate) (t : Turn) (p : PassState σ) : Verdict σ :=
  if t.expired then
    let p := p.attempt c.target .deadlineExceeded
    .done (p.failed deadlineExceeded) p
  else
    match s.snapshot.targets[c.target]? with
    | none => .next p
    | some target =>
      match s.snapshot.providers[target.providerId]? with
      | none => .next p
      | some provider =>
        let allowFamilyFailover :=
          s.snapshot.aliases[s.request.canonical.requestedModel]?.all (·.allowFamilyFailover)
        if !allowFamilyFailover && p.firstFamily.any (· != provider.family) then
          .next (p.exclude target.id .familyFailoverNotAllowed)
        else if !t.permits then .next (p.exclude target.id .circuitOpen)
        else reserve s c.residency target provider t p

/-! ### The pass -/

def noEligibleTarget : RouterError :=
  .new .noEligibleTarget "no target met the policy, health, and capability requirements"

/-- Try candidates in order, each in its turn. -/
def tryCandidates (turns : ℕ → Turn) : List Candidate → ℕ → PassState σ → Outcome × PassState σ
  | [], _, p => (p.failed (p.lastFailure.elim noEligibleTarget AttemptFailure.error), p)
  | c :: cs, sequence, p =>
    match visit s c (turns sequence) p with
    | .next p => tryCandidates turns cs (sequence + 1) p
    | .done outcome p => (outcome, p)

/-- What one pass is made in: the context and the live state it routes by, and the answers to each
of its candidates. -/
structure Round where
  context : RoutingContext
  live : LiveState
  turns : ℕ → Turn

/-- One pass through routing and the attempt loop. -/
def executeOnce (round : Round) (state : σ) : Outcome × PassState σ :=
  let route := s.snapshot.route round.context s.request.canonical round.live
  let p := PassState.start route.exclusions state
  if route.candidates.isEmpty then
    (p.failed (noCandidateError route.exclusions s.snapshot s.request.canonical), p)
  else tryCandidates s round.turns (route.candidates.take (max s.maxAttempts 1)) 0 p

end Candidates

end HypeLlm.Pipeline
