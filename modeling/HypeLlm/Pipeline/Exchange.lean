import HypeLlm.Health.Registry
import HypeLlm.Sse.Parse
import HypeLlm.Pipeline.Errors

/-!
# One exchange with an upstream

An exchange prepares a request, connects, sends, reads the head of the answer and then either its
body or its stream, handing the decoded events to the sink of the request as they come.  What the
upstream and the network do is a script, `Upstream`; what a provider family means by its bytes is
an `Adapter`; what the client does is a `Sink`, with a state of its own.

A failure carries the phase the exchange had reached, which is all that later decisions about it
read.
-/

namespace HypeLlm.Pipeline

open HypeLlm.Words HypeLlm.Sse
open HypeLlm.Health (UpstreamErrorClass)

/-! ### Events -/

inductive UsageSource where
  | providerReported
  | routerEstimated
  | providerReportedOutput
  deriving Repr, DecidableEq

structure CanonicalUsage where
  inputTokens : ℕ
  outputTokens : ℕ
  cachedInputTokens : ℕ
  reasoningTokens : ℕ
  source : UsageSource
  deriving Repr, DecidableEq

namespace CanonicalUsage

def estimated (inputTokens outputTokens : ℕ) : CanonicalUsage :=
  ⟨inputTokens, outputTokens, 0, 0, .routerEstimated⟩

def total (u : CanonicalUsage) : ℕ := satAdd u64Max u.inputTokens u.outputTokens

def isReported (u : CanonicalUsage) : Bool := u.source = .providerReported

end CanonicalUsage

inductive FinishReason where
  | stop
  | length
  | toolCalls
  | contentFilter
  | cancelled
  | error
  | unrecognized
  deriving Repr, DecidableEq

structure ToolCallDelta where
  index : ℕ
  id : Option String
  name : Option String
  argumentsDelta : String
  deriving Repr, DecidableEq

/-- A decoded event.  Vectors and scores are the bits the provider sent. -/
inductive CanonicalEvent where
  | start (upstreamId nativeModel : Option String)
  | textDelta (text : String)
  | reasoningDelta (text : String)
  | toolCallDelta (delta : ToolCallDelta)
  | embedding (index : ℕ) (values : List UInt32)
  | score (index : ℕ) (score : UInt32)
  | usage (usage : CanonicalUsage)
  | finish (reason : FinishReason)
  | error (error : RouterError)
  deriving Repr, DecidableEq

namespace CanonicalEvent

/-- Output the client can observe. -/
def isSemanticOutput : CanonicalEvent → Bool
  | .textDelta _ | .reasoningDelta _ | .toolCallDelta _ | .embedding .. | .score .. => true
  | _ => false

def isTerminal : CanonicalEvent → Bool
  | .finish _ | .error _ => true
  | _ => false

/-- Still needed once the stream has finished. -/
def retainAfterStream : CanonicalEvent → Bool
  | .start .. | .usage _ => true
  | _ => false

end CanonicalEvent

/-- Whether there is semantic output among the events. -/
def outputIn (events : List CanonicalEvent) : Bool := events.any CanonicalEvent.isSemanticOutput

def maxRetainedEvents : ℕ := 256

/-! ### Failures -/

/-- How far an attempt got before it failed. -/
inductive AttemptPhase where
  | beforeAcceptance
  | afterAcceptance
  | afterOutput
  deriving Repr, DecidableEq

namespace AttemptPhase

def permitsFailover (idempotent : Bool) : AttemptPhase → Bool
  | .beforeAcceptance => true
  | .afterAcceptance => idempotent
  | .afterOutput => false

/-- The phase of a failure after acceptance. -/
def accepted (sawOutput : Bool) : AttemptPhase := if sawOutput then .afterOutput else .afterAcceptance

@[simp] theorem accepted_eq_afterOutput {sawOutput : Bool} :
    accepted sawOutput = .afterOutput ↔ sawOutput = true := by
  cases sawOutput <;> decide

@[simp] theorem accepted_ne_before (sawOutput : Bool) : accepted sawOutput ≠ .beforeAcceptance := by
  cases sawOutput <;> decide

end AttemptPhase

def isRetriable : UpstreamErrorClass → Bool
  | .connection | .timeout | .rateLimited | .serverError | .protocolViolation => true
  | _ => false

def toClientCode : UpstreamErrorClass → ErrorCode
  | .connection | .serverError | .protocolViolation => .upstreamInvalidResponse
  | .timeout => .deadlineExceeded
  | .authentication => .internalFault
  | .rateLimited => .rateLimited
  | .invalidRequest | .contextOverflow | .unsupportedFeature | .contentFilter => .invalidRequest

structure AttemptFailure where
  phase : AttemptPhase
  errorClass : UpstreamErrorClass
  error : RouterError
  providerCode : Option (List Char)
  /-- The attempt ended because the client went away or stalled. -/
  clientCancelled : Bool
  deriving Repr, DecidableEq

structure ErrorClassification where
  errorClass : UpstreamErrorClass
  providerCode : Option Capped
  safeDetail : Capped
  retryAfterSecs : Option ℕ
  deriving Repr, DecidableEq

inductive UpstreamError where
  | egress
  | protocol
  | truncated
  | timeout
  | io
  | headTooLarge
  deriving Repr, DecidableEq

def UpstreamError.errorClass : UpstreamError → UpstreamErrorClass
  | .egress | .io | .truncated => .connection
  | .timeout => .timeout
  | .protocol | .headTooLarge => .protocolViolation

namespace AttemptFailure

def mayFailover (f : AttemptFailure) (idempotent : Bool) : Bool :=
  !f.clientCancelled && f.phase.permitsFailover idempotent && isRetriable f.errorClass

def fromClassification (phase : AttemptPhase) (c : ErrorClassification) : AttemptFailure where
  phase := phase
  errorClass := c.errorClass
  error := ⟨toClientCode c.errorClass, Capped.new c.safeDetail.text 256, c.retryAfterSecs, none⟩
  providerCode := c.providerCode.map Capped.text
  clientCancelled := false

def fromUpstream (phase : AttemptPhase) (e : UpstreamError) : AttemptFailure where
  phase := phase
  errorClass := e.errorClass
  error := RouterError.new (toClientCode e.errorClass) <|
    match e.errorClass with
    | .timeout => "the upstream did not respond in time"
    | .protocolViolation => "the upstream violated the protocol contract"
    | _ => "the upstream connection failed"
  providerCode := none
  clientCancelled := false

def cancelled (sawOutput : Bool) : AttemptFailure where
  phase := .accepted sawOutput
  errorClass := .connection
  error := RouterError.new .invalidRequest "the client closed the connection"
  providerCode := none
  clientCancelled := true

/-- The event stream could not be parsed. -/
def malformed (phase : AttemptPhase) : AttemptFailure where
  phase := phase
  errorClass := .protocolViolation
  error := RouterError.new .upstreamInvalidResponse "the upstream sent a malformed event stream"
  providerCode := none
  clientCancelled := false

end AttemptFailure

/-! ### The parties -/

/-- What a provider family makes of requests and answers. -/
structure Adapter where
  classifyError : ℕ → List UInt8 → ErrorClassification
  decodeResponse : ℕ → List UInt8 → Except ErrorClassification (List CanonicalEvent)
  decodeStreamEvent : Option (List Char) → List Char → Except ErrorClassification (List CanonicalEvent)
  isStreamTerminator : List Char → Bool
  usageFromEvents : List CanonicalEvent → CanonicalUsage

/-- Where decoded events go.  A call answers whether the sink is still open. -/
structure Sink (σ : Type) where
  deliver : σ → CanonicalEvent → Bool × σ
  keepalive : σ → Bool × σ
  admitted : σ → σ

/-- What an adapter objects to in a request. -/
structure ValidationFailure where
  detail : Capped
  param : Option String
  deriving Repr, DecidableEq

def ValidationFailure.toRouterError (f : ValidationFailure) : RouterError :=
  let error : RouterError := ⟨.invalidRequest, Capped.new f.detail.text 256, none, none⟩
  match f.param with
  | none => error
  | some param => error.withParam param

/-- How far the request could be prepared before any I/O. -/
inductive Preparation where
  | ready
  | noEndpoint
  | notValidated (f : ValidationFailure)
  | noPath (f : ValidationFailure)
  | notEncoded (f : ValidationFailure)
  | noCredential
  | notBuilt
  deriving Repr, DecidableEq

def RouterError.internal : RouterError := .new .internalFault "internal error"

namespace Preparation

def refuse (errorClass : UpstreamErrorClass) (error : RouterError) : Option AttemptFailure :=
  some ⟨.beforeAcceptance, errorClass, error, none, false⟩

def failure : Preparation → Option AttemptFailure
  | .ready => none
  | .noEndpoint => refuse .connection .internal
  | .notValidated f => refuse .unsupportedFeature f.toRouterError
  | .noPath f => refuse .unsupportedFeature f.toRouterError
  | .notEncoded f => refuse .invalidRequest f.toRouterError
  | .noCredential =>
    refuse .authentication (.new .internalFault "the target's provider credential is not available")
  | .notBuilt => refuse .connection .internal

end Preparation

/-- The payload of an answer as it arrives.  Nothing arriving until a keepalive is due is `idle`;
what ends the wait for more is the end of the framing or an error, a passed deadline among them. -/
inductive Body where
  | complete
  | failed (e : UpstreamError)
  | idle (rest : Body)
  | chunk (bytes : List UInt8) (rest : Body)
  deriving Repr, DecidableEq

/-- Read to the end of the framing. -/
def Body.readToEnd : Body → Except UpstreamError (List UInt8)
  | .complete => .ok []
  | .failed e => .error e
  | .idle rest => rest.readToEnd
  | .chunk bytes rest => rest.readToEnd.map (bytes ++ ·)

/-- An answer whose head could be read. -/
structure Answer where
  status : ℕ
  eventStream : Bool
  /-- The `Retry-After` header, capped by what is left of the deadline. -/
  retryAfterSecs : Option ℕ
  body : Body
  deriving Repr, DecidableEq

def Answer.isSuccess (a : Answer) : Bool := 200 ≤ a.status && a.status < 300

/-- An answer that is not a success, classified.  A back-off the adapter found in the body wins. -/
def Answer.refusal (a : Answer) (adapter : Adapter) : ErrorClassification :=
  let body := match a.body.readToEnd with
    | .ok bytes => bytes
    | .error _ => []
  let c := adapter.classifyError a.status body
  { c with retryAfterSecs := c.retryAfterSecs <|> a.retryAfterSecs }

/-- What becomes of a request on an open connection. -/
inductive Trial where
  | notSent (e : UpstreamError)
  | noHead (e : UpstreamError) (receivedAny : Bool)
  | answered (a : Answer)
  deriving Repr, DecidableEq

/-- An attempt to get a connection, and what becomes of the request on it. -/
inductive Dial where
  | failed (e : UpstreamError)
  | opened (pooled : Bool) (trial : Trial)
  deriving Repr, DecidableEq

/-- Everything the outside does in one exchange: `first` on a connection the pool may have had, and
`fresh` on the new one of the single replay. -/
structure Upstream where
  preparation : Preparation
  first : Dial
  fresh : Dial
  deriving Repr, DecidableEq

/-! ### Connecting -/

/-- The answer, or the phase and the error of the failure. -/
def Trial.outcome : Trial → Except (AttemptPhase × UpstreamError) Answer
  | .notSent e => .error (.beforeAcceptance, e)
  | .noHead e _ => .error (.afterAcceptance, e)
  | .answered a => .ok a

/-- Safe to replay on a new connection: nothing was delivered, or the peer closed without a byte. -/
def Trial.replayable : Trial → Bool
  | .notSent _ => true
  | .noHead e receivedAny => e = .truncated && !receivedAny
  | .answered _ => false

def Trial.result (t : Trial) : Except AttemptFailure Answer :=
  match t.outcome with
  | .ok a => .ok a
  | .error (phase, e) => .error (.fromUpstream phase e)

/-- Connect, send, and read the head of the answer; one replay, on a socket known to be new, of
what failed on a pooled one. -/
def Upstream.connect (u : Upstream) : Except AttemptFailure Answer :=
  match u.first with
  | .failed e => .error (.fromUpstream .beforeAcceptance e)
  | .opened pooled trial =>
    if pooled && trial.replayable then
      match u.fresh with
      | .failed e => .error (.fromUpstream .beforeAcceptance e)
      | .opened _ trial => trial.result
    else trial.result

/-! ### Handing events over -/

/-- The state of a response being handed over. -/
structure Delivery (σ : Type) where
  state : σ
  sawOutput : Bool
  /-- The provider said the generation is over. -/
  ended : Bool
  collected : List CanonicalEvent
  /-- Every event the sink was given. -/
  delivered : List CanonicalEvent

namespace Delivery

def new {σ : Type} (state : σ) : Delivery σ := ⟨state, false, false, [], []⟩

/-- Keep what is read after the stream, up to a bound. -/
def collect {σ : Type} (d : Delivery σ) (e : CanonicalEvent) : Delivery σ :=
  if e.retainAfterStream && decide (d.collected.length < maxRetainedEvents) then
    { d with collected := d.collected ++ [e] }
  else d

end Delivery

section Reading

variable {σ : Type} (adapter : Adapter) (sink : Sink σ)

/-- Hand events to the sink one by one, until it closes. -/
def deliverEvents : List CanonicalEvent → Delivery σ → Except AttemptFailure Unit × Delivery σ
  | [], d => (.ok (), d)
  | e :: es, d =>
    let told := sink.deliver d.state e
    let d := { d with
      state := told.2
      sawOutput := d.sawOutput || e.isSemanticOutput
      ended := d.ended || e.isTerminal
      delivered := d.delivered ++ [e] }
    if told.1 then deliverEvents es (d.collect e) else (.error (.cancelled d.sawOutput), d)

/-- The verdict on a stream whose body has ended. -/
def streamEnd (ended sawOutput : Bool) : Except AttemptFailure Unit :=
  if ended then .ok ()
  else .error ⟨.accepted sawOutput, .protocolViolation, .new .upstreamInvalidResponse
    "the upstream stream ended before the response was complete", none, false⟩

/-- What one read of a stream leads to. -/
inductive Progress where
  | more (parser : SseParser)
  | done (result : Except AttemptFailure Unit)

/-- The events of one read, up to the sentinel of the provider. -/
def decodeEvents (parser : SseParser) : List SseEvent → Delivery σ → Progress × Delivery σ
  | [], d => (.more parser, d)
  | sse :: rest, d =>
    if adapter.isStreamTerminator sse.data then (.done (.ok ()), d)
    else
      match adapter.decodeStreamEvent sse.event sse.data with
      | .error c => (.done (.error (.fromClassification (.accepted d.sawOutput) c)), d)
      | .ok events =>
        match deliverEvents sink events d with
        | (.error f, d) => (.done (.error f), d)
        | (.ok (), d) => decodeEvents parser rest d

/-- One read of a stream. -/
def readChunk (bytes : List UInt8) (parser : SseParser) (d : Delivery σ) : Progress × Delivery σ :=
  if bytes = [] then (.more parser, d)
  else if (parser.push bytes).failed.isSome then
    (.done (.error (.malformed (.accepted d.sawOutput))), d)
  else
    match (parser.push bytes).drain with
    | (.error _, _) => (.done (.error (.malformed .afterOutput)), d)
    | (.ok events, parser) => decodeEvents adapter sink parser events d

/-- Read a streaming response, handing events over as they arrive. -/
def streamEvents : Body → SseParser → Delivery σ → Except AttemptFailure Unit × Delivery σ
  | .complete, _, d => (streamEnd d.ended d.sawOutput, d)
  | .failed e, _, d => (.error (.fromUpstream (.accepted d.sawOutput) e), d)
  | .idle rest, parser, d =>
    let told := sink.keepalive d.state
    if told.1 then streamEvents rest parser { d with state := told.2 }
    else (.error (.cancelled d.sawOutput), { d with state := told.2 })
  | .chunk bytes rest, parser, d =>
    match readChunk adapter sink bytes parser d with
    | (.more parser, d) => streamEvents rest parser d
    | (.done result, d) => (result, d)

/-- Read a whole body, and hand its events over. -/
def wholeBody (a : Answer) (d : Delivery σ) : Except AttemptFailure Unit × Delivery σ :=
  match a.body.readToEnd with
  | .error e => (.error (.fromUpstream (.accepted d.sawOutput) e), d)
  | .ok bytes =>
    match adapter.decodeResponse a.status bytes with
    | .error c => (.error (.fromClassification (.accepted d.sawOutput) c), d)
    | .ok events =>
      match deliverEvents sink events d with
      | (.error f, d) => (.error f, d)
      | (.ok (), d) =>
        (.ok (), { d with
          collected := (events.filter CanonicalEvent.retainAfterStream).take maxRetainedEvents })

/-! ### The exchange -/

/-- What one successful attempt produced. -/
structure AttemptSummary where
  usage : CanonicalUsage
  sawOutput : Bool
  nativeModel : Option String
  deriving Repr, DecidableEq

/-- The native model of a start event. -/
def startedModel : CanonicalEvent → Option String
  | .start _ nativeModel => nativeModel
  | _ => none

/-- The summary of an answer that was handed over whole.  Without a report of the provider the
estimate of the input stands. -/
def summarize (inputTokens : ℕ) (d : Delivery σ) : AttemptSummary :=
  let reported := adapter.usageFromEvents d.collected
  { usage := if reported.isReported then reported
      else { CanonicalUsage.estimated inputTokens 0 with outputTokens := reported.outputTokens }
    sawOutput := d.sawOutput
    nativeModel := d.collected.findSome? startedModel }

/-- How an exchange ended, the state it left the sink in, and what the sink was given. -/
structure Exchanged (σ : Type) where
  result : Except AttemptFailure AttemptSummary
  state : σ
  delivered : List CanonicalEvent

/-- The answer of an upstream that accepted the request, read and handed over. -/
def readAnswer (a : Answer) (state : σ) : Except AttemptFailure Unit × Delivery σ :=
  if a.eventStream then streamEvents adapter sink a.body (SseParser.new .default) (.new state)
  else wholeBody adapter sink a (.new state)

def exchange (inputTokens : ℕ) (u : Upstream) (state : σ) : Exchanged σ :=
  match u.preparation.failure with
  | some f => ⟨.error f, state, []⟩
  | none =>
    match u.connect with
    | .error f => ⟨.error f, state, []⟩
    | .ok a =>
      if a.isSuccess then
        match readAnswer adapter sink a state with
        | (.error f, d) => ⟨.error f, d.state, d.delivered⟩
        | (.ok (), d) => ⟨.ok (summarize adapter inputTokens d), d.state, d.delivered⟩
      -- An error status is a refusal: the provider read the request and declined it.
      else ⟨.error (.fromClassification .beforeAcceptance (a.refusal adapter)), state, []⟩

end Reading

end HypeLlm.Pipeline
