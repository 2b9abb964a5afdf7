import HypeLlm.Pipeline.Attempts

/-!
# Every round of a request

A request that could not be served is run again in two cases.  If a model it can use is to be
started it is parked, and each round of the wait is an ordinary pass; if everything is down it waits
with a backoff, and each round of that wait is a pass that may itself park.  Both conditions are read
off the outcome of the last pass.

A wait is bounded by the deadline, so the rounds it has time for are a list; what can keep a request
from waiting at all leaves no list.
-/

namespace HypeLlm.Pipeline

open HypeLlm.Routing HypeLlm.Sse
open HypeLlm.Health (UpstreamErrorClass)

/-! ### Whether to run again -/

/-- An activation is coming that has not started, and no limit of a key or a rate refused. -/
def queuedUnrefused (exclusions : List Exclusion) : Bool :=
  exclusions.any (fun e => e.reason = .activationQueued) &&
    !exclusions.any (fun e => e.reason = .budgetExceeded)

/-- Whether a failed request should park for a cold model. -/
def awaitsActivation (o : Outcome) : Bool :=
  !o.isSuccess && !o.sawOutput && queuedUnrefused o.exclusions

def unreachable : ExclusionReason → Bool
  | .circuitOpen | .probeUnreachable | .unhealthy | .fleetStateStale | .fleetAgentUnavailable => true
  | _ => false

/-- A failure that time cures: an unreachable machine, or one still loading. -/
def AttemptOutcome.isOutage : AttemptOutcome → Bool
  | .failedBeforeAcceptance .connection | .failedBeforeAcceptance .timeout
  | .failedBeforeAcceptance .serverError => true
  | _ => false

/-- An error the caller must hear at once. -/
def ErrorCode.isFinal : ErrorCode → Bool
  | .tokenBudgetExhausted | .internalFault | .forbidden | .rateLimited | .invalidRequest
  | .unauthenticated => true
  | _ => false

/-- Whether a failed outcome is an outage rather than a refusal. -/
def awaitsRecovery (o : Outcome) : Bool :=
  !(o.isSuccess || o.sawOutput || o.error.any fun e => ErrorCode.isFinal e.code) &&
    o.attempts.all (fun a => a.outcome.isOutage) &&
    (o.exclusions.any (fun e => unreachable e.reason) || !o.attempts.isEmpty) &&
    !o.exclusions.any fun e => e.reason = .capacityExhausted || e.reason = .budgetExceeded

/-- Neither wait runs a request again that has reported output. -/
theorem awaits_sawOutput {o : Outcome} (h : awaitsActivation o = true ∨ awaitsRecovery o = true) :
    o.sawOutput = false := by
  rcases h with h | h
  · simp only [awaitsActivation, Bool.and_eq_true, Bool.not_eq_true'] at h
    exact h.1.2
  · simp only [awaitsRecovery, Bool.and_eq_true, Bool.not_eq_true', Bool.or_eq_false_iff] at h
    exact h.1.1.1.1.2

/-! ### The rounds -/

/-- What a request runs in: its first pass, the rounds it may park for and the rounds it may wait
for a recovery, each with the rounds it may park for in turn.  A wait that is refused, or has
nothing to wait for, is absent. -/
structure World where
  first : Round
  parking : Option (List Round)
  /-- The longest recovery wait of the alias is not zero, and there is a place among the waiters. -/
  recovery : Option (List (Round × Option (List Round)))

/-- Where a request stands between rounds: the last outcome, the sink and everything done. -/
structure Run (σ : Type) where
  outcome : Outcome
  state : σ
  log : List (Action σ)

section Rounds

variable {σ : Type} (s : Setting σ)

/-- One more pass. -/
def pass (round : Round) (state : σ) (log : List (Action σ)) : Run σ :=
  let done := executeOnce s round state
  ⟨done.1, done.2.state, log ++ done.2.log⟩

/-- The rounds of a parked request: each after a keepalive, until nothing is left to wait for. -/
def parkedRounds : List Round → Run σ → Run σ
  | [], r => r
  | round :: rounds, r =>
    let told := s.sink.keepalive r.state
    if told.1 then
      let r := pass s round told.2 r.log
      if awaitsActivation r.outcome then parkedRounds rounds r else r
    else { r with state := told.2 }

/-- Park, if there is a place to. -/
def awaitActivation (parking : Option (List Round)) (r : Run σ) : Run σ :=
  match parking with
  | none => r
  | some rounds => parkedRounds s rounds r

/-- Park where the outcome asks for it. -/
def parkIfQueued (parking : Option (List Round)) (r : Run σ) : Run σ :=
  if awaitsActivation r.outcome then awaitActivation s parking r else r

/-- The rounds of a request that waits for a machine to come back. -/
def recoveryRounds : List (Round × Option (List Round)) → Run σ → Run σ
  | [], r => r
  | (round, parking) :: rounds, r =>
    let told := s.sink.keepalive r.state
    if told.1 then
      let r := parkIfQueued s parking (pass s round told.2 r.log)
      if awaitsRecovery r.outcome then recoveryRounds rounds r else r
    else { r with state := told.2 }

def awaitRecovery (recovery : Option (List (Round × Option (List Round)))) (r : Run σ) : Run σ :=
  match recovery with
  | none => r
  | some rounds => if awaitsRecovery r.outcome then recoveryRounds s rounds r else r

/-- Execute a request end to end. -/
def executeForKey (w : World) (state : σ) : Run σ :=
  awaitRecovery s w.recovery (parkIfQueued s w.parking (pass s w.first state []))

/-- **The rule for whole requests.**  What holds after every pass, started from nothing done or from
a run that asks for another round, holds at the end. -/
theorem executeForKey_rule {P : Run σ → Prop} (w : World) (state : σ)
    (hfirst : ∀ round state, P (pass s round state []))
    (hstate : ∀ (r : Run σ) (state : σ), P r → P { r with state := state })
    (hagain : ∀ round state (r : Run σ), P r →
      (awaitsActivation r.outcome = true ∨ awaitsRecovery r.outcome = true) →
        P (pass s round state r.log)) :
    P (executeForKey s w state) := by
  have hparked : ∀ rounds (r : Run σ), P r → awaitsActivation r.outcome = true →
      P (parkedRounds s rounds r) := by
    intro rounds
    induction rounds with
    | nil => exact fun r hr _ => hr
    | cons round rounds ih =>
      intro r hr hawaits
      simp only [parkedRounds]
      split
      · have hpass := hagain round (s.sink.keepalive r.state).2 r hr (.inl hawaits)
        split
        case isTrue hqueued => exact ih _ hpass hqueued
        case isFalse => exact hpass
      · exact hstate r _ hr
  have hpark : ∀ parking (r : Run σ), P r → P (parkIfQueued s parking r) := by
    intro parking r hr
    unfold parkIfQueued
    split
    case isTrue hqueued =>
      cases parking with
      | none => exact hr
      | some rounds => exact hparked rounds r hr hqueued
    case isFalse => exact hr
  have hrecovered : ∀ rounds (r : Run σ), P r → awaitsRecovery r.outcome = true →
      P (recoveryRounds s rounds r) := by
    intro rounds
    induction rounds with
    | nil => exact fun r hr _ => hr
    | cons round rounds ih =>
      intro r hr hawaits
      obtain ⟨round, parking⟩ := round
      simp only [recoveryRounds]
      split
      · have hpass := hpark parking _ (hagain round (s.sink.keepalive r.state).2 r hr (.inr hawaits))
        split
        case isTrue hdown => exact ih _ hpass hdown
        case isFalse => exact hpass
      · exact hstate r _ hr
  have hstart := hpark w.parking _ (hfirst w.first state)
  unfold executeForKey awaitRecovery
  split
  · exact hstart
  · split
    case isTrue hdown => exact hrecovered _ _ hstart hdown
    case isFalse => exact hstart

end Rounds

/-! ### A small deployment at work

The two targets of the small deployment, behind a provider with a credential; one of them is run by a
machine of the fleet.  Concrete statements below are about requests to it. -/

namespace Sample

open HypeLlm.Routing.Sample

def deployment : PolicySnapshot :=
  { Routing.Sample.snapshot with
    providers := (∅ : Std.TreeMap ProviderId Provider).insert "local"
      ⟨"local", .llamaCpp, some "spark-key", true⟩
    fleetPlacement := (∅ : Std.TreeMap TargetId HostId).insert "small" "spark"
    fleetAccessDefault := .allow }

def residency (target : TargetId) : ResidencyClass :=
  if target = "small" then .resident else .unmanaged

def live : LiveState := { LiveState.ideal with residencyClass := residency }

/-- A chunk of a completion that says hello. -/
def hello : List Char := "\x7b\"choices\":[\x7b\"delta\":\x7b\"content\":\"Hi\"\x7d\x7d]\x7d".toList

/-- Chat completions, as far as the answers below go. -/
def completions : Adapter where
  classifyError status _ :=
    ⟨if status = 401 then .authentication else .serverError, none,
      Capped.new (if status = 401 then "the router's provider credential was not accepted"
        else "the provider returned a server error").toList 200, none⟩
  decodeResponse _ _ := .error ⟨.protocolViolation, none,
    Capped.new "the provider sent a malformed response".toList 200, none⟩
  decodeStreamEvent _ data := .ok (if data = hello then [.textDelta "Hi"] else [])
  isStreamTerminator data := data = doneMarker
  usageFromEvents _ := .estimated 0 0

/-- A client that stays. -/
def client : Sink Unit := ⟨fun _ _ => (true, ()), fun _ => (true, ()), id⟩

def answered (status : ℕ) (body : Body) : Upstream :=
  ⟨.ready, .opened false (.answered ⟨status, true, none, body⟩), .failed .io⟩

def refused : Upstream := answered 401 .complete

/-- An answer that ends as it should. -/
def whole : Upstream := answered 200
  (.chunk (Utf8.encode (encodeData hello)) (.chunk (Utf8.encode encodeDone) .complete))

/-- An answer whose connection breaks after the first words. -/
def brokenOff : Upstream := answered 200 (.chunk (Utf8.encode (encodeData hello)) (.failed .io))

/-- An accepted request whose connection breaks before the first word. -/
def brokenEarly : Upstream := answered 200 (.failed .io)

/-- Everything is granted. -/
def turn (entry : Entry) (current superseded : Upstream) : Turn where
  expired := false
  permits := true
  bytes := .ok ()
  reserves := .ok ()
  funds := .ok ()
  awaited := .ready
  activation := ⟨true, true, true, none, .ready⟩
  entry := entry
  current := current
  superseded := superseded

/-- A request of the small deployment, with a key. -/
def setting : Setting Unit where
  snapshot := deployment
  adapterFor _ := completions
  sink := client
  request := ⟨Routing.Sample.request, none, some "key"⟩
  maxAttempts := 3

/-- A pass whose first candidate meets `first`, and the others `next`. -/
def round (first next : Turn) : Round := ⟨caller, live, fun n => if n = 0 then first else next⟩

/-- The machine of the first candidate is being stopped as idle. -/
def stopping : Turn := turn .stopping refused refused

end Sample

end HypeLlm.Pipeline
