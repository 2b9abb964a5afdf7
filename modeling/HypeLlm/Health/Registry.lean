import HypeLlm.Lib.Runs
import HypeLlm.Lib.Maps
import HypeLlm.Health.Breaker
import HypeLlm.Routing.Policy

/-!
# The health registry, and the live state routing consults

Health is kept for each target and operation class: a circuit breaker, a smoothed time to first
byte and the number of requests in flight.  Beside it, for each target, are what operators set
(quarantine, capacity, administrative state) and what the liveness probe last concluded.  Routing
reads all of it through questions about a target alone, so the registry answers for the worst, the
slowest or the sum of the target's operation classes.

A handle to the health of a class is shared, and a class is never taken out of the registry, so
every call on a handle is an operation on the class in the registry.  Permits belong to the breaker
that issued them and are kept with it.

Times are arbitrary: nothing assumes that they do not go back.
-/

namespace HypeLlm.Health

open HypeLlm.Words HypeLlm.Runs HypeLlm.Routing
open Std (TreeMap TransCmp LawfulEqCmp)

/-- What went wrong with an upstream request. -/
inductive UpstreamErrorClass where
  | connection
  | timeout
  | authentication
  | rateLimited
  | invalidRequest
  | contextOverflow
  | unsupportedFeature
  | serverError
  | protocolViolation
  | contentFilter
  deriving Repr, DecidableEq

/-- Whether the class counts against target health. -/
def UpstreamErrorClass.affectsHealth : UpstreamErrorClass → Bool
  | .connection | .timeout | .serverError | .protocolViolation => true
  | _ => false

/-! ### A smoothed average -/

/-- A fixed-point exponential average. -/
structure Ewma where
  scaled : ℕ
  alphaNum : ℕ
  initialised : Bool
  deriving Repr, DecidableEq

namespace Ewma

def scale : ℕ := 1024

def new (alphaNum : ℕ) : Ewma := ⟨0, min (max alphaNum 1) scale, false⟩

/-- A tenth of the weight on each new sample. -/
def smooth : Ewma := new 102

def observe (e : Ewma) (sample : ℕ) : Ewma :=
  let scaledSample := satMul u64Max sample scale
  if e.initialised then
    let weighted := satAdd u64Max (satMul u64Max e.scaled (scale - e.alphaNum))
      (satMul u64Max scaledSample e.alphaNum)
    { e with scaled := weighted / scale }
  else { e with initialised := true, scaled := scaledSample }

def value (e : Ewma) : Option ℕ := if e.initialised then some (e.scaled / scale) else none

end Ewma

/-! ### Restoration after a recovery -/

def weightRestorationMillis : ℕ := 30000

/-- How much of a preference is restored, in thousandths; never less than a tenth. -/
def rampPermille (sinceMs nowMs : ℕ) : ℕ :=
  let elapsed := nowMs - sinceMs
  if weightRestorationMillis ≤ elapsed then 1000
  else 100 + elapsed * 900 / weightRestorationMillis

namespace BreakerInner

/-- The state a caller at `nowMs` is told: a cooldown that has passed is applied first. -/
def stateAt (b : BreakerInner) (nowMs : ℕ) : BreakerState := (b.transitionIfCooled nowMs).state

def restorationPermille (b : BreakerInner) (nowMs : ℕ) : ℕ :=
  b.closedAtMs.elim 1000 fun closedAt => rampPermille closedAt nowMs

def failurePercent (b : BreakerInner) (nowMs : ℕ) : ℕ :=
  let (ok, fail) := (b.counts.totals nowMs).1
  let total := satAdd u32Max ok fail
  if total = 0 then 0
  else
    let percent := satMul u64Max fail 100 / total
    if percent ≤ u32Max then percent else 100

end BreakerInner

/-! ### The liveness probe -/

def probeFailuresToExclude : ℕ := 2

def probeSuccessesToRestore : ℕ := 2

inductive ProbeState where
  | reachable
  | unreachable
  deriving Repr, DecidableEq

/-- The liveness probe's record for one target.  It reads and moves no breaker. -/
structure ProbeStatus where
  state : ProbeState
  consecutiveFailures : ℕ
  consecutiveSuccesses : ℕ
  lastOk : Bool
  lastProbeWallMs : ℕ
  restoredAtMs : Option ℕ
  deriving Repr, DecidableEq

namespace ProbeStatus

def fresh : ProbeStatus := ⟨.reachable, 0, 0, true, 0, none⟩

/-- Fold one outcome in. -/
def observe (p : ProbeStatus) (ok : Bool) (nowMs wallMs : ℕ) : ProbeStatus :=
  let p := { p with lastOk := ok, lastProbeWallMs := wallMs }
  if ok then
    let p := { p with
      consecutiveFailures := 0
      consecutiveSuccesses := satAdd u32Max p.consecutiveSuccesses 1 }
    if p.state = .unreachable ∧ probeSuccessesToRestore ≤ p.consecutiveSuccesses then
      { p with state := .reachable, restoredAtMs := some nowMs }
    else p
  else
    let p := { p with
      consecutiveSuccesses := 0
      consecutiveFailures := satAdd u32Max p.consecutiveFailures 1 }
    if p.state = .reachable ∧ probeFailuresToExclude ≤ p.consecutiveFailures then
      { p with state := .unreachable, restoredAtMs := none }
    else p

end ProbeStatus

/-! ### Health of one operation class of a target -/

@[ext] structure HealthKey where
  target : TargetId
  operation : Operation
  deriving Repr, DecidableEq

namespace HealthKey

/-- The derived order of the keys. -/
def order : HealthKey → HealthKey → Ordering :=
  compareLex (compareOn HealthKey.target) (compareOn fun key => key.operation.rank)

instance : TransCmp order := inferInstanceAs (TransCmp (compareLex _ _))

instance : LawfulEqCmp order where
  eq_of_compare {key key'} h := by
    have hboth : compare key.target key'.target = .eq ∧
        compare key.operation.rank key'.operation.rank = .eq := by
      simpa [order, compareLex, compareOn, Ordering.then_eq_eq] using h
    have hoperation := Operation.rank_injective (LawfulEqCmp.eq_of_compare hboth.2)
    exact HealthKey.ext (LawfulEqCmp.eq_of_compare hboth.1) hoperation

end HealthKey

structure TargetHealth where
  breaker : BreakerInner
  /-- Every permit the breaker has issued. -/
  permits : List BreakerPermit
  firstByteEwma : Ewma
  inFlight : ℕ
  totalRequests : ℕ
  totalFailures : ℕ
  deriving Repr, DecidableEq

/-- A call on the health of one class.  `look` and `tally` are reads that move the breaker's
cooldown and the window along. -/
inductive HealthOp where
  | recordSuccess (firstByteMs nowMs : ℕ)
  | recordFailure (failure : UpstreamErrorClass) (nowMs : ℕ)
  | admitNow (nowMs : ℕ)
  | finishSuccess (permit firstByteMs nowMs : ℕ)
  | finishFailure (permit : ℕ) (failure : UpstreamErrorClass) (nowMs : ℕ)
  | release (permit nowMs : ℕ)
  | drop (permit : ℕ)
  | enter
  | exit
  | look (nowMs : ℕ)
  | tally (nowMs : ℕ)
  | forceOpen (nowMs durationMs : ℕ)
  | forceClose (nowMs : ℕ)
  deriving Repr, DecidableEq

namespace TargetHealth

def new (config : BreakerConfig) (nowMs : ℕ) : TargetHealth :=
  ⟨BreakerInner.new config nowMs, [], Ewma.smooth, 0, 0, 0⟩

/-- One more request that ended. -/
def counted (h : TargetHealth) : TargetHealth :=
  { h with totalRequests := wrapAdd 64 h.totalRequests 1 }

/-- One more failure that says something about the target. -/
def failed (h : TargetHealth) : TargetHealth :=
  { h with totalFailures := wrapAdd 64 h.totalFailures 1 }

def recordSuccess (config : BreakerConfig) (h : TargetHealth) (firstByteMs nowMs : ℕ) :
    TargetHealth :=
  { h.counted with
    firstByteEwma := h.firstByteEwma.observe firstByteMs
    breaker := h.breaker.record config true nowMs }

def recordFailure (config : BreakerConfig) (h : TargetHealth) (failure : UpstreamErrorClass)
    (nowMs : ℕ) : TargetHealth :=
  if failure.affectsHealth then
    { h.counted.failed with breaker := h.breaker.record config false nowMs }
  else h.counted

/-- The unfinished permit in slot `id`: finishing consumes a permit. -/
def livePermit (h : TargetHealth) (id : ℕ) : Option BreakerPermit :=
  h.permits[id]?.filter fun p => !p.finished

/-- Permit `id` finished, leaving `breaker`. -/
def finish (h : TargetHealth) (id : ℕ) (p : BreakerPermit) (breaker : BreakerInner) : TargetHealth :=
  { h with breaker := breaker, permits := h.permits.set id { p with finished := true } }

def finishSuccess (config : BreakerConfig) (h : TargetHealth) (id firstByteMs nowMs : ℕ) :
    TargetHealth :=
  match h.livePermit id with
  | none => h
  | some p =>
    { h.counted.finish id p (p.record config true nowMs h.breaker) with
      firstByteEwma := h.firstByteEwma.observe firstByteMs }

def finishFailure (config : BreakerConfig) (h : TargetHealth) (id : ℕ)
    (failure : UpstreamErrorClass) (nowMs : ℕ) : TargetHealth :=
  match h.livePermit id with
  | none => h
  | some p =>
    if failure.affectsHealth then
      h.counted.failed.finish id p (p.record config false nowMs h.breaker)
    else h.counted.finish id p (p.release config nowMs h.breaker)

def apply (config : BreakerConfig) (h : TargetHealth) : HealthOp → TargetHealth
  | .recordSuccess firstByteMs nowMs => h.recordSuccess config firstByteMs nowMs
  | .recordFailure failure nowMs => h.recordFailure config failure nowMs
  | .admitNow nowMs =>
    { h with
      breaker := (h.breaker.admitNow config nowMs).2
      permits := h.permits ++ (h.breaker.admitNow config nowMs).1.toList }
  | .finishSuccess id firstByteMs nowMs => h.finishSuccess config id firstByteMs nowMs
  | .finishFailure id failure nowMs => h.finishFailure config id failure nowMs
  | .release id nowMs =>
    match h.livePermit id with
    | none => h
    | some p => h.finish id p (p.release config nowMs h.breaker)
  | .drop id =>
    match h.livePermit id with
    | none => h
    | some p => h.finish id p (p.drop config h.breaker)
  | .enter => { h with inFlight := wrapAdd 32 h.inFlight 1 }
  | .exit => { h with inFlight := h.inFlight - 1 }
  | .look nowMs => { h with breaker := h.breaker.transitionIfCooled nowMs }
  | .tally nowMs =>
    { h with breaker := { h.breaker with counts := (h.breaker.counts.totals nowMs).2 } }
  | .forceOpen nowMs durationMs => { h with breaker := h.breaker.forceOpen nowMs durationMs }
  | .forceClose nowMs => { h with breaker := h.breaker.forceClose config nowMs }

end TargetHealth

/-! ### The registry -/

structure HealthRegistry where
  config : BreakerConfig
  entries : TreeMap HealthKey TargetHealth HealthKey.order
  /-- Quarantined targets, with the wall-clock time the quarantine ends. -/
  quarantined : TreeMap TargetId ℕ
  capacities : TreeMap TargetId ℕ
  queueAllowance : TreeMap TargetId ℕ
  adminStates : TreeMap TargetId AdminState
  probes : TreeMap TargetId ProbeStatus

namespace HealthRegistry

def new (config : BreakerConfig) : HealthRegistry := ⟨config, ∅, ∅, ∅, ∅, ∅, ∅⟩

/-- The health of a class, created at `nowMs` when it is first asked for. -/
def entry (r : HealthRegistry) (key : HealthKey) (nowMs : ℕ) : TargetHealth :=
  r.entries[key]?.getD (TargetHealth.new r.config nowMs)

variable (r : HealthRegistry) (target : TargetId)

def setAdminState : Option AdminState → HealthRegistry
  | none | some .enabled => { r with adminStates := r.adminStates.erase target }
  | some other => { r with adminStates := r.adminStates.insert target other }

def isQuarantined (wallMs : ℕ) : Bool := r.quarantined[target]?.any fun endsMs => wallMs < endsMs

/-- The operator override; a live quarantine outranks any other. -/
def adminState (wallMs : ℕ) : Option AdminState :=
  if r.isQuarantined target wallMs then some .quarantined else r.adminStates[target]?

/-- Fold one outcome of the liveness probe in. -/
def recordProbe (ok : Bool) (nowMs wallMs : ℕ) : HealthRegistry :=
  let status := r.probes[target]?.getD ProbeStatus.fresh
  { r with probes := r.probes.insert target (status.observe ok nowMs wallMs) }

/-- Forget the probe record of every target that is not probed. -/
def retainProbes (probed : List TargetId) : HealthRegistry :=
  { r with probes := r.probes.filter fun target _ => probed.contains target }

def probeDown : Bool := r.probes[target]?.any fun status => status.state = .unreachable

/-- The target's operation classes. -/
def classes : List TargetHealth :=
  (r.entries.toList.filter fun entry => entry.1.target = target).map Prod.snd

/-- Whether any operation class of the target has an open circuit. -/
def anyCircuitOpen (nowMs : ℕ) : Bool :=
  (r.classes target).any fun h => h.breaker.stateAt nowMs = .open

def worstFailurePercent (nowMs : ℕ) : ℕ :=
  ((r.classes target).map fun h => h.breaker.failurePercent nowMs).max?.getD 0

def probeRestorationPermille (nowMs : ℕ) : ℕ :=
  (r.probes[target]?.bind (·.restoredAtMs)).elim 1000 fun since => rampPermille since nowMs

/-- The least restored operation class, and the probe. -/
def worstRestorationPermille (nowMs : ℕ) : ℕ :=
  min (((r.classes target).map fun h => h.breaker.restorationPermille nowMs).min?.getD 1000)
    (r.probeRestorationPermille target nowMs)

def slowestFirstByte : Option ℕ :=
  ((r.classes target).filterMap fun h => h.firstByteEwma.value).max?

def totalInFlight : ℕ := ((r.classes target).map (·.inFlight)).sum

/-! ### What routing is told -/

def circuitOpen (nowMs wallMs : ℕ) : Bool :=
  r.isQuarantined target wallMs || r.anyCircuitOpen target nowMs

def healthPenalty (nowMs : ℕ) : ℤ :=
  let observed : ℤ := -(ScoreTerms.clamp (r.worstFailurePercent target nowMs * 500) 0 50000)
  let rampPenalty : ℤ := -((1000 - r.worstRestorationPermille target nowMs) * 25 : ℕ)
  ScoreTerms.clamp (observed + rampPenalty) (-50000) 0

def latencyPenalty : ℤ :=
  match r.slowestFirstByte target with
  | none => 0
  | some ms =>
    if ms ≤ 100 then 0
    else if ms ≤ 500 then -5000
    else if ms ≤ 1000 then -15000
    else if ms ≤ 5000 then -30000
    else -50000

def queuePenalty : ℤ :=
  match r.capacities[target]?.filter fun cap => 0 < cap with
  | none => -(ScoreTerms.clamp (r.totalInFlight target * 100) 0 50000)
  | some cap => -(ScoreTerms.clamp ((r.totalInFlight target * 100 / cap : ℕ) * 500) 0 50000)

def hasCapacity : Bool :=
  match r.capacities[target]? with
  | none | some 0 => true
  | some cap => r.totalInFlight target < satAdd u32Max cap (r.queueAllowance[target]?.getD 0)

/-- The registry as the live state of routing, read at one moment. -/
def liveState (nowMs wallMs : ℕ) : LiveState where
  circuitOpen target := r.circuitOpen target nowMs wallMs
  healthPenalty target := r.healthPenalty target nowMs
  latencyPenalty target := r.latencyPenalty target
  queuePenalty target := r.queuePenalty target
  affinityBonus _ := 0
  hasCapacity target := r.hasCapacity target
  adminOverride target := r.adminState target wallMs
  probeUnreachable target := r.probeDown target
  failurePercent target := r.worstFailurePercent target nowMs
  residencyClass _ := .unmanaged
  activationEtaMs _ := 0

/-! ### Runs -/

inductive Event where
  | health (key : HealthKey) (nowMs : ℕ) (op : HealthOp)
  | setCapacity (target : TargetId) (maxConcurrency : ℕ)
  | setQueueAllowance (target : TargetId) (maxQueued : ℕ)
  | setAdminState (target : TargetId) (state : Option AdminState)
  | quarantine (target : TargetId) (untilWallMs : ℕ)
  | releaseQuarantine (target : TargetId)
  | recordProbe (target : TargetId) (ok : Bool) (nowMs wallMs : ℕ)
  | retainProbes (probed : List TargetId)

def step (r : HealthRegistry) : Event → HealthRegistry
  | .health key nowMs op =>
    { r with entries := r.entries.insert key ((r.entry key nowMs).apply r.config op) }
  | .setCapacity target maxConcurrency =>
    { r with capacities := r.capacities.insert target maxConcurrency }
  | .setQueueAllowance target maxQueued =>
    { r with queueAllowance := r.queueAllowance.insert target maxQueued }
  | .setAdminState target state => r.setAdminState target state
  | .quarantine target untilWallMs =>
    { r with quarantined := r.quarantined.insert target untilWallMs }
  | .releaseQuarantine target => { r with quarantined := r.quarantined.erase target }
  | .recordProbe target ok nowMs wallMs => r.recordProbe target ok nowMs wallMs
  | .retainProbes probed => r.retainProbes probed

/-- The registry after a run. -/
def after (config : BreakerConfig) (es : List Event) : HealthRegistry := run step (new config) es

end HealthRegistry

end HypeLlm.Health
