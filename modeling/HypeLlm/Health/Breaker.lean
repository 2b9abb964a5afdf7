import HypeLlm.Lib.Words

/-!
# The circuit breaker

A breaker is closed, open or half-open.  It opens when failures pass a threshold over a rolling
window, cools for a bounded, doubling time, and lets a limited number of probes through while it
is half-open.  A request asks for a permit and finishes it once: with an outcome, neutrally, or by
dropping it, which releases it neutrally with no clock to read.

A permit remembers the epoch it was issued in.  The epoch moves on every change of state and when
the probe lease reclaims the slots, so that a late outcome is recognised as evidence about a
breaker that no longer exists.  It is a 64-bit counter that goes round.

Times are milliseconds and arbitrary: nothing here assumes that they do not go back.
-/

namespace HypeLlm.Health

open HypeLlm.Words

structure BreakerConfig where
  minSamples : ℕ
  failureThresholdPercent : ℕ
  windowMillis : ℕ
  baseCooldownMillis : ℕ
  maxCooldownMillis : ℕ
  halfOpenProbes : ℕ
  halfOpenSuccessesToClose : ℕ
  halfOpenProbes_le : halfOpenProbes ≤ u32Max
  halfOpenSuccessesToClose_le : halfOpenSuccessesToClose ≤ u32Max

/-- The defaults for a remote provider. -/
def BreakerConfig.default : BreakerConfig where
  minSamples := 20
  failureThresholdPercent := 50
  windowMillis := 30000
  baseCooldownMillis := 1000
  maxCooldownMillis := 60000
  halfOpenProbes := 1
  halfOpenSuccessesToClose := 3
  halfOpenProbes_le := by decide
  halfOpenSuccessesToClose_le := by decide

inductive BreakerState where
  | closed
  | open
  | halfOpen
  deriving Repr, DecidableEq

/-- How long a half-open probe may stay outstanding before its slot is reclaimed. -/
def probeLeaseMillis : ℕ := 300000

/-- A rolling window of successes and failures: two buckets that alternate. -/
structure RollingCounts where
  windowMillis : ℕ
  currentStartMs : ℕ
  currentSuccess : ℕ
  currentFailure : ℕ
  previousSuccess : ℕ
  previousFailure : ℕ
  deriving Repr, DecidableEq

namespace RollingCounts

def new (windowMillis nowMs : ℕ) : RollingCounts := ⟨windowMillis, nowMs, 0, 0, 0, 0⟩

def rotateIfNeeded (c : RollingCounts) (nowMs : ℕ) : RollingCounts :=
  let elapsed := nowMs - c.currentStartMs
  if elapsed < c.windowMillis then c
  else
    -- More than two windows of silence: everything is stale.
    let stale := satMul u64Max c.windowMillis 2 ≤ elapsed
    { c with
      previousSuccess := if stale then 0 else c.currentSuccess
      previousFailure := if stale then 0 else c.currentFailure
      currentSuccess := 0
      currentFailure := 0
      currentStartMs := nowMs }

def record (c : RollingCounts) (success : Bool) (nowMs : ℕ) : RollingCounts :=
  let c := c.rotateIfNeeded nowMs
  if success then { c with currentSuccess := satAdd u32Max c.currentSuccess 1 }
  else { c with currentFailure := satAdd u32Max c.currentFailure 1 }

def totals (c : RollingCounts) (nowMs : ℕ) : (ℕ × ℕ) × RollingCounts :=
  let c := c.rotateIfNeeded nowMs
  ((satAdd u32Max c.currentSuccess c.previousSuccess,
    satAdd u32Max c.currentFailure c.previousFailure), c)

end RollingCounts

structure BreakerInner where
  state : BreakerState
  counts : RollingCounts
  /-- When the current open period ends. -/
  openUntilMs : ℕ
  consecutiveOpens : ℕ
  /-- Probes in flight while half-open. -/
  probesInFlight : ℕ
  lastProbeAdmittedMs : ℕ
  epoch : ℕ
  /-- Probe successes while half-open. -/
  probeSuccesses : ℕ
  closedAtMs : Option ℕ
  deriving Repr, DecidableEq

/-- Permission to send one request past a breaker. -/
structure BreakerPermit where
  probe : Bool
  epoch : ℕ
  finished : Bool
  deriving Repr, DecidableEq

namespace BreakerInner

/-- A closed breaker. -/
def new (config : BreakerConfig) (nowMs : ℕ) : BreakerInner where
  state := .closed
  counts := RollingCounts.new config.windowMillis nowMs
  openUntilMs := 0
  consecutiveOpens := 0
  probesInFlight := 0
  lastProbeAdmittedMs := 0
  epoch := 0
  probeSuccesses := 0
  closedAtMs := none

/-- The next epoch. -/
def nextEpoch (b : BreakerInner) : ℕ := wrapAdd 64 b.epoch 1

def transitionIfCooled (b : BreakerInner) (nowMs : ℕ) : BreakerInner :=
  if b.state = .open ∧ b.openUntilMs ≤ nowMs then
    { b with state := .halfOpen, probesInFlight := 0, probeSuccesses := 0, epoch := b.nextEpoch }
  else b

/-- Open with a doubling, bounded cooldown. -/
def opened (config : BreakerConfig) (b : BreakerInner) (nowMs : ℕ) : BreakerInner :=
  let consecutiveOpens := satAdd u32Max b.consecutiveOpens 1
  let shift := min (consecutiveOpens - 1) 16
  let cooldown := min (satMul u64Max config.baseCooldownMillis (2 ^ shift))
    config.maxCooldownMillis
  { b with
    state := .open
    epoch := b.nextEpoch
    probesInFlight := 0
    probeSuccesses := 0
    consecutiveOpens := consecutiveOpens
    openUntilMs := satAdd u64Max nowMs cooldown }

def openIfOverThreshold (config : BreakerConfig) (b : BreakerInner) (nowMs : ℕ) : BreakerInner :=
  let ((ok, fail), counts) := b.counts.totals nowMs
  let b := { b with counts := counts }
  let total := satAdd u32Max ok fail
  if config.minSamples ≤ total then
    -- A division by zero gives zero here, as `checked_div` with its default does.
    let percent := satMul u64Max fail 100 / total
    if config.failureThresholdPercent ≤ percent then b.opened config nowMs else b
  else b

/-- The lease fallback: every outstanding probe is older than any request could run, so the slots
are reclaimed and their late results belong to an epoch that has passed. -/
def reclaimIfLeaseOver (config : BreakerConfig) (b : BreakerInner) (nowMs : ℕ) : BreakerInner :=
  if config.halfOpenProbes ≤ b.probesInFlight ∧ 0 < b.probesInFlight ∧
      probeLeaseMillis ≤ nowMs - b.lastProbeAdmittedMs then
    { b with probesInFlight := 0, probeSuccesses := 0, epoch := b.nextEpoch }
  else b

/-- Ask to send a request right now; `none` is a refusal. -/
def admitNow (config : BreakerConfig) (b : BreakerInner) (nowMs : ℕ) :
    Option BreakerPermit × BreakerInner :=
  let b := b.transitionIfCooled nowMs
  match b.state with
  | .closed => (some ⟨false, b.epoch, false⟩, b)
  | .open => (none, b)
  | .halfOpen =>
    let b := b.reclaimIfLeaseOver config nowMs
    if b.probesInFlight < config.halfOpenProbes then
      (some ⟨true, b.epoch, false⟩, { b with
        probesInFlight := satAdd u32Max b.probesInFlight 1
        lastProbeAdmittedMs := nowMs })
    else (none, b)

/-- Record an outcome that was not admitted through a permit. -/
def record (config : BreakerConfig) (b : BreakerInner) (success : Bool) (nowMs : ℕ) :
    BreakerInner :=
  let b := b.transitionIfCooled nowMs
  let b := { b with counts := b.counts.record success nowMs }
  if b.state = .closed ∧ success = false then b.openIfOverThreshold config nowMs else b

/-- A success of a probe: enough of them close the breaker and clear the window. -/
def probeSucceeded (config : BreakerConfig) (b : BreakerInner) (nowMs : ℕ) : BreakerInner :=
  let b := { b with probeSuccesses := satAdd u32Max b.probeSuccesses 1 }
  if config.halfOpenSuccessesToClose ≤ b.probeSuccesses then
    { b with
      state := .closed
      epoch := b.nextEpoch
      consecutiveOpens := 0
      probeSuccesses := 0
      closedAtMs := some nowMs
      counts := RollingCounts.new config.windowMillis nowMs }
  else b

/-- Finish a permit, with an outcome or with none. -/
def finishPermit (config : BreakerConfig) (b : BreakerInner) (probe : Bool) (epoch : ℕ)
    (outcome : Option Bool) (nowMs : ℕ) : BreakerInner :=
  let b := b.transitionIfCooled nowMs
  if probe then
    -- A probe's slot is returned only to the epoch that issued it.
    if epoch ≠ b.epoch ∨ b.state ≠ .halfOpen then b
    else
      let b := { b with probesInFlight := b.probesInFlight - 1 }
      match outcome with
      | none => b
      | some success =>
        let b := { b with counts := b.counts.record success nowMs }
        if success then b.probeSucceeded config nowMs else b.opened config nowMs
  else
    match outcome with
    | none => b
    | some success =>
      if epoch ≠ b.epoch ∨ b.state ≠ .closed then b
      else
        let b := { b with counts := b.counts.record success nowMs }
        if success then b else b.openIfOverThreshold config nowMs

/-- Force the breaker open, for operator quarantine. -/
def forceOpen (b : BreakerInner) (nowMs durationMs : ℕ) : BreakerInner :=
  { b with
    state := .open
    epoch := b.nextEpoch
    openUntilMs := satAdd u64Max nowMs durationMs
    probesInFlight := 0
    probeSuccesses := 0 }

/-- Force the breaker closed and clear its history. -/
def forceClose (config : BreakerConfig) (b : BreakerInner) (nowMs : ℕ) : BreakerInner :=
  { b with
    state := .closed
    epoch := b.nextEpoch
    consecutiveOpens := 0
    probesInFlight := 0
    probeSuccesses := 0
    counts := RollingCounts.new config.windowMillis nowMs }

end BreakerInner

namespace BreakerPermit

/-- Finish with an outcome that says something about the target. -/
def record (config : BreakerConfig) (p : BreakerPermit) (success : Bool) (nowMs : ℕ)
    (b : BreakerInner) : BreakerInner :=
  b.finishPermit config p.probe p.epoch (some success) nowMs

/-- Finish without an outcome: return the probe slot, count nothing. -/
def release (config : BreakerConfig) (p : BreakerPermit) (nowMs : ℕ) (b : BreakerInner) :
    BreakerInner :=
  b.finishPermit config p.probe p.epoch none nowMs

/-- The neutral safety net.  It has no clock, and passes zero. -/
def drop (config : BreakerConfig) (p : BreakerPermit) (b : BreakerInner) : BreakerInner :=
  if p.finished then b else b.finishPermit config p.probe p.epoch none 0

end BreakerPermit

end HypeLlm.Health
