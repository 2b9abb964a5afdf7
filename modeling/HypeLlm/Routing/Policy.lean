import HypeLlm.Lib.Maps
import HypeLlm.Lib.Precedence
import HypeLlm.Routing.Decision

/-!
# Routing policy: precedence, eligibility, scoring, selection

Routing is a pure function of an immutable policy snapshot, a request context, a request and a
sample of live state.  It first asks whether the caller is authorized for the alias at all, then
runs every permitted target of the alias through a fixed sequence of eligibility filters, scores
what is left and sorts it.

Three kinds of rules are resolved by precedence: alias grants, fleet grants, and the denies and
allows of bindings.  Bindings also carry pins, which restrict selection to one target and its
declared fallbacks, and preferences, which make targets reachable and rank them.

A snapshot's tables are keyed by the identifiers of what they hold; the snapshot carries that as
proof, so no lookup can return a record of another name.
-/

namespace HypeLlm.Routing

open HypeLlm.Words HypeLlm.Precedence
open Std (TreeMap)

/-! ### Selectors -/

/-- Which principals a binding or grant applies to. -/
inductive BindingScope where
  | principal (p : PrincipalId)
  | group (g : GroupId)
  | tenant (t : TenantId)
  | global
  deriving Repr, DecidableEq

/-- Which requested models a binding or grant applies to. -/
inductive ModelSelector where
  | exactly (a : AliasId)
  | prefixed (p : String)
  | any
  deriving Repr, DecidableEq

namespace ModelSelector

/-- Whether the selector matches an alias. -/
def admits : ModelSelector → AliasId → Bool
  | .exactly a, aliasId => a == aliasId
  | .prefixed p, aliasId => p.toList.isPrefixOf aliasId.toList
  | .any, _ => true

def isExact : ModelSelector → Bool
  | .exactly _ => true
  | _ => false

end ModelSelector

/-- Which targets a preference, deny or allow applies to. -/
inductive TargetSelector where
  | exactly (id : TargetId)
  | provider (p : ProviderId)
  | any
  deriving Repr, DecidableEq

namespace TargetSelector

/-- Whether the selector matches a target. -/
def admits : TargetSelector → Target → Bool
  | .exactly id, target => id == target.id
  | .provider p, target => p == target.providerId
  | .any, _ => true

/-- Higher is more specific. -/
def specificity : TargetSelector → ℕ
  | .exactly _ => 3
  | .provider _ => 2
  | .any => 1

end TargetSelector

/-! ### What one API key may do -/

/-- One key's narrowing of its principal's access.  An absent list narrows nothing. -/
structure KeyRestriction where
  models : Option (List AliasId)
  targets : Option (List TargetId)
  hosts : Option (List HostId)
  deriving Repr, DecidableEq

namespace KeyRestriction

variable (key : KeyRestriction)

def permitsAlias (aliasId : AliasId) : Bool := key.models.all (·.contains aliasId)

def permitsTarget (target : TargetId) : Bool := key.targets.all (·.contains target)

def permitsHost (host : HostId) : Bool := key.hosts.all (·.contains host)

end KeyRestriction

/-! ### The request context and live state -/

structure RoutingContext where
  principal : PrincipalId
  groups : List GroupId
  tenant : TenantId
  /-- Targets already tried in this request's retry chain. -/
  attempted : List TargetId
  nowMillis : ℕ
  /-- The narrowing of the key the caller authenticated with, if any. -/
  key : Option KeyRestriction
  deriving Repr, DecidableEq

/-- Milliseconds left before `deadline`. -/
def RoutingContext.remainingMs (ctx : RoutingContext) (deadline : ℕ) : ℕ := deadline - ctx.nowMillis

/-- Bounded live state, already sampled. -/
structure LiveState where
  circuitOpen : TargetId → Bool
  healthPenalty : TargetId → ℤ
  latencyPenalty : TargetId → ℤ
  queuePenalty : TargetId → ℤ
  affinityBonus : TargetId → ℤ
  hasCapacity : TargetId → Bool
  adminOverride : TargetId → Option AdminState
  probeUnreachable : TargetId → Bool
  failurePercent : TargetId → ℕ
  residencyClass : TargetId → ResidencyClass
  activationEtaMs : TargetId → ℕ

/-- Live state that reports every target as healthy, idle and available. -/
def LiveState.ideal : LiveState where
  circuitOpen _ := false
  healthPenalty _ := 0
  latencyPenalty _ := 0
  queuePenalty _ := 0
  affinityBonus _ := 0
  hasCapacity _ := true
  adminOverride _ := none
  probeUnreachable _ := false
  failurePercent _ := 0
  residencyClass _ := .unmanaged
  activationEtaMs _ := 0

/-! ### Bindings and grants -/

structure TargetPreference where
  selector : TargetSelector
  /-- Zero is most preferred. -/
  rank : ℕ
  weight : ℤ
  deriving Repr, DecidableEq

structure Binding where
  id : BindingId
  scope : BindingScope
  model : ModelSelector
  preferences : List TargetPreference
  denies : List TargetSelector
  allows : List TargetSelector
  /-- A hard pin: only this target, or a declared fallback, may be selected. -/
  pin : Option TargetId
  emergencyFallback : List TargetId
  /-- Tie-break among bindings at one level, higher first. -/
  priority : ℤ
  deriving Repr, DecidableEq

structure AliasGrant where
  scope : BindingScope
  model : ModelSelector
  /-- Empty means every operation. -/
  operations : List Operation
  allow : Bool
  deriving Repr, DecidableEq

/-- The precedence level at which a scope and a model selector apply, lower being stronger, or
`none` where they do not. -/
def precedenceOf (scope : BindingScope) (model : ModelSelector) (ctx : RoutingContext)
    (aliasId : AliasId) : Option ℕ :=
  if !model.admits aliasId then none
  else match scope with
    | .principal p => if p = ctx.principal then some (if model.isExact then 1 else 2) else none
    | .group g => if ctx.groups.contains g then some (if model.isExact then 3 else 4) else none
    | .tenant t => if t = ctx.tenant then some (if model.isExact then 5 else 6) else none
    | .global => some 7

def Binding.precedence (b : Binding) (ctx : RoutingContext) (aliasId : AliasId) : Option ℕ :=
  precedenceOf b.scope b.model ctx aliasId

def AliasGrant.precedence (g : AliasGrant) (ctx : RoutingContext) (aliasId : AliasId) : Option ℕ :=
  precedenceOf g.scope g.model ctx aliasId

def AliasGrant.covers (g : AliasGrant) (op : Operation) : Bool :=
  g.operations.isEmpty || g.operations.contains op

/-! ### Fleet grants -/

/-- What happens to a caller no fleet grant mentions. -/
inductive FleetAccessDefault where
  | allow
  | deny
  deriving Repr, DecidableEq

def FleetAccessDefault.allows : FleetAccessDefault → Bool
  | .allow => true
  | .deny => false

inductive HostSelector where
  | exactly (h : HostId)
  | any
  deriving Repr, DecidableEq

def HostSelector.admits : HostSelector → HostId → Bool
  | .exactly h, host => h == host
  | .any, _ => true

inductive FleetModelSelector where
  | ofAlias (selector : ModelSelector)
  | target (t : TargetId)
  deriving Repr, DecidableEq

namespace FleetModelSelector

def admits : FleetModelSelector → AliasId → TargetId → Bool
  | .ofAlias selector, aliasId, _ => selector.admits aliasId
  | .target t, _, targetId => t == targetId

def specificity : FleetModelSelector → ℕ
  | .target _ => 3
  | .ofAlias (.exactly _) => 2
  | .ofAlias (.prefixed _) => 1
  | .ofAlias .any => 0

end FleetModelSelector

structure FleetGrant where
  id : BindingId
  scope : BindingScope
  host : HostSelector
  model : FleetModelSelector
  allow : Bool
  deriving Repr, DecidableEq

/-- The level at which a fleet grant applies, lower being stronger.  The scope is the high digit and
the specificity the low one, so the scope always dominates. -/
def FleetGrant.level (g : FleetGrant) (ctx : RoutingContext) (aliasId : AliasId) (target : TargetId)
    (host : HostId) : Option ℕ :=
  if !g.host.admits host || !g.model.admits aliasId target then none
  else
    let scope : Option ℕ := match g.scope with
      | .principal p => if p = ctx.principal then some 0 else none
      | .group gr => if ctx.groups.contains gr then some 1 else none
      | .tenant t => if t = ctx.tenant then some 2 else none
      | .global => some 3
    let hostSpecificity := match g.host with
      | .exactly _ => 4
      | .any => 0
    scope.map fun scope => scope * 8 + (7 - (hostSpecificity + g.model.specificity))

/-- Whether `grants` let the caller be served by `target`, running on `host`. -/
def fleetPermits (grants : List FleetGrant) (default : FleetAccessDefault) (ctx : RoutingContext)
    (aliasId : AliasId) (target : TargetId) (host : HostId) : Bool :=
  let best := resolve and <| grants.filterMap fun g =>
    (g.level ctx aliasId target host).map fun level => (level, g.allow)
  best.elim default.allows (·.2)

/-! ### The snapshot -/

/-- An immutable, validated policy snapshot. -/
structure PolicySnapshot where
  providers : TreeMap ProviderId Provider
  targets : TreeMap TargetId Target
  aliases : TreeMap AliasId Alias
  bindings : List Binding
  grants : List AliasGrant
  /-- Tenants that permit inheriting global defaults. -/
  globalInheritance : List TenantId
  allowlistedTargets : List TargetId
  weightedTieBreak : Bool
  /-- The failure percentage above which a target is refused; 100 is no floor. -/
  maxFailurePercent : ℕ
  defaultDocumentTokenEstimate : ℕ
  activationEffortHeadroomMs : ℕ
  /-- The slave each fleet-managed target runs on. -/
  fleetPlacement : TreeMap TargetId HostId
  fleetGrants : List FleetGrant
  fleetAccessDefault : FleetAccessDefault
  targets_keyed : ∀ (id : TargetId) (t : Target), targets[id]? = some t → t.id = id
  aliases_keyed : ∀ (id : AliasId) (a : Alias), aliases[id]? = some a → a.id = id

namespace PolicySnapshot

/-- The snapshot used before the first configuration is activated. -/
def empty : PolicySnapshot where
  providers := ∅
  targets := ∅
  aliases := ∅
  bindings := []
  grants := []
  globalInheritance := []
  allowlistedTargets := []
  weightedTieBreak := false
  maxFailurePercent := 100
  defaultDocumentTokenEstimate := 4096
  activationEffortHeadroomMs := 5000
  fleetPlacement := ∅
  fleetGrants := []
  fleetAccessDefault := .allow
  targets_keyed _ _ h := by simp at h
  aliases_keyed _ _ h := by simp at h

/-- Declare a target, under its own identifier. -/
def insertTarget (s : PolicySnapshot) (t : Target) : PolicySnapshot :=
  { s with
    targets := s.targets.insert t.id t
    targets_keyed := by
      intro id t' h
      rw [Maps.getElem?_insert] at h
      split at h
      · rename_i hid
        cases h
        exact hid.symm
      · exact s.targets_keyed id t' h }

/-- Declare an alias, under its own identifier. -/
def insertAlias (s : PolicySnapshot) (a : Alias) : PolicySnapshot :=
  { s with
    aliases := s.aliases.insert a.id a
    aliases_keyed := by
      intro id a' h
      rw [Maps.getElem?_insert] at h
      split at h
      · rename_i hid
        cases h
        exact hid.symm
      · exact s.aliases_keyed id a' h }

end PolicySnapshot

/-! ### The merged view of all applicable bindings -/

structure MergedRule where
  level : ℕ
  selector : TargetSelector
  deny : Bool
  deriving Repr, DecidableEq

structure MergedPreference where
  level : ℕ
  selector : TargetSelector
  rank : ℕ
  weight : ℤ
  priority : ℤ
  binding : BindingId
  deriving Repr, DecidableEq

structure MergedBindings where
  rules : List MergedRule
  preferences : List MergedPreference
  pin : Option TargetId
  pinFallback : List TargetId
  pinLevel : Option ℕ
  deriving Repr, DecidableEq

/-- The rules of a binding that applies at `level`: its denies, then its allows. -/
def Binding.rulesAt (b : Binding) (level : ℕ) : List MergedRule :=
  b.denies.map (fun selector => ⟨level, selector, true⟩) ++
    b.allows.map fun selector => ⟨level, selector, false⟩

/-- The preferences of a binding that applies at `level`, in the order written. -/
def Binding.preferencesAt (b : Binding) (level : ℕ) : List MergedPreference :=
  b.preferences.map fun pref =>
    ⟨level, pref.selector, pref.rank, pref.weight, b.priority, b.id⟩

namespace MergedBindings

def empty : MergedBindings := ⟨[], [], none, [], none⟩

/-- Add one binding, which applies at `level`.  The first pin stays. -/
def add (merged : MergedBindings) (level : ℕ) (binding : Binding) : MergedBindings :=
  let merged := { merged with
    rules := merged.rules ++ binding.rulesAt level
    preferences := merged.preferences ++ binding.preferencesAt level }
  match binding.pin, merged.pin with
  | some pin, none =>
    { merged with
      pin := some pin, pinLevel := some level, pinFallback := binding.emergencyFallback }
  | _, _ => merged

/-- What the rules that match `target` say, each with its precedence: the level first, and within
a level the more specific selector. -/
def rulesFor (merged : MergedBindings) (target : Target) : List ((ℕ ×ₗ ℕᵒᵈ) × Bool) :=
  (merged.rules.filter fun rule => rule.selector.admits target).map fun rule =>
    (toLex (rule.level, OrderDual.toDual rule.selector.specificity), rule.deny)

/-- Whether a target is denied: the best rule wins, and a deny wins a tie. -/
def isDenied (merged : MergedBindings) (target : Target) : Bool :=
  decides or (merged.rulesFor target)

end MergedBindings

namespace MergedPreference

/-- Level, then specificity, then priority, then the lower binding identifier. -/
def key (p : MergedPreference) : ℕ ×ₗ ℕᵒᵈ ×ₗ ℤᵒᵈ ×ₗ BindingId :=
  toLex (p.level, toLex (OrderDual.toDual p.selector.specificity,
    toLex (OrderDual.toDual p.priority, p.binding)))

/-- The better of two preferences, the first one when neither is strictly better. -/
def better (best : Option MergedPreference) (p : MergedPreference) : Option MergedPreference :=
  match best with
  | none => some p
  | some current => if p.key < current.key then some p else some current

end MergedPreference

/-- The winning preference for a target, if any. -/
def MergedBindings.preferenceFor (merged : MergedBindings) (target : Target) :
    Option MergedPreference :=
  (merged.preferences.filter fun p => p.selector.admits target).foldl MergedPreference.better none

/-- A binding with the level at which it applies. -/
structure Applicable where
  level : ℕ
  binding : Binding
  deriving Repr, DecidableEq

namespace Applicable

/-- Level, then the higher priority, then the identifier. -/
def key (a : Applicable) : ℕ ×ₗ ℤᵒᵈ ×ₗ BindingId :=
  toLex (a.level, toLex (OrderDual.toDual a.binding.priority, a.binding.id))

def Before (a b : Applicable) : Prop := a.key ≤ b.key

instance : DecidableRel Before := fun a b => inferInstanceAs (Decidable (a.key ≤ b.key))

instance : IsTrans Applicable Before := ⟨fun _ _ _ => le_trans⟩

instance : Std.Total Before := ⟨fun a b => le_total a.key b.key⟩

end Applicable

/-! ### Scores -/

/-- A small value in `0..1000`, from the request and the target alone. -/
def deterministicJitter (requestId : RequestId) (target : TargetId) : ℤ :=
  -- FNV-1a over the target identifier, mixed with the request identifier by SplitMix64.
  let h : UInt64 := target.toUTF8.toList.foldl
    (fun h b => (h ^^^ b.toUInt64) * 0x00000100000001b3) 0xcbf29ce484222325
  let low := UInt64.ofNat (requestId.toNat % 2 ^ 64)
  let high := UInt64.ofNat (requestId.toNat / 2 ^ 64)
  let z := h ^^^ low ^^^ ((high <<< 32) ||| (high >>> 32))
  let z := (z ^^^ (z >>> 30)) * 0xbf58476d1ce4e5b9
  let z := (z ^^^ (z >>> 27)) * 0x94d049bb133111eb
  let z := z ^^^ (z >>> 31)
  ((z % 1000).toNat : ℤ)

/-- Stop with `reason` where the filter refuses. -/
def refuseIf (refused : Bool) (reason : ExclusionReason) : Except ExclusionReason Unit :=
  if refused then .error reason else .ok ()

namespace PolicySnapshot

variable (s : PolicySnapshot)

/-- Whether global bindings and grants reach the caller's tenant. -/
def inherits (ctx : RoutingContext) (scope : BindingScope) : Bool :=
  scope != .global || s.globalInheritance.contains ctx.tenant

/-- Whether the caller may be served by `target` as far as fleet grants are concerned.  A target
without a placement is not fleet-managed. -/
def fleetAccessPermits (ctx : RoutingContext) (aliasId : AliasId) (target : TargetId) : Bool :=
  s.fleetPlacement[target]?.all fun host =>
    ctx.key.all (·.permitsHost host) &&
      fleetPermits s.fleetGrants s.fleetAccessDefault ctx aliasId target host

/-- Whether the principal may use the alias for the operation.  Default deny. -/
def authorizes (ctx : RoutingContext) (aliasId : AliasId) (operation : Operation) : Bool :=
  if ctx.key.any fun key => !key.permitsAlias aliasId then false
  else
    decides and <| s.grants.filterMap fun grant =>
      if !grant.covers operation || !s.inherits ctx grant.scope then none
      else (grant.precedence ctx aliasId).map fun level => (level, grant.allow)

/-- Aliases the principal may see, in the order of their identifiers. -/
def visibleAliases (ctx : RoutingContext) (operation : Operation) : List Alias :=
  (s.aliases.toList.map Prod.snd).filter fun a => s.authorizes ctx a.id operation

/-- Aliases the caller could actually be served by. -/
def servableAliases (ctx : RoutingContext) (operation : Operation) : List Alias :=
  (s.visibleAliases ctx operation).filter fun a =>
    a.permittedTargets.any fun t =>
      ctx.key.all (·.permitsTarget t) && s.fleetAccessPermits ctx a.id t

/-- The bindings that apply to the caller and the alias, in the order written. -/
def applicable (ctx : RoutingContext) (aliasId : AliasId) : List Applicable :=
  (s.bindings.filter fun b => s.inherits ctx b.scope).filterMap fun b =>
    (b.precedence ctx aliasId).map fun level => ⟨level, b⟩

/-- Collapse every applicable binding into one view, strongest first. -/
def mergeBindings (ctx : RoutingContext) (aliasId : AliasId) : MergedBindings :=
  ((s.applicable ctx aliasId).insertionSort Applicable.Before).foldl
    (fun merged a => merged.add a.level a.binding) MergedBindings.empty

/-! ### Eligibility filters, section by section -/

/-- The provider of a target; a missing one reads as disabled. -/
def providerOf (target : Target) : Except ExclusionReason Provider :=
  match s.providers[target.providerId]? with
  | none => .error .providerDisabled
  | some provider => .ok provider

/-- Whether the key keeps the request off the target or off the slave it runs on. -/
def keyRefuses (ctx : RoutingContext) (target : TargetId) : Bool :=
  ctx.key.any fun key =>
    !key.permitsTarget target || s.fleetPlacement[target]?.any fun host => !key.permitsHost host

/-- Once an attempt has been made, a change of family needs permission. -/
def familyFailoverRefused (ctx : RoutingContext) (entry : Alias) (target : Target)
    (provider : Provider) : Bool :=
  !entry.allowFamilyFailover && !ctx.attempted.isEmpty && !ctx.attempted.contains target.id &&
    (let alreadyFamily := (ctx.attempted.head?.bind fun t => s.targets[t]?).map (·.providerId)
     let attemptedFamily := alreadyFamily.bind fun family => (s.providers[family]?).map (·.family)
     attemptedFamily.any (· != provider.family))

/-- Security and compliance filters. -/
def securityFilters (ctx : RoutingContext) (req : CanonicalRequest) (entry : Alias)
    (target : Target) (merged : MergedBindings) : Except ExclusionReason Unit := do
  refuseIf (merged.isDenied target) .deniedByPolicy
  refuseIf (s.keyRefuses ctx target.id) .keyRestricted
  refuseIf (!s.fleetAccessPermits ctx entry.id target.id) .fleetAccessDenied
  refuseIf (merged.pin.any fun pin => pin != target.id && !merged.pinFallback.contains target.id)
    .notPinnedTarget
  refuseIf (!s.allowlistedTargets.contains target.id) .endpointNotAllowlisted
  let provider ← s.providerOf target
  refuseIf (!provider.enabled) .providerDisabled
  refuseIf (provider.credentialRef.isNone && !target.isLocal) .credentialScopeMismatch
  refuseIf (!target.satisfiesResidency req.limits.residency) .residencyMismatch
  refuseIf (req.hints.requireLocal && !target.isLocal) .localRequired
  refuseIf (s.familyFailoverRefused ctx entry target provider) .familyFailoverNotAllowed

/-- Administrative state: an operator override wins over the configured one. -/
def adminFilters (ctx : RoutingContext) (target : Target) (live : LiveState) :
    Except ExclusionReason Unit := do
  match (live.adminOverride target.id).getD target.adminState with
  | .enabled => .ok ()
  | .draining => .error .targetDraining
  | .maintenance => .error .targetMaintenance
  | .quarantined => .error .targetQuarantined
  | .disabled => .error .targetDisabled
  refuseIf (ctx.attempted.contains target.id) .alreadyAttempted

/-- Whether the target cannot give the response format asked for. -/
def formatRefused (caps : Capabilities) : Option ResponseFormat → Bool
  | some .jsonObject => !caps.jsonMode
  | some (.jsonSchema ..) => !caps.structuredOutput
  | _ => false

/-- The token estimate of a target for a request. -/
def estimateFor (req : CanonicalRequest) (target : Target) : TokenEstimate :=
  target.tokenEstimate req.reasoningEffort s.defaultDocumentTokenEstimate

/-- Capability filters. -/
def capabilityFilters (req : CanonicalRequest) (entry : Alias) (target : Target) :
    Except ExclusionReason Unit := do
  let caps := target.capabilities
  refuseIf (!caps.supportsOperation req.operation) .operationUnsupported
  refuseIf (entry.capability.any fun verb => !caps.supportsCapability verb) .capabilityUnsupported
  refuseIf (!caps.supportsModalities req.requiredModalities) .modalityUnsupported
  refuseIf (!caps.supportsEffort req.reasoningEffort) .reasoningEffortUnsupported
  refuseIf (req.stream && !caps.streaming) .streamingUnsupported
  refuseIf (req.requiresTools && !caps.tools) .toolsUnsupported
  refuseIf (formatRefused caps req.responseFormat) .structuredOutputUnsupported
  refuseIf (decide (caps.maxContextTokens < req.estimatedInputTokensFor (s.estimateFor req target)))
    .contextWindowTooSmall
  refuseIf (req.limits.maxOutputTokens.any fun want => decide (caps.maxOutputTokens < want))
    .outputLimitTooSmall

/-- Cost, quality, health and capacity. -/
def capacityFilters (req : CanonicalRequest) (target : Target) (live : LiveState) :
    Except ExclusionReason Unit := do
  refuseIf (!target.withinCostCeiling req.limits.maxCostClass) .costCeilingExceeded
  refuseIf (!target.meetsQualityFloor req.limits.minQualityClass) .qualityFloorNotMet
  refuseIf (live.circuitOpen target.id) .circuitOpen
  refuseIf (live.probeUnreachable target.id) .probeUnreachable
  refuseIf (decide (s.maxFailurePercent < 100) &&
    decide (s.maxFailurePercent < live.failurePercent target.id)) .unhealthy
  refuseIf (!live.hasCapacity target.id) .capacityExhausted

/-- Fleet residency: sampled once, and used again for scoring. -/
def residencyFilter (ctx : RoutingContext) (req : CanonicalRequest) (target : Target)
    (live : LiveState) : Except ExclusionReason ResidencyClass := do
  let residency := live.residencyClass target.id
  match residency.exclusion with
  | some reason => .error reason
  | none => .ok ()
  -- Time to ready and the generation headroom of the tier, against what is left of the deadline.
  let required := satAdd u64Max (live.activationEtaMs target.id)
    (satMul u64Max s.activationEffortHeadroomMs (s.estimateFor req target).outputMultiplier)
  refuseIf (residency.requiresActivation && decide (ctx.remainingMs req.limits.deadline < required))
    .activationExceedsDeadline
  return residency

/-- Every eligibility filter, in order. -/
def screen (ctx : RoutingContext) (req : CanonicalRequest) (entry : Alias) (target : Target)
    (merged : MergedBindings) (live : LiveState) : Except ExclusionReason ResidencyClass := do
  s.securityFilters ctx req entry target merged
  adminFilters ctx target live
  s.capabilityFilters req entry target
  s.capacityFilters req target live
  s.residencyFilter ctx req target live

/-! ### Scoring and selection -/

def score (req : CanonicalRequest) (target : Target) (bindingPrecedence rank : ℕ) (weight : ℤ)
    (pinRank : ℕ) (residency : ResidencyClass) (live : LiveState) : Candidate :=
  let hintBonus := if req.hints.preferTarget = some target.id then ScoreTerms.hintSlice else 0
  let terms : ScoreTerms := {
    priorityRank := ScoreTerms.rankTerm rank
    policyWeight := weight
    health := live.healthPenalty target.id
    latency := live.latencyPenalty target.id
    queue := live.queuePenalty target.id
    cost := -(target.costClass * 5000)
    locality := if target.isLocal then 25000 else 0
    affinity := satAddInt (satAddInt
      (ScoreTerms.clamp (live.affinityBonus target.id) 0 ScoreTerms.conversationSlice)
      residency.warmthBonus) hintBonus
    jitter := if s.weightedTieBreak then deterministicJitter req.requestId target.id else 0 }
  ⟨target.id, terms.clamped, bindingPrecedence, rank, pinRank, residency⟩

/-- Reachability by preference, and the score.  A pin makes its own target and its fallbacks
reachable without a preference. -/
def reach (req : CanonicalRequest) (target : Target) (merged : MergedBindings) (live : LiveState)
    (residency : ResidencyClass) : Except ExclusionReason Candidate :=
  let pinRank := if merged.pin.any (· != target.id) then Candidate.pinFallback
    else Candidate.pinTarget
  match merged.preferenceFor target with
  | some pref => .ok (s.score req target pref.level pref.rank pref.weight pinRank residency live)
  | none =>
    if merged.pin = some target.id || merged.pinFallback.contains target.id then
      .ok (s.score req target (merged.pinLevel.getD 0) 0 0 pinRank residency live)
    else .error .notSelectedByAnyBinding

/-- Run every eligibility filter, then score. -/
def evaluate (ctx : RoutingContext) (req : CanonicalRequest) (entry : Alias) (target : Target)
    (merged : MergedBindings) (live : LiveState) : Except ExclusionReason Candidate := do
  let residency ← s.screen ctx req entry target merged live
  s.reach req target merged live residency

/-- The verdict on one permitted target.  A dangling reference is excluded. -/
def consider (ctx : RoutingContext) (req : CanonicalRequest) (entry : Alias)
    (merged : MergedBindings) (live : LiveState) (targetId : TargetId) :
    Except ExclusionReason Candidate :=
  match s.targets[targetId]? with
  | none => .error .notPermittedForAlias
  | some target => s.evaluate ctx req entry target merged live

/-- The candidate a verdict stands for, if it is one. -/
def candidateOf : Except ExclusionReason Candidate → Option Candidate
  | .ok c => some c
  | .error _ => none

/-- The exclusion a verdict on `targetId` stands for, if it is one. -/
def exclusionOf (targetId : TargetId) : Except ExclusionReason Candidate → Option Exclusion
  | .ok _ => none
  | .error reason => some ⟨targetId, reason⟩

/-- Route a request: ranked eligible candidates, and the exclusions with their reasons. -/
def route (ctx : RoutingContext) (req : CanonicalRequest) (live : LiveState) : RouteOutcome :=
  match s.aliases[req.requestedModel]? with
  | none => ⟨[], [], false⟩
  | some entry =>
    if s.authorizes ctx req.requestedModel req.operation then
      let merged := s.mergeBindings ctx req.requestedModel
      let verdict := s.consider ctx req entry merged live
      { candidates := (entry.permittedTargets.filterMap fun t => candidateOf (verdict t)).insertionSort
          Candidate.Before
        exclusions := (entry.permittedTargets.filterMap fun t =>
          exclusionOf t (verdict t)).insertionSort Exclusion.Before
        pinned := merged.pin.isSome }
    else
      -- Every target is reported for the same reason, in the order the alias lists them.
      ⟨[], entry.permittedTargets.map (⟨·, .notAuthorizedForAlias⟩), false⟩

end PolicySnapshot

end HypeLlm.Routing
