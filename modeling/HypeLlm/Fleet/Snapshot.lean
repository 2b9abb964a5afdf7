import HypeLlm.Lib.Lists
import HypeLlm.Lib.Words
import HypeLlm.Routing.Decision

/-!
# What the planner reads

The activated configuration of the fleet — hosts, accelerators in memory pools, deployments placed on
accelerators — and the router's belief about it: the newest observation, the leases it holds, what is
being evicted.  Memory in a pool is judged by the larger of two figures, what is declared of the
deployments that have or will have memory there, and what the devices report.

Maps that are only looked up are functions; those that are walked are lists in the order of their keys.
-/

namespace HypeLlm.Fleet

open HypeLlm.Words HypeLlm.Routing

abbrev DeploymentId := String
abbrev ArtifactId := String
abbrev AcceleratorId := String
abbrev PoolId := String
abbrev AgentId := String
abbrev LeaseId := String
abbrev ImageId := String

/-! ### The configuration -/

inductive Arch where
  | x86_64
  | aarch64
  deriving Repr, DecidableEq

inductive HostState where
  | enabled
  | drain
  | maintenance
  | disabled
  deriving Repr, DecidableEq

def HostState.admitsActivation : HostState → Bool
  | .enabled => true
  | _ => false

def HostState.admitsTraffic : HostState → Bool
  | .enabled => true
  | .drain => true
  | _ => false

structure Host where
  id : HostId
  agent : AgentId
  arch : Arch
  state : HostState
  /-- Memory never offered to deployments. -/
  reservedMemoryBytes : ℕ
  maxConcurrentActivations : ℕ
  maxConcurrent_le : maxConcurrentActivations ≤ u32Max
  deriving Repr, DecidableEq

structure Accelerator where
  id : AcceleratorId
  host : HostId
  memoryBytes : ℕ
  pool : PoolId
  deriving Repr, DecidableEq

structure Deployment where
  id : DeploymentId
  target : TargetId
  accelerator : AcceleratorId
  artifact : Option ArtifactId
  /-- The memory declared for it. -/
  memoryBytes : ℕ
  startMs : ℕ
  stopMs : ℕ
  drainMs : ℕ
  probeMs : ℕ
  minResidentMs : ℕ
  evictable : Bool
  pinned : Bool
  autostart : Bool
  retentionWeight : ℤ
  maxDrainableInflight : ℕ
  deriving Repr, DecidableEq

structure Artifact where
  id : ArtifactId
  arch : Arch
  sizeBytes : ℕ
  imageId : Option ImageId
  deriving Repr, DecidableEq

/-- What planning and governance read of a fleet policy. -/
structure SwapPolicy where
  maxActivationsPerHour : ℕ
  evictionMarginPermille : ℕ
  maxEvictionSet : ℕ
  allowFetch : Bool
  fetchDiskHeadroomBytes : ℕ
  adoptUnmanaged : Bool
  deriving Repr, DecidableEq

structure FleetConfig where
  hosts : List Host
  accelerators : List Accelerator
  deployments : List Deployment
  artifacts : List Artifact
  /-- How old an observation an agent's hosts are planned against. -/
  observationMaxAgeMs : AgentId → Option ℕ
  policyFor : HostId → SwapPolicy
  /-- The maps are keyed by these identifiers. -/
  accelerators_nodup : (accelerators.map Accelerator.id).Nodup
  deployments_nodup : (deployments.map Deployment.id).Nodup

/-- A sum that stays at the top of the word. -/
def satSum (xs : List ℕ) : ℕ := xs.foldl (satAdd u64Max) 0

theorem foldl_satAdd (xs : List ℕ) (a : ℕ) (ha : a ≤ u64Max) :
    xs.foldl (satAdd u64Max) a = min (a + xs.sum) u64Max := by
  induction xs generalizing a with
  | nil =>
    rw [List.foldl_nil, List.sum_nil]
    omega
  | cons x xs ih =>
    rw [List.foldl_cons, ih (satAdd u64Max a x) (Nat.min_le_right ..), List.sum_cons, satAdd]
    omega

theorem satSum_eq (xs : List ℕ) : satSum xs = min xs.sum u64Max := by
  rw [satSum, foldl_satAdd xs 0 (Nat.zero_le _), Nat.zero_add]

namespace FleetConfig

variable (config : FleetConfig)

def deployment (id : DeploymentId) : Option Deployment := config.deployments.find? fun d => d.id = id

def deploymentForTarget (target : TargetId) : Option Deployment :=
  config.deployments.find? fun d => d.target = target

def host (id : HostId) : Option Host := config.hosts.find? fun h => h.id = id

def artifact (id : ArtifactId) : Option Artifact := config.artifacts.find? fun a => a.id = id

def acceleratorOf (d : Deployment) : Option Accelerator :=
  config.accelerators.find? fun a => a.id = d.accelerator

/-- A deployment is found under its identifier. -/
theorem deployment_of_mem {d : Deployment} (h : d ∈ config.deployments) :
    config.deployment d.id = some d := by
  rw [deployment]
  exact Lists.find?_key config.deployments_nodup h

theorem mem_of_deployment {id : DeploymentId} {d : Deployment} (h : config.deployment id = some d) :
    d ∈ config.deployments ∧ d.id = id :=
  ⟨List.mem_of_find?_eq_some h, by simpa using List.find?_some h⟩

def acceleratorsInPool (pool : PoolId) : List Accelerator :=
  config.accelerators.filter fun a => a.pool = pool

def inPool (pool : PoolId) (d : Deployment) : Bool := (config.acceleratorOf d).any fun a => a.pool = pool

def deploymentsInPool (pool : PoolId) : List Deployment := config.deployments.filter (config.inPool pool)

/-- The memory of the accelerators less what their hosts keep, once for each host. -/
def poolCapacityBytes (pool : PoolId) : ℕ :=
  let accelerators := config.acceleratorsInPool pool
  let hosts := (accelerators.map Accelerator.host).dedup
  satSum (accelerators.map Accelerator.memoryBytes) -
    satSum ((hosts.filterMap config.host).map Host.reservedMemoryBytes)

end FleetConfig

/-! ### The belief -/

inductive ObservedState where
  | pending
  | draining
  | stopping
  | fetching
  | starting
  | probing
  | ready
  | failed
  | stopped
  | cancelled
  deriving Repr, DecidableEq

namespace ObservedState

def isServing : ObservedState → Bool
  | .ready => true
  | _ => false

/-- A deployment in this state has memory. -/
def holdsMemory : ObservedState → Bool
  | .draining => true
  | .stopping => true
  | .starting => true
  | .probing => true
  | .ready => true
  | _ => false

/-- On its way up. -/
def isActivating : ObservedState → Bool
  | .pending => true
  | .fetching => true
  | .starting => true
  | .probing => true
  | _ => false

end ObservedState

structure ObservedDeployment where
  state : ObservedState
  observedMemoryBytes : ℕ
  inflight : ℕ
  deriving Repr, DecidableEq

structure ObservedHost where
  reachable : Bool
  freeDiskBytes : ℕ
  deriving Repr, DecidableEq

structure Placement where
  present : Bool
  verified : Bool
  imageId : Option ImageId
  deriving Repr, DecidableEq

/-- The newest valid observation. -/
structure Inventory where
  hosts : HostId → Option ObservedHost
  /-- The memory in use on a device. -/
  accelerators : AcceleratorId → Option ℕ
  deployments : DeploymentId → Option ObservedDeployment
  artifacts : ArtifactId → HostId → Option Placement

inductive LeaseOperation where
  | activate
  | deactivate
  | fetch
  deriving Repr, DecidableEq

/-- The durations observed of a deployment. -/
structure Timings where
  startMs : Option ℕ
  stopMs : Option ℕ
  drainMs : Option ℕ
  probeMs : Option ℕ
  fetchMs : Option ℕ
  deriving Repr, DecidableEq

def Timings.none : Timings := ⟨.none, .none, .none, .none, .none⟩

structure FleetSnapshot where
  config : FleetConfig
  inventory : Inventory
  observedAtMs : ℕ
  observed : Bool
  /-- What the lease held for a deployment authorises. -/
  leases : DeploymentId → Option LeaseOperation
  evicting : DeploymentId → Bool
  readySinceMs : DeploymentId → Option ℕ
  unmanaged : DeploymentId → Bool
  cooldownUntilMs : DeploymentId → Option ℕ
  activationBudget : HostId → Option ℕ
  observedTimings : DeploymentId → Timings
  digestAgreed : Bool
  agentsReachable : Bool
  deploymentCapabilities : DeploymentId → Option Capability
  learnedChecksums : ArtifactId → Option ImageId

namespace FleetSnapshot

variable (s : FleetSnapshot)

def observationAgeMs (nowMs : ℕ) : Option ℕ := if s.observed then some (nowMs - s.observedAtMs) else none

def beliefIsFresh (nowMs maxAgeMs : ℕ) : Bool := (s.observationAgeMs nowMs).any fun age => age ≤ maxAgeMs

/-- A deployment that is not reported does not run. -/
def stateOf (d : DeploymentId) : ObservedState :=
  ((s.inventory.deployments d).map ObservedDeployment.state).getD .stopped

def inflight (d : DeploymentId) : ℕ := ((s.inventory.deployments d).map ObservedDeployment.inflight).getD 0

def observedMemory (d : DeploymentId) : ℕ :=
  ((s.inventory.deployments d).map ObservedDeployment.observedMemoryBytes).getD 0

def activationLeased (d : DeploymentId) : Bool := s.leases d = some .activate

/-- On its way up, by observation or by lease. -/
def isComingUp (d : DeploymentId) : Bool := (s.stateOf d).isActivating || s.activationLeased d

/-- It has memory or will have it. -/
def commitsMemory (d : DeploymentId) : Bool := (s.stateOf d).holdsMemory || s.isComingUp d

def isRouterOwned (d : DeploymentId) : Bool := !s.unmanaged d

/-- What is declared of the deployments that commit memory in a pool. -/
def poolDeclaredBytes (pool : PoolId) : ℕ :=
  satSum (((s.config.deploymentsInPool pool).filter fun d => s.commitsMemory d.id).map
    Deployment.memoryBytes)

/-- What the devices of a pool report. -/
def poolObservedBytes (pool : PoolId) : ℕ :=
  satSum ((s.config.acceleratorsInPool pool).filterMap fun a => s.inventory.accelerators a.id)

/-- The larger of the two figures. -/
def poolUsedBytes (pool : PoolId) : ℕ := max (s.poolDeclaredBytes pool) (s.poolObservedBytes pool)

def poolFreeBytes (pool : PoolId) : ℕ := s.config.poolCapacityBytes pool - s.poolUsedBytes pool

/-- The image an artifact is held to: pinned, else learned. -/
def keptChecksum (artifact : ArtifactId) : Option ImageId :=
  ((s.config.artifact artifact).bind Artifact.imageId).or (s.learnedChecksums artifact)

def artifactReady (artifact : ArtifactId) (host : HostId) : Bool :=
  match s.inventory.artifacts artifact host with
  | none => false
  | some placement =>
    placement.present &&
      match s.keptChecksum artifact with
      | none => placement.verified
      | some kept => placement.imageId = some kept

/-- The first other host of the architecture that takes traffic, is reachable and has the image. -/
def copySource (artifact : ArtifactId) (destination : HostId) : Option HostId := do
  let _ ← s.keptChecksum artifact
  let a ← s.config.artifact artifact
  let h ← s.config.hosts.find? fun h =>
    decide (h.id ≠ destination) && decide (h.arch = a.arch) && h.state.admitsTraffic &&
      (s.inventory.hosts h.id).any ObservedHost.reachable && s.artifactReady artifact h.id
  return h.id

def freeDiskBytes (host : HostId) : ℕ := ((s.inventory.hosts host).map ObservedHost.freeDiskBytes).getD 0

def residentForMs (d : DeploymentId) (nowMs : ℕ) : ℕ := ((s.readySinceMs d).map (nowMs - ·)).getD 0

end FleetSnapshot

/-! ### Plans -/

inductive PlanStep where
  /-- Drain and stop a deployment. -/
  | evict (deployment : DeploymentId)
  | fetch (artifact : ArtifactId) (host : HostId)
  | copy (artifact : ArtifactId) (source dest : HostId)
  | activate (deployment : DeploymentId)
  deriving Repr, DecidableEq

structure Plan where
  deployment : DeploymentId
  host : HostId
  /-- In the order they are executed. -/
  steps : List PlanStep
  etaMs : ℕ
  deriving Repr, DecidableEq

namespace Plan

def evictionSet (p : Plan) : List DeploymentId :=
  p.steps.filterMap fun
    | .evict d => some d
    | _ => none

def evicts (p : Plan) : Bool := p.steps.any fun
  | .evict _ => true
  | _ => false

end Plan

end HypeLlm.Fleet
