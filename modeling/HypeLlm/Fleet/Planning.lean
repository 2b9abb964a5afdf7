import HypeLlm.Fleet.Snapshot

/-!
# The planner

A plan makes a deployment ready: it may stop others in the memory pool, fetch or copy an artifact, and
starts the deployment.  `plan` decides against a snapshot; `revalidate` asks again, at the moment of
commitment, what other plans may have changed in the meantime.

* `selectEvictionSet_ok` — what is chosen for eviction: the cheapest, as many as are counted as enough;
* `plan_found` — the plans that are made;
* `revalidate_ok` — what a plan is found with when it is accepted again.
-/

namespace HypeLlm.Fleet

open HypeLlm.Words HypeLlm.Routing

/-- The demand, sampled once. -/
structure DemandSnapshot where
  ratePerMinute : Capability → ℕ
  queued : Capability → ℕ
  /-- How long ago a deployment last served. -/
  idleMs : DeploymentId → Option ℕ

namespace DemandSnapshot

def rate (demand : DemandSnapshot) (c : Option Capability) : ℕ := (c.map demand.ratePerMinute).getD 0

def idle (demand : DemandSnapshot) (d : DeploymentId) : ℕ := (demand.idleMs d).getD u64Max

end DemandSnapshot

structure PlanContext where
  nowMs : ℕ
  deadlineRemainingMs : ℕ
  effortMultiplier : ℕ
  effortHeadroomMs : ℕ
  mayActivate : Bool
  mayFetch : Bool
  capability : Option Capability
  priorityBonus : ℤ
  deriving Repr, DecidableEq

def PlanContext.requiredHeadroomMs (context : PlanContext) : ℕ :=
  satMul u64Max context.effortHeadroomMs context.effortMultiplier

inductive PlanOutcome where
  | alreadyResident
  | alreadyActivating (etaMs : ℕ)
  | plan (p : Plan)
  | infeasible (reason : ExclusionReason)
  deriving Repr, DecidableEq

/-! ### Values -/

def demandUnit : ℤ := 200
def queueUnit : ℤ := 2000
def recencyHorizonMs : ℕ := 600000
def stalenessHorizonMs : ℕ := 3600000

def clamp (low high v : ℤ) : ℤ := max low (min v high)

/-- A product that stays within signed words. -/
def satMulInt (a b : ℤ) : ℤ := clamp (-Words.i64Max - 1) Words.i64Max (a * b)

/-- A number as a signed word, the largest where it does not fit. -/
def toI64 (n : ℕ) : ℤ := min n Words.i64Max

def timingClampFactor : ℕ := 4

/-- A declared duration, moved by an observation within a factor. -/
def refineTiming (declared : ℕ) : Option ℕ → ℕ
  | none => declared
  | some observed =>
    if declared = 0 then observed
    else max (max (declared / timingClampFactor) 1) (min observed (satMul u64Max declared timingClampFactor))

def demandTerm (rate : ℕ) : ℤ := clamp 0 100000 (satMulInt (toI64 rate) demandUnit)

def queueTerm (queued : ℕ) : ℤ := clamp 0 50000 (satMulInt queued queueUnit)

def recencyTerm (idle : ℕ) : ℤ :=
  if recencyHorizonMs ≤ idle then 0
  else clamp 0 50000 ((recencyHorizonMs - idle) * 50000 / recencyHorizonMs : ℕ)

/-- What it would cost to bring a deployment back, by how likely it is to be wanted. -/
def restoreTerm (d : Deployment) (rate : ℕ) (s : FleetSnapshot) : ℤ :=
  let seconds := refineTiming d.startMs (s.observedTimings d.id).startMs / 1000
  clamp 0 100000 (satMulInt (if (seconds : ℤ) ≤ Words.i64Max then seconds else 0)
    (if (max rate 1 : ℕ) ≤ Words.i64Max then (max rate 1 : ℕ) else 1))

def stalenessTerm (idle : ℕ) : ℤ :=
  if idle = u64Max then 50000
  else clamp 0 50000 (min idle stalenessHorizonMs * 50000 / stalenessHorizonMs : ℕ)

/-- What a resident deployment is worth keeping. -/
def retentionValue (d : Deployment) (capability : Option Capability) (demand : DemandSnapshot)
    (s : FleetSnapshot) : ℤ :=
  let rate := demand.rate capability
  let queued := (capability.map demand.queued).getD 0
  let idle := demand.idle d.id
  let terms := [queueTerm queued, recencyTerm idle, restoreTerm d rate s,
    clamp (-100000) 100000 d.retentionWeight, -stalenessTerm idle]
  terms.foldl satAddInt (demandTerm rate)

/-- What an incoming request is worth displacing something for. -/
def incomingValue (demand : DemandSnapshot) (context : PlanContext) : ℤ :=
  let queued := (context.capability.map fun c => max (demand.queued c) 1).getD 1
  satAddInt (satAddInt (demandTerm (demand.rate context.capability)) (queueTerm queued))
    (clamp (-100000) 100000 context.priorityBonus)

/-! ### Estimates -/

def timeToReadyMs (d : Deployment) (evictions : List Deployment) (fetchMs : ℕ) (s : FleetSnapshot) : ℕ :=
  let cost := satSum (evictions.map fun v =>
    satAdd u64Max (refineTiming v.drainMs (s.observedTimings v.id).drainMs)
      (refineTiming v.stopMs (s.observedTimings v.id).stopMs))
  satAdd u64Max (satAdd u64Max (satAdd u64Max cost fetchMs)
    (refineTiming d.startMs (s.observedTimings d.id).startMs))
    (refineTiming d.probeMs (s.observedTimings d.id).probeMs)

def assumedBytesPerSecond : ℕ := 50 * 1024 * 1024

def estimatedFetchMs (sizeBytes : ℕ) (s : FleetSnapshot) (d : DeploymentId) : ℕ :=
  match (s.observedTimings d).fetchMs with
  | some observed => observed
  | none => max (satMul u64Max (sizeBytes / assumedBytesPerSecond) 1000) 30000

/-- The memory a resident deployment is counted as freeing: the larger of what is declared of it and
what is observed. -/
def residentBytes (s : FleetSnapshot) (d : Deployment) : ℕ := max d.memoryBytes (s.observedMemory d.id)

/-! ### Evictions -/

/-- What may be stopped for `incoming`, dwell apart. -/
def evictionCandidate (s : FleetSnapshot) (incoming : Deployment) (policy : SwapPolicy) (d : Deployment) :
    Bool :=
  decide (d.id ≠ incoming.id) && (s.stateOf d.id).holdsMemory && !d.pinned && d.evictable &&
    (s.isRouterOwned d.id || policy.adoptUnmanaged) && !(s.stateOf d.id).isActivating &&
    !s.isComingUp d.id && !s.evicting d.id && decide (s.inflight d.id ≤ d.maxDrainableInflight)

def dwells (s : FleetSnapshot) (nowMs : ℕ) (d : Deployment) : Bool :=
  s.residentForMs d.id nowMs < d.minResidentMs

/-- By value, then by identifier. -/
def cheaper (value : Deployment → ℤ) (a b : Deployment) : Bool :=
  decide (value a < value b) || (decide (value a = value b) && decide (a.id ≤ b.id))

/-- Take candidates until they free enough, or there are as many as may be stopped. -/
def gather (s : FleetSnapshot) (required cap : ℕ) : List Deployment → List Deployment → ℕ →
    List Deployment × ℕ
  | [], set, freed => (set, freed)
  | d :: ds, set, freed =>
    if required ≤ freed ∨ cap ≤ set.length then (set, freed)
    else gather s required cap ds (set ++ [d]) (satAdd u64Max freed (residentBytes s d))

def selectEvictionSet (s : FleetSnapshot) (demand : DemandSnapshot) (incoming : Deployment) (pool : PoolId)
    (required : ℕ) (policy : SwapPolicy) (context : PlanContext) :
    Except ExclusionReason (List Deployment) :=
  let possible := (s.config.deploymentsInPool pool).filter (evictionCandidate s incoming policy)
  let candidates := possible.filter fun d => !dwells s context.nowMs d
  let value := fun d => retentionValue d (s.deploymentCapabilities d.id) demand s
  let sorted := candidates.insertionSort fun a b => cheaper value a b
  let chosen := gather s required (max policy.maxEvictionSet 1) sorted [] 0
  if chosen.2 < required then
    .error (if possible.any (dwells s context.nowMs) then .deploymentInDwell else .hostCapacityInsufficient)
  else .ok chosen.1

/-! ### Plans -/

/-- How many deployments of a host are on their way up. -/
def comingUpOn (s : FleetSnapshot) (host : HostId) : ℕ :=
  (s.config.deployments.filter fun d =>
    (s.config.acceleratorOf d).any (fun a => a.host = host) && s.isComingUp d.id).length

/-- What ends the planning before memory is looked at, in the order it is asked. -/
def gates (s : FleetSnapshot) (d : Deployment) (host : Host) (context : PlanContext) :
    List (Bool × PlanOutcome) :=
  let maxAge := (s.config.observationMaxAgeMs host.agent).getD 30000
  let budget := (s.activationBudget host.id).getD (s.config.policyFor host.id).maxActivationsPerHour
  [(!s.digestAgreed, .infeasible .fleetConfigurationMismatch),
    ((s.stateOf d.id).isServing, .alreadyResident),
    (!s.agentsReachable, .infeasible .fleetAgentUnavailable),
    (!s.beliefIsFresh context.nowMs maxAge, .infeasible .fleetStateStale),
    (s.isComingUp d.id, .alreadyActivating (timeToReadyMs d [] 0 s)),
    (s.evicting d.id, .infeasible .deploymentInDwell),
    (!context.mayActivate || !d.autostart, .infeasible .activationNotPermitted),
    (!host.state.admitsActivation, .infeasible .activationNotPermitted),
    ((s.cooldownUntilMs d.id).any fun until_ => context.nowMs < until_, .infeasible .deploymentInDwell),
    (budget = 0, .infeasible .activationBudgetExhausted),
    (max host.maxConcurrentActivations 1 ≤ comingUpOn s host.id, .infeasible .activationBudgetExhausted)]

def gate (s : FleetSnapshot) (d : Deployment) (host : Host) (context : PlanContext) : Option PlanOutcome :=
  ((gates s d host context).find? Prod.fst).map Prod.snd

/-- The step that gets the artifact to the host, and how long it takes. -/
def artifactSteps (s : FleetSnapshot) (d : Deployment) (host : Host) (context : PlanContext) :
    Except ExclusionReason (List PlanStep × ℕ) :=
  match d.artifact with
  | none => .ok ([], 0)
  | some id =>
    match s.config.artifact id with
    | none => .error .artifactUnavailable
    | some artifact =>
      if s.artifactReady id host.id then .ok ([], 0)
      else if artifact.arch ≠ host.arch then .error .artifactUnavailable
      else if !(s.config.policyFor host.id).allowFetch || !context.mayFetch then .error .artifactUnavailable
      else if s.freeDiskBytes host.id <
          satAdd u64Max artifact.sizeBytes (s.config.policyFor host.id).fetchDiskHeadroomBytes then
        .error .artifactUnavailable
      else
        let step := match s.copySource id host.id with
          | some source => PlanStep.copy id source host.id
          | none => .fetch id host.id
        .ok ([step], estimatedFetchMs artifact.sizeBytes s d.id)

/-- The evictions that make room, where there has to be made room. -/
def evictionsFor (s : FleetSnapshot) (demand : DemandSnapshot) (d : Deployment) (pool : PoolId)
    (policy : SwapPolicy) (context : PlanContext) : Except ExclusionReason (List Deployment) :=
  let required := d.memoryBytes - s.poolFreeBytes pool
  if required = 0 then .ok [] else selectEvictionSet s demand d pool required policy context

/-- Whether what comes in is worth the margin more than what goes. -/
def worthEvicting (s : FleetSnapshot) (demand : DemandSnapshot) (evictions : List Deployment)
    (policy : SwapPolicy) (context : PlanContext) : Bool :=
  let retained := (evictions.map fun v =>
    retentionValue v (s.deploymentCapabilities v.id) demand s).foldl satAddInt 0
  let required := satAddInt retained
    (satMulInt (max retained 0) policy.evictionMarginPermille / 1000)
  evictions.isEmpty || decide (required < incomingValue demand context)

def maxPlanSteps : ℕ := 8

def plan (s : FleetSnapshot) (demand : DemandSnapshot) (target : TargetId) (context : PlanContext) :
    PlanOutcome :=
  match s.config.deploymentForTarget target with
  | none => .alreadyResident
  | some d =>
    match s.config.acceleratorOf d with
    | none => .infeasible .hostCapacityInsufficient
    | some accelerator =>
      match s.config.host accelerator.host with
      | none => .infeasible .hostCapacityInsufficient
      | some host =>
        match gate s d host context with
        | some outcome => outcome
        | none =>
          match artifactSteps s d host context with
          | .error reason => .infeasible reason
          | .ok (transfer, fetchMs) =>
            match evictionsFor s demand d accelerator.pool (s.config.policyFor host.id) context with
            | .error reason => .infeasible reason
            | .ok evictions =>
              if !worthEvicting s demand evictions (s.config.policyFor host.id) context then
                .infeasible .evictionValueInsufficient
              else
                let steps := (evictions.map fun v => PlanStep.evict v.id) ++ transfer ++ [PlanStep.activate d.id]
                let eta := timeToReadyMs d evictions fetchMs s
                if maxPlanSteps < steps.length then .infeasible .hostCapacityInsufficient
                else if context.deadlineRemainingMs < satAdd u64Max eta context.requiredHeadroomMs then
                  .infeasible .activationExceedsDeadline
                else .plan ⟨d.id, host.id, steps, eta⟩

/-! ### Revalidation -/

/-- The deployments of a plan's evictions. -/
def victims (s : FleetSnapshot) (p : Plan) : List Deployment := p.evictionSet.filterMap s.config.deployment

/-- The memory the victims are counted as freeing. -/
def freedBytes (s : FleetSnapshot) (p : Plan) : ℕ :=
  satSum (((victims s p).filter fun v => (s.stateOf v.id).holdsMemory).map (residentBytes s))

def revalidate (s : FleetSnapshot) (p : Plan) : Except ExclusionReason Unit :=
  match s.config.deployment p.deployment with
  | none => .error .hostCapacityInsufficient
  | some d =>
    if s.isComingUp d.id || s.evicting d.id then .error .activationBudgetExhausted
    else if (victims s p).length ≠ p.evictionSet.length then .error .hostCapacityInsufficient
    else if (victims s p).any fun v => s.evicting v.id || s.isComingUp v.id then
      .error .hostCapacityInsufficient
    else
      match s.config.acceleratorOf d with
      | none => .error .hostCapacityInsufficient
      | some accelerator =>
        if satAdd u64Max (s.poolFreeBytes accelerator.pool) (freedBytes s p) < d.memoryBytes then
          .error .hostCapacityInsufficient
        else .ok ()

/-- What a plan that is accepted again was found with. -/
structure Revalidated (s : FleetSnapshot) (p : Plan) (d : Deployment) (pool : PoolId) : Prop where
  cold : s.isComingUp d.id = false
  settled : ∀ v ∈ victims s p, s.evicting v.id = false ∧ s.isComingUp v.id = false
  enough : d.memoryBytes ≤ satAdd u64Max (s.poolFreeBytes pool) (freedBytes s p)

theorem revalidate_ok {s : FleetSnapshot} {p : Plan} {d : Deployment} {accelerator : Accelerator}
    (hd : s.config.deployment p.deployment = some d) (ha : s.config.acceleratorOf d = some accelerator)
    (h : revalidate s p = .ok ()) : Revalidated s p d accelerator.pool := by
  unfold revalidate at h
  rw [hd] at h
  dsimp only at h
  split at h
  · cases h
  · rename_i hfree
    split at h
    · cases h
    · split at h
      · cases h
      · rename_i hvictims
        rw [ha] at h
        dsimp only at h
        split at h
        · cases h
        · rename_i hfits
          rw [Bool.or_eq_true, not_or] at hfree
          refine ⟨by simpa using hfree.1, ?_, not_lt.1 hfits⟩
          intro v hv
          rw [Bool.not_eq_true, List.any_eq_false] at hvictims
          simpa using hvictims v hv

theorem victims_of_eq {s : FleetSnapshot} {p : Plan} {evictions : List Deployment}
    (h : p.evictionSet = evictions.map Deployment.id) (hmem : ∀ v ∈ evictions, v ∈ s.config.deployments) :
    victims s p = evictions := by
  rw [victims, h, List.filterMap_map]
  have hsome : ∀ v ∈ evictions, (s.config.deployment ∘ Deployment.id) v = some v :=
    fun v hv => s.config.deployment_of_mem (hmem v hv)
  rw [List.filterMap_congr hsome, List.filterMap_some]

/-! ### What the planner chooses -/

/-- What is taken, and that with fewer there was not enough. -/
theorem gather_eq (s : FleetSnapshot) (required cap : ℕ) (ds set : List Deployment) (freed : ℕ) :
    ∃ taken, taken <+: ds ∧ taken.length ≤ cap - set.length ∧
      (∀ fewer, fewer <+: taken → fewer ≠ taken →
        (fewer.map (residentBytes s)).foldl (satAdd u64Max) freed < required) ∧
      gather s required cap ds set freed =
        (set ++ taken, (taken.map (residentBytes s)).foldl (satAdd u64Max) freed) := by
  have hnone : ∀ fewer : List Deployment, fewer <+: [] → fewer ≠ [] →
      (fewer.map (residentBytes s)).foldl (satAdd u64Max) freed < required :=
    fun fewer hfewer hne => absurd (List.prefix_nil.1 hfewer) hne
  induction ds generalizing set freed with
  | nil => exact ⟨[], List.nil_prefix, Nat.zero_le _, hnone, by rw [gather, List.append_nil]; rfl⟩
  | cons d ds ih =>
    rw [gather]
    split
    · exact ⟨[], List.nil_prefix, Nat.zero_le _, hnone, by rw [List.append_nil]; rfl⟩
    · rename_i hmore
      rw [not_or, not_le, not_le] at hmore
      obtain ⟨taken, hpre, hlength, hleast, heq⟩ := ih (set ++ [d]) (satAdd u64Max freed (residentBytes s d))
        fun fewer hfewer hne => absurd (List.prefix_nil.1 hfewer) hne
      refine ⟨d :: taken, List.cons_prefix_cons.2 ⟨rfl, hpre⟩, ?_, ?_, ?_⟩
      · rw [List.length_append, List.length_singleton] at hlength
        rw [List.length_cons]
        omega
      · intro fewer hfewer hne
        cases fewer with
        | nil => exact hmore.1
        | cons d' fewer =>
          obtain ⟨rfl, hrest⟩ := List.cons_prefix_cons.1 hfewer
          exact hleast fewer hrest fun hsame => hne (by rw [hsame])
      · rw [heq, List.append_assoc]
        rfl

/-- What may be stopped now. -/
def eligible (s : FleetSnapshot) (incoming : Deployment) (pool : PoolId) (policy : SwapPolicy)
    (nowMs : ℕ) : List Deployment :=
  ((s.config.deploymentsInPool pool).filter (evictionCandidate s incoming policy)).filter
    fun d => !dwells s nowMs d

theorem nodup_eligible {s : FleetSnapshot} {incoming : Deployment} {pool : PoolId} {policy : SwapPolicy}
    {nowMs : ℕ} : (eligible s incoming pool policy nowMs).Nodup :=
  (((List.Nodup.of_map _ s.config.deployments_nodup).filter _).filter _).filter _

/-- What keeping a deployment is worth, by the capability it serves. -/
def keepingValue (s : FleetSnapshot) (demand : DemandSnapshot) (d : Deployment) : ℤ :=
  retentionValue d (s.deploymentCapabilities d.id) demand s

/-- **What is chosen for eviction**: the cheapest of what may be stopped, as many as it takes and no
more. -/
structure Chosen (s : FleetSnapshot) (demand : DemandSnapshot) (incoming : Deployment) (pool : PoolId)
    (required : ℕ) (policy : SwapPolicy) (nowMs : ℕ) (set : List Deployment) : Prop where
  cheapest : set <+: (eligible s incoming pool policy nowMs).insertionSort fun a b =>
    cheaper (keepingValue s demand) a b
  few : set.length ≤ max policy.maxEvictionSet 1
  least : ∀ fewer, fewer <+: set → fewer ≠ set → satSum (fewer.map (residentBytes s)) < required
  enough : required ≤ satSum (set.map (residentBytes s))

theorem selectEvictionSet_ok {s : FleetSnapshot} {demand : DemandSnapshot} {incoming : Deployment}
    {pool : PoolId} {required : ℕ} {policy : SwapPolicy} {context : PlanContext} {set : List Deployment}
    (h : selectEvictionSet s demand incoming pool required policy context = .ok set) :
    Chosen s demand incoming pool required policy context.nowMs set := by
  rw [selectEvictionSet] at h
  split at h
  · cases h
  · rename_i henough
    obtain ⟨taken, hpre, hlength, hleast, heq⟩ := gather_eq s required (max policy.maxEvictionSet 1) _ [] 0
    rw [heq] at h henough
    obtain rfl : taken = set := Except.ok.inj h
    exact ⟨hpre, hlength, hleast, not_lt.1 henough⟩

namespace Chosen

variable {s : FleetSnapshot} {demand : DemandSnapshot} {incoming : Deployment} {pool : PoolId} {required : ℕ}
variable {policy : SwapPolicy} {nowMs : ℕ} {set : List Deployment}

theorem mem_eligible (h : Chosen s demand incoming pool required policy nowMs set) {v : Deployment}
    (hv : v ∈ set) : v ∈ eligible s incoming pool policy nowMs :=
  (List.perm_insertionSort ..).mem_iff.1 (h.cheapest.subset hv)

theorem nodup (h : Chosen s demand incoming pool required policy nowMs set) : set.Nodup :=
  h.cheapest.sublist.nodup ((List.perm_insertionSort ..).nodup_iff.2 nodup_eligible)

end Chosen

/-- What is stopped for a plan, and why that is counted as enough. -/
structure Evictions (s : FleetSnapshot) (d : Deployment) (pool : PoolId) (evictions : List Deployment) :
    Prop where
  inPool : ∀ v ∈ evictions, v ∈ s.config.deploymentsInPool pool
  holds : ∀ v ∈ evictions, (s.stateOf v.id).holdsMemory = true
  settled : ∀ v ∈ evictions, s.isComingUp v.id = false ∧ s.evicting v.id = false
  other : ∀ v ∈ evictions, v.id ≠ d.id
  nodup : evictions.Nodup
  enough : d.memoryBytes - s.poolFreeBytes pool ≤ satSum (evictions.map (residentBytes s))

theorem evictionsFor_ok {s : FleetSnapshot} {demand : DemandSnapshot} {d : Deployment} {pool : PoolId}
    {policy : SwapPolicy} {context : PlanContext} {set : List Deployment}
    (h : evictionsFor s demand d pool policy context = .ok set) :
    Chosen s demand d pool (d.memoryBytes - s.poolFreeBytes pool) policy context.nowMs set := by
  rw [evictionsFor] at h
  split at h
  · rename_i hnone
    obtain rfl := Except.ok.inj h
    exact ⟨ List.nil_prefix, Nat.zero_le _, fun fewer hfewer hne => absurd (List.prefix_nil.1 hfewer) hne,
      hnone.le⟩
  · exact selectEvictionSet_ok h

theorem Chosen.evictions {s : FleetSnapshot} {demand : DemandSnapshot} {d : Deployment} {pool : PoolId}
    {policy : SwapPolicy} {nowMs : ℕ} {set : List Deployment}
    (h : Chosen s demand d pool (d.memoryBytes - s.poolFreeBytes pool) policy nowMs set) :
    Evictions s d pool set := by
  have hcandidate : ∀ v ∈ set, v ∈ s.config.deploymentsInPool pool ∧ v.id ≠ d.id ∧
      (s.stateOf v.id).holdsMemory = true ∧ s.isComingUp v.id = false ∧ s.evicting v.id = false := by
    intro v hv
    obtain ⟨hpool, hv'⟩ := List.mem_filter.1 (List.mem_filter.1 (h.mem_eligible hv)).1
    simp only [evictionCandidate, Bool.and_eq_true, decide_eq_true_eq, Bool.not_eq_true'] at hv'
    exact ⟨hpool, hv'.1.1.1.1.1.1.1.1, hv'.1.1.1.1.1.1.1.2, hv'.1.1.2, hv'.1.2⟩
  exact ⟨fun v hv => (hcandidate v hv).1, fun v hv => (hcandidate v hv).2.2.1,
    fun v hv => (hcandidate v hv).2.2.2, fun v hv => (hcandidate v hv).2.1, h.nodup, h.enough⟩

theorem gate_none {s : FleetSnapshot} {d : Deployment} {host : Host} {context : PlanContext}
    (h : gate s d host context = none) : s.isComingUp d.id = false ∧ s.evicting d.id = false := by
  have hall := List.find?_eq_none.1 (Option.map_eq_none_iff.1 h)
  simp only [gates, List.forall_mem_cons, Bool.not_eq_true] at hall
  exact ⟨hall.2.2.2.2.1, hall.2.2.2.2.2.1⟩

/-- No plan is made before memory is looked at. -/
theorem gate_not_plan {s : FleetSnapshot} {d : Deployment} {host : Host} {context : PlanContext} {p : Plan} :
    gate s d host context ≠ some (.plan p) := by
  intro h
  obtain ⟨e, he, hplan⟩ := Option.map_eq_some_iff.1 h
  have hmem := List.mem_of_find?_eq_some he
  have hnone : ∀ x ∈ gates s d host context, x.2 ≠ .plan p := by
    simp [gates]
  exact hnone e hmem hplan

theorem artifactSteps_ok {s : FleetSnapshot} {d : Deployment} {host : Host} {context : PlanContext}
    {transfer : List PlanStep} {fetchMs : ℕ} (h : artifactSteps s d host context = .ok (transfer, fetchMs)) :
    transfer = [] ∨ (∃ a, transfer = [.fetch a host.id]) ∨ ∃ a source, transfer = [.copy a source host.id] := by
  unfold artifactSteps at h
  repeat' split at h
  all_goals cases h
  · exact .inl rfl
  · exact .inl rfl
  · exact .inr (.inr ⟨_, _, rfl⟩)
  · exact .inr (.inl ⟨_, rfl⟩)

/-- What a plan is made of, from one step of the planner to the next. -/
structure Found (s : FleetSnapshot) (demand : DemandSnapshot) (target : TargetId) (context : PlanContext)
    (p : Plan) (d : Deployment) (accelerator : Accelerator) (host : Host) (transfer : List PlanStep)
    (fetchMs : ℕ) (evictions : List Deployment) : Prop where
  targeted : s.config.deploymentForTarget target = some d
  placed : s.config.acceleratorOf d = some accelerator
  hosted : s.config.host accelerator.host = some host
  opened : gate s d host context = none
  acquired : artifactSteps s d host context = .ok (transfer, fetchMs)
  chosen : evictionsFor s demand d accelerator.pool (s.config.policyFor host.id) context = .ok evictions
  worth : worthEvicting s demand evictions (s.config.policyFor host.id) context = true
  made : p = ⟨d.id, host.id, (evictions.map fun v => PlanStep.evict v.id) ++ transfer ++ [PlanStep.activate d.id],
    timeToReadyMs d evictions fetchMs s⟩
  short : p.steps.length ≤ maxPlanSteps
  inTime : satAdd u64Max p.etaMs context.requiredHeadroomMs ≤ context.deadlineRemainingMs

/-- **The plans that are made.** -/
theorem plan_found {s : FleetSnapshot} {demand : DemandSnapshot} {target : TargetId} {context : PlanContext}
    {p : Plan} (h : plan s demand target context = .plan p) :
    ∃ d accelerator host transfer fetchMs evictions,
      Found s demand target context p d accelerator host transfer fetchMs evictions := by
  unfold plan at h
  split at h
  · cases h
  · rename_i d htarget
    split at h
    · cases h
    · rename_i accelerator haccelerator
      split at h
      · cases h
      · rename_i host hhost
        split at h
        · rename_i outcome hgate
          rw [h] at hgate
          exact absurd hgate gate_not_plan
        · rename_i hgate
          split at h
          · cases h
          · rename_i transfer fetchMs hartifact
            split at h
            · cases h
            · rename_i evictions hevictions
              split at h
              · cases h
              · rename_i hworth
                dsimp only at h
                split at h
                · cases h
                · rename_i hshort
                  split at h
                  · cases h
                  · rename_i hlate
                    obtain rfl := PlanOutcome.plan.inj h
                    rw [Bool.not_eq_true, Bool.not_eq_false'] at hworth
                    exact ⟨d, accelerator, host, transfer, fetchMs, evictions, htarget, haccelerator, hhost,
                      hgate, hartifact, hevictions, hworth, rfl, not_lt.1 hshort, not_lt.1 hlate⟩

theorem Found.evictionSet {s : FleetSnapshot} {demand : DemandSnapshot} {target : TargetId}
    {context : PlanContext} {p : Plan} {d : Deployment} {accelerator : Accelerator} {host : Host}
    {transfer : List PlanStep} {fetchMs : ℕ} {evictions : List Deployment}
    (h : Found s demand target context p d accelerator host transfer fetchMs evictions) :
    p.evictionSet = evictions.map Deployment.id := by
  obtain rfl := h.made
  rcases artifactSteps_ok h.acquired with rfl | ⟨a, rfl⟩ | ⟨a, source, rfl⟩ <;>
    simp [Plan.evictionSet, List.filterMap_map]

theorem plan_cases {s : FleetSnapshot} {demand : DemandSnapshot} {target : TargetId} {context : PlanContext}
    {p : Plan} (h : plan s demand target context = .plan p) :
    ∃ d accelerator evictions, s.config.deployment p.deployment = some d ∧
      s.config.acceleratorOf d = some accelerator ∧ s.isComingUp d.id = false ∧ s.evicting d.id = false ∧
      p.evictionSet = evictions.map Deployment.id ∧ Evictions s d accelerator.pool evictions := by
  obtain ⟨d, accelerator, host, transfer, fetchMs, evictions, hfound⟩ := plan_found h
  have hmem := List.mem_of_find?_eq_some hfound.targeted
  have hid : p.deployment = d.id := by rw [hfound.made]
  obtain ⟨hcold, hfree⟩ := gate_none hfound.opened
  refine ⟨d, accelerator, evictions, hid ▸ s.config.deployment_of_mem hmem, hfound.placed, hcold, hfree,
    hfound.evictionSet, (evictionsFor_ok hfound.chosen).evictions⟩

end HypeLlm.Fleet
