import HypeLlm.Fleet.Planning

/-!
# What a plan is made of

Every plan has passed about twenty checks, in three functions and over several maps.  `plan_found` says
which steps of the planner it came through; here each step is read for what it checked.

* `evictionKey_pairwise` — deployments are stopped in the order of what they are worth and of their
  identifiers;
* `worth_exact` — what is compared are the sums themselves: no word is filled on the way;
* **`plan_safe`** — what holds of every plan;
* **`plan_least`** — with fewer of the victims, from the first on, not enough is freed;
* `SafetySample.cheap_victim_needless` — which does not make every victim needed.
-/

namespace HypeLlm.Fleet

open HypeLlm.Words HypeLlm.Routing

/-! ### The order of evictions -/

/-- What orders deployments for eviction. -/
def evictionKey (value : Deployment → ℤ) (d : Deployment) : ℤ ×ₗ DeploymentId := toLex (value d, d.id)

theorem cheaper_iff {value : Deployment → ℤ} {a b : Deployment} :
    cheaper value a b = true ↔ evictionKey value a ≤ evictionKey value b := by
  simp [cheaper, evictionKey, Prod.Lex.toLex_le_toLex]

theorem evictionKey_pairwise (value : Deployment → ℤ) (l : List Deployment) :
    (l.insertionSort fun a b => cheaper value a b).Pairwise
      fun a b => evictionKey value a ≤ evictionKey value b := by
  have htrans : IsTrans Deployment fun a b => cheaper value a b = true :=
    ⟨fun a b c hab hbc => cheaper_iff.2 ((cheaper_iff.1 hab).trans (cheaper_iff.1 hbc))⟩
  have htotal : Std.Total fun a b => cheaper value a b = true :=
    ⟨fun a b => by rw [cheaper_iff, cheaper_iff]; exact le_total _ _⟩
  exact (List.pairwise_insertionSort _ l).imp cheaper_iff.1

/-! ### Values -/

theorem satAddInt_eq {a b : ℤ} (h : |a| + |b| ≤ Words.i64Max) : satAddInt a b = a + b := by
  rw [satAddInt]
  have ha := abs_le.1 (le_refl |a|)
  have hb := abs_le.1 (le_refl |b|)
  omega

/-- Sums of small numbers stay within the word. -/
theorem foldl_satAddInt {bound : ℤ} {values : List ℤ} {a : ℤ} (hvalues : ∀ v ∈ values, |v| ≤ bound)
    (h : |a| + bound * values.length ≤ Words.i64Max) : values.foldl satAddInt a = a + values.sum := by
  induction values generalizing a with
  | nil => simp
  | cons v values ih =>
    have hv := hvalues v List.mem_cons_self
    have hlength : 0 ≤ bound * values.length :=
      mul_nonneg ((abs_nonneg v).trans hv) (Int.natCast_nonneg _)
    rw [List.length_cons, Nat.cast_add, Nat.cast_one, mul_add, mul_one] at h
    have hsum : satAddInt a v = a + v := satAddInt_eq (by linarith)
    have hadd := abs_add_le a v
    rw [List.foldl_cons, hsum, ih (fun w hw => hvalues w (List.mem_cons_of_mem v hw)) (by linarith),
      List.sum_cons, add_assoc]

theorem abs_sum_le {bound : ℤ} {values : List ℤ} (hvalues : ∀ v ∈ values, |v| ≤ bound) :
    |values.sum| ≤ bound * values.length := by
  induction values with
  | nil => simp
  | cons v values ih =>
    have hv := hvalues v List.mem_cons_self
    have hrest := ih fun w hw => hvalues w (List.mem_cons_of_mem v hw)
    have hadd := abs_add_le v values.sum
    rw [List.sum_cons, List.length_cons, Nat.cast_add, Nat.cast_one]
    linarith

theorem abs_foldl_satAddInt_le {bound : ℤ} {values : List ℤ} {a : ℤ} (hvalues : ∀ v ∈ values, |v| ≤ bound)
    (h : |a| + bound * values.length ≤ Words.i64Max) :
    |values.foldl satAddInt a| ≤ |a| + bound * values.length := by
  have hadd := abs_add_le a values.sum
  have hsum := abs_sum_le hvalues
  rw [foldl_satAddInt hvalues h]
  linarith

theorem abs_clamp_le {low high v bound : ℤ} (hle : low ≤ high) (hlow : -bound ≤ low) (hhigh : high ≤ bound) :
    |clamp low high v| ≤ bound := by
  rw [clamp, abs_le]
  omega

/-- What any one deployment is worth, at most. -/
def maxRetention : ℤ := 600000

theorem abs_retentionValue_le (d : Deployment) (capability : Option Capability) (demand : DemandSnapshot)
    (s : FleetSnapshot) : |retentionValue d capability demand s| ≤ maxRetention := by
  have hdemand : |demandTerm (demand.rate capability)| ≤ 100000 :=
    abs_clamp_le (by decide) (by decide) (by decide)
  have hterms : ∀ v ∈ [queueTerm ((capability.map demand.queued).getD 0), recencyTerm (demand.idle d.id),
      restoreTerm d (demand.rate capability) s, clamp (-100000) 100000 d.retentionWeight,
      -stalenessTerm (demand.idle d.id)], |v| ≤ 100000 := by
    intro v hv
    simp only [List.mem_cons, List.not_mem_nil, or_false] at hv
    obtain rfl | rfl | rfl | rfl | rfl := hv
    · exact abs_clamp_le (by decide) (by decide) (by decide)
    · rw [recencyTerm]
      split
      · decide
      · exact abs_clamp_le (by decide) (by decide) (by decide)
    · exact abs_clamp_le (by decide) (by decide) (by decide)
    · exact abs_clamp_le (by decide) (by decide) (by decide)
    · rw [abs_neg, stalenessTerm]
      split
      · decide
      · exact abs_clamp_le (by decide) (by decide) (by decide)
  rw [retentionValue]
  refine (abs_foldl_satAddInt_le hterms ?_).trans ?_
  · simp only [List.length_cons, List.length_nil, Words.i64Max]
    norm_num
    linarith
  · simp only [List.length_cons, List.length_nil, maxRetention]
    norm_num
    linarith

theorem incomingValue_le (demand : DemandSnapshot) (context : PlanContext) :
    incomingValue demand context ≤ maxRetention := by
  have hdemand : |demandTerm (demand.rate context.capability)| ≤ 100000 :=
    abs_clamp_le (by decide) (by decide) (by decide)
  have hqueue : ∀ n, |queueTerm n| ≤ 100000 := fun n => abs_clamp_le (by decide) (by decide) (by decide)
  have hbonus : |clamp (-100000) 100000 context.priorityBonus| ≤ 100000 :=
    abs_clamp_le (by decide) (by decide) (by decide)
  rw [incomingValue]
  generalize (context.capability.map fun c => max (demand.queued c) 1).getD 1 = queued
  have hq := hqueue queued
  have hsum := abs_add_le (demandTerm (demand.rate context.capability)) (queueTerm queued)
  have hfirst : satAddInt (demandTerm (demand.rate context.capability)) (queueTerm queued) =
      demandTerm (demand.rate context.capability) + queueTerm queued :=
    satAddInt_eq (by rw [Words.i64Max]; linarith)
  rw [hfirst, satAddInt_eq (by rw [Words.i64Max]; linarith), maxRetention]
  have h₁ := (abs_le.1 hdemand).2
  have h₂ := (abs_le.1 hq).2
  have h₃ := (abs_le.1 hbonus).2
  linarith

/-- What the victims are worth together. -/
def retainedValue (s : FleetSnapshot) (demand : DemandSnapshot) (evictions : List Deployment) : ℤ :=
  (evictions.map (keepingValue s demand)).sum

/-- **What is compared are the sums themselves.** -/
theorem worth_exact {s : FleetSnapshot} {demand : DemandSnapshot} {evictions : List Deployment}
    {policy : SwapPolicy} {context : PlanContext} (hne : evictions ≠ [])
    (hfew : evictions.length ≤ maxPlanSteps)
    (h : worthEvicting s demand evictions policy context = true) :
    retainedValue s demand evictions +
        max (retainedValue s demand evictions) 0 * policy.evictionMarginPermille / 1000 <
      incomingValue demand context := by
  have hvalues : ∀ v ∈ evictions.map (keepingValue s demand), |v| ≤ maxRetention := by
    intro v hv
    obtain ⟨d, -, rfl⟩ := List.mem_map.1 hv
    exact abs_retentionValue_le _ _ _ _
  have hlength : ((evictions.map (keepingValue s demand)).length : ℤ) ≤ 8 := by
    rw [List.length_map]
    exact_mod_cast hfew
  have hfold : (evictions.map (keepingValue s demand)).foldl satAddInt 0 = retainedValue s demand evictions := by
    rw [foldl_satAddInt hvalues, zero_add, retainedValue]
    rw [abs_zero, maxRetention, Words.i64Max]
    linarith
  have habs : |retainedValue s demand evictions| ≤ maxRetention * 8 := by
    refine (abs_sum_le hvalues).trans ?_
    rw [maxRetention]
    linarith
  have hincoming := incomingValue_le demand context
  have hempty : evictions.isEmpty = false := by
    rw [List.isEmpty_eq_false_iff]
    exact hne
  rw [worthEvicting, hempty, Bool.false_or, decide_eq_true_eq] at h
  change satAddInt ((evictions.map (keepingValue s demand)).foldl satAddInt 0) (satMulInt
    (max ((evictions.map (keepingValue s demand)).foldl satAddInt 0) 0) _ / 1000) < _ at h
  rw [hfold] at h
  generalize retainedValue s demand evictions = retained at h habs ⊢
  generalize incomingValue demand context = incoming at h hincoming ⊢
  rw [satMulInt, clamp, satAddInt] at h
  have hmargin : 0 ≤ max retained 0 * (policy.evictionMarginPermille : ℤ) :=
    mul_nonneg (le_max_right ..) (Int.natCast_nonneg _)
  generalize max retained 0 * (policy.evictionMarginPermille : ℤ) = margin at h hmargin ⊢
  rw [abs_le] at habs
  rw [maxRetention] at habs hincoming
  rw [Words.i64Max] at h
  omega

/-! ### What the planner asked -/

/-- Why a deployment may be stopped for another. -/
structure Victim (s : FleetSnapshot) (d : Deployment) (pool : PoolId) (policy : SwapPolicy) (nowMs : ℕ)
    (v : Deployment) : Prop where
  inPool : v ∈ s.config.deploymentsInPool pool
  other : v.id ≠ d.id
  holds : (s.stateOf v.id).holdsMemory = true
  evictable : v.evictable = true
  unpinned : v.pinned = false
  owned : s.isRouterOwned v.id = true ∨ policy.adoptUnmanaged = true
  settled : s.isComingUp v.id = false
  free : s.evicting v.id = false
  drainable : s.inflight v.id ≤ v.maxDrainableInflight
  resided : v.minResidentMs ≤ s.residentForMs v.id nowMs

theorem victim_of_eligible {s : FleetSnapshot} {d : Deployment} {pool : PoolId} {policy : SwapPolicy}
    {nowMs : ℕ} {v : Deployment} (h : v ∈ eligible s d pool policy nowMs) : Victim s d pool policy nowMs v := by
  obtain ⟨hcandidate, hdwells⟩ := List.mem_filter.1 h
  obtain ⟨hpool, hcandidate⟩ := List.mem_filter.1 hcandidate
  simp only [evictionCandidate, Bool.and_eq_true, Bool.or_eq_true, Bool.not_eq_true',
    decide_eq_true_eq] at hcandidate
  obtain ⟨⟨⟨⟨⟨⟨⟨⟨hother, hholds⟩, hpinned⟩, hevictable⟩, howned⟩, -⟩, hsettled⟩, hfree⟩, hdrainable⟩ :=
    hcandidate
  refine ⟨hpool, hother, hholds, hevictable, hpinned, howned, hsettled, hfree, hdrainable, ?_⟩
  simpa [dwells] using hdwells

/-- What was asked before the artifact and the memory were looked at. -/
structure Admitted (s : FleetSnapshot) (d : Deployment) (host : Host) (context : PlanContext) : Prop where
  agreed : s.digestAgreed = true
  cold : (s.stateOf d.id).isServing = false
  reachable : s.agentsReachable = true
  observed : s.observed = true
  fresh : context.nowMs - s.observedAtMs ≤ (s.config.observationMaxAgeMs host.agent).getD 30000
  idle : s.isComingUp d.id = false
  free : s.evicting d.id = false
  permitted : context.mayActivate = true ∧ d.autostart = true ∧ host.state.admitsActivation = true
  cooled : ∀ untilMs, s.cooldownUntilMs d.id = some untilMs → untilMs ≤ context.nowMs
  budget : (s.activationBudget host.id).getD (s.config.policyFor host.id).maxActivationsPerHour ≠ 0
  slot : comingUpOn s host.id < max host.maxConcurrentActivations 1

theorem admitted_of_gate {s : FleetSnapshot} {d : Deployment} {host : Host} {context : PlanContext}
    (h : gate s d host context = none) : Admitted s d host context := by
  have hall := List.find?_eq_none.1 (Option.map_eq_none_iff.1 h)
  simp only [gates, List.forall_mem_cons, Bool.not_eq_true, Bool.not_eq_false', decide_eq_false_iff_not,
    Bool.or_eq_false_iff] at hall
  obtain ⟨hagreed, hcold, hreachable, hfresh, hidle, hfree, ⟨hmay, hauto⟩, hhost, hcooldown, hbudget, hslot,
    -⟩ := hall
  have hage : s.observed = true ∧
      context.nowMs - s.observedAtMs ≤ (s.config.observationMaxAgeMs host.agent).getD 30000 := by
    rw [FleetSnapshot.beliefIsFresh, FleetSnapshot.observationAgeMs] at hfresh
    split at hfresh
    · rename_i hobserved
      exact ⟨hobserved, of_decide_eq_true hfresh⟩
    · cases hfresh
  refine ⟨hagreed, hcold, hreachable, hage.1, hage.2, hidle, hfree, ⟨hmay, hauto, hhost⟩, ?_, hbudget,
    not_le.1 hslot⟩
  intro untilMs huntil
  rw [huntil] at hcooldown
  exact not_lt.1 (of_decide_eq_false hcooldown)

/-- A host has the image that an artifact is held to; where it is held to none, its agent vouches for
what it has. -/
structure Placed (s : FleetSnapshot) (artifact : ArtifactId) (host : HostId) (placement : Placement) :
    Prop where
  reported : s.inventory.artifacts artifact host = some placement
  present : placement.present = true
  verified : s.keptChecksum artifact = none → placement.verified = true
  exact : ∀ kept, s.keptChecksum artifact = some kept → placement.imageId = some kept

theorem placed_of_ready {s : FleetSnapshot} {artifact : ArtifactId} {host : HostId}
    (h : s.artifactReady artifact host = true) : ∃ placement, Placed s artifact host placement := by
  rw [FleetSnapshot.artifactReady] at h
  split at h
  · cases h
  · rename_i placement hreported
    obtain ⟨hpresent, hchecked⟩ := Bool.and_eq_true_iff.1 h
    refine ⟨placement, hreported, hpresent, ?_, ?_⟩
    · intro hnone
      rwa [hnone] at hchecked
    · intro kept hkept
      rw [hkept] at hchecked
      exact of_decide_eq_true hchecked

/-- A host that an artifact is copied from. -/
structure Source (s : FleetSnapshot) (artifact : Artifact) (id : ArtifactId) (dest : HostId) (source : Host) :
    Prop where
  known : source ∈ s.config.hosts
  other : source.id ≠ dest
  arch : source.arch = artifact.arch
  serves : source.state.admitsTraffic = true
  reachable : ∃ o, s.inventory.hosts source.id = some o ∧ o.reachable = true
  exact : ∃ kept placement, s.keptChecksum id = some kept ∧
    s.inventory.artifacts id source.id = some placement ∧ placement.present = true ∧
      placement.imageId = some kept

theorem source_of_copySource {s : FleetSnapshot} {id : ArtifactId} {artifact : Artifact} {dest source : HostId}
    (hartifact : s.config.artifact id = some artifact) (h : s.copySource id dest = some source) :
    ∃ host, host.id = source ∧ Source s artifact id dest host := by
  rw [FleetSnapshot.copySource, hartifact] at h
  cases hkept : s.keptChecksum id with
  | none =>
    rw [hkept] at h
    cases h
  | some kept =>
    rw [hkept, Option.bind_eq_bind, Option.bind_some, Option.bind_eq_bind, Option.bind_some] at h
    obtain ⟨host, hhost, hsource⟩ := Option.bind_eq_some_iff.1 h
    have hmatch := List.find?_some hhost
    simp only [Bool.and_eq_true, decide_eq_true_eq] at hmatch
    obtain ⟨⟨⟨⟨hother, harch⟩, hserves⟩, hreachable⟩, hready⟩ := hmatch
    obtain ⟨placement, hplaced⟩ := placed_of_ready hready
    refine ⟨host, Option.some.inj hsource, List.mem_of_find?_eq_some hhost, hother, harch, hserves, ?_,
      kept, placement, hkept, hplaced.reported, hplaced.present, hplaced.exact kept hkept⟩
    exact (Option.any_eq_true _ _).1 hreachable

/-- An artifact may be brought to a host, by this step. -/
structure Transferred (s : FleetSnapshot) (artifact : Artifact) (id : ArtifactId) (host : Host)
    (context : PlanContext) (step : PlanStep) : Prop where
  arch : artifact.arch = host.arch
  permitted : (s.config.policyFor host.id).allowFetch = true ∧ context.mayFetch = true
  disk : satAdd u64Max artifact.sizeBytes (s.config.policyFor host.id).fetchDiskHeadroomBytes ≤
    s.freeDiskBytes host.id
  step : step = .fetch id host.id ∨
    ∃ source, step = .copy id source.id host.id ∧ Source s artifact id host.id source

/-- How a deployment comes to its artifact. -/
inductive Acquired (s : FleetSnapshot) (d : Deployment) (host : Host) (context : PlanContext) :
    List PlanStep → Prop
  | needless : d.artifact = none → Acquired s d host context []
  | ready {id : ArtifactId} {artifact : Artifact} {placement : Placement} : d.artifact = some id →
      s.config.artifact id = some artifact → Placed s id host.id placement → Acquired s d host context []
  | transfer {id : ArtifactId} {artifact : Artifact} {step : PlanStep} : d.artifact = some id →
      s.config.artifact id = some artifact → Transferred s artifact id host context step →
      Acquired s d host context [step]

theorem acquired_of_artifactSteps {s : FleetSnapshot} {d : Deployment} {host : Host} {context : PlanContext}
    {transfer : List PlanStep} {fetchMs : ℕ} (h : artifactSteps s d host context = .ok (transfer, fetchMs)) :
    Acquired s d host context transfer := by
  rw [artifactSteps] at h
  split at h
  · rename_i hnone
    cases h
    exact .needless hnone
  · rename_i id hid
    split at h
    · cases h
    · rename_i artifact hartifact
      split at h
      · rename_i hready
        obtain ⟨placement, hplaced⟩ := placed_of_ready hready
        cases h
        exact .ready hid hartifact hplaced
      · split at h
        · cases h
        · rename_i harch
          split at h
          · cases h
          · rename_i hpermitted
            split at h
            · cases h
            · rename_i hdisk
              rw [Bool.or_eq_true, not_or, Bool.not_eq_true', Bool.not_eq_true', Bool.not_eq_false,
                Bool.not_eq_false] at hpermitted
              dsimp only at h
              cases h
              refine .transfer hid hartifact ⟨not_not.1 harch, hpermitted, not_lt.1 hdisk, ?_⟩
              split
              · rename_i source hsource
                obtain ⟨host', rfl, hfrom⟩ := source_of_copySource hartifact hsource
                exact .inr ⟨host', rfl, hfrom⟩
              · exact .inl rfl

/-! ### Every plan -/

/-- What holds of a plan that makes a deployment ready for a target. -/
structure SafePlan (s : FleetSnapshot) (demand : DemandSnapshot) (target : TargetId) (context : PlanContext)
    (p : Plan) (d : Deployment) (accelerator : Accelerator) (host : Host) (transfer : List PlanStep)
    (evictions : List Deployment) : Prop where
  known : d ∈ s.config.deployments
  targeted : d.target = target
  placed : s.config.acceleratorOf d = some accelerator
  hosted : s.config.host accelerator.host = some host
  deployment : p.deployment = d.id ∧ p.host = host.id
  steps : p.steps = (evictions.map fun v => PlanStep.evict v.id) ++ transfer ++ [PlanStep.activate d.id]
  short : p.steps.length ≤ maxPlanSteps
  victims : ∀ v ∈ evictions, Victim s d accelerator.pool (s.config.policyFor host.id) context.nowMs v
  few : evictions.length ≤ max (s.config.policyFor host.id).maxEvictionSet 1
  cheapest : ∃ ranked,
    ranked.Perm (eligible s d accelerator.pool (s.config.policyFor host.id) context.nowMs) ∧
      ranked.Pairwise (fun a b => evictionKey (keepingValue s demand) a ≤ evictionKey (keepingValue s demand) b) ∧
        evictions <+: ranked
  worth : evictions ≠ [] → retainedValue s demand evictions + max (retainedValue s demand evictions) 0 *
    (s.config.policyFor host.id).evictionMarginPermille / 1000 < incomingValue demand context
  enough : d.memoryBytes - s.poolFreeBytes accelerator.pool ≤ satSum (evictions.map (residentBytes s))
  artifact : Acquired s d host context transfer
  admitted : Admitted s d host context
  inTime : satAdd u64Max p.etaMs context.requiredHeadroomMs ≤ context.deadlineRemainingMs

/-- **Every plan is safe**: it stops what may be stopped, the cheapest first and no more than is
permitted, for something that is worth it; it gets the artifact from where it may be had; it starts the
deployment of the target, once, on a host that has a slot and a budget; and it is in time. -/
theorem plan_safe {s : FleetSnapshot} {demand : DemandSnapshot} {target : TargetId} {context : PlanContext}
    {p : Plan} (h : plan s demand target context = .plan p) :
    ∃ d accelerator host transfer evictions,
      SafePlan s demand target context p d accelerator host transfer evictions := by
  obtain ⟨d, accelerator, host, transfer, fetchMs, evictions, hfound⟩ := plan_found h
  have hchosen := evictionsFor_ok hfound.chosen
  have hlength : evictions.length ≤ maxPlanSteps := by
    have hshort := hfound.short
    rw [hfound.made] at hshort
    simp only [List.length_append, List.length_map] at hshort
    omega
  refine ⟨d, accelerator, host, transfer, evictions, {
    known := List.mem_of_find?_eq_some hfound.targeted
    targeted := by simpa using List.find?_some hfound.targeted
    placed := hfound.placed
    hosted := hfound.hosted
    deployment := by rw [hfound.made]; exact ⟨rfl, rfl⟩
    steps := by rw [hfound.made]
    short := hfound.short
    victims := fun v hv => victim_of_eligible (hchosen.mem_eligible hv)
    few := hchosen.few
    cheapest := ⟨_, List.perm_insertionSort .., evictionKey_pairwise _ _, hchosen.cheapest⟩
    worth := fun hne => worth_exact hne hlength hfound.worth
    enough := hchosen.enough
    artifact := acquired_of_artifactSteps hfound.acquired
    admitted := admitted_of_gate hfound.opened
    inTime := hfound.inTime }⟩

/-- **No shorter beginning frees enough.**  The victims of a plan are taken, from the cheapest on, of those
that may be stopped; they free the memory that is wanting, and fewer of them, in that order, do not. -/
theorem plan_least {s : FleetSnapshot} {demand : DemandSnapshot} {target : TargetId} {context : PlanContext}
    {p : Plan} (h : plan s demand target context = .plan p) :
    ∃ d accelerator host, s.config.deployment p.deployment = some d ∧
      s.config.acceleratorOf d = some accelerator ∧ s.config.host accelerator.host = some host ∧
      (∃ ranked, ranked.Perm (eligible s d accelerator.pool (s.config.policyFor host.id) context.nowMs) ∧
        ranked.Pairwise (fun a b =>
          evictionKey (keepingValue s demand) a ≤ evictionKey (keepingValue s demand) b) ∧
        victims s p <+: ranked) ∧
      d.memoryBytes - s.poolFreeBytes accelerator.pool ≤ satSum ((victims s p).map (residentBytes s)) ∧
      ∀ fewer, fewer <+: victims s p → fewer ≠ victims s p →
        satSum (fewer.map (residentBytes s)) < d.memoryBytes - s.poolFreeBytes accelerator.pool := by
  obtain ⟨d, accelerator, host, transfer, fetchMs, evictions, hfound⟩ := plan_found h
  have hchosen := evictionsFor_ok hfound.chosen
  have hvictims : victims s p = evictions := victims_of_eq hfound.evictionSet fun v hv =>
    (List.mem_filter.1 (hchosen.evictions.inPool v hv)).1
  have hid : p.deployment = d.id := by rw [hfound.made]
  rw [hvictims]
  exact ⟨d, accelerator, host, hid ▸ s.config.deployment_of_mem (List.mem_of_find?_eq_some hfound.targeted),
    hfound.placed, hfound.hosted,
    ⟨_, List.perm_insertionSort .., evictionKey_pairwise _ _, hchosen.cheapest⟩, hchosen.enough, hchosen.least⟩

namespace SafetySample

theorem one_concurrent : 1 ≤ u32Max := by decide

/-- A deployment of some bytes on the one accelerator. -/
def dep (id : DeploymentId) (target : TargetId) (memoryBytes : ℕ) : Deployment :=
  ⟨id, target, "gpu", none, memoryBytes, 0, 0, 0, 0, 0, true, false, true, 0, 0⟩

/-- One accelerator of twenty bytes, full with five and fifteen, and a deployment of twelve. -/
def config : FleetConfig where
  hosts := [⟨"host", "agent", .x86_64, .enabled, 0, 1, one_concurrent⟩]
  accelerators := [⟨"gpu", "host", 20, "pool"⟩]
  deployments := [dep "large" "t.large" 15, dep "a.small" "t.small" 5, dep "new" "t.new" 12]
  artifacts := []
  observationMaxAgeMs _ := some 1000
  policyFor _ := ⟨6, 0, 4, false, 0, false⟩
  accelerators_nodup := by decide
  deployments_nodup := by decide

def snapshot : FleetSnapshot where
  config := config
  inventory :=
    { hosts := fun _ => some ⟨true, 0⟩
      accelerators := fun _ => some 20
      deployments := fun d =>
        if d = "large" then some ⟨.ready, 15, 0⟩ else if d = "a.small" then some ⟨.ready, 5, 0⟩ else none
      artifacts := fun _ _ => none }
  observedAtMs := 0
  observed := true
  leases _ := none
  evicting _ := false
  readySinceMs _ := none
  unmanaged _ := false
  cooldownUntilMs _ := none
  activationBudget _ := none
  observedTimings _ := .none
  digestAgreed := true
  agentsReachable := true
  deploymentCapabilities _ := none
  learnedChecksums _ := none

def demand : DemandSnapshot := ⟨fun _ => 0, fun _ => 0, fun _ => none⟩

def context : PlanContext := ⟨0, 1000, 1, 0, true, true, none, 100000⟩

def swap : Plan := ⟨"new", "host", [.evict "a.small", .evict "large", .activate "new"], 0⟩

theorem plan_eq : plan snapshot demand "t.new" context = .plan swap := by decide +kernel

/-- The swap is planned, and safe. -/
theorem swap_safe : plan snapshot demand "t.new" context = .plan swap ∧
    ∃ d accelerator host transfer evictions,
      SafePlan snapshot demand "t.new" context swap d accelerator host transfer evictions :=
  ⟨plan_eq, plan_safe plan_eq⟩

theorem swap_least : plan snapshot demand "t.new" context = .plan swap ∧
    ∃ d accelerator host, snapshot.config.deployment swap.deployment = some d ∧
      snapshot.config.acceleratorOf d = some accelerator ∧
      snapshot.config.host accelerator.host = some host ∧
      (∃ ranked, ranked.Perm (eligible snapshot d accelerator.pool (snapshot.config.policyFor host.id) 0) ∧
        ranked.Pairwise (fun a b =>
          evictionKey (keepingValue snapshot demand) a ≤ evictionKey (keepingValue snapshot demand) b) ∧
        victims snapshot swap <+: ranked) ∧
      d.memoryBytes - snapshot.poolFreeBytes accelerator.pool ≤
        satSum ((victims snapshot swap).map (residentBytes snapshot)) ∧
      ∀ fewer, fewer <+: victims snapshot swap → fewer ≠ victims snapshot swap →
        satSum (fewer.map (residentBytes snapshot)) <
          d.memoryBytes - snapshot.poolFreeBytes accelerator.pool :=
  ⟨plan_eq, plan_least plan_eq⟩

/-- The small deployment is as cheap as the large one and comes before it: both are stopped, and the
large one alone frees enough. -/
theorem cheap_victim_needless : ¬ ∀ s demand target context p d accelerator,
    plan s demand target context = .plan p → s.config.deployment p.deployment = some d →
    s.config.acceleratorOf d = some accelerator → ∀ v ∈ victims s p,
      satSum (((victims s p).erase v).map (residentBytes s)) <
        d.memoryBytes - s.poolFreeBytes accelerator.pool := by
  intro h
  have hsmall := h snapshot demand "t.new" context swap (dep "new" "t.new" 12) ⟨"gpu", "host", 20, "pool"⟩
    plan_eq rfl rfl (dep "a.small" "t.small" 5) (by decide +kernel)
  exact absurd hsmall (by decide +kernel)

end SafetySample

end HypeLlm.Fleet
