import HypeLlm.Fleet.Commitments
import HypeLlm.Fleet.PlanFits

/-!
# Committed memory

A deployment counts in its pool if it has memory and is not being evicted, or if it is to be started by
a lease that is held.  A commitment keeps what counts within the capacity of the pool, and so does a
release, in whatever order the leases come to an end: what counts is within the capacity for *every*
part of the leases that are held, and that is what each step keeps.

* **`committed_activations_hold`** — commitments do not overlap, slots and books are exact while the
  counter of identifiers does not come round, and the memory is within the capacity while the agents
  are seen to start nothing but what is leased;
* `counters_stop` — the two counters stop at the top of the word.
-/

namespace HypeLlm.Fleet

open HypeLlm.Words HypeLlm.Routing HypeLlm.Runs

/-- What a lease holds of the memory: the deployment it starts and those it stops. -/
structure MemoryClaim where
  starts : DeploymentId
  stops : List DeploymentId
  deriving DecidableEq

namespace FleetSnapshot

variable (s : FleetSnapshot)

def holds (d : DeploymentId) : Bool := (s.stateOf d).holdsMemory

/-- It has memory and is not being evicted, or it is to be started. -/
def counts (claims : List MemoryClaim) (d : DeploymentId) : Bool :=
  (s.holds d && !claims.any fun c => c.stops.contains d) || claims.any fun c => c.starts = d

/-- The memory declared of the deployments that count in a pool. -/
def committedBytes (claims : List MemoryClaim) (pool : PoolId) : ℕ :=
  (((s.config.deploymentsInPool pool).filter fun d => s.counts claims d.id).map Deployment.memoryBytes).sum

theorem counts_iff {claims : List MemoryClaim} {d : DeploymentId} :
    s.counts claims d = true ↔
      (s.holds d = true ∧ ∀ c ∈ claims, d ∉ c.stops) ∨ ∃ c ∈ claims, c.starts = d := by
  simp [counts]

/-! ### Sums over a pool -/

def poolSet (pool : PoolId) : Finset Deployment := (s.config.deploymentsInPool pool).toFinset

theorem mem_poolSet {pool : PoolId} {d : Deployment} :
    d ∈ s.poolSet pool ↔ d ∈ s.config.deployments ∧ s.config.inPool pool d = true := by
  rw [poolSet, List.mem_toFinset, FleetConfig.deploymentsInPool, List.mem_filter]

theorem deploymentsInPool_nodup (pool : PoolId) : (s.config.deploymentsInPool pool).Nodup :=
  (List.Nodup.of_map _ s.config.deployments_nodup).filter _

theorem sum_filter_eq {l : List Deployment} (hl : l.Nodup) (q : Deployment → Bool) :
    ((l.filter q).map Deployment.memoryBytes).sum = ∑ d ∈ l.toFinset with q d = true, d.memoryBytes := by
  rw [← List.toFinset_filter, List.sum_toFinset _ (hl.filter q)]

theorem committedBytes_eq (claims : List MemoryClaim) (pool : PoolId) :
    s.committedBytes claims pool = ∑ d ∈ s.poolSet pool with s.counts claims d.id = true, d.memoryBytes :=
  sum_filter_eq (s.deploymentsInPool_nodup pool) _

/-- What counts less commits less. -/
theorem committedBytes_le {s t : FleetSnapshot} {claims claims' : List MemoryClaim} {pool : PoolId}
    (hconfig : s.config = t.config)
    (h : ∀ d ∈ s.poolSet pool, s.counts claims d.id = true → t.counts claims' d.id = true) :
    s.committedBytes claims pool ≤ t.committedBytes claims' pool := by
  have hpool : t.poolSet pool = s.poolSet pool := by rw [poolSet, poolSet, hconfig]
  rw [committedBytes_eq, committedBytes_eq, hpool]
  refine Finset.sum_le_sum_of_subset ?_
  intro d hd
  obtain ⟨hmem, hcounts⟩ := Finset.mem_filter.1 hd
  exact Finset.mem_filter.2 ⟨hmem, h d hmem hcounts⟩

theorem poolDeclaredBytes_eq (pool : PoolId) :
    s.poolDeclaredBytes pool =
      min (∑ d ∈ s.poolSet pool with s.commitsMemory d.id = true, d.memoryBytes) u64Max := by
  rw [poolDeclaredBytes, satSum_eq, sum_filter_eq (s.deploymentsInPool_nodup pool)]
  rfl

theorem poolCapacity_le (pool : PoolId) : s.config.poolCapacityBytes pool ≤ u64Max := by
  have hle : satSum ((s.config.acceleratorsInPool pool).map Accelerator.memoryBytes) ≤ u64Max := by
    rw [satSum_eq]
    exact Nat.min_le_right ..
  exact (Nat.sub_le ..).trans hle

/-- Nothing is seen to use more than is declared of it. -/
def NoDrift : Prop := ∀ d ∈ s.config.deployments, s.observedMemory d.id ≤ d.memoryBytes

/-- Without drift the victims are counted with what is declared of them. -/
theorem freedBytes_le (h : s.NoDrift) {p : Plan} (hnodup : (victims s p).Nodup) :
    freedBytes s p ≤ ∑ v ∈ (victims s p).toFinset with s.holds v.id = true, v.memoryBytes := by
  have hresident : ∀ v ∈ (victims s p).filter (fun v => (s.stateOf v.id).holdsMemory),
      residentBytes s v = v.memoryBytes := by
    intro v hv
    obtain ⟨id, -, hid⟩ := List.mem_filterMap.1 (List.mem_filter.1 hv).1
    exact max_eq_left (h v (s.config.mem_of_deployment hid).1)
  rw [freedBytes, List.map_congr_left hresident, satSum_eq, sum_filter_eq hnodup]
  exact Nat.min_le_left ..

end FleetSnapshot

/-! ### Commitments -/

def ActivationLedger.claims (l : ActivationLedger) : List MemoryClaim :=
  l.active.map fun r => ⟨r.lease.deployment, r.evicted⟩

namespace Commitments

variable {s : Commitments}

/-- The activations are all leases to start something. -/
def Activates (s : Commitments) : Prop := ∀ r ∈ s.ledger.active, r.lease.operation = .activate

theorem evicting_of_claim {c : MemoryClaim} (hc : c ∈ s.ledger.claims) {d : DeploymentId} (hd : d ∈ c.stops) :
    s.withCommitments.evicting d = true := by
  obtain ⟨r, hr, rfl⟩ := List.mem_map.1 hc
  exact List.any_eq_true.2 ⟨r, hr, List.contains_iff_mem.2 hd⟩

theorem isComingUp_of_claim (hactivates : s.Activates) {c : MemoryClaim} (hc : c ∈ s.ledger.claims) :
    s.withCommitments.isComingUp c.starts = true := by
  obtain ⟨r, hr, rfl⟩ := List.mem_map.1 hc
  have hleased : s.withCommitments.activationLeased r.lease.deployment = true := by
    have hfound : (s.ledger.active.reverse.find? fun r' => r'.lease.deployment = r.lease.deployment).isSome := by
      rw [List.find?_isSome]
      exact ⟨r, List.mem_reverse.2 hr, decide_eq_true rfl⟩
    obtain ⟨r', hr'⟩ := Option.isSome_iff_exists.1 hfound
    have hmem := List.mem_reverse.1 (List.mem_of_find?_eq_some hr')
    rw [FleetSnapshot.activationLeased, decide_eq_true_eq]
    show (s.ledger.leasesByDeployment r.lease.deployment).map Lease.operation = _
    rw [ActivationLedger.leasesByDeployment, hr', Option.map_some, Option.map_some, hactivates r' hmem]
  rw [FleetSnapshot.isComingUp, hleased, Bool.or_true]

end Commitments

/-- The plan was made by the planner for this configuration, from whatever snapshot. -/
def PlannedIn (config : FleetConfig) (p : Plan) : Prop :=
  ∃ s demand target context, s.config = config ∧ plan s demand target context = .plan p

/-- What a plan for a configuration starts and stops there. -/
theorem PlannedIn.cases {config : FleetConfig} {p : Plan} (h : PlannedIn config p) :
    ∃ (d : Deployment) (accelerator : Accelerator) (evictions : List Deployment),
      config.deployment p.deployment = some d ∧
      config.acceleratorOf d = some accelerator ∧ p.evictionSet = evictions.map Deployment.id ∧
      (∀ v ∈ evictions, v ∈ config.deploymentsInPool accelerator.pool ∧ v.id ≠ d.id) ∧ evictions.Nodup := by
  obtain ⟨s, demand, target, context, rfl, hplan⟩ := h
  obtain ⟨d, accelerator, evictions, hd, ha, -, -, hset, hevictions⟩ := plan_cases hplan
  exact ⟨d, accelerator, evictions, hd, ha, hset,
    fun v hv => ⟨hevictions.inPool v hv, hevictions.other v hv⟩, hevictions.nodup⟩

namespace Commitments

variable {s : Commitments} {p : Plan} {d : Deployment} {accelerator : Accelerator}
  {evictions : List Deployment}

theorem filter_ne_subset {claim : MemoryClaim} {claims held : List MemoryClaim} (h : claims ⊆ claim :: held) :
    (claims.filter fun c => c ≠ claim) ⊆ held := by
  intro c hc
  obtain ⟨hc, hne⟩ := List.mem_filter.1 hc
  exact (List.mem_cons.1 (h hc)).resolve_left (by simpa using hne)

/-- **One more claim**: what counts with it and the victims that have memory are among what counted and
the deployment. -/
theorem sum_counts_add_le (hactivates : s.Activates) {claims : List MemoryClaim}
    (hclaims : claims ⊆ ⟨p.deployment, p.evictionSet⟩ :: s.ledger.claims)
    (hd : s.belief.config.deployment p.deployment = some d)
    (hset : p.evictionSet = evictions.map Deployment.id)
    (hevictions : ∀ v ∈ evictions, v ∈ s.belief.config.deploymentsInPool accelerator.pool ∧ v.id ≠ d.id)
    (hvalid : Revalidated s.withCommitments p d accelerator.pool)
    (hclaim : ⟨p.deployment, p.evictionSet⟩ ∈ claims) :
    ∃ rest ⊆ s.ledger.claims,
      s.belief.committedBytes claims accelerator.pool +
          ∑ v ∈ evictions.toFinset with s.belief.holds v.id = true, v.memoryBytes ≤
        d.memoryBytes + s.belief.committedBytes rest accelerator.pool := by
  have hid := (s.belief.config.mem_of_deployment hd).2
  have hvictims : victims s.withCommitments p = evictions :=
    victims_of_eq hset fun v hv => (List.mem_filter.1 (hevictions v hv).1).1
  let rest := claims.filter fun c => c ≠ ⟨p.deployment, p.evictionSet⟩
  have hrest : rest ⊆ s.ledger.claims := filter_ne_subset hclaims
  have hclaims_cases : ∀ c ∈ claims, c = ⟨p.deployment, p.evictionSet⟩ ∨ c ∈ rest := by
    intro c hc
    by_cases hsame : c = ⟨p.deployment, p.evictionSet⟩
    · exact .inl hsame
    · exact .inr (List.mem_filter.2 ⟨hc, by simpa using hsame⟩)
  refine ⟨rest, hrest, ?_⟩
  rw [FleetSnapshot.committedBytes_eq, FleetSnapshot.committedBytes_eq]
  -- a victim has memory, and is neither stopped nor started by another lease
  have hdisjoint : Disjoint
      ((s.belief.poolSet accelerator.pool).filter fun d => s.belief.counts claims d.id = true)
      (evictions.toFinset.filter fun v => s.belief.holds v.id = true) := by
    rw [Finset.disjoint_left]
    intro v hcounted hv
    have hmem := List.mem_toFinset.1 (Finset.mem_filter.1 hv).1
    rcases s.belief.counts_iff.1 (Finset.mem_filter.1 hcounted).2 with ⟨-, hstops⟩ | ⟨c, hc, hstarts⟩
    · refine hstops _ hclaim ?_
      rw [hset]
      exact List.mem_map_of_mem hmem
    · rcases hclaims_cases c hc with rfl | hc
      · exact (hevictions v hmem).2 (hstarts.symm.trans hid.symm)
      · have hup := isComingUp_of_claim hactivates (hrest hc)
        rw [hstarts, (hvalid.settled v (hvictims ▸ hmem)).2] at hup
        cases hup
  have hsubset : (s.belief.poolSet accelerator.pool).filter (fun d => s.belief.counts claims d.id = true) ∪
      evictions.toFinset.filter (fun v => s.belief.holds v.id = true) ⊆
      insert d ((s.belief.poolSet accelerator.pool).filter fun d => s.belief.counts rest d.id = true) := by
    intro x hx
    rw [Finset.mem_insert, Finset.mem_filter, FleetSnapshot.counts_iff]
    rcases Finset.mem_union.1 hx with hx | hx
    · obtain ⟨hpool, hcounts⟩ := Finset.mem_filter.1 hx
      rcases s.belief.counts_iff.1 hcounts with ⟨hholds, hstops⟩ | ⟨c, hc, hstarts⟩
      · exact .inr ⟨hpool, .inl ⟨hholds, fun c hc => hstops c (List.mem_filter.1 hc).1⟩⟩
      · rcases hclaims_cases c hc with rfl | hc
        · left
          have hx' := s.belief.config.deployment_of_mem (s.belief.mem_poolSet.1 hpool).1
          rw [← hstarts, hd] at hx'
          exact (Option.some.inj hx').symm
        · exact .inr ⟨hpool, .inr ⟨c, hc, hstarts⟩⟩
    · obtain ⟨hmem, hholds⟩ := Finset.mem_filter.1 hx
      have hmem := List.mem_toFinset.1 hmem
      refine .inr ⟨List.mem_toFinset.2 (hevictions x hmem).1, .inl ⟨hholds, ?_⟩⟩
      intro c hc hstops
      have hevicting := evicting_of_claim (hrest hc) hstops
      rw [(hvalid.settled x (hvictims ▸ hmem)).1] at hevicting
      cases hevicting
  rw [← Finset.sum_union hdisjoint]
  refine (Finset.sum_le_sum_of_subset hsubset).trans ?_
  by_cases hin : d ∈ (s.belief.poolSet accelerator.pool).filter fun d => s.belief.counts rest d.id = true
  · rw [Finset.insert_eq_of_mem hin]
    exact Nat.le_add_left ..
  · rw [Finset.sum_insert hin]

/-- **A commitment keeps the pools within their capacities**, whichever of the leases stay. -/
theorem committedBytes_commit (hactivates : s.Activates) (hplanned : PlannedIn s.belief.config p)
    (hdrift : s.belief.NoDrift) (hvalid : revalidate s.withCommitments p = .ok ())
    (hroom : ∀ pool, ∀ claims ⊆ s.ledger.claims,
      s.belief.committedBytes claims pool ≤ s.belief.config.poolCapacityBytes pool)
    (pool : PoolId) (claims : List MemoryClaim)
    (hclaims : claims ⊆ ⟨p.deployment, p.evictionSet⟩ :: s.ledger.claims) :
    s.belief.committedBytes claims pool ≤ s.belief.config.poolCapacityBytes pool := by
  by_cases hclaim : ⟨p.deployment, p.evictionSet⟩ ∈ claims
  · obtain ⟨d, accelerator, evictions, hd, ha, hset, hevictions, hnodup⟩ := hplanned.cases
    have hrevalidated := revalidate_ok (s := s.withCommitments) hd ha hvalid
    have hvictims : victims s.withCommitments p = evictions :=
      victims_of_eq hset fun v hv => (List.mem_filter.1 (hevictions v hv).1).1
    by_cases hpool : pool = accelerator.pool
    · subst hpool
      obtain ⟨rest, hrest, hsum⟩ :=
        sum_counts_add_le hactivates hclaims hd hset hevictions hrevalidated hclaim
      have hrestRoom := hroom accelerator.pool rest hrest
      have henough := hrevalidated.enough
      have hfreed := s.withCommitments.freedBytes_le hdrift (hvictims ▸ hnodup)
      rw [hvictims] at hfreed
      -- what counts without the new lease commits memory
      have hdeclared : s.belief.committedBytes rest accelerator.pool ≤
          ∑ d ∈ s.withCommitments.poolSet accelerator.pool with s.withCommitments.commitsMemory d.id = true,
            d.memoryBytes := by
        rw [FleetSnapshot.committedBytes_eq]
        refine Finset.sum_le_sum_of_subset ?_
        intro x hx
        obtain ⟨hmem, hcounts⟩ := Finset.mem_filter.1 hx
        refine Finset.mem_filter.2 ⟨hmem, ?_⟩
        rw [FleetSnapshot.commitsMemory, Bool.or_eq_true]
        rcases s.belief.counts_iff.1 hcounts with ⟨hholds, -⟩ | ⟨c, hc, hstarts⟩
        · exact .inl hholds
        · exact .inr (hstarts ▸ isComingUp_of_claim hactivates (hrest hc))
      have hfigure := s.withCommitments.poolDeclaredBytes_eq accelerator.pool
      have hused : s.withCommitments.poolDeclaredBytes accelerator.pool ≤
          s.withCommitments.poolUsedBytes accelerator.pool := le_max_left ..
      have hcapacity := s.withCommitments.poolCapacity_le accelerator.pool
      change d.memoryBytes ≤ min (s.belief.config.poolCapacityBytes accelerator.pool -
        s.withCommitments.poolUsedBytes accelerator.pool + freedBytes s.withCommitments p) u64Max at henough
      change s.belief.config.poolCapacityBytes accelerator.pool ≤ u64Max at hcapacity
      change freedBytes s.withCommitments p ≤
        ∑ v ∈ evictions.toFinset with s.belief.holds v.id = true, v.memoryBytes at hfreed
      omega
    · -- in another pool nothing is started, and only less counts
      have hid := (s.belief.config.mem_of_deployment hd).2
      refine (FleetSnapshot.committedBytes_le rfl ?_).trans (hroom pool _ (filter_ne_subset hclaims))
      intro x hx hcounts
      rw [FleetSnapshot.counts_iff]
      rcases s.belief.counts_iff.1 hcounts with ⟨hholds, hstops⟩ | ⟨c, hc, hstarts⟩
      · exact .inl ⟨hholds, fun c hc => hstops c (List.mem_filter.1 hc).1⟩
      · refine .inr ⟨c, List.mem_filter.2 ⟨hc, ?_⟩, hstarts⟩
        rw [decide_eq_true_eq]
        rintro rfl
        obtain ⟨hmem, hin⟩ := s.belief.mem_poolSet.1 hx
        have hx' := s.belief.config.deployment_of_mem hmem
        rw [← hstarts, hd] at hx'
        obtain rfl := Option.some.inj hx'
        rw [FleetConfig.inPool, ha] at hin
        rw [Option.any_some, decide_eq_true_eq] at hin
        exact hpool hin.symm
  · refine hroom pool claims ?_
    intro c hc
    exact (List.mem_cons.1 (hclaims hc)).resolve_left fun hsame => hclaim (hsame ▸ hc)

end Commitments

/-! ### Runs -/

namespace Watch

/-- The pools are within their capacities, whichever of the leases stay. -/
structure Room (s : Watch) : Prop where
  activates : s.router.Activates
  within : ∀ pool, ∀ claims ⊆ s.ledger.claims,
    s.router.belief.committedBytes claims pool ≤ s.router.belief.config.poolCapacityBytes pool

/-- Nothing but a deployment that a held lease starts, and only once its victims have no memory any more,
is seen to have got memory; and the configuration stays. -/
def Authorised (s : Watch) (belief : FleetSnapshot) : Prop :=
  belief.config = s.router.belief.config ∧
    ∀ d, belief.holds d = true → s.router.belief.holds d = true ∨
      ∃ c ∈ s.ledger.claims, c.starts = d ∧ ∀ v ∈ c.stops, belief.holds v = false

/-- Plans are made for the configuration, nothing drifts when one is committed, and observations show
what was authorised. -/
def Quiet (s : Watch) : CommitEvent → Prop
  | .commit _ _ p _ _ => PlannedIn s.router.belief.config p ∧ s.router.belief.NoDrift
  | .observe belief => s.Authorised belief
  | _ => True

theorem Room.observe {s : Watch} (h : Room s) {belief : FleetSnapshot} (hseen : s.Authorised belief) :
    Room (s.withBelief belief) := by
  refine ⟨h.activates, ?_⟩
  intro pool claims hclaims
  show belief.committedBytes claims pool ≤ belief.config.poolCapacityBytes pool
  rw [hseen.1]
  -- the leases whose deployments were seen to start, their victims being gone
  let started := s.ledger.claims.filter fun c => c.stops.all fun v => !belief.holds v
  have hmore : claims ++ started ⊆ s.ledger.claims :=
    List.append_subset.2 ⟨hclaims, fun c hc => (List.mem_filter.1 hc).1⟩
  refine (FleetSnapshot.committedBytes_le hseen.1 ?_).trans (h.within pool (claims ++ started) hmore)
  intro d _ hcounts
  rw [FleetSnapshot.counts_iff]
  rcases belief.counts_iff.1 hcounts with ⟨hholds, hstops⟩ | ⟨c, hc, hstarts⟩
  · rcases hseen.2 d.id hholds with hbefore | ⟨c, hc, hstarts, hgone⟩
    · refine .inl ⟨hbefore, ?_⟩
      intro c hc hstop
      rcases List.mem_append.1 hc with hc | hc
      · exact hstops c hc hstop
      · have hgone := List.all_eq_true.1 (List.mem_filter.1 hc).2 d.id hstop
        rw [hholds] at hgone
        cases hgone
    · refine .inr ⟨c, List.mem_append_right _ (List.mem_filter.2 ⟨hc, ?_⟩), hstarts⟩
      rw [List.all_eq_true]
      intro v hv
      rw [hgone v hv]
      rfl
  · exact .inr ⟨c, List.mem_append_left _ hc, hstarts⟩

theorem Room.acquire {s : Watch} (h : Room s) {caller : ℕ} {host : Host} {p : Plan} {decisionId : String}
    {nowMs : ℕ} {id : LeaseId} {l : ActivationLedger} (hplanned : PlannedIn s.router.belief.config p)
    (hdrift : s.router.belief.NoDrift)
    (hcommit : s.router.commit host p (leaseFor p id decisionId nowMs) nowMs = some l) :
    Room ((s.spent caller).acquired l id p.host host.maxConcurrentActivations) := by
  obtain ⟨hvalid, hacquire⟩ := commit_some hcommit
  obtain ⟨-, rfl⟩ := s.router.ledger.acquireExclusive_ok hacquire
  have hperm := ActivationLedger.insertActive_perm (.fromPlan p (leaseFor p id decisionId nowMs) nowMs)
    s.router.ledger.active
  refine ⟨?_, ?_⟩
  · intro r hr
    rcases List.mem_cons.1 (hperm.mem_iff.1 hr) with rfl | hr
    · rfl
    · exact h.activates r hr
  · intro pool claims hclaims
    refine Commitments.committedBytes_commit h.activates hplanned hdrift hvalid h.within pool claims ?_
    intro c hc
    obtain ⟨r, hr, rfl⟩ := List.mem_map.1 (hclaims hc)
    rcases List.mem_cons.1 (hperm.mem_iff.1 hr) with rfl | hr
    · exact List.mem_cons_self
    · exact List.mem_cons_of_mem _ (List.mem_map_of_mem hr)

theorem Room.release {s : Watch} (h : Room s) {id : LeaseId} {l : ActivationLedger} {r : ActivationRecord}
    (hr : s.ledger.Releases id l r) : Room (s.released l id) := by
  have hfewer : ∀ r' ∈ l.active, r' ∈ s.ledger.active := by
    intro r' hr'
    rw [hr.active] at hr'
    exact (List.mem_filter.1 hr').1
  refine ⟨fun r' hr' => h.activates r' (hfewer r' hr'), ?_⟩
  intro pool claims hclaims
  refine h.within pool claims ?_
  intro c hc
  obtain ⟨r', hr', rfl⟩ := List.mem_map.1 (hclaims hc)
  exact List.mem_map_of_mem (hfewer r' hr')

theorem Room.transition {s : Watch} (h : Room s) (id : LeaseId) (next : ActivationState) :
    Room (s.withLedger (s.ledger.transition id next).1) := by
  obtain ⟨g, hg, heq⟩ := s.ledger.transition_eq id next
  rw [heq]
  refine ⟨?_, ?_⟩
  · intro r hr
    obtain ⟨r', hr', rfl⟩ := List.mem_map.1 hr
    rw [(hg r').1]
    exact h.activates r' hr'
  · intro pool claims hclaims
    refine h.within pool claims ?_
    intro c hc
    obtain ⟨r, hr, rfl⟩ := List.mem_map.1 (hclaims hc)
    obtain ⟨r', hr', rfl⟩ := List.mem_map.1 hr
    rw [(hg r').1, (hg r').2.2]
    exact List.mem_map_of_mem hr'

theorem keeps_room : Keeps Quiet Room where
  draw _ _ _ h := ⟨h.activates, h.within⟩
  spent _ _ h := ⟨h.activates, h.within⟩
  acquired _ _ _ _ _ _ _ _ hquiet _ hcommit h := h.acquire hquiet.1 hquiet.2 hcommit
  transition _ id next h := h.transition id next
  released _ _ _ _ hr h := h.release hr
  publish _ h := ⟨h.activates, h.within⟩
  observe _ _ hseen h := h.observe hseen

/-- **Committed activations do not overlap.**  After every run of drawing, committing, releasing and
expiring, whatever is observed in between: no deployment is started or stopped by two activations, nor
twice by one; a host has as many slots taken as there are leases held on it, and no more than its limit
was when one of them was acquired.  While fewer than `2 ^ 64` identifiers are drawn, what was acquired
and not released is held, no lease is acquired twice, each is reported as released once when it ends,
and one that is held would be.  And while nothing drifts and nothing is seen to start but what is
leased, what has memory and stays and what is to be started fits into each pool, if it did at first. -/
theorem committed_activations_hold (belief : FleetSnapshot) (es : List CommitEvent)
    (hplans : StepsMeet step ByPlanner (start belief) es) :
    let s := run step (start belief) es
    (s.ledger.active.flatMap ActivationRecord.touched).Nodup ∧
      (∀ host, s.ledger.slots host = s.ledger.active.countP (fun r => r.host = host) ∧
        (0 < s.ledger.slots host →
          ∃ k ∈ s.held, k.host = host ∧ s.ledger.slots host ≤ max k.limit 1)) ∧
      (s.draws < 2 ^ 64 →
        s.ledger.acquired - s.ledger.releases = s.ledger.active.length ∧ s.acquisitions.Nodup ∧
          (∀ id, s.acquisitions.count id =
            s.reports.count id + (s.ledger.active.map fun r => r.lease.id).count id) ∧
          ∀ r ∈ s.ledger.active, ∀ outcome detail nowMs,
            (s.ledger.release r.lease.id outcome detail nowMs).2 = .released) ∧
      (StepsMeet step Quiet (start belief) es →
        (∀ pool, belief.committedBytes [] pool ≤ belief.config.poolCapacityBytes pool) →
          ∀ pool, s.router.belief.committedBytes s.ledger.claims pool ≤
            s.router.belief.config.poolCapacityBytes pool) := by
  intro s
  have hbooks : Books s := keeps_books.run (Books.start belief) hplans
  have hfresh : s.draws ≤ 2 ^ 64 → Fresh s := (keeps_fresh ByPlanner).run (fun _ => Fresh.start belief) hplans
  refine ⟨hbooks.touched, ?_, ?_, ?_⟩
  · intro host
    refine ⟨hbooks.slots host, ?_⟩
    intro hpos
    rw [hbooks.slots host, ← hbooks.countP_held host] at hpos ⊢
    exact hbooks.within.countP_le hpos
  · intro hfew
    have hfresh := hfresh hfew.le
    have hacquired := hbooks.acquired
    have hreleases := hbooks.releases
    have hlength := hbooks.accounts.length_eq
    have hfewer := hfresh.length_le
    rw [List.length_append, List.length_map] at hlength
    refine ⟨?_, List.Nodup.of_map _ hfresh.numbers, ?_, ?_⟩
    · rw [u64Max] at hacquired hreleases
      omega
    · intro id
      rw [hbooks.accounts.count_eq, List.count_append]
    · intro r hr outcome detail nowMs
      exact s.ledger.release_held hr (hbooks.unreleased r hr) outcome detail nowMs
  · intro hquiet hfits pool
    have hroom : Room (start belief) := by
      refine ⟨?_, ?_⟩
      · intro r hr
        cases hr
      · intro pool claims hclaims
        rw [List.subset_nil.1 hclaims]
        exact hfits pool
    exact (keeps_room.run hroom hquiet).within pool _ (List.Subset.refl _)

end Watch

namespace CommitSample

open FitSample

def host : Host := ⟨"host", "agent", .x86_64, .enabled, 0, 1, one_concurrent⟩

def swapRun : List CommitEvent := [.draw 0 0, .commit 0 host swap "" 0]

theorem swap_plannedIn : PlannedIn config swap := ⟨snapshot 10, _, _, _, rfl, outcome_eq.1⟩

theorem swap_plannedBy : Watch.Planned swap := ⟨snapshot 10, _, _, _, outcome_eq.1⟩

theorem snapshot_noDrift : (snapshot 10).NoDrift := by
  intro d hd
  rcases List.mem_cons.1 hd with rfl | hd
  · decide +kernel
  · obtain rfl := List.mem_singleton.1 hd
    decide +kernel

theorem no_other_pool {pool : PoolId} (h : pool ≠ "pool") : config.deploymentsInPool pool = [] := by
  have hpool : "pool" ≠ pool := Ne.symm h
  simp [FleetConfig.deploymentsInPool, FleetConfig.inPool, FleetConfig.acceleratorOf, config, dep, hpool]

/-- The swap is committed: one slot is taken, one lease is held, and what stays fits. -/
theorem swap_held :
    let s := run Watch.step (.start (snapshot 10)) swapRun
    s.ledger.active.length = 1 ∧ s.ledger.acquired - s.ledger.releases = s.ledger.active.length ∧
      (s.ledger.active.flatMap ActivationRecord.touched).Nodup ∧
      s.router.belief.committedBytes s.ledger.claims "pool" ≤
        s.router.belief.config.poolCapacityBytes "pool" := by
  have hplans : StepsMeet Watch.step Watch.ByPlanner (.start (snapshot 10)) swapRun :=
    ⟨trivial, swap_plannedBy, trivial⟩
  have hquiet : StepsMeet Watch.step Watch.Quiet (.start (snapshot 10)) swapRun :=
    ⟨trivial, ⟨swap_plannedIn, snapshot_noDrift⟩, trivial⟩
  have hfits : ∀ pool, (snapshot 10).committedBytes [] pool ≤ (snapshot 10).config.poolCapacityBytes pool := by
    intro pool
    by_cases hpool : pool = "pool"
    · rw [hpool]
      decide +kernel
    · rw [FleetSnapshot.committedBytes, show (snapshot 10).config = config from rfl, no_other_pool hpool]
      exact Nat.zero_le _
  obtain ⟨htouched, -, hbooks, hroom⟩ := Watch.committed_activations_hold (snapshot 10) swapRun hplans
  have hfew : (run Watch.step (.start (snapshot 10)) swapRun).draws < 2 ^ 64 := by decide +kernel
  exact ⟨by decide +kernel, (hbooks hfew).1, htouched, hroom hquiet hfits "pool"⟩

/-! ### The counters stop -/

/-- Nothing runs. -/
def idle : FleetSnapshot :=
  { snapshot 0 with
    inventory := { (snapshot 0).inventory with accelerators := fun _ => some 0, deployments := fun _ => none } }

/-- The new deployment started, with nothing to stop. -/
def single : Plan := ⟨"new", "host", [.activate "new"], 0⟩

theorem single_planned : Watch.Planned single :=
  ⟨idle, ⟨fun _ => 0, fun _ => 0, fun _ => none⟩, "t.new", ⟨0, 1000, 1, 0, true, true, none, 100000⟩,
    by decide +kernel⟩

/-- Draw an identifier and commit. -/
def take : List CommitEvent := [.draw 0 0, .commit 0 host single "" 0]

/-- Nothing is held, as often as leases were taken and given back. -/
structure Rested (s : Watch) (n : ℕ) : Prop where
  books : s.Books
  fresh : s.Fresh
  active : s.ledger.active = []
  draws : s.draws = n
  acquisitions : s.acquisitions.length = n
  belief : { s.router.belief with leases := idle.leases, evicting := idle.evicting } = idle

/-- With nothing held the next lease is acquired. -/
theorem Rested.take {s : Watch} {n : ℕ} (h : Rested s n) (hn : n < 2 ^ 64) :
    let t := run Watch.step s take
    t.ledger.active.map (fun r => r.lease.id) = [leaseId 0 n] ∧ t.draws = n + 1 ∧
      t.acquisitions.length = n + 1 ∧ t.reports = s.reports ∧
      { t.router.belief with leases := idle.leases, evicting := idle.evicting } = idle := by
  have hcounter : s.router.leaseCounter = n := by
    rw [h.fresh.counter, h.draws]
    exact Nat.mod_eq_of_lt hn
  have hvalid : revalidate (s.draw 0 0).router.withCommitments single = .ok () := by
    have hsame : (s.draw 0 0).router.withCommitments = idle := by
      rw [← h.belief]
      show ({ s.router.belief with
        leases := fun d => (s.ledger.leasesByDeployment d).map Lease.operation
        evicting := s.ledger.evicting } : FleetSnapshot) = _
      have hleases : (fun d => (s.ledger.leasesByDeployment d).map Lease.operation) = idle.leases := by
        funext d
        rw [ActivationLedger.leasesByDeployment, h.active]
        rfl
      have hevicting : s.ledger.evicting = idle.evicting := by
        funext d
        rw [ActivationLedger.evicting, h.active]
        rfl
      rw [hleases, hevicting]
    rw [hsame]
    decide +kernel
  have hunreleased : s.ledger.released (leaseId 0 n) = none := by
    rw [← Option.not_isSome_iff_eq_none]
    intro hsome
    have hmem : leaseId 0 n ∈ s.acquisitions :=
      h.books.accounts.mem_iff.2 (List.mem_append_left _ (h.books.remembered _ hsome))
    obtain ⟨k, hk, hnumber⟩ := h.fresh.acquired _ hmem
    rw [leaseNumber_leaseId 0 (by rw [u64Max]; omega), h.draws] at *
    have hkn := Option.some.inj hnumber
    omega
  have hslots : s.ledger.slots "host" < max host.maxConcurrentActivations 1 := by
    rw [h.books.slots, h.active]
    decide
  obtain ⟨l, hl⟩ := s.ledger.acquireExclusive_of_acquires
    (r := .fromPlan single (leaseFor single (leaseId 0 n) "" 0) 0) h.active hunreleased hslots
  have hcommit : (s.draw 0 0).router.commit host single (leaseFor single (leaseId 0 n) "" 0) 0 = some l := by
    rw [Commitments.commit, hvalid]
    show (s.ledger.acquireExclusive _ _).toOption = _
    rw [hl]
    rfl
  have hids : l.active.map (fun r => r.lease.id) = [leaseId 0 n] := by
    rw [(s.ledger.acquireExclusive_ok hl).2]
    show (ActivationLedger.insertActive _ s.ledger.active).map (fun r => r.lease.id) = _
    rw [h.active]
    rfl
  have hdrawn : (s.draw 0 0).router.drawn 0 = some (leaseId 0 n) := by
    rw [← hcounter]
    show Function.update s.router.drawn 0 (some (leaseId 0 s.router.leaseCounter)) 0 = _
    rw [Function.update_self]
  intro t
  have ht : t = (((s.draw 0 0).spent 0).acquired l (leaseId 0 n) "host" 1).publish := by
    show (s.draw 0 0).step (.commit 0 host single "" 0) = _
    rw [Watch.step, hdrawn]
    dsimp only
    rw [hcommit]
    rfl
  rw [ht]
  refine ⟨hids, ?_, ?_, rfl, h.belief⟩
  · show s.draws + 1 = _
    rw [h.draws]
  · show s.acquisitions.length + 1 = _
    rw [h.acquisitions]

theorem take_byPlanner (s : Watch) : StepsMeet Watch.step Watch.ByPlanner s take :=
  ⟨trivial, single_planned, trivial⟩

/-- Leases are taken and given back as often as one likes. -/
theorem exists_rested (n : ℕ) (hn : n < 2 ^ 64) :
    ∃ es, StepsMeet Watch.step Watch.ByPlanner (.start idle) es ∧ Rested (run Watch.step (.start idle) es) n := by
  induction n with
  | zero => exact ⟨[], trivial, .start idle, .start idle, rfl, rfl, rfl, rfl⟩
  | succ n ih =>
    obtain ⟨es, hplans, hrested⟩ := ih (by omega)
    obtain ⟨hids, hdraws, hacquisitions, -, hbelief⟩ := hrested.take (by omega)
    let back : CommitEvent := .release (leaseId 0 n) .succeeded "" 0
    have hall : StepsMeet Watch.step Watch.ByPlanner (.start idle) (es ++ take) :=
      hplans.append (take_byPlanner _)
    have hall' : StepsMeet Watch.step Watch.ByPlanner (.start idle) ((es ++ take) ++ [back]) :=
      hall.append ⟨trivial, trivial⟩
    refine ⟨_, hall', ?_⟩
    have hbooks := Watch.keeps_books.run (.start idle) hall
    have hbooks' := Watch.keeps_books.run (.start idle) hall'
    have hfresh' := (Watch.keeps_fresh Watch.ByPlanner).run (fun _ => .start idle) hall'
    rw [run_snoc] at hbooks' hfresh' ⊢
    rw [run_append] at hbooks hbooks' hfresh' ⊢
    generalize run Watch.step (run Watch.step (.start idle) es) take = t at *
    obtain ⟨r, hr⟩ : ∃ r, t.ledger.active = [r] := by
      rw [← List.length_eq_one_iff, ← List.length_map fun r => r.lease.id, hids]
      rfl
    have hid : r.lease.id = leaseId 0 n := by
      rw [hr] at hids
      exact (List.cons.inj hids).1
    have hmem : r ∈ t.ledger.active := hr ▸ List.mem_singleton_self r
    have hreleased := t.ledger.release_held hmem (hbooks.unreleased r hmem) .succeeded "" 0
    rw [hid] at hreleased
    have hstep : t.step back = (t.released (t.ledger.release (leaseId 0 n) .succeeded "" 0).1
        (leaseId 0 n)).publish := by
      show (t.release (leaseId 0 n) .succeeded "" 0).publish = _
      rw [Watch.release_eq hreleased]
    rw [hstep] at hbooks' hfresh' ⊢
    have hactive : (t.ledger.release (leaseId 0 n) .succeeded "" 0).1.active = [] := by
      rcases t.ledger.release_cases (leaseId 0 n) .succeeded "" 0 with ⟨-, hnot⟩ | ⟨-, r', hr'⟩
      · exact absurd hreleased hnot
      · rw [hr'.active, hr, List.filter_cons_of_neg (by simp [hid]), List.filter_nil]
    have hfew : t.draws ≤ 2 ^ 64 := by omega
    exact ⟨hbooks', hfresh' hfew, hactive, hdraws, hacquisitions, hbelief⟩

/-- The beliefs of a swap that is rolled back while the new deployment still starts. -/
def seen (old new : ObservedState) : FleetSnapshot :=
  { snapshot 10 with
    inventory :=
      { (snapshot 10).inventory with
        deployments := fun d => if d = "old" then some ⟨old, 10, 0⟩ else some ⟨new, 10, 0⟩ } }

def rollback : List CommitEvent :=
  swapRun ++ [CommitEvent.observe (seen .stopped .starting), .observe (seen .starting .starting),
    .release (leaseId 0 0) .failedAndRolledBack "" 0]

/-- **The counters stop** at the top of the word: after `2 ^ 64` leases one is held, and acquisitions less
releases are none.  And a deployment that is evicted and started again, as a rollback does, is counted
again when its lease ends. -/
theorem counters_stop :
    (∃ es, StepsMeet Watch.step Watch.ByPlanner (.start idle) es ∧
      let s := run Watch.step (.start idle) es
      s.draws = 2 ^ 64 ∧ s.ledger.active.length = 1 ∧ s.ledger.acquired - s.ledger.releases = 0) ∧
    (snapshot 10).committedBytes [] "pool" ≤ (snapshot 10).config.poolCapacityBytes "pool" ∧
    let s := run Watch.step (.start (snapshot 10)) rollback
    s.router.belief.config.poolCapacityBytes "pool" <
      s.router.belief.committedBytes s.ledger.claims "pool" := by
  refine ⟨?_, by decide +kernel⟩
  obtain ⟨es, hplans, hrested⟩ := exists_rested (2 ^ 64 - 1) (by omega)
  obtain ⟨hids, hdraws, hacquisitions, hreports, -⟩ := hrested.take (by omega)
  have hall : StepsMeet Watch.step Watch.ByPlanner (.start idle) (es ++ take) :=
    hplans.append (take_byPlanner _)
  have hbooks := Watch.keeps_books.run (.start idle) hall
  refine ⟨es ++ take, hall, ?_⟩
  rw [run_append] at hbooks ⊢
  generalize run Watch.step (run Watch.step (.start idle) es) take = t at *
  have hactive : t.ledger.active.length = 1 := by
    rw [← List.length_map fun r => r.lease.id, hids]
    rfl
  have hlength := hbooks.accounts.length_eq
  rw [List.length_append, List.length_map, hacquisitions, hactive] at hlength
  have hacquired := hbooks.acquired
  have hreleases := hbooks.releases
  rw [hacquisitions, u64Max] at hacquired
  rw [u64Max] at hreleases
  refine ⟨by omega, hactive, by omega⟩

end CommitSample

end HypeLlm.Fleet
