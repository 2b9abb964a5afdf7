import HypeLlm.Fleet.ActivationLedger
import HypeLlm.Fleet.Planning
import HypeLlm.Lib.Runs

/-!
# Commitments

A request draws a lease identifier, and commits its plan in one step: the plan is asked again against
the belief with every lease that is held, and the lease is acquired.  Leases are released by the
request that holds them, or because they have run out, and the belief is replaced whenever the agents
are observed.  Nothing is said about the order.

* `Disjoint.run`, `Slots.run`, `Accounts.run` — what is held never overlaps, each host has as many slots
  taken as leases held on it, and what was acquired was released or is held.
-/

namespace HypeLlm.Fleet

open HypeLlm.Words HypeLlm.Routing HypeLlm.Runs

/-! ### The router -/

structure Commitments where
  ledger : ActivationLedger
  /-- The newest belief. -/
  belief : FleetSnapshot
  leaseCounter : ℕ
  /-- The identifier each request has drawn and not used yet. -/
  drawn : ℕ → Option LeaseId

namespace Commitments

variable (s : Commitments)

/-- The belief with the leases that are held now. -/
def withCommitments : FleetSnapshot :=
  { s.belief with
    leases := fun d => (s.ledger.leasesByDeployment d).map Lease.operation
    evicting := s.ledger.evicting }

def nextLeaseId (caller nowMs : ℕ) : Commitments :=
  { s with
    leaseCounter := wrapAdd 64 s.leaseCounter 1
    drawn := Function.update s.drawn caller (some (leaseId nowMs s.leaseCounter)) }

/-- Ask again, and take the slot: under the admission lock. -/
def commit (host : Host) (p : Plan) (lease : Lease) (nowMs : ℕ) : Option ActivationLedger :=
  match revalidate s.withCommitments p with
  | .error _ => none
  | .ok () =>
    (s.ledger.acquireExclusive (.fromPlan p lease nowMs) host.maxConcurrentActivations).toOption

end Commitments

/-! ### Runs -/

inductive CommitEvent where
  | draw (caller nowMs : ℕ)
  | commit (caller : ℕ) (host : Host) (p : Plan) (decisionId : String) (nowMs : ℕ)
  | transition (id : LeaseId) (next : ActivationState)
  | release (id : LeaseId) (outcome : ActivationOutcome) (detail : String) (nowMs : ℕ)
  | expire (nowMs : ℕ)
  | observe (belief : FleetSnapshot)

/-- A lease that is held, and the limit of its host when it was acquired. -/
structure Held where
  id : LeaseId
  host : HostId
  limit : ℕ
  deriving Repr, DecidableEq

/-- The router, and what a run has seen of it. -/
structure Watch where
  router : Commitments
  /-- The leases that are held, the last one first. -/
  held : List Held
  /-- Every lease that was acquired. -/
  acquisitions : List LeaseId
  /-- Every release that was reported as one. -/
  reports : List LeaseId
  draws : ℕ

namespace Watch

def start (belief : FleetSnapshot) : Watch := ⟨⟨.empty, belief, 0, fun _ => none⟩, [], [], [], 0⟩

variable (s : Watch)

def ledger : ActivationLedger := s.router.ledger

def withLedger (l : ActivationLedger) : Watch := { s with router := { s.router with ledger := l } }

def withBelief (belief : FleetSnapshot) : Watch := { s with router := { s.router with belief } }

def draw (caller nowMs : ℕ) : Watch :=
  { s with router := s.router.nextLeaseId caller nowMs, draws := s.draws + 1 }

def spent (caller : ℕ) : Watch :=
  { s with router := { s.router with drawn := Function.update s.router.drawn caller none } }

def acquired (l : ActivationLedger) (id : LeaseId) (host : HostId) (limit : ℕ) : Watch :=
  { s.withLedger l with
    held := ⟨id, host, limit⟩ :: s.held
    acquisitions := id :: s.acquisitions }

def released (l : ActivationLedger) (id : LeaseId) : Watch :=
  { s.withLedger l with
    held := s.held.filter fun h => h.id ≠ id
    reports := id :: s.reports }

def release (id : LeaseId) (outcome : ActivationOutcome) (detail : String) (nowMs : ℕ) : Watch :=
  match s.ledger.release id outcome detail nowMs with
  | (l, .released) => s.released l id
  | (l, _) => s.withLedger l

def publish : Watch := s.withBelief s.router.withCommitments

def step (s : Watch) : CommitEvent → Watch
  | .draw caller nowMs => s.draw caller nowMs
  | .commit caller host p decisionId nowMs =>
    match s.router.drawn caller with
    | none => s
    | some id =>
      match s.router.commit host p (leaseFor p id decisionId nowMs) nowMs with
      | none => s.spent caller
      | some l => ((s.spent caller).acquired l id p.host host.maxConcurrentActivations).publish
  | .transition id next => s.withLedger (s.ledger.transition id next).1
  | .release id outcome detail nowMs => (s.release id outcome detail nowMs).publish
  | .expire nowMs =>
    if s.ledger.expired nowMs = [] then s
    else
      ((s.ledger.expired nowMs).foldl (fun s id =>
        s.release id .cancelled "the lease expired before the activation reported back" nowMs) s).publish
  | .observe belief => s.withBelief belief

/-! ### What a step can do -/

theorem commit_some {router : Commitments} {host : Host} {p : Plan} {lease : Lease} {nowMs : ℕ}
    {l : ActivationLedger} (h : router.commit host p lease nowMs = some l) :
    revalidate router.withCommitments p = .ok () ∧
      router.ledger.acquireExclusive (.fromPlan p lease nowMs) host.maxConcurrentActivations = .ok l := by
  rw [Commitments.commit] at h
  split at h
  · cases h
  · rename_i hvalid
    refine ⟨hvalid, ?_⟩
    cases hacquire : router.ledger.acquireExclusive (.fromPlan p lease nowMs) host.maxConcurrentActivations with
    | error refusal =>
      rw [hacquire] at h
      cases h
    | ok l' =>
      rw [hacquire] at h
      rw [Option.some.inj h]

theorem release_eq {s : Watch} {id : LeaseId} {outcome : ActivationOutcome} {detail : String} {nowMs : ℕ}
    (h : (s.ledger.release id outcome detail nowMs).2 = .released) :
    s.release id outcome detail nowMs = s.released (s.ledger.release id outcome detail nowMs).1 id := by
  rw [Watch.release]
  split
  · rename_i l heq
    rw [heq]
  · rename_i hne heq
    rw [heq] at h
    exact absurd h hne

theorem release_eq_self {s : Watch} {id : LeaseId} {outcome : ActivationOutcome} {detail : String} {nowMs : ℕ}
    (h : (s.ledger.release id outcome detail nowMs).2 ≠ .released)
    (hsame : (s.ledger.release id outcome detail nowMs).1 = s.ledger) :
    s.release id outcome detail nowMs = s := by
  rw [Watch.release]
  split
  · rename_i l heq
    rw [heq] at h
    exact absurd rfl h
  · rename_i l answer _ heq
    rw [heq] at hsame
    obtain rfl : l = s.ledger := hsame
    rfl

/-- What is kept by everything a step is made of; an acquisition and an observation under a condition on
the event. -/
structure Keeps (C : Watch → CommitEvent → Prop) (P : Watch → Prop) : Prop where
  draw : ∀ s caller nowMs, P s → P (s.draw caller nowMs)
  spent : ∀ s caller, P s → P (s.spent caller)
  acquired : ∀ s caller host p decisionId nowMs id l, C s (.commit caller host p decisionId nowMs) →
    s.router.drawn caller = some id →
    s.router.commit host p (leaseFor p id decisionId nowMs) nowMs = some l →
    P s → P ((s.spent caller).acquired l id p.host host.maxConcurrentActivations)
  transition : ∀ s id next, P s → P (s.withLedger (s.ledger.transition id next).1)
  released : ∀ s id l r, s.ledger.Releases id l r → P s → P (s.released l id)
  publish : ∀ s, P s → P s.publish
  observe : ∀ s belief, C s (.observe belief) → P s → P (s.withBelief belief)

variable {C : Watch → CommitEvent → Prop} {P : Watch → Prop}

theorem Keeps.release (h : Keeps C P) {s : Watch} (hs : P s) (id : LeaseId) (outcome : ActivationOutcome)
    (detail : String) (nowMs : ℕ) : P (s.release id outcome detail nowMs) := by
  rcases s.ledger.release_cases id outcome detail nowMs with ⟨hsame, hnot⟩ | ⟨hreleased, r, hr⟩
  · rw [release_eq_self hnot hsame]
    exact hs
  · rw [release_eq hreleased]
    exact h.released s id _ r hr hs

/-- One lease after the other. -/
theorem Keeps.releaseAll (h : Keeps C P) {s : Watch} (hs : P s) (ids : List LeaseId) (nowMs : ℕ) :
    P (ids.foldl (fun s id =>
      s.release id .cancelled "the lease expired before the activation reported back" nowMs) s) := by
  induction ids generalizing s with
  | nil => exact hs
  | cons id ids ih => exact ih (h.release hs id _ _ nowMs)

theorem Keeps.step (h : Keeps C P) {s : Watch} {e : CommitEvent} (hs : P s) (hc : C s e) : P (s.step e) := by
  cases e with
  | draw caller nowMs => exact h.draw s caller nowMs hs
  | commit caller host p decisionId nowMs =>
    rw [Watch.step]
    cases hdrawn : s.router.drawn caller with
    | none => exact hs
    | some id =>
      dsimp only
      cases hcommit : s.router.commit host p (leaseFor p id decisionId nowMs) nowMs with
      | none => exact h.spent s caller hs
      | some l => exact h.publish _ (h.acquired s caller host p decisionId nowMs id l hc hdrawn hcommit hs)
  | transition id next => exact h.transition s id next hs
  | release id outcome detail nowMs => exact h.publish _ (h.release hs id outcome detail nowMs)
  | expire nowMs =>
    rw [Watch.step]
    split
    · exact hs
    · exact h.publish _ (h.releaseAll hs _ nowMs)
  | observe belief => exact h.observe s belief hc hs

theorem Keeps.run (h : Keeps C P) {s : Watch} (hs : P s) {es : List CommitEvent}
    (hmeet : StepsMeet Watch.step C s es) : P (run Watch.step s es) :=
  run_invariant_of_steps (P := P) (fun _ _ => h.step) hs es hmeet

/-! ### Slots, and what is held -/

/-- Each lease was acquired where those that were held on its host left a slot free. -/
def Within : List Held → Prop
  | [] => True
  | h :: rest => (rest.countP fun k => k.host = h.host) < max h.limit 1 ∧ Within rest

theorem Within.filter {held : List Held} (h : Within held) (q : Held → Bool) : Within (held.filter q) := by
  induction held with
  | nil => exact h
  | cons k rest ih =>
    rw [List.filter_cons]
    split
    · have hfewer : ((rest.filter q).countP fun k' => k'.host = k.host) ≤
          rest.countP fun k' => k'.host = k.host :=
        List.filter_sublist.countP_le
      exact ⟨lt_of_le_of_lt hfewer h.1, ih h.2⟩
    · exact ih h.2

/-- The lease that was acquired last says how many there may be. -/
theorem Within.countP_le {held : List Held} (h : Within held) {host : HostId}
    (hpos : 0 < held.countP fun k => k.host = host) :
    ∃ k ∈ held, k.host = host ∧ (held.countP fun k => k.host = host) ≤ max k.limit 1 := by
  induction held with
  | nil => exact absurd hpos (Nat.lt_irrefl 0)
  | cons k rest ih =>
    by_cases hk : k.host = host
    · refine ⟨k, List.mem_cons_self, hk, ?_⟩
      have hfirst := h.1
      rw [hk] at hfirst
      rw [List.countP_cons_of_pos (by simpa using hk)]
      exact hfirst
    · rw [List.countP_cons_of_neg (by simpa using hk)] at hpos ⊢
      obtain ⟨k', hmem, hhost, hle⟩ := ih h.2 hpos
      exact ⟨k', List.mem_cons_of_mem k hmem, hhost, hle⟩

/-- The plan was made by the planner, from whatever snapshot. -/
def Planned (p : Plan) : Prop := ∃ s demand target context, plan s demand target context = .plan p

theorem Planned.touched_nodup {p : Plan} (h : Planned p) : (p.deployment :: p.evictionSet).Nodup := by
  obtain ⟨s, demand, target, context, hplan⟩ := h
  obtain ⟨d, accelerator, evictions, hd, -, -, -, hset, hevictions⟩ := plan_cases hplan
  have hid := (s.config.mem_of_deployment hd).2
  rw [List.nodup_cons, hset]
  constructor
  · intro hmem
    obtain ⟨v, hv, hsame⟩ := List.mem_map.1 hmem
    exact hevictions.other v hv (hsame.trans hid.symm)
  · refine List.Nodup.map_on ?_ hevictions.nodup
    intro v hv w hw hsame
    have hv' := s.config.deployment_of_mem (List.mem_filter.1 (hevictions.inPool v hv)).1
    have hw' := s.config.deployment_of_mem (List.mem_filter.1 (hevictions.inPool w hw)).1
    rw [hsame, hw'] at hv'
    exact (Option.some.inj hv').symm

/-- Every plan that is committed was made by the planner. -/
def ByPlanner (_ : Watch) : CommitEvent → Prop
  | .commit _ _ p _ _ => Planned p
  | _ => True

/-- The books of the ledger agree with each other and with what the run has seen. -/
structure Books (s : Watch) : Prop where
  ids : (s.ledger.active.map fun r => r.lease.id).Nodup
  unreleased : ∀ r ∈ s.ledger.active, s.ledger.released r.lease.id = none
  remembered : ∀ id, (s.ledger.released id).isSome → id ∈ s.reports
  touched : (s.ledger.active.flatMap ActivationRecord.touched).Nodup
  held : (s.held.map fun h => (h.id, h.host)).Perm (s.ledger.active.map fun r => (r.lease.id, r.host))
  within : Within s.held
  limits : ∀ h ∈ s.held, h.limit ≤ u32Max
  slots : ∀ host, s.ledger.slots host = s.ledger.active.countP fun r => r.host = host
  accounts : s.acquisitions.Perm (s.reports ++ s.ledger.active.map fun r => r.lease.id)
  acquired : s.ledger.acquired = min s.acquisitions.length u64Max
  releases : s.ledger.releases = min s.reports.length u64Max

theorem Books.countP_held {s : Watch} (h : Books s) (host : HostId) :
    (s.held.countP fun k => k.host = host) = s.ledger.active.countP fun r => r.host = host := by
  have hperm := h.held.countP_eq fun x => decide (x.2 = host)
  rwa [List.countP_map, List.countP_map] at hperm

theorem Books.start (belief : FleetSnapshot) : Books (start belief) := by
  refine ⟨List.nodup_nil, ?_, ?_, List.nodup_nil, .nil, trivial, ?_, fun _ => rfl, .nil, rfl, rfl⟩ <;>
  · intro r hr
    cases hr

theorem Books.acquire {s : Watch} (h : Books s) {caller : ℕ} {host : Host} {p : Plan} {lease : Lease}
    {nowMs : ℕ} {l : ActivationLedger} (hplanned : Planned p) (hdeployment : lease.deployment = p.deployment)
    (hacquire : s.ledger.acquireExclusive (.fromPlan p lease nowMs) host.maxConcurrentActivations = .ok l) :
    Books ((s.spent caller).acquired l lease.id p.host host.maxConcurrentActivations) := by
  obtain ⟨hfound, rfl⟩ := s.ledger.acquireExclusive_ok hacquire
  have hperm := ActivationLedger.insertActive_perm (.fromPlan p lease nowMs) s.ledger.active
  have hids : ((ActivationLedger.insertActive (.fromPlan p lease nowMs) s.ledger.active).map
      fun r => r.lease.id).Perm (lease.id :: s.ledger.active.map fun r => r.lease.id) := hperm.map _
  have hplaces : ((ActivationLedger.insertActive (.fromPlan p lease nowMs) s.ledger.active).map
      fun r => (r.lease.id, r.host)).Perm
        ((lease.id, p.host) :: s.ledger.active.map fun r => (r.lease.id, r.host)) := hperm.map _
  refine ⟨?_, ?_, h.remembered, ?_, ?_, ⟨?_, h.within⟩, ?_, ?_, ?_, ?_, h.releases⟩
  · exact hids.nodup_iff.2 (List.nodup_cons.2 ⟨hfound.fresh, h.ids⟩)
  · intro r hr
    rcases List.mem_cons.1 (hperm.mem_iff.1 hr) with rfl | hr
    · exact hfound.unreleased
    · exact h.unreleased r hr
  · refine (hperm.flatMap_right _).nodup_iff.2 ?_
    rw [List.flatMap_cons]
    refine List.Nodup.append ?_ h.touched ?_
    · show (lease.deployment :: p.evictionSet).Nodup
      rw [hdeployment]
      exact hplanned.touched_nodup
    · intro d hd hd'
      obtain ⟨r, hr, hd'⟩ := List.mem_flatMap.1 hd'
      exact hfound.apart r hr hd hd'
  · exact (h.held.cons (lease.id, p.host)).trans hplaces.symm
  · show (s.held.countP fun k => k.host = p.host) < _
    rw [h.countP_held, ← h.slots]
    exact hfound.slot
  · intro k hk
    rcases List.mem_cons.1 hk with rfl | hk
    · exact host.maxConcurrent_le
    · exact h.limits k hk
  · intro host'
    have hslot := hfound.slot
    have hlimit := host.maxConcurrent_le
    show Function.update s.ledger.slots p.host (satAdd u32Max (s.ledger.slots p.host) 1) host' =
      (ActivationLedger.insertActive (.fromPlan p lease nowMs) s.ledger.active).countP fun r => r.host = host'
    rw [hperm.countP_eq, List.countP_cons]
    by_cases hhost : host' = p.host
    · subst hhost
      have htop : s.ledger.slots p.host + 1 ≤ u32Max := by
        change s.ledger.slots p.host < _ at hslot
        have hone : 1 ≤ u32Max := by decide
        omega
      rw [Function.update_self, satAdd_eq htop, h.slots]
      simp [ActivationRecord.fromPlan]
    · rw [Function.update_of_ne hhost, h.slots]
      simp [ActivationRecord.fromPlan, Ne.symm hhost]
  · refine (h.accounts.cons lease.id).trans ?_
    exact List.perm_middle.symm.trans (hids.symm.append_left s.reports)
  · show satAdd u64Max s.ledger.acquired 1 = min (s.acquisitions.length + 1) u64Max
    rw [h.acquired, satAdd_min]

theorem Books.release {s : Watch} (h : Books s) {id : LeaseId} {l : ActivationLedger} {r : ActivationRecord}
    (hr : s.ledger.Releases id l r) : Books (s.released l id) := by
  obtain rfl := hr.id_eq
  have hperm := Lists.perm_cons_filter_key (fun r : ActivationRecord => r.lease.id) h.ids hr.held
  have hids : (s.ledger.active.map fun r => r.lease.id).Perm
      (r.lease.id :: (s.ledger.active.filter fun b => b.lease.id ≠ r.lease.id).map fun r => r.lease.id) :=
    hperm.map _
  have hactive : (s.released l r.lease.id).ledger.active =
      s.ledger.active.filter fun b => b.lease.id ≠ r.lease.id := hr.active
  refine ⟨?_, ?_, ?_, ?_, ?_, h.within.filter _, ?_, ?_, ?_, ?_, ?_⟩
  · rw [hactive]
    exact (List.filter_sublist.map _).nodup h.ids
  · rw [hactive]
    intro r' hr'
    obtain ⟨hmem, hne⟩ := List.mem_filter.1 hr'
    rw [← Option.not_isSome_iff_eq_none]
    intro hsome
    rcases hr.released _ hsome with hsame | hbefore
    · simp [hsame] at hne
    · rw [h.unreleased r' hmem] at hbefore
      cases hbefore
  · intro id hsome
    rcases hr.released id hsome with rfl | hbefore
    · exact List.mem_cons_self
    · exact List.mem_cons_of_mem _ (h.remembered id hbefore)
  · rw [hactive]
    exact (List.filter_sublist.flatMap _).nodup h.touched
  · rw [hactive]
    have hfilter := h.held.filter fun x => decide (x.1 ≠ r.lease.id)
    rwa [List.filter_map, List.filter_map] at hfilter
  · intro k hk
    exact h.limits k (List.mem_filter.1 hk).1
  · intro host
    have hcount := hperm.countP_eq fun b => decide (b.host = host)
    rw [List.countP_cons] at hcount
    rw [hactive]
    show l.slots host = _
    rw [hr.slots]
    by_cases hhost : host = r.host
    · subst hhost
      rw [Function.update_self, h.slots]
      simp only [decide_true, if_true] at hcount
      omega
    · rw [Function.update_of_ne hhost, h.slots]
      simpa [Ne.symm hhost] using hcount
  · rw [hactive]
    refine h.accounts.trans ?_
    exact (hids.append_left s.reports).trans List.perm_middle
  · show l.acquired = _
    rw [hr.acquired]
    exact h.acquired
  · show l.releases = min (s.reports.length + 1) u64Max
    rw [hr.releases, h.releases, satAdd_min]

theorem Books.transition {s : Watch} (h : Books s) (id : LeaseId) (next : ActivationState) :
    Books (s.withLedger (s.ledger.transition id next).1) := by
  obtain ⟨g, hg, heq⟩ := s.ledger.transition_eq id next
  rw [heq]
  have hmap : ∀ {β : Type} (f : ActivationRecord → β), (∀ r, f (g r) = f r) →
      (s.ledger.active.map g).map f = s.ledger.active.map f := by
    intro β f hf
    rw [List.map_map]
    exact List.map_congr_left fun r _ => hf r
  have hids := hmap (fun r => r.lease.id) fun r => by rw [(hg r).1]
  refine ⟨?_, ?_, h.remembered, ?_, ?_, h.within, h.limits, ?_, ?_, h.acquired, h.releases⟩
  · exact hids ▸ h.ids
  · intro r hr
    obtain ⟨r', hr', rfl⟩ := List.mem_map.1 hr
    rw [(hg r').1]
    exact h.unreleased r' hr'
  · show ((s.ledger.active.map g).flatMap ActivationRecord.touched).Nodup
    rw [List.flatMap_def, hmap ActivationRecord.touched fun r => by
      rw [ActivationRecord.touched, ActivationRecord.touched, (hg r).1, (hg r).2.2], ← List.flatMap_def]
    exact h.touched
  · show List.Perm _ ((s.ledger.active.map g).map fun r => (r.lease.id, r.host))
    rw [hmap (fun r => (r.lease.id, r.host)) fun r => by rw [(hg r).1, (hg r).2.1]]
    exact h.held
  · intro host
    show s.ledger.slots host = (s.ledger.active.map g).countP _
    rw [List.countP_map, h.slots]
    refine List.countP_congr fun r _ => ?_
    simp only [Function.comp_apply, (hg r).2.1]
  · show List.Perm _ (s.reports ++ (s.ledger.active.map g).map fun r => r.lease.id)
    rw [hids]
    exact h.accounts

/-- **The books are kept** by everything a step is made of. -/
theorem keeps_books : Keeps ByPlanner Books where
  draw _ _ _ h := ⟨h.ids, h.unreleased, h.remembered, h.touched, h.held, h.within, h.limits, h.slots, h.accounts,
    h.acquired, h.releases⟩
  spent _ _ h := ⟨h.ids, h.unreleased, h.remembered, h.touched, h.held, h.within, h.limits, h.slots, h.accounts,
    h.acquired, h.releases⟩
  acquired _ _ _ _ _ _ _ _ hplanned _ hcommit h := h.acquire hplanned rfl (commit_some hcommit).2
  transition _ id next h := h.transition id next
  released _ _ _ _ hr h := h.release hr
  publish _ h := ⟨h.ids, h.unreleased, h.remembered, h.touched, h.held, h.within, h.limits, h.slots, h.accounts,
    h.acquired, h.releases⟩
  observe _ _ _ h := ⟨h.ids, h.unreleased, h.remembered, h.touched, h.held, h.within, h.limits, h.slots, h.accounts,
    h.acquired, h.releases⟩

/-! ### Identifiers -/

/-- Each identifier has a number of its own. -/
structure Fresh (s : Watch) : Prop where
  counter : s.router.leaseCounter = s.draws % 2 ^ 64
  acquired : ∀ id ∈ s.acquisitions, ∃ k < s.draws, leaseNumber id = some k
  numbers : (s.acquisitions.map leaseNumber).Nodup
  drawn : ∀ c id, s.router.drawn c = some id →
    (∃ k < s.draws, leaseNumber id = some k) ∧ leaseNumber id ∉ s.acquisitions.map leaseNumber
  apart : ∀ c c' id id', s.router.drawn c = some id → s.router.drawn c' = some id' →
    leaseNumber id = leaseNumber id' → c = c'

theorem Fresh.start (belief : FleetSnapshot) : Fresh (start belief) := by
  refine ⟨rfl, ?_, List.nodup_nil, ?_, ?_⟩
  · intro id hid
    cases hid
  · intro c id h
    cases h
  · intro c c' id id' h
    cases h

theorem Fresh.draw {s : Watch} (h : Fresh s) (caller nowMs : ℕ) (hfew : s.draws < 2 ^ 64) :
    Fresh (s.draw caller nowMs) := by
  have hcounter : s.router.leaseCounter = s.draws := h.counter.trans (Nat.mod_eq_of_lt hfew)
  have hnumber : leaseNumber (leaseId nowMs s.router.leaseCounter) = some s.draws := by
    rw [hcounter]
    exact leaseNumber_leaseId nowMs (by rw [u64Max]; omega)
  -- no earlier identifier has the new number
  have hnew : ∀ id, (∃ k < s.draws, leaseNumber id = some k) → leaseNumber id ≠ some s.draws := by
    rintro id ⟨k, hk, hid⟩ hsame
    have hkd := Option.some.inj (hid.symm.trans hsame)
    omega
  have hlater : ∀ id, (∃ k < s.draws, leaseNumber id = some k) → ∃ k < s.draws + 1, leaseNumber id = some k := by
    rintro id ⟨k, hk, hid⟩
    exact ⟨k, by omega, hid⟩
  refine ⟨?_, fun id hid => hlater id (h.acquired id hid), h.numbers, ?_, ?_⟩
  · show wrapAdd 64 s.router.leaseCounter 1 = (s.draws + 1) % 2 ^ 64
    rw [hcounter, wrapAdd]
  · intro c id hdrawn
    change Function.update s.router.drawn caller _ c = some id at hdrawn
    by_cases hc : c = caller
    · rw [hc, Function.update_self] at hdrawn
      obtain rfl := Option.some.inj hdrawn
      refine ⟨⟨s.draws, Nat.lt_succ_self _, hnumber⟩, ?_⟩
      rw [hnumber]
      intro hmem
      obtain ⟨id, hid, hsame⟩ := List.mem_map.1 hmem
      exact hnew id (h.acquired id hid) hsame
    · rw [Function.update_of_ne hc] at hdrawn
      exact ⟨hlater id (h.drawn c id hdrawn).1, (h.drawn c id hdrawn).2⟩
  · intro c c' id id' hc hc' hsame
    change Function.update s.router.drawn caller _ c = some id at hc
    change Function.update s.router.drawn caller _ c' = some id' at hc'
    rw [Function.update_apply] at hc hc'
    split at hc
    · rename_i hcaller
      obtain rfl := Option.some.inj hc
      split at hc'
      · rename_i hcaller'
        exact hcaller.trans hcaller'.symm
      · exact absurd (hsame.symm.trans hnumber) (hnew id' (h.drawn c' id' hc').1)
    · split at hc'
      · obtain rfl := Option.some.inj hc'
        exact absurd (hsame.trans hnumber) (hnew id (h.drawn c id hc).1)
      · exact h.apart c c' id id' hc hc' hsame

theorem drawn_of_spent {s : Watch} {caller c : ℕ} {id : LeaseId}
    (h : (s.spent caller).router.drawn c = some id) : c ≠ caller ∧ s.router.drawn c = some id := by
  change Function.update s.router.drawn caller none c = some id at h
  rw [Function.update_apply] at h
  split at h
  · cases h
  · rename_i hc
    exact ⟨hc, h⟩

theorem Fresh.spent {s : Watch} (h : Fresh s) (caller : ℕ) : Fresh (s.spent caller) where
  counter := h.counter
  acquired := h.acquired
  numbers := h.numbers
  drawn c id hc := h.drawn c id (drawn_of_spent hc).2
  apart c c' id id' hc hc' := h.apart c c' id id' (drawn_of_spent hc).2 (drawn_of_spent hc').2

theorem Fresh.acquire {s : Watch} (h : Fresh s) {caller : ℕ} {id : LeaseId}
    (hdrawn : s.router.drawn caller = some id) (l : ActivationLedger) (host : HostId) (limit : ℕ) :
    Fresh ((s.spent caller).acquired l id host limit) := by
  refine ⟨h.counter, ?_, ?_, ?_, ?_⟩
  · intro id' hid'
    rcases List.mem_cons.1 hid' with rfl | hid'
    · exact (h.drawn caller id' hdrawn).1
    · exact h.acquired id' hid'
  · exact List.nodup_cons.2 ⟨(h.drawn caller id hdrawn).2, h.numbers⟩
  · intro c id' hc
    obtain ⟨hne, hc⟩ := drawn_of_spent hc
    refine ⟨(h.drawn c id' hc).1, ?_⟩
    intro hmem
    rcases List.mem_cons.1 hmem with hsame | hmem
    · exact hne (h.apart c caller id' id hc hdrawn hsame)
    · exact (h.drawn c id' hc).2 hmem
  · intro c c' id' id'' hc hc'
    exact h.apart c c' id' id'' (drawn_of_spent hc).2 (drawn_of_spent hc').2

/-- **The identifiers stay apart** while the counter does not come round. -/
theorem keeps_fresh (C : Watch → CommitEvent → Prop) : Keeps C fun s => s.draws ≤ 2 ^ 64 → Fresh s where
  draw _ caller nowMs h hfew := (h (Nat.le_of_lt hfew)).draw caller nowMs hfew
  spent _ caller h hfew := (h hfew).spent caller
  acquired _ _ _ _ _ _ _ l _ hdrawn _ h hfew := (h hfew).acquire hdrawn l _ _
  transition _ _ _ h hfew := ⟨(h hfew).counter, (h hfew).acquired, (h hfew).numbers, (h hfew).drawn, (h hfew).apart⟩
  released _ _ _ _ _ h hfew := ⟨(h hfew).counter, (h hfew).acquired, (h hfew).numbers, (h hfew).drawn, (h hfew).apart⟩
  publish _ h hfew := ⟨(h hfew).counter, (h hfew).acquired, (h hfew).numbers, (h hfew).drawn, (h hfew).apart⟩
  observe _ _ _ h hfew := ⟨(h hfew).counter, (h hfew).acquired, (h hfew).numbers, (h hfew).drawn, (h hfew).apart⟩

/-- There are no more acquisitions than identifiers. -/
theorem Fresh.length_le {s : Watch} (h : Fresh s) : s.acquisitions.length ≤ s.draws := by
  have hsubset : (s.acquisitions.map leaseNumber).toFinset ⊆ (Finset.range s.draws).image some := by
    intro x hx
    obtain ⟨id, hid, rfl⟩ := List.mem_map.1 (List.mem_toFinset.1 hx)
    obtain ⟨k, hk, hnumber⟩ := h.acquired id hid
    rw [hnumber]
    exact Finset.mem_image_of_mem _ (Finset.mem_range.2 hk)
  calc s.acquisitions.length
      = (s.acquisitions.map leaseNumber).toFinset.card := by
        rw [List.toFinset_card_of_nodup h.numbers, List.length_map]
    _ ≤ ((Finset.range s.draws).image some).card := Finset.card_le_card hsubset
    _ ≤ s.draws := Finset.card_image_le.trans (Finset.card_range _).le

end Watch

end HypeLlm.Fleet
