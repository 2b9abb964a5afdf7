import HypeLlm.Fleet.Snapshot
import HypeLlm.Lib.Decimal

/-!
# The activation ledger

What the router holds: a record for each lease, a count of the slots taken on each host, the leases it
released lately.  A lease is acquired where its activation touches nothing that another one held
touches and the host has a slot; it is released once.

* `acquireExclusive_ok` — what an acquisition found, and what it leaves behind;
* `release_cases` — a release finds the lease held and gives its slot back, or does nothing.
-/

namespace HypeLlm.Fleet

open HypeLlm.Words HypeLlm.Routing

/-! ### Activations -/

inductive ActivationState where
  | planned
  | leaseHeld
  | draining
  | stopping
  | fetching
  | starting
  | probing
  | ready
  | failed
  | rollbackPending
  | rollbackDone
  | rollbackFailed
  | cancelled
  deriving Repr, DecidableEq

namespace ActivationState

def isTerminal : ActivationState → Bool
  | .ready => true
  | .failed => true
  | .rollbackDone => true
  | .rollbackFailed => true
  | .cancelled => true
  | _ => false

def mayTransitionTo (s next : ActivationState) : Bool :=
  if (next = .failed ∨ next = .cancelled) ∧ s.isTerminal = false then true
  else
    match s, next with
    | .planned, .leaseHeld => true
    | .leaseHeld, .draining => true
    | .leaseHeld, .stopping => true
    | .leaseHeld, .fetching => true
    | .leaseHeld, .starting => true
    | .draining, .stopping => true
    | .stopping, .fetching => true
    | .stopping, .starting => true
    | .fetching, .starting => true
    | .starting, .probing => true
    | .probing, .ready => true
    -- rolled back is only what failed
    | .failed, .rollbackPending => true
    | .rollbackPending, .rollbackDone => true
    | .rollbackPending, .rollbackFailed => true
    | _, _ => false

end ActivationState

inductive ActivationOutcome where
  | succeeded
  | failed
  | failedAndRolledBack
  | failedAndQuarantined
  | cancelled
  deriving Repr, DecidableEq

structure Lease where
  id : LeaseId
  deployment : DeploymentId
  operation : LeaseOperation
  issuedMs : ℕ
  expiresMs : ℕ
  decisionId : String
  deriving Repr, DecidableEq

structure ActivationRecord where
  lease : Lease
  host : HostId
  state : ActivationState
  /-- In the order they are evicted. -/
  evicted : List DeploymentId
  startedMs : ℕ
  finishedMs : Option ℕ
  outcome : Option ActivationOutcome
  detail : String
  deriving Repr, DecidableEq

namespace ActivationRecord

def fromPlan (p : Plan) (lease : Lease) (nowMs : ℕ) : ActivationRecord :=
  ⟨lease, p.host, .planned, p.evictionSet, nowMs, none, none, ""⟩

/-- The deployments an activation starts or stops. -/
def touched (r : ActivationRecord) : List DeploymentId := r.lease.deployment :: r.evicted

/-- The activations touch a common deployment. -/
def overlaps (r held : ActivationRecord) : Bool :=
  decide (held.lease.deployment = r.lease.deployment) || held.evicted.contains r.lease.deployment ||
    r.evicted.contains held.lease.deployment || r.evicted.any held.evicted.contains

theorem disjoint_of_overlaps {r held : ActivationRecord} (h : r.overlaps held = false) :
    r.touched.Disjoint held.touched := by
  simp only [overlaps, Bool.or_eq_false_iff, decide_eq_false_iff_not, List.contains_eq_mem,
    List.any_eq_false, decide_eq_true_eq] at h
  obtain ⟨⟨⟨hsame, hheld⟩, hmine⟩, hboth⟩ := h
  intro d hr hd
  rcases List.mem_cons.1 hr with rfl | hr <;> rcases List.mem_cons.1 hd with hd | hd
  · exact hsame hd.symm
  · exact hheld hd
  · exact hmine (hd ▸ hr)
  · exact hboth d hr hd

end ActivationRecord

/-! ### The ledger -/

inductive LeaseRelease where
  | released
  | alreadyReleased
  | unknown
  deriving Repr, DecidableEq

inductive AcquireRefusal where
  | hostBusy
  | duplicate
  | conflict
  deriving Repr, DecidableEq

structure ActivationLedger where
  /-- The leases held, in the order of their identifiers. -/
  active : List ActivationRecord
  /-- Released lately, so that a second release is told from a first. -/
  released : LeaseId → Option ActivationOutcome
  /-- The order they were released in. -/
  releasedOrder : List LeaseId
  slots : HostId → ℕ
  /-- Newest last. -/
  history : List ActivationRecord
  acquired : ℕ
  releases : ℕ

def maxHistory : ℕ := 256
def maxReleased : ℕ := 4096

namespace ActivationLedger

def empty : ActivationLedger := ⟨[], fun _ => none, [], fun _ => 0, [], 0, 0⟩

variable (l : ActivationLedger)

def find (id : LeaseId) : Option ActivationRecord := l.active.find? fun r => r.lease.id = id

/-- Into the place of its identifier. -/
def insertActive (r : ActivationRecord) (active : List ActivationRecord) : List ActivationRecord :=
  active.orderedInsert (fun a b => a.lease.id ≤ b.lease.id) r

def acquireExclusive (r : ActivationRecord) (maxConcurrent : ℕ) : Except AcquireRefusal ActivationLedger :=
  if (l.find r.lease.id).isSome || (l.released r.lease.id).isSome then .error .duplicate
  else if l.active.any r.overlaps then .error .conflict
  else if max maxConcurrent 1 ≤ l.slots r.host then .error .hostBusy
  else
    .ok
      { l with
        slots := Function.update l.slots r.host (satAdd u32Max (l.slots r.host) 1)
        acquired := satAdd u64Max l.acquired 1
        active := insertActive r l.active }

/-- What the activations in flight evict. -/
def evicting (d : DeploymentId) : Bool := l.active.any fun r => r.evicted.contains d

/-- Of two leases of one deployment the later identifier stands. -/
def leasesByDeployment (d : DeploymentId) : Option Lease :=
  (l.active.reverse.find? fun r => r.lease.deployment = d).map ActivationRecord.lease

def transition (id : LeaseId) (next : ActivationState) : ActivationLedger × Bool :=
  match l.find id with
  | none => (l, false)
  | some r =>
    if r.state.mayTransitionTo next then
      ({ l with active := l.active.map fun r => if r.lease.id = id then { r with state := next } else r },
        true)
    else (l, false)

/-- Forget the oldest releases above the bound. -/
def forget : List LeaseId → (LeaseId → Option ActivationOutcome) →
    List LeaseId × (LeaseId → Option ActivationOutcome)
  | [], released => ([], released)
  | id :: order, released =>
    if maxReleased < (id :: order).length then forget order (Function.update released id none)
    else (id :: order, released)

def release (id : LeaseId) (outcome : ActivationOutcome) (detail : String) (nowMs : ℕ) :
    ActivationLedger × LeaseRelease :=
  if (l.released id).isSome then (l, .alreadyReleased)
  else
    match l.find id with
    | none => (l, .unknown)
    | some r =>
      let kept := forget (l.releasedOrder ++ [id]) (Function.update l.released id (some outcome))
      let history := l.history ++ [{ r with finishedMs := some nowMs, outcome := some outcome, detail }]
      ({ l with
          active := l.active.filter fun r => r.lease.id ≠ id
          slots := Function.update l.slots r.host (l.slots r.host - 1)
          released := kept.2
          releasedOrder := kept.1
          releases := satAdd u64Max l.releases 1
          history := history.drop (history.length - maxHistory) },
        .released)

/-- The leases that have run out. -/
def expired (nowMs : ℕ) : List LeaseId :=
  (l.active.filter fun r => r.lease.expiresMs ≤ nowMs).map fun r => r.lease.id

/-! ### What the operations do -/

theorem insertActive_perm (r : ActivationRecord) (active : List ActivationRecord) :
    (insertActive r active).Perm (r :: active) :=
  List.perm_orderedInsert _ r active

theorem find_eq_none {id : LeaseId} (h : l.find id = none) : id ∉ l.active.map fun r => r.lease.id := by
  intro hmem
  obtain ⟨r, hr, hid⟩ := List.mem_map.1 hmem
  exact absurd hid (by simpa using List.find?_eq_none.1 h r hr)

theorem mem_of_find {id : LeaseId} {r : ActivationRecord} (h : l.find id = some r) :
    r ∈ l.active ∧ r.lease.id = id :=
  ⟨List.mem_of_find?_eq_some h, by simpa using List.find?_some h⟩

/-- What an acquisition found. -/
structure Acquires (r : ActivationRecord) (maxConcurrent : ℕ) : Prop where
  fresh : r.lease.id ∉ l.active.map fun r => r.lease.id
  unreleased : l.released r.lease.id = none
  apart : ∀ held ∈ l.active, r.touched.Disjoint held.touched
  slot : l.slots r.host < max maxConcurrent 1

/-- **An acquisition** finds the identifier new, nothing touched that it touches and a slot, and takes
all of it. -/
theorem acquireExclusive_ok {r : ActivationRecord} {maxConcurrent : ℕ} {l' : ActivationLedger}
    (h : l.acquireExclusive r maxConcurrent = .ok l') :
    l.Acquires r maxConcurrent ∧
      l' = { l with
        slots := Function.update l.slots r.host (satAdd u32Max (l.slots r.host) 1)
        acquired := satAdd u64Max l.acquired 1
        active := insertActive r l.active } := by
  rw [acquireExclusive] at h
  split at h
  · cases h
  · rename_i hknown
    split at h
    · cases h
    · rename_i hconflict
      split at h
      · cases h
      · rename_i hslot
        rw [Bool.or_eq_true, not_or] at hknown
        have hfresh : l.find r.lease.id = none := Option.not_isSome_iff_eq_none.1 hknown.1
        have hunreleased : l.released r.lease.id = none := Option.not_isSome_iff_eq_none.1 hknown.2
        refine ⟨⟨l.find_eq_none hfresh, hunreleased, ?_, not_le.1 hslot⟩, (Except.ok.inj h).symm⟩
        intro held hheld
        refine ActivationRecord.disjoint_of_overlaps ?_
        rw [Bool.not_eq_true, List.any_eq_false] at hconflict
        simpa using hconflict held hheld

/-- Where nothing stands against it, the lease is acquired. -/
theorem acquireExclusive_of_acquires {r : ActivationRecord} {maxConcurrent : ℕ}
    (hactive : l.active = []) (hreleased : l.released r.lease.id = none)
    (hslot : l.slots r.host < max maxConcurrent 1) :
    ∃ l', l.acquireExclusive r maxConcurrent = .ok l' := by
  rw [acquireExclusive, find, hactive, hreleased, if_neg (by simp), if_neg (by simp),
    if_neg (not_le.2 hslot)]
  exact ⟨_, rfl⟩

theorem forget_le (order : List LeaseId) (released : LeaseId → Option ActivationOutcome) (id : LeaseId)
    (h : ((forget order released).2 id).isSome) : (released id).isSome := by
  induction order generalizing released with
  | nil => exact h
  | cons oldest order ih =>
    rw [forget] at h
    split at h
    · have hkept := ih (Function.update released oldest none) h
      by_cases hid : id = oldest
      · rw [hid, Function.update_self] at hkept
        cases hkept
      · rwa [Function.update_of_ne hid] at hkept
    · exact h

/-- What a release that is reported as one finds and leaves behind. -/
structure Releases (id : LeaseId) (l' : ActivationLedger) (r : ActivationRecord) : Prop where
  held : r ∈ l.active
  id_eq : r.lease.id = id
  active : l'.active = l.active.filter fun r => r.lease.id ≠ id
  slots : l'.slots = Function.update l.slots r.host (l.slots r.host - 1)
  acquired : l'.acquired = l.acquired
  releases : l'.releases = satAdd u64Max l.releases 1
  released : ∀ id', (l'.released id').isSome → id' = id ∨ (l.released id').isSome

/-- **A release** gives back the slot of a lease that is held, or does nothing and says so. -/
theorem release_cases (id : LeaseId) (outcome : ActivationOutcome) (detail : String) (nowMs : ℕ) :
    ((l.release id outcome detail nowMs).1 = l ∧ (l.release id outcome detail nowMs).2 ≠ .released) ∨
      (l.release id outcome detail nowMs).2 = .released ∧
        ∃ r, l.Releases id (l.release id outcome detail nowMs).1 r := by
  rw [release]
  split
  · exact .inl ⟨rfl, by simp⟩
  · cases hfind : l.find id with
    | none => exact .inl ⟨rfl, by simp⟩
    | some r =>
      obtain ⟨hmem, hid⟩ := l.mem_of_find hfind
      refine .inr ⟨rfl, r, hmem, hid, rfl, rfl, rfl, rfl, ?_⟩
      intro id' h
      have hkept := forget_le _ _ _ h
      by_cases hsame : id' = id
      · exact .inl hsame
      · rw [Function.update_of_ne hsame] at hkept
        exact .inr hkept

/-- A transition changes nothing but states. -/
theorem transition_eq (id : LeaseId) (next : ActivationState) :
    ∃ g : ActivationRecord → ActivationRecord,
      (∀ r, (g r).lease = r.lease ∧ (g r).host = r.host ∧ (g r).evicted = r.evicted) ∧
        (l.transition id next).1 = { l with active := l.active.map g } := by
  have hsame : l = { l with active := l.active.map fun r => r } := by rw [List.map_id']
  rw [transition]
  split
  · exact ⟨_, fun r => ⟨rfl, rfl, rfl⟩, hsame⟩
  · split
    · refine ⟨fun r => if r.lease.id = id then { r with state := next } else r, ?_, rfl⟩
      intro r
      by_cases hid : r.lease.id = id
      · simp [hid]
      · simp [hid]
    · exact ⟨_, fun r => ⟨rfl, rfl, rfl⟩, hsame⟩

/-- A lease that is held and was not released before is released. -/
theorem release_held {r : ActivationRecord} (hr : r ∈ l.active) (hreleased : l.released r.lease.id = none)
    (outcome : ActivationOutcome) (detail : String) (nowMs : ℕ) :
    (l.release r.lease.id outcome detail nowMs).2 = .released := by
  rw [release, hreleased, if_neg (by simp)]
  cases hfind : l.find r.lease.id with
  | none => exact absurd (List.mem_map_of_mem hr) (l.find_eq_none hfind)
  | some _ => rfl

end ActivationLedger

/-! ### Leases for plans -/

def leaseExpiryMs (p : Plan) (nowMs : ℕ) : ℕ :=
  satAdd u64Max nowMs (max (satMul u64Max p.etaMs 3) 120000)

def leaseFor (p : Plan) (id : LeaseId) (decisionId : String) (nowMs : ℕ) : Lease :=
  ⟨id, p.deployment, .activate, nowMs, leaseExpiryMs p nowMs, decisionId⟩

/-- `l-`, the time, and a number. -/
def leaseId (nowMs n : ℕ) : LeaseId :=
  String.ofList ("l-".toList ++ Decimal.text 20 nowMs ++ '-' :: Decimal.text 20 n)

/-- The number after the last dash. -/
def leaseNumber (id : LeaseId) : Option ℕ :=
  Decimal.parseDigits (id.toList.reverse.takeWhile (· ≠ '-')).reverse

theorem leaseNumber_leaseId {n : ℕ} (nowMs : ℕ) (h : n ≤ u64Max) : leaseNumber (leaseId nowMs n) = some n := by
  have hfuel : n < 10 ^ 20 := lt_of_le_of_lt h (by decide)
  have hdash : ∀ c ∈ (Decimal.text 20 n).reverse, decide (c ≠ '-') = true := by
    intro c hc
    obtain ⟨d, hd, rfl⟩ := Decimal.digit_of_mem_text (List.mem_reverse.1 hc)
    rw [decide_eq_true_eq]
    intro hsame
    have hnat := congrArg Char.toNat hsame
    rw [Decimal.toNat_digitChar hd] at hnat
    have hdashNat : '-'.toNat = 45 := rfl
    omega
  have htake : ((leaseId nowMs n).toList.reverse.takeWhile (· ≠ '-')) = (Decimal.text 20 n).reverse := by
    rw [leaseId, String.toList_ofList, List.reverse_append, List.reverse_cons, List.append_assoc,
      List.takeWhile_append_of_pos hdash]
    simp
  rw [leaseNumber, htake, List.reverse_reverse]
  exact Decimal.parseDigits_text hfuel

end HypeLlm.Fleet
