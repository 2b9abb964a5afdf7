import HypeLlm.Lib.Words
import HypeLlm.Lib.Maps
import HypeLlm.Routing.Target

/-!
# The activation queue

Requests for a capability no loaded model serves are batched: the first to find enough of them
waiting, or one of them waiting long enough, pays for the activation, and the others ride on it.
The queue keeps a count for each capability and nothing about who is counted, so it is the callers
that have to uncount themselves exactly as often as they were counted.

* `admitCaller` counts the caller and answers in one step; a full queue answers `full` and counts nobody;
* `parkUpTo` counts a caller for the length of its wait, and `poll` asks again on its behalf;
* `leave` uncounts somebody.

Each operation is described by what it does to the count (`waiting_admitCaller`, `waiting_parkUpTo`,
`waiting_leave`, `waiting_poll`, `waiting_settle`); the rest of the queue only decides who pays.
-/

namespace HypeLlm.Fleet

open HypeLlm.Words HypeLlm.Routing
open Std (TreeMap TransCmp LawfulEqCmp)

/-- What a request waiting for a cold capability should do. -/
inductive QueueAdmission where
  | activate
  | wait (retryInMs : ℕ)
  | full
  deriving Repr, DecidableEq

/-- The two thresholds of a fleet policy that the queue reads. -/
structure FleetPolicy where
  activationMinDemand : ℕ
  activationMaxWaitMs : ℕ
  deriving Repr, DecidableEq

structure QueueState where
  waiting : ℕ
  oldestMs : ℕ
  triggered : Bool
  deriving Repr, DecidableEq

def maxQueuedPerCapability : ℕ := 256

def maxJobsQueuedPerCapability : ℕ := maxQueuedPerCapability / 2

/-- Capabilities in the order of their declaration. -/
def capabilityOrder : Capability → Capability → Ordering := compareOn Capability.ctorIdx

instance : TransCmp capabilityOrder := inferInstanceAs (TransCmp (compareOn _))

theorem Capability.ctorIdx_injective : Function.Injective Capability.ctorIdx := by
  intro a b h
  cases a <;> cases b <;> first | rfl | exact absurd h (by decide)

instance : LawfulEqCmp capabilityOrder where
  eq_of_compare h := Capability.ctorIdx_injective (LawfulEqCmp.eq_of_compare h)

/-- Whether the demand, or its age, has earned an activation. -/
def FleetPolicy.reached (policy : FleetPolicy) (state : QueueState) (nowMs : ℕ) : Bool :=
  max policy.activationMinDemand 1 ≤ state.waiting ||
    policy.activationMaxWaitMs ≤ nowMs - state.oldestMs

/-- What a caller hears that is counted, and whether it triggers: a trigger already pulled is
ridden on, a threshold reached pulls it. -/
def QueueState.answer (state : QueueState) (policy : FleetPolicy) (nowMs : ℕ) :
    QueueAdmission × QueueState :=
  if state.triggered then (.wait 0, state)
  else if policy.reached state nowMs then (.activate, { state with triggered := true })
  else (.wait (policy.activationMaxWaitMs - (nowMs - state.oldestMs)), state)

/-- One more counted; the first to be counted starts the age. -/
def QueueState.count (state : QueueState) (nowMs : ℕ) : QueueState :=
  { state with
    oldestMs := if state.waiting = 0 then nowMs else state.oldestMs
    waiting := satAdd u32Max state.waiting 1 }

abbrev ActivationQueue := TreeMap Capability QueueState capabilityOrder

namespace ActivationQueue

def new : ActivationQueue := ∅

/-- The entry of a capability, as `or_insert` leaves it. -/
def entry (q : ActivationQueue) (capability : Capability) (nowMs : ℕ) : QueueState :=
  q[capability]?.getD ⟨0, nowMs, false⟩

def admitCaller (q : ActivationQueue) (capability : Capability) (policy : FleetPolicy) (nowMs : ℕ) :
    QueueAdmission × ActivationQueue :=
  let state := q.entry capability nowMs
  if maxQueuedPerCapability ≤ state.waiting then (.full, q.insert capability state)
  else
    let answered := (state.count nowMs).answer policy nowMs
    (answered.1, q.insert capability answered.2)

def parkUpTo (q : ActivationQueue) (capability : Capability) (nowMs limit : ℕ) :
    Bool × ActivationQueue :=
  let state := q.entry capability nowMs
  if min limit maxQueuedPerCapability ≤ state.waiting then (false, q.insert capability state)
  else (true, q.insert capability (state.count nowMs))

def park (q : ActivationQueue) (capability : Capability) (nowMs : ℕ) : Bool × ActivationQueue :=
  q.parkUpTo capability nowMs maxQueuedPerCapability

def poll (q : ActivationQueue) (capability : Capability) (policy : FleetPolicy) (nowMs : ℕ) :
    QueueAdmission × ActivationQueue :=
  match q[capability]? with
  | none => (.wait policy.activationMaxWaitMs, q)
  | some state =>
    let answered := state.answer policy nowMs
    (answered.1, q.insert capability answered.2)

def leave (q : ActivationQueue) (capability : Capability) : ActivationQueue :=
  match q[capability]? with
  | none => q
  | some state =>
    q.insert capability
      { state with
        waiting := state.waiting - 1
        triggered := if state.waiting - 1 = 0 then false else state.triggered }

def settle (q : ActivationQueue) (capability : Capability) : ActivationQueue :=
  match q[capability]? with
  | none => q
  | some state => q.insert capability { state with triggered := false }

def untrigger (q : ActivationQueue) (capability : Capability) : ActivationQueue :=
  match q[capability]? with
  | none => q
  | some state => q.insert capability { state with triggered := false }

/-- How many are counted for a capability. -/
def waiting (q : ActivationQueue) (capability : Capability) : ℕ :=
  q[capability]?.elim 0 QueueState.waiting

/-! ### What each operation does to the count -/

section Waiting

variable (q : ActivationQueue) (capability c : Capability) (policy : FleetPolicy) (nowMs : ℕ)

@[simp] theorem waiting_new : waiting new c = 0 := by
  simp [waiting, new]

theorem waiting_insert (state : QueueState) :
    waiting (q.insert capability state) c = if c = capability then state.waiting else q.waiting c := by
  unfold waiting
  rw [Maps.getElem?_insert]
  split <;> rfl

theorem waiting_entry : (q.entry capability nowMs).waiting = q.waiting capability := by
  unfold entry waiting
  cases q[capability]? <;> rfl

theorem answer_waiting (state : QueueState) :
    (state.answer policy nowMs).2.waiting = state.waiting := by
  unfold QueueState.answer
  split
  · rfl
  · split <;> rfl

/-- Somebody counted is not told that the queue is full. -/
theorem answer_ne_full (state : QueueState) : (state.answer policy nowMs).1 ≠ .full := by
  unfold QueueState.answer
  split
  · simp
  · split <;> simp

/-- Below the bound the counter has room. -/
theorem count_waiting (state : QueueState) (h : state.waiting < maxQueuedPerCapability) :
    (state.count nowMs).waiting = state.waiting + 1 := by
  have hroom : state.waiting + 1 ≤ u32Max := by
    have hbound : maxQueuedPerCapability < u32Max := by decide
    omega
  exact satAdd_eq hroom

/-- An entry rewritten with the count it had leaves every count. -/
theorem waiting_insert_same {state : QueueState} (h : state.waiting = q.waiting capability) :
    waiting (q.insert capability state) c = q.waiting c := by
  rw [waiting_insert]
  split
  · rw [h, ‹c = capability›]
  · rfl

theorem admit_full_iff :
    (q.admitCaller capability policy nowMs).1 = .full ↔ maxQueuedPerCapability ≤ q.waiting capability := by
  simp only [admitCaller, waiting_entry]
  split
  · simp [*]
  · simp only [*, iff_false]
    exact answer_ne_full policy nowMs _

/-- **Asking counts the caller, unless the queue is full.** -/
theorem waiting_admitCaller :
    (q.admitCaller capability policy nowMs).2.waiting c =
      q.waiting c + if c = capability ∧ (q.admitCaller capability policy nowMs).1 ≠ .full then 1 else 0 := by
  by_cases hfull : maxQueuedPerCapability ≤ q.waiting capability
  · have hanswer := (admit_full_iff q capability policy nowMs).2 hfull
    rw [if_neg (fun h => h.2 hanswer), Nat.add_zero]
    simp only [admitCaller, waiting_entry, if_pos hfull]
    exact waiting_insert_same q capability c (waiting_entry q capability nowMs)
  · have hanswer : (q.admitCaller capability policy nowMs).1 ≠ .full :=
      fun h => hfull ((admit_full_iff q capability policy nowMs).1 h)
    have hcount := count_waiting nowMs (q.entry capability nowMs)
      (by rw [waiting_entry]; omega)
    simp only [hanswer, ne_eq, not_false_eq_true, and_true]
    simp only [admitCaller, waiting_entry, if_neg hfull]
    rw [waiting_insert, answer_waiting, hcount, waiting_entry]
    split
    · rw [‹c = capability›]
    · rfl

/-- **Parking counts the caller, if it is let in.** -/
theorem waiting_parkUpTo (limit : ℕ) :
    (q.parkUpTo capability nowMs limit).2.waiting c =
      q.waiting c + if c = capability ∧ (q.parkUpTo capability nowMs limit).1 then 1 else 0 := by
  simp only [parkUpTo, waiting_entry]
  by_cases hfull : min limit maxQueuedPerCapability ≤ q.waiting capability
  · rw [if_pos hfull]
    rw [waiting_insert_same q capability c (waiting_entry q capability nowMs)]
    simp
  · rw [if_neg hfull]
    have hcount := count_waiting nowMs (q.entry capability nowMs)
      (by rw [waiting_entry]; omega)
    rw [waiting_insert, hcount, waiting_entry]
    by_cases hc : c = capability
    · simp [hc]
    · simp [hc]

theorem waiting_park :
    (q.park capability nowMs).2.waiting c =
      q.waiting c + if c = capability ∧ (q.park capability nowMs).1 then 1 else 0 :=
  waiting_parkUpTo q capability c nowMs maxQueuedPerCapability

/-- **Leaving uncounts somebody, if anybody is counted.** -/
theorem waiting_leave :
    (q.leave capability).waiting c = q.waiting c - if c = capability then 1 else 0 := by
  unfold leave
  split
  case h_1 hnone =>
    by_cases hc : c = capability
    · simp [waiting, hc, hnone]
    · simp [hc]
  case h_2 state hstate =>
    rw [waiting_insert]
    by_cases hc : c = capability
    · simp [waiting, hc, hstate]
    · simp [hc]

theorem waiting_poll : (q.poll capability policy nowMs).2.waiting c = q.waiting c := by
  unfold poll
  split
  case h_1 => rfl
  case h_2 state hstate =>
    refine waiting_insert_same q capability c ?_
    rw [answer_waiting]
    simp [waiting, hstate]

/-- Clearing the trigger leaves every count. -/
theorem waiting_settle : (q.settle capability).waiting c = q.waiting c := by
  unfold settle
  split
  case h_1 => rfl
  case h_2 state hstate =>
    refine waiting_insert_same q capability c ?_
    simp [waiting, hstate]

theorem untrigger_eq_settle : q.untrigger capability = q.settle capability := rfl

end Waiting

end ActivationQueue

end HypeLlm.Fleet
