import HypeLlm.Lib.Lists
import HypeLlm.Lib.Runs
import HypeLlm.Fleet.ActivationQueue

/-!
# The demand the activation queue counts

Three kinds of caller count themselves: an attempt that asks on a pass that is not parked, for the
length of `activate_for`; a request that parks, for the length of its wait; and a queued job, from
its submission until it leaves the job queue.  Their calls interleave freely, so a state is the
queue and the callers that are between the call that may count them and the one that uncounts them,
and a run is any list of their calls.  A request that parks takes a place among the parked requests
before the queue counts it and gives it back after the queue has uncounted it, each in a call of its
own, so that others may come in between.

A caller is counted when the queue took it in.  `activate_for` leaves the queue after every answer,
`full` among them, though a caller answered `full` was never counted: its leave uncounts somebody
else.

* **`waiting_exact_iff`** — in every state of a run the queue counts exactly the callers that were
  counted and not yet uncounted, if and only if no caller answered `full` leaves while somebody is
  waiting for its capability;
* `refused_caller_uncounts` — two hundred and fifty-six parked requests, one caller refused, and
  the queue counts two hundred and fifty-five;
* **`parkedRequests_exact`** — in every state of a run the counter of the parked requests is the number
  of places that are held, and it and the requests that are parked stay within the configured bound.
-/

namespace HypeLlm.Fleet

open HypeLlm.Runs HypeLlm.Routing

/-- A caller of the queue, between the call that may count it and the one that uncounts it. -/
inductive Caller where
  /-- `activate_for` on a pass that is not parked, with the answer it was given. -/
  | asking (capability : Capability) (answer : QueueAdmission)
  /-- `await_activation` with a place among the parked requests, before `park`. -/
  | placed (capability : Capability)
  /-- `await_activation` between `park` and `unpark`. -/
  | parked (capability : Capability)
  /-- `await_activation` after a refused `park` or after `unpark`, before the place is given back. -/
  | returning
  /-- A job in the job queue, with the capability it is counted for. -/
  | job (capability : Option Capability)
  /-- Nothing left to call. -/
  | gone
  deriving Repr, DecidableEq

/-- The queue took the caller in for `c`, and the caller has not uncounted itself. -/
def Caller.countedFor (c : Capability) : Caller → Bool
  | .asking capability answer => c = capability && answer != .full
  | .placed _ => false
  | .parked capability => c = capability
  | .returning => false
  | .job capability => capability = some c
  | .gone => false

def Caller.isParked : Caller → Bool
  | .parked _ => true
  | _ => false

/-- The caller has taken a place among the parked requests and not given it back. -/
def Caller.holdsPlace : Caller → Bool
  | .placed _ => true
  | .parked _ => true
  | .returning => true
  | _ => false

inductive Event where
  /-- `admit_to_queue`, by an attempt on a pass that is not parked. -/
  | ask (capability : Capability) (policy : FleetPolicy) (nowMs : ℕ)
  /-- The gate defers the activation an attempt was granted. -/
  | deferred (id : ℕ)
  /-- The rest of `activate_for`. -/
  | answered (id : ℕ)
  /-- `poll_queue`, by a caller that is parked. -/
  | poll (capability : Capability) (policy : FleetPolicy) (nowMs : ℕ)
  /-- The gate defers the activation a parked caller was granted. -/
  | withdrawn (capability : Capability)
  /-- An activation has finished. -/
  | settled (capability : Capability)
  /-- The update of the counter of the parked requests, against the configured bound. -/
  | takePlace (capability : Capability) (limit : ℕ)
  /-- `park`, by a request that has its place. -/
  | parkRequest (id : ℕ) (nowMs : ℕ)
  /-- `unpark`, after the loop of `await_activation`. -/
  | unparkRequest (id : ℕ)
  /-- The counter of the parked requests is lowered. -/
  | givePlace (id : ℕ)
  /-- A job is submitted, for an alias with or without a capability. -/
  | submitJob (capability : Option Capability) (nowMs : ℕ)
  /-- A pass of an uncounted job ended waiting for an activation. -/
  | parkJob (id : ℕ) (capability : Option Capability) (nowMs : ℕ)
  /-- A job leaves the job queue. -/
  | releaseJob (id : ℕ)
  deriving Repr, DecidableEq

/-- The bound a place is taken against, where one is taken. -/
def Event.limit : Event → ℕ
  | .takePlace _ limit => limit
  | _ => 0

/-- What `activate_for` does to the queue once it has its answer: a caller told to wait or refused
leaves at once, one told to activate leaves after `ensure_ready`. -/
def leaveQueue (q : ActivationQueue) (capability : Capability) : QueueAdmission → ActivationQueue
  | .activate => q.leave capability
  | .wait _ => q.leave capability
  | .full => q.leave capability

/-- `park` of a job: the capability it is counted for from now on. -/
def parkJob (q : ActivationQueue) (capability : Option Capability) (nowMs : ℕ) :
    Option Capability × ActivationQueue :=
  match capability with
  | none => (none, q)
  | some capability =>
    let tried := q.parkUpTo capability nowMs maxJobsQueuedPerCapability
    if tried.1 then (some capability, tried.2) else (none, tried.2)

/-- `release_parked`. -/
def releaseParked (q : ActivationQueue) : Option Capability → ActivationQueue
  | none => q
  | some capability => q.leave capability

structure System where
  queue : ActivationQueue
  parkedRequests : ℕ
  callers : List Caller

namespace System

def init : System := ⟨ActivationQueue.new, 0, []⟩

def step (s : System) : Event → System
  | .ask capability policy nowMs =>
    let asked := s.queue.admitCaller capability policy nowMs
    { s with queue := asked.2, callers := s.callers ++ [Caller.asking capability asked.1] }
  | .deferred id =>
    match s.callers[id]? with
    | some (.asking capability .activate) =>
      { s with
        queue := s.queue.untrigger capability
        callers := s.callers.set id (.asking capability (.wait 0)) }
    | _ => s
  | .answered id =>
    match s.callers[id]? with
    | some (.asking capability answer) =>
      { s with
        queue := leaveQueue s.queue capability answer
        callers := s.callers.set id .gone }
    | _ => s
  | .poll capability policy nowMs =>
    { s with queue := (s.queue.poll capability policy nowMs).2 }
  | .withdrawn capability => { s with queue := s.queue.untrigger capability }
  | .settled capability => { s with queue := s.queue.settle capability }
  | .takePlace capability limit =>
    if s.parkedRequests < limit then
      { s with
        parkedRequests := s.parkedRequests + 1
        callers := s.callers ++ [Caller.placed capability] }
    else s
  | .parkRequest id nowMs =>
    match s.callers[id]? with
    | some (.placed capability) =>
      let tried := s.queue.park capability nowMs
      { s with
        queue := tried.2
        callers := s.callers.set id (if tried.1 then .parked capability else .returning) }
    | _ => s
  | .unparkRequest id =>
    match s.callers[id]? with
    | some (.parked capability) =>
      { s with
        queue := s.queue.leave capability
        callers := s.callers.set id .returning }
    | _ => s
  | .givePlace id =>
    match s.callers[id]? with
    | some .returning =>
      { s with
        parkedRequests := s.parkedRequests - 1
        callers := s.callers.set id .gone }
    | _ => s
  | .submitJob capability nowMs =>
    let tried := parkJob s.queue capability nowMs
    { s with queue := tried.2, callers := s.callers ++ [Caller.job tried.1] }
  | .parkJob id capability nowMs =>
    match s.callers[id]? with
    | some (.job none) =>
      let tried := parkJob s.queue capability nowMs
      { s with queue := tried.2, callers := s.callers.set id (.job tried.1) }
    | _ => s
  | .releaseJob id =>
    match s.callers[id]? with
    | some (.job capability) =>
      { s with
        queue := releaseParked s.queue capability
        callers := s.callers.set id .gone }
    | _ => s

def after (es : List Event) : System := run step init es

/-- The callers that were counted for `c` and have not been uncounted. -/
def counted (s : System) (c : Capability) : ℕ := s.callers.countP (Caller.countedFor c)

/-- The queue counts the callers that are counted, for every capability. -/
def Exact (s : System) : Prop := ∀ c, s.queue.waiting c = s.counted c

/-- The event is the leave of a caller answered `full`, while somebody waits for its capability. -/
def refusedLeaves (s : System) : Event → Bool
  | .answered id =>
    match s.callers[id]? with
    | some (.asking capability .full) => 0 < s.queue.waiting capability
    | _ => false
  | _ => false

end System

/-- A place is found exactly below the limit that was given. -/
theorem ActivationQueue.parkUpTo_iff {q : ActivationQueue} {capability : Capability} {nowMs limit : ℕ} :
    (q.parkUpTo capability nowMs limit).1 = true ↔
      q.waiting capability < min limit maxQueuedPerCapability := by
  unfold ActivationQueue.parkUpTo
  dsimp only
  rw [ActivationQueue.waiting_entry]
  split
  · exact iff_of_false (fun h => by cases h) (by omega)
  · exact iff_of_true rfl (by omega)

namespace System

/-! ### The count of the callers -/

section Counted

variable {s : System}

theorem exact_init : init.Exact := fun c => by simp [init, counted]

/-- A caller that joins brings itself to the count. -/
theorem Exact.join (h : s.Exact) (caller : Caller) {queue : ActivationQueue} {n : ℕ}
    (hq : ∀ c, queue.waiting c = s.queue.waiting c + if caller.countedFor c then 1 else 0) :
    Exact ⟨queue, n, s.callers ++ [caller]⟩ := by
  intro c
  show queue.waiting c = (s.callers ++ [caller]).countP _
  rw [hq c, h c, counted, List.countP_append, List.countP_singleton]

/-- A caller that moves on changes the count by what it was and what it is. -/
theorem Exact.move (h : s.Exact) {id : ℕ} {x y : Caller} (hx : s.callers[id]? = some x)
    {queue : ActivationQueue} {n : ℕ}
    (hq : ∀ c, queue.waiting c + (if x.countedFor c then 1 else 0) =
      s.queue.waiting c + if y.countedFor c then 1 else 0) :
    Exact ⟨queue, n, s.callers.set id y⟩ := by
  intro c
  show queue.waiting c = (s.callers.set id y).countP _
  have hset := Lists.countP_set (Caller.countedFor c) s.callers id x y hx
  have hmove := hq c
  have hcount : s.queue.waiting c = s.callers.countP (Caller.countedFor c) := h c
  omega

/-- A queue whose counts are as they were. -/
theorem Exact.quiet (h : s.Exact) {queue : ActivationQueue} {n : ℕ}
    (hq : ∀ c, queue.waiting c = s.queue.waiting c) : Exact ⟨queue, n, s.callers⟩ :=
  fun c => (hq c).trans (h c)

/-- Somebody is waiting for what a counted caller waits for. -/
theorem Exact.waiting_pos (h : s.Exact) {id : ℕ} {x : Caller} {c : Capability}
    (hx : s.callers[id]? = some x) (hc : x.countedFor c = true) : 0 < s.queue.waiting c := by
  rw [h c, counted, List.countP_pos_iff]
  exact ⟨x, List.mem_of_getElem? hx, hc⟩

/-- **A counted caller uncounts itself by leaving.** -/
theorem Exact.leave (h : s.Exact) {id : ℕ} {x y : Caller} {capability : Capability} {n : ℕ}
    (hx : s.callers[id]? = some x) (hc : ∀ c, x.countedFor c = decide (c = capability))
    (hy : ∀ c, y.countedFor c = false) :
    Exact ⟨s.queue.leave capability, n, s.callers.set id y⟩ := by
  refine h.move hx fun c => ?_
  have hpos : 0 < s.queue.waiting capability := h.waiting_pos hx (by rw [hc]; simp)
  rw [ActivationQueue.waiting_leave, hc c, hy c]
  by_cases hcap : c = capability
  · subst hcap
    simp only [if_true, decide_true, Bool.false_eq_true, if_false]
    omega
  · simp [hcap]

theorem leaveQueue_eq (q : ActivationQueue) (capability : Capability) (answer : QueueAdmission) :
    leaveQueue q capability answer = q.leave capability := by
  cases answer <;> rfl

/-- What `park` of a job does to the counts is what the job's entry says. -/
theorem waiting_parkJob (q : ActivationQueue) (capability : Option Capability) (nowMs : ℕ)
    (c : Capability) :
    (parkJob q capability nowMs).2.waiting c =
      q.waiting c + if (Caller.job (parkJob q capability nowMs).1).countedFor c then 1 else 0 := by
  cases capability with
  | none => simp [parkJob, Caller.countedFor]
  | some capability =>
    have hpark := ActivationQueue.waiting_parkUpTo q capability c nowMs maxJobsQueuedPerCapability
    simp only [parkJob]
    split
    case isTrue hin =>
      rw [hpark, hin]
      simp [Caller.countedFor, eq_comm (a := c)]
    case isFalse hout =>
      rw [hpark]
      simp [Caller.countedFor, hout]

end Counted

/-! ### One step -/

/-- **A step keeps the count exact, unless a refused caller leaves.** -/
theorem step_exact (s : System) (e : Event) (h : s.Exact) (he : s.refusedLeaves e = false) :
    (s.step e).Exact := by
  cases e with
  | ask capability policy nowMs =>
    refine h.join _ fun c => ?_
    rw [ActivationQueue.waiting_admitCaller]
    simp [Caller.countedFor]
  | deferred id =>
    simp only [step]
    split
    case h_1 capability hid =>
      refine h.move hid fun c => ?_
      rw [ActivationQueue.untrigger_eq_settle, ActivationQueue.waiting_settle]
      simp [Caller.countedFor]
    case h_2 => exact h
  | answered id =>
    simp only [step]
    split
    case h_1 capability answer hid =>
      rw [leaveQueue_eq]
      by_cases hfull : answer = .full
      · -- Nobody is waiting, so there is nobody to uncount.
        subst hfull
        have hzero : s.queue.waiting capability = 0 := by
          simpa [refusedLeaves, hid] using he
        refine h.move hid fun c => ?_
        rw [ActivationQueue.waiting_leave]
        by_cases hcap : c = capability
        · subst hcap
          simp [Caller.countedFor, hzero]
        · simp [Caller.countedFor, hcap]
      · exact h.leave hid (fun c => by simp [Caller.countedFor, hfull]) fun _ => rfl
    case h_2 => exact h
  | poll capability policy nowMs =>
    exact h.quiet fun c => ActivationQueue.waiting_poll s.queue capability c policy nowMs
  | withdrawn capability =>
    exact h.quiet fun c => ActivationQueue.waiting_settle s.queue capability c
  | settled capability =>
    exact h.quiet fun c => ActivationQueue.waiting_settle s.queue capability c
  | takePlace capability limit =>
    simp only [step]
    split
    · exact h.join _ fun c => by simp [Caller.countedFor]
    · exact h
  | parkRequest id nowMs =>
    simp only [step]
    split
    case h_1 capability hid =>
      refine h.move hid fun c => ?_
      rw [ActivationQueue.waiting_park]
      by_cases hin : (s.queue.park capability nowMs).1 = true
      · simp [Caller.countedFor, hin]
      · simp [Caller.countedFor, hin]
    case h_2 => exact h
  | unparkRequest id =>
    simp only [step]
    split
    case h_1 capability hid =>
      exact h.leave hid (fun c => by simp [Caller.countedFor]) fun _ => rfl
    case h_2 => exact h
  | givePlace id =>
    simp only [step]
    split
    case h_1 hid => exact h.move hid fun c => by simp [Caller.countedFor]
    case h_2 => exact h
  | submitJob capability nowMs =>
    exact h.join _ fun c => waiting_parkJob s.queue capability nowMs c
  | parkJob id capability nowMs =>
    simp only [step]
    split
    case h_1 hid =>
      refine h.move hid fun c => ?_
      rw [waiting_parkJob]
      simp [Caller.countedFor]
    case h_2 => exact h
  | releaseJob id =>
    simp only [step]
    split
    case h_1 capability hid =>
      cases capability with
      | none => exact h.move hid fun c => by simp [releaseParked, Caller.countedFor]
      | some capability =>
        exact h.leave hid (fun c => by simp [Caller.countedFor, eq_comm (a := c)]) fun _ => rfl
    case h_2 => exact h

/-- A refused caller that leaves takes somebody else's count with it. -/
theorem step_not_exact (s : System) (e : Event) (h : s.Exact) (he : s.refusedLeaves e = true) :
    ¬(s.step e).Exact := by
  intro hnext
  cases e with
  | answered id =>
    simp only [refusedLeaves] at he
    split at he
    case h_1 capability hid =>
      have hpos : 0 < s.queue.waiting capability := by simpa using he
      have hstep : s.step (.answered id) =
          { s with queue := s.queue.leave capability, callers := s.callers.set id .gone } := by
        simp only [step, hid, leaveQueue_eq]
      rw [hstep] at hnext
      have hafter : (s.queue.leave capability).waiting capability =
          (s.callers.set id .gone).countP (Caller.countedFor capability) := hnext capability
      rw [ActivationQueue.waiting_leave, if_pos rfl] at hafter
      have hset := Lists.countP_set (Caller.countedFor capability) s.callers id _ .gone hid
      have hbefore : s.queue.waiting capability =
          s.callers.countP (Caller.countedFor capability) := h capability
      simp [Caller.countedFor] at hset
      omega
    case h_2 => simp at he
  | _ => simp [refusedLeaves] at he

/-! ### Whole runs -/

/-- **Waiting demand is counted exactly, in every state of a run, if and only if no caller the
queue refused leaves it while somebody is waiting for its capability.** -/
theorem waiting_exact_iff (es : List Event) :
    (∀ n, (after (es.take n)).Exact) ↔
      StepsMeet step (fun s e => s.refusedLeaves e = false) init es := by
  unfold after
  generalize hs : init = s
  have hinit : s.Exact := hs ▸ exact_init
  clear hs
  induction es generalizing s with
  | nil => simpa [StepsMeet] using hinit
  | cons e es ih =>
    constructor
    · intro hall
      have hstep : (s.step e).Exact := hall 1
      have he : s.refusedLeaves e = false := by
        by_contra hbad
        exact step_not_exact s e hinit (by simpa using hbad) hstep
      exact ⟨he, (ih (s.step e) hstep).1 fun n => hall (n + 1)⟩
    · rintro ⟨he, hes⟩ n
      have hstep : (s.step e).Exact := step_exact s e hinit he
      cases n with
      | zero => exact hinit
      | succ n => exact (ih (s.step e) hstep).2 hes n

/-- Requests that park one after another. -/
def parking (n : ℕ) : List Event :=
  (List.range n).flatMap fun id => [Event.takePlace .chat 256, .parkRequest id 0]

/-- As many are parked and counted as asked for it, up to the bound. -/
theorem after_parking {n : ℕ} (hn : n ≤ 256) :
    (after (parking n)).callers = List.replicate n (.parked .chat) ∧
      (after (parking n)).parkedRequests = n ∧ (after (parking n)).queue.waiting .chat = n := by
  induction n with
  | zero => exact ⟨rfl, rfl, ActivationQueue.waiting_new .chat⟩
  | succ n ih =>
    obtain ⟨hcallers, hplaces, hwaiting⟩ := ih (Nat.le_of_succ_le hn)
    have hrun : after (parking (n + 1)) =
        ((after (parking n)).step (.takePlace .chat 256)).step (.parkRequest n 0) := by
      rw [after, parking, List.range_succ, List.flatMap_append, run_append]
      rfl
    have htaken : (after (parking n)).step (.takePlace .chat 256) =
        { after (parking n) with
          parkedRequests := n + 1
          callers := List.replicate n (.parked .chat) ++ [.placed .chat] } := by
      simp only [step]
      rw [if_pos (by omega), hcallers, hplaces]
    have hroom : ((after (parking n)).queue.park .chat 0).1 = true := by
      refine ActivationQueue.parkUpTo_iff.2 ?_
      rw [hwaiting, min_self, maxQueuedPerCapability]
      omega
    have hid : (List.replicate n (Caller.parked .chat) ++ [.placed .chat])[n]? = some (.placed .chat) := by
      rw [List.getElem?_append_right (by rw [List.length_replicate]), List.length_replicate, Nat.sub_self]
      rfl
    rw [hrun, htaken]
    simp only [step, hid, hroom, if_true]
    refine ⟨?_, trivial, ?_⟩
    · rw [List.set_append_right _ _ (by rw [List.length_replicate]), List.length_replicate, Nat.sub_self,
        List.replicate_succ']
      rfl
    · rw [ActivationQueue.waiting_park, hroom, hwaiting]
      simp

/-- A full queue, a caller that it refuses, and the caller's leave. -/
def refusal : List Event := parking 256 ++ [Event.ask .chat ⟨1, 20000⟩ 0, .answered 256]

/-- What is left of a caller that is refused. -/
theorem step_refused (s : System) {capability : Capability} {policy : FleetPolicy} {nowMs : ℕ}
    (hfull : (s.queue.admitCaller capability policy nowMs).1 = .full) :
    (s.step (.ask capability policy nowMs)).step (.answered s.callers.length) =
      { s with
        queue := (s.queue.admitCaller capability policy nowMs).2.leave capability
        callers := s.callers ++ [.gone] } := by
  have hid : (s.callers ++ [Caller.asking capability .full])[s.callers.length]? =
      some (.asking capability .full) := by
    rw [List.getElem?_append_right (Nat.le_refl _), Nat.sub_self, List.getElem?_cons_zero]
  simp only [step, hfull, hid, leaveQueue_eq]
  rw [List.set_append_right _ _ (Nat.le_refl _), Nat.sub_self, List.set_cons_zero]

theorem refused_caller_uncounts :
    ¬(∀ es, (after es).Exact) ∧ (after refusal).queue.waiting .chat = 255 ∧
      (after refusal).counted .chat = 256 := by
  obtain ⟨hcallers, -, hwaiting⟩ := after_parking (Nat.le_refl 256)
  have hfull : ((after (parking 256)).queue.admitCaller .chat ⟨1, 20000⟩ 0).1 = .full := by
    rw [ActivationQueue.admit_full_iff, hwaiting, maxQueuedPerCapability]
  have hrefused := step_refused (after (parking 256)) hfull
  rw [hcallers, List.length_replicate] at hrefused
  have hrun : after refusal =
      ((after (parking 256)).step (.ask .chat ⟨1, 20000⟩ 0)).step (.answered 256) := by
    rw [after, refusal, run_append, run_cons, run_cons, run_nil, after]
  have hafter := hrun.trans hrefused
  have hleft : (after refusal).queue.waiting .chat = 255 := by
    rw [hafter, ActivationQueue.waiting_leave, ActivationQueue.waiting_admitCaller, hfull, hwaiting]
    simp
  have hcounted : (after refusal).counted .chat = 256 := by
    rw [counted, hafter, List.countP_append, List.countP_replicate]
    simp [Caller.countedFor]
  refine ⟨fun hall => ?_, hleft, hcounted⟩
  have hexact := hall refusal .chat
  rw [hleft, hcounted] at hexact
  exact absurd hexact (by decide)

/-! ### The bound on parked requests -/

/-- The counter of the parked requests is the number of places that are held. -/
def Placed (s : System) : Prop := s.parkedRequests = s.callers.countP Caller.holdsPlace

section Placed

variable {s : System}

/-- A caller that moves on without its place, or with it. -/
theorem Placed.move (h : s.Placed) {id : ℕ} {x y : Caller} (hx : s.callers[id]? = some x)
    (hxy : x.holdsPlace = y.holdsPlace) {queue : ActivationQueue} :
    Placed ⟨queue, s.parkedRequests, s.callers.set id y⟩ := by
  have hset := Lists.countP_set Caller.holdsPlace s.callers id x y hx
  rw [hxy] at hset
  exact Eq.trans h (Nat.add_right_cancel hset).symm

/-- A caller that joins without a place. -/
theorem Placed.join (h : s.Placed) {caller : Caller} (hcaller : caller.holdsPlace = false)
    {queue : ActivationQueue} : Placed ⟨queue, s.parkedRequests, s.callers ++ [caller]⟩ := by
  show s.parkedRequests = (s.callers ++ [caller]).countP Caller.holdsPlace
  rw [List.countP_append, List.countP_singleton, hcaller]
  exact h

/-- **A step keeps the counter at the places that are held.** -/
theorem Placed.step (h : s.Placed) (e : Event) : (s.step e).Placed := by
  cases e with
  | ask capability policy nowMs => exact h.join rfl
  | deferred id =>
    simp only [System.step]
    split
    case h_1 hid => exact h.move hid (by rfl)
    case h_2 => exact h
  | answered id =>
    simp only [System.step]
    split
    case h_1 hid => exact h.move hid (by rfl)
    case h_2 => exact h
  | takePlace capability limit =>
    simp only [System.step]
    split
    · show s.parkedRequests + 1 = (s.callers ++ [Caller.placed capability]).countP Caller.holdsPlace
      rw [List.countP_append, List.countP_singleton, ← show s.parkedRequests = _ from h]
      rfl
    · exact h
  | parkRequest id nowMs =>
    simp only [System.step]
    split
    case h_1 capability hid =>
      refine h.move hid ?_
      split <;> rfl
    case h_2 => exact h
  | unparkRequest id =>
    simp only [System.step]
    split
    case h_1 hid => exact h.move hid (by rfl)
    case h_2 => exact h
  | givePlace id =>
    simp only [System.step]
    split
    case h_1 hid =>
      have hset := Lists.countP_set Caller.holdsPlace s.callers id _ .gone hid
      have hplaces : s.parkedRequests = s.callers.countP Caller.holdsPlace := h
      simp only [Caller.holdsPlace, if_true, Bool.false_eq_true, if_false] at hset
      show s.parkedRequests - 1 = (s.callers.set id .gone).countP Caller.holdsPlace
      omega
    case h_2 => exact h
  | submitJob capability nowMs => exact h.join rfl
  | parkJob id capability nowMs =>
    simp only [System.step]
    split
    case h_1 hid => exact h.move hid (by rfl)
    case h_2 => exact h
  | releaseJob id =>
    simp only [System.step]
    split
    case h_1 hid => exact h.move hid (by rfl)
    case h_2 => exact h
  | _ => exact h

end Placed

/-- A step raises the counter to its own bound at most. -/
theorem parkedRequests_step (s : System) (e : Event) :
    (s.step e).parkedRequests ≤ max s.parkedRequests e.limit := by
  cases e with
  | takePlace capability limit =>
    simp only [step, Event.limit]
    split
    · rename_i hroom
      exact le_max_of_le_right hroom
    · exact le_max_left _ _
  | givePlace id =>
    simp only [step]
    split
    · exact (Nat.sub_le _ _).trans (le_max_left _ _)
    · exact le_max_left _ _
  | _ =>
    refine le_max_of_le_left (le_of_eq ?_)
    simp only [step]
    try split <;> rfl

/-- A run keeps a bound that every place is taken against. -/
theorem parkedRequests_run {limit : ℕ} {es : List Event} (hlimit : ∀ e ∈ es, e.limit ≤ limit) {s : System}
    (h : s.parkedRequests ≤ limit) : (run step s es).parkedRequests ≤ limit := by
  induction es generalizing s with
  | nil => exact h
  | cons e es ih =>
    have hstep : (s.step e).parkedRequests ≤ limit :=
      (parkedRequests_step s e).trans (max_le h (hlimit e List.mem_cons_self))
    exact ih (fun e he => hlimit e (List.mem_cons_of_mem _ he)) hstep

/-- **The counter of the parked requests is the number of places that are held**, and it stays, with
the requests that are parked, within the largest bound a place was taken against. -/
theorem parkedRequests_exact (limit : ℕ) (es : List Event) (hlimit : ∀ e ∈ es, e.limit ≤ limit) :
    (after es).parkedRequests = (after es).callers.countP Caller.holdsPlace ∧
      (after es).parkedRequests ≤ limit ∧ (after es).callers.countP Caller.isParked ≤ limit := by
  have hplaced : (after es).Placed := run_invariant (P := Placed) (fun _ e h => h.step e) (by rfl) es
  have hbound : (after es).parkedRequests ≤ limit := parkedRequests_run hlimit (Nat.zero_le limit)
  have hparked : (after es).callers.countP Caller.isParked ≤
      (after es).callers.countP Caller.holdsPlace := by
    refine List.countP_mono_left fun caller _ hcaller => ?_
    cases caller <;> first | rfl | cases hcaller
  exact ⟨hplaced, hbound, hparked.trans (hplaced ▸ hbound)⟩

/-- A request that parks while another one finds no place. -/
def lastPlace : List Event := [.takePlace .chat 1, .takePlace .chat 1, .parkRequest 0 0]

theorem lastPlace_parked :
    (after lastPlace).callers = [.parked .chat] ∧ (after lastPlace).parkedRequests ≤ 1 :=
  ⟨by decide +kernel, (parkedRequests_exact 1 lastPlace (by decide)).2.1⟩

end System

end HypeLlm.Fleet
