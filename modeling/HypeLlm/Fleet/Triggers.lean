import HypeLlm.Fleet.ActivationQueue
import HypeLlm.Lib.Runs

/-!
# What earns an activation

The queue keeps a count and one time for each capability, for requests that come and leave in any order.
Beside it the requests that are counted are kept here, each with the time it came at, and whether an
activation was granted since the trigger was last cleared.

The count is exact and bounded in every run, and an activation is granted once between two clearings.
The time is that of the request that found nobody waiting.  It stays when that request leaves and
others wait on, and then an activation is granted for a wait that nobody present has had.

* `entry_admitCaller`, `entry_parkUpTo`, `entry_leave`, `entry_settle`, `entry_poll` — what each call does
  to what is kept of a capability;
* **`trigger_earned`** — what holds in every run, and what in those whose leaves keep the time true;
* `Sample.oldest_left` — and not in the others.
-/

namespace HypeLlm.Fleet

open HypeLlm.Runs HypeLlm.Routing

/-! ### What a call does to an entry -/

/-- The entry of a capability after a leave. -/
def QueueState.left (state : QueueState) : QueueState :=
  { state with
    waiting := state.waiting - 1
    triggered := if state.waiting - 1 = 0 then false else state.triggered }

namespace ActivationQueue

variable (q : ActivationQueue) (capability c : Capability) (policy : FleetPolicy) (nowMs t : ℕ)

theorem entry_insert (state : QueueState) :
    entry (q.insert capability state) c t = if c = capability then state else q.entry c t := by
  rw [entry, Maps.getElem?_insert]
  split <;> rfl

/-- An entry that is there does not hang on the time it would be made with. -/
theorem entry_eq_of_waiting (h : q.waiting c ≠ 0) : q.entry c nowMs = q.entry c t := by
  rw [waiting] at h
  rw [entry, entry]
  cases hget : q[c]? with
  | none =>
    rw [hget] at h
    exact absurd rfl h
  | some state => rfl

theorem entry_admitCaller (h : q.waiting capability < maxQueuedPerCapability) :
    q.admitCaller capability policy nowMs =
      ((((q.entry capability nowMs).count nowMs).answer policy nowMs).1,
        q.insert capability (((q.entry capability nowMs).count nowMs).answer policy nowMs).2) := by
  rw [admitCaller, waiting_entry, if_neg (Nat.not_le.2 h)]

theorem admitCaller_full (h : maxQueuedPerCapability ≤ q.waiting capability) :
    q.admitCaller capability policy nowMs = (.full, q.insert capability (q.entry capability nowMs)) := by
  rw [admitCaller, waiting_entry, if_pos h]

theorem parkUpTo_eq (limit : ℕ) :
    q.parkUpTo capability nowMs limit =
      if min limit maxQueuedPerCapability ≤ q.waiting capability then
        (false, q.insert capability (q.entry capability nowMs))
      else (true, q.insert capability ((q.entry capability nowMs).count nowMs)) := by
  rw [parkUpTo, waiting_entry]

theorem entry_leave :
    (q.leave capability).entry c t = if c = capability then (q.entry c t).left else q.entry c t := by
  rw [leave]
  split
  · rename_i hnone
    split
    · rename_i hc
      rw [entry, hc, hnone]
      rfl
    · rfl
  · rename_i state hstate
    rw [entry_insert]
    split
    · rename_i hc
      rw [entry, hc, hstate]
      rfl
    · rfl

theorem entry_settle :
    (q.settle capability).entry c t =
      if c = capability then { q.entry c t with triggered := false } else q.entry c t := by
  rw [settle]
  split
  · rename_i hnone
    split
    · rename_i hc
      rw [entry, hc, hnone]
      rfl
    · rfl
  · rename_i state hstate
    rw [entry_insert]
    split
    · rename_i hc
      rw [entry, hc, hstate]
      rfl
    · rfl

/-- Somebody who asks for a capability nobody was ever counted for is told to wait; else the entry
answers. -/
theorem entry_poll :
    q.poll capability policy nowMs = (.wait policy.activationMaxWaitMs, q) ∨
      q.poll capability policy nowMs =
        (((q.entry capability t).answer policy nowMs).1,
          q.insert capability ((q.entry capability t).answer policy nowMs).2) := by
  rw [poll]
  cases hget : q[capability]? with
  | none => exact .inl rfl
  | some state =>
    right
    rw [entry, hget]
    rfl

end ActivationQueue

open ActivationQueue

/-! ### Runs -/

/-- A call of the queue.  A request leaves by its place among those that wait for its capability. -/
inductive QueueCall where
  | park (capability : Capability) (nowMs limit : ℕ)
  | admitCaller (capability : Capability) (policy : FleetPolicy) (nowMs : ℕ)
  | poll (capability : Capability) (policy : FleetPolicy) (nowMs : ℕ)
  | leave (capability : Capability) (place : ℕ)
  | settle (capability : Capability)
  | untrigger (capability : Capability)
  deriving Repr, DecidableEq

/-- The queue, and beside it the requests that are counted. -/
structure Waiting where
  queue : ActivationQueue
  /-- When the requests that are counted and have not left came. -/
  since : Capability → List ℕ
  /-- An activation was granted since the trigger was last cleared. -/
  granted : Capability → Bool

namespace Waiting

def new : Waiting := ⟨ActivationQueue.new, fun _ => [], fun _ => false⟩

/-- What a caller is told. -/
def answer (s : Waiting) : QueueCall → Option QueueAdmission
  | .admitCaller capability policy nowMs => some (s.queue.admitCaller capability policy nowMs).1
  | .poll capability policy nowMs => some (s.queue.poll capability policy nowMs).1
  | _ => none

/-- An activation is granted with this answer. -/
def grant (s : Waiting) (capability : Capability) (answer : QueueAdmission) : Waiting :=
  { s with granted := if answer = .activate then Function.update s.granted capability true else s.granted }

def step (s : Waiting) : QueueCall → Waiting
  | .park capability nowMs limit =>
    let tried := s.queue.parkUpTo capability nowMs limit
    { s with
      queue := tried.2
      since := if tried.1 then Function.update s.since capability (s.since capability ++ [nowMs])
        else s.since }
  | .admitCaller capability policy nowMs =>
    let asked := s.queue.admitCaller capability policy nowMs
    { s with
      queue := asked.2
      since := if asked.1 = QueueAdmission.full then s.since
        else Function.update s.since capability (s.since capability ++ [nowMs]) }.grant capability asked.1
  | .poll capability policy nowMs =>
    let asked := s.queue.poll capability policy nowMs
    { s with queue := asked.2 }.grant capability asked.1
  | .leave capability place =>
    if place < (s.since capability).length then
      let rest := (s.since capability).eraseIdx place
      { queue := s.queue.leave capability
        since := Function.update s.since capability rest
        granted := if rest = [] then Function.update s.granted capability false else s.granted }
    else s
  | .settle capability =>
    { s with
      queue := s.queue.settle capability
      granted := Function.update s.granted capability false }
  | .untrigger capability =>
    { s with
      queue := s.queue.untrigger capability
      granted := Function.update s.granted capability false }

/-! ### What every call keeps -/

/-- An entry counts the requests and knows whether an activation was granted. -/
structure Tallied (state : QueueState) (since : List ℕ) (granted : Bool) : Prop where
  waiting : state.waiting = since.length
  bounded : state.waiting ≤ maxQueuedPerCapability
  triggered : state.triggered = granted

/-- The time of an entry is no earlier than that of somebody who waits. -/
def Covered (state : QueueState) (since : List ℕ) : Prop := since ≠ [] → ∃ t ∈ since, t ≤ state.oldestMs

namespace Tallied

variable {state : QueueState} {since : List ℕ} {granted : Bool} {policy : FleetPolicy} {nowMs : ℕ}

theorem count (h : Tallied state since granted) (hroom : state.waiting < maxQueuedPerCapability) :
    Tallied (state.count nowMs) (since ++ [nowMs]) granted where
  waiting := by
    rw [count_waiting nowMs state hroom, h.waiting, List.length_append, List.length_singleton]
  bounded := by
    rw [count_waiting nowMs state hroom]
    exact hroom
  triggered := h.triggered

theorem answer (h : Tallied state since granted) :
    Tallied (state.answer policy nowMs).2 since
      (if (state.answer policy nowMs).1 = .activate then true else granted) := by
  refine ⟨(answer_waiting policy nowMs state).trans h.waiting, ?_, ?_⟩
  · rw [answer_waiting]
    exact h.bounded
  · rw [QueueState.answer]
    split
    · exact h.triggered
    · split
      · rfl
      · exact h.triggered

/-- A granted activation is not granted again. -/
theorem granted_eq_false (h : Tallied state since granted)
    (hanswer : (state.answer policy nowMs).1 = .activate) : granted = false := by
  rw [QueueState.answer] at hanswer
  split at hanswer
  · cases hanswer
  · rename_i huntriggered
    rw [← h.triggered]
    exact Bool.not_eq_true _ ▸ huntriggered

theorem left (h : Tallied state since granted) {place : ℕ} (hplace : place < since.length) :
    Tallied state.left (since.eraseIdx place) (if since.eraseIdx place = [] then false else granted) := by
  have hlength := List.length_eraseIdx_of_lt hplace
  have hwaiting := h.waiting
  refine ⟨?_, ?_, ?_⟩
  · show state.waiting - 1 = _
    rw [hlength, hwaiting]
  · exact (Nat.sub_le ..).trans h.bounded
  · show (if state.waiting - 1 = 0 then false else state.triggered) = _
    rw [h.triggered, hwaiting, ← hlength]
    simp only [List.length_eq_zero_iff]

end Tallied

namespace Covered

variable {state : QueueState} {since : List ℕ} {nowMs : ℕ}

theorem count (h : Covered state since) (hwaiting : state.waiting = since.length) :
    Covered (state.count nowMs) (since ++ [nowMs]) := by
  intro _
  by_cases hnone : since = []
  · have hzero : state.waiting = 0 := by rw [hwaiting, hnone]; rfl
    refine ⟨nowMs, List.mem_append_right _ List.mem_cons_self, ?_⟩
    rw [QueueState.count]
    dsimp only
    rw [if_pos hzero]
  · obtain ⟨t, ht, hle⟩ := h hnone
    have hsome : state.waiting ≠ 0 := by
      rw [hwaiting]
      exact fun hzero => hnone (List.length_eq_zero_iff.1 hzero)
    refine ⟨t, List.mem_append_left _ ht, ?_⟩
    rw [QueueState.count]
    dsimp only
    rwa [if_neg hsome]

end Covered

theorem answer_oldestMs (state : QueueState) (policy : FleetPolicy) (nowMs : ℕ) :
    (state.answer policy nowMs).2.oldestMs = state.oldestMs := by
  rw [QueueState.answer]
  split
  · rfl
  · split <;> rfl

/-- Enough requests wait, or one of them has waited long enough. -/
def Earned (waiting : ℕ) (since : List ℕ) (policy : FleetPolicy) (nowMs : ℕ) : Prop :=
  max policy.activationMinDemand 1 ≤ waiting ∨ ∃ t ∈ since, policy.activationMaxWaitMs ≤ nowMs - t

/-- **An activation is earned** where somebody who waits came no later than the time that is kept. -/
theorem Covered.earned {state : QueueState} {since : List ℕ} (h : Covered state since)
    (hsome : since ≠ []) {policy : FleetPolicy} {nowMs : ℕ}
    (hanswer : (state.answer policy nowMs).1 = .activate) : Earned state.waiting since policy nowMs := by
  rw [QueueState.answer] at hanswer
  split at hanswer
  · cases hanswer
  · split at hanswer
    · rename_i hreached
      rw [FleetPolicy.reached, Bool.or_eq_true, decide_eq_true_eq, decide_eq_true_eq] at hreached
      refine hreached.imp_right fun hlong => ?_
      obtain ⟨t, ht, hle⟩ := h hsome
      exact ⟨t, ht, by omega⟩
    · cases hanswer

/-! ### One call -/

/-- The queue knows the requests. -/
def Sound (s : Waiting) : Prop := ∀ c t, Tallied (s.queue.entry c t) (s.since c) (s.granted c)

/-- The time of every capability is that of somebody who waits, or a later one. -/
def Timely (s : Waiting) : Prop := ∀ c t, Covered (s.queue.entry c t) (s.since c)

theorem Sound.waiting_eq {s : Waiting} (h : s.Sound) (c : Capability) :
    s.queue.waiting c = (s.since c).length := by
  rw [← ActivationQueue.waiting_entry s.queue c 0]
  exact (h c 0).waiting

/-- A call that leaves the time of its capability true: who leaves is not the last one that came by then,
unless nobody else waits; and who asks again is waiting. -/
def Fair (s : Waiting) : QueueCall → Prop
  | .leave capability place => (s.since capability).eraseIdx place = [] ∨
      ∃ t ∈ (s.since capability).eraseIdx place, t ≤ (s.queue.entry capability 0).oldestMs
  | .poll capability _ _ => s.since capability ≠ []
  | _ => True

/-- The capability a call is about. -/
def capabilityOf : QueueCall → Capability
  | .park capability _ _ => capability
  | .admitCaller capability _ _ => capability
  | .poll capability _ _ => capability
  | .leave capability _ => capability
  | .settle capability => capability
  | .untrigger capability => capability

section

variable {s : Waiting}

theorem grant_queue (capability : Capability) (answer : QueueAdmission) :
    (s.grant capability answer).queue = s.queue := rfl

theorem grant_since (capability : Capability) (answer : QueueAdmission) :
    (s.grant capability answer).since = s.since := rfl

theorem grant_granted (capability : Capability) (answer : QueueAdmission) :
    (s.grant capability answer).granted capability =
      if answer = .activate then true else s.granted capability := by
  rw [grant]
  dsimp only
  split
  · exact Function.update_self ..
  · rfl

theorem grant_other {capability c : Capability} (answer : QueueAdmission) (hc : c ≠ capability) :
    (s.grant capability answer).granted c = s.granted c := by
  rw [grant]
  dsimp only
  split
  · exact Function.update_of_ne hc ..
  · rfl

/-- **A call does nothing to the other capabilities.** -/
theorem step_other (call : QueueCall) {c : Capability} (hc : c ≠ capabilityOf call) (t : ℕ) :
    (s.step call).queue.entry c t = s.queue.entry c t ∧ (s.step call).since c = s.since c ∧
      (s.step call).granted c = s.granted c := by
  cases call with
  | park capability nowMs limit =>
    change c ≠ capability at hc
    simp only [step, parkUpTo_eq, and_true]
    split
    · exact ⟨by rw [entry_insert, if_neg hc], rfl⟩
    · exact ⟨by rw [entry_insert, if_neg hc], Function.update_of_ne hc ..⟩
  | admitCaller capability policy nowMs =>
    change c ≠ capability at hc
    simp only [step, grant_queue, grant_since, grant_other _ hc, and_true]
    rcases Nat.lt_or_ge (s.queue.waiting capability) maxQueuedPerCapability with hroom | hfull
    · rw [entry_admitCaller _ _ _ _ hroom]
      dsimp only
      refine ⟨by rw [entry_insert, if_neg hc], ?_⟩
      rw [if_neg (answer_ne_full policy nowMs _)]
      exact Function.update_of_ne hc ..
    · rw [admitCaller_full _ _ _ _ hfull]
      exact ⟨by rw [entry_insert, if_neg hc], rfl⟩
  | poll capability policy nowMs =>
    change c ≠ capability at hc
    simp only [step, grant_queue, grant_since, grant_other _ hc, and_true]
    obtain hpoll | hpoll := entry_poll s.queue capability policy nowMs t
    · rw [hpoll]
    · rw [hpoll]
      dsimp only
      rw [entry_insert, if_neg hc]
  | leave capability place =>
    change c ≠ capability at hc
    simp only [step]
    split
    · refine ⟨by rw [entry_leave, if_neg hc], Function.update_of_ne hc .., ?_⟩
      split
      · exact Function.update_of_ne hc ..
      · rfl
    · exact ⟨rfl, rfl, rfl⟩
  | settle capability | untrigger capability =>
    change c ≠ capability at hc
    simp only [step, untrigger_eq_settle, entry_settle, if_neg hc, true_and]
    exact Function.update_of_ne hc ..

/-- **What a call does to its own capability.** -/
theorem Sound.step_own (h : s.Sound) (call : QueueCall) (t : ℕ) :
    Tallied ((s.step call).queue.entry (capabilityOf call) t) ((s.step call).since (capabilityOf call))
      ((s.step call).granted (capabilityOf call)) := by
  cases call with
  | park capability nowMs limit =>
    have hown := h capability nowMs
    simp only [step, capabilityOf, parkUpTo_eq]
    split
    · rw [entry_insert, if_pos rfl]
      exact hown
    · rename_i hroom
      rw [entry_insert, if_pos rfl, if_pos rfl, Function.update_self]
      refine hown.count ?_
      rw [waiting_entry]
      omega
  | admitCaller capability policy nowMs =>
    have hown := h capability nowMs
    simp only [step, capabilityOf, grant_queue, grant_since, grant_granted]
    rcases Nat.lt_or_ge (s.queue.waiting capability) maxQueuedPerCapability with hroom | hfull
    · rw [entry_admitCaller _ _ _ _ hroom]
      dsimp only
      rw [if_neg (answer_ne_full policy nowMs _), entry_insert, if_pos rfl, Function.update_self]
      refine (hown.count ?_).answer
      rwa [waiting_entry]
    · rw [admitCaller_full _ _ _ _ hfull]
      dsimp only
      rw [entry_insert, if_pos rfl, if_pos rfl, if_neg (by simp)]
      exact hown
  | poll capability policy nowMs =>
    simp only [step, capabilityOf, grant_queue, grant_since, grant_granted]
    obtain hpoll | hpoll := entry_poll s.queue capability policy nowMs t
    · rw [hpoll]
      dsimp only
      rw [if_neg (by simp)]
      exact h capability t
    · rw [hpoll]
      dsimp only
      rw [entry_insert, if_pos rfl]
      exact (h capability t).answer
  | leave capability place =>
    simp only [step, capabilityOf]
    split
    · rename_i hplace
      have hleft := (h capability t).left hplace
      dsimp only
      rw [entry_leave, if_pos rfl, Function.update_self]
      by_cases hrest : (s.since capability).eraseIdx place = []
      · rw [if_pos hrest] at hleft ⊢
        rwa [Function.update_self]
      · rw [if_neg hrest] at hleft ⊢
        exact hleft
    · exact h capability t
  | settle capability | untrigger capability =>
    have hown := h capability t
    simp only [step, capabilityOf, untrigger_eq_settle, Function.update_self, entry_settle, if_true]
    exact ⟨hown.waiting, hown.bounded, rfl⟩

theorem Sound.step (h : s.Sound) (call : QueueCall) : (s.step call).Sound := by
  intro c t
  by_cases hc : c = capabilityOf call
  · rw [hc]
    exact h.step_own call t
  · obtain ⟨hentry, hsince, hgranted⟩ := step_other call hc t
    rw [hentry, hsince, hgranted]
    exact h c t

theorem Timely.step_own (h : s.Timely) (hsound : s.Sound) {call : QueueCall} (hfair : s.Fair call) (t : ℕ) :
    Covered ((s.step call).queue.entry (capabilityOf call) t) ((s.step call).since (capabilityOf call)) := by
  cases call with
  | park capability nowMs limit =>
    simp only [Waiting.step, capabilityOf, parkUpTo_eq]
    split
    · rw [entry_insert, if_pos rfl]
      exact h capability nowMs
    · rw [entry_insert, if_pos rfl, if_pos rfl, Function.update_self]
      exact (h capability nowMs).count (hsound capability nowMs).waiting
  | admitCaller capability policy nowMs =>
    simp only [Waiting.step, capabilityOf, grant_queue, grant_since]
    rcases Nat.lt_or_ge (s.queue.waiting capability) maxQueuedPerCapability with hroom | hfull
    · rw [entry_admitCaller _ _ _ _ hroom]
      dsimp only
      rw [if_neg (answer_ne_full policy nowMs _), entry_insert, if_pos rfl, Function.update_self, Covered,
        answer_oldestMs]
      exact (h capability nowMs).count (hsound capability nowMs).waiting
    · rw [admitCaller_full _ _ _ _ hfull]
      dsimp only
      rw [entry_insert, if_pos rfl, if_pos rfl]
      exact h capability nowMs
  | poll capability policy nowMs =>
    simp only [Waiting.step, capabilityOf, grant_queue, grant_since]
    obtain hpoll | hpoll := entry_poll s.queue capability policy nowMs t
    · rw [hpoll]
      exact h capability t
    · rw [hpoll]
      dsimp only
      rw [entry_insert, if_pos rfl, Covered, answer_oldestMs]
      exact h capability t
  | leave capability place =>
    simp only [Waiting.step, capabilityOf]
    split
    · rename_i hplace
      dsimp only
      rw [entry_leave, if_pos rfl, Function.update_self]
      intro hsome
      have hwaits : s.queue.waiting capability ≠ 0 := by
        rw [hsound.waiting_eq]
        omega
      rw [entry_eq_of_waiting s.queue capability t 0 hwaits]
      exact hfair.resolve_left hsome
    · exact h capability t
  | settle capability | untrigger capability =>
    simp only [Waiting.step, capabilityOf, untrigger_eq_settle, entry_settle, if_true]
    exact h capability t

theorem Timely.step (h : s.Timely) (hsound : s.Sound) {call : QueueCall} (hfair : s.Fair call) :
    (s.step call).Timely := by
  intro c t
  by_cases hc : c = capabilityOf call
  · rw [hc]
    exact h.step_own hsound hfair t
  · obtain ⟨hentry, hsince, -⟩ := step_other call hc t
    rw [hentry, hsince]
    exact h c t

/-- The thresholds and the time of a call that may be granted an activation. -/
def asks : QueueCall → Option (FleetPolicy × ℕ)
  | .admitCaller _ policy nowMs => some (policy, nowMs)
  | .poll _ policy nowMs => some (policy, nowMs)
  | _ => none

/-- Enough requests wait once the call is made, or one of them has waited long enough. -/
def EarnedBy (s : Waiting) (call : QueueCall) : Prop :=
  ∀ policy nowMs, asks call = some (policy, nowMs) →
    Earned ((s.step call).queue.waiting (capabilityOf call)) ((s.step call).since (capabilityOf call)) policy nowMs

/-- An activation that is granted was not granted yet. -/
theorem Sound.granted_eq_false (h : s.Sound) {call : QueueCall} (hanswer : s.answer call = some .activate) :
    s.granted (capabilityOf call) = false := by
  cases call with
  | admitCaller capability policy nowMs =>
    have hactivate := Option.some.inj hanswer
    rcases Nat.lt_or_ge (s.queue.waiting capability) maxQueuedPerCapability with hroom | hfull
    · rw [entry_admitCaller _ _ _ _ hroom] at hactivate
      exact ((h capability nowMs).count (by rwa [waiting_entry])).granted_eq_false hactivate
    · rw [admitCaller_full _ _ _ _ hfull] at hactivate
      cases hactivate
  | poll capability policy nowMs =>
    have hactivate := Option.some.inj hanswer
    obtain hpoll | hpoll := entry_poll s.queue capability policy nowMs nowMs
    · rw [hpoll] at hactivate
      cases hactivate
    · rw [hpoll] at hactivate
      exact (h capability nowMs).granted_eq_false hactivate
  | park | leave | settle | untrigger => cases hanswer

/-- **An activation that is granted is earned**, where the times are true and who asks again is waiting. -/
theorem Timely.earned (h : s.Timely) (hsound : s.Sound) {call : QueueCall} (hfair : s.Fair call)
    (hanswer : s.answer call = some .activate) : s.EarnedBy call := by
  intro policy nowMs hasks
  rw [(hsound.step call).waiting_eq, ← (hsound.step_own call nowMs).waiting]
  cases call with
  | admitCaller capability policy' nowMs' =>
    cases hasks
    have hactivate := Option.some.inj hanswer
    simp only [Waiting.step, capabilityOf, grant_queue, grant_since]
    rcases Nat.lt_or_ge (s.queue.waiting capability) maxQueuedPerCapability with hroom | hfull
    · rw [entry_admitCaller _ _ _ _ hroom] at hactivate ⊢
      dsimp only
      rw [if_neg (answer_ne_full policy nowMs _), entry_insert, if_pos rfl, Function.update_self,
        answer_waiting]
      exact ((h capability nowMs).count (hsound capability nowMs).waiting).earned (by simp) hactivate
    · rw [admitCaller_full _ _ _ _ hfull] at hactivate
      cases hactivate
  | poll capability policy' nowMs' =>
    cases hasks
    have hactivate := Option.some.inj hanswer
    simp only [Waiting.step, capabilityOf, grant_queue, grant_since]
    obtain hpoll | hpoll := entry_poll s.queue capability policy nowMs nowMs
    · rw [hpoll] at hactivate
      cases hactivate
    · rw [hpoll] at hactivate ⊢
      dsimp only
      rw [entry_insert, if_pos rfl, answer_waiting]
      exact (h capability nowMs).earned hfair hactivate
  | park | leave | settle | untrigger => cases hanswer

end

theorem sound_new : new.Sound := fun c t => by
  have hentry : ActivationQueue.new.entry c t = ⟨0, t, false⟩ := by
    simp [entry, ActivationQueue.new]
  rw [new, hentry]
  exact ⟨rfl, Nat.zero_le _, rfl⟩

/-- **What earns an activation.**  In every run: as many are counted as were counted and have not left,
and no more than there is room for; and an activation is granted for a capability only where none was
since its trigger was last cleared.  In every run in which the time of a capability is left true by who
leaves, and who asks again is waiting: an activation is granted only where enough requests wait, or one
of those that wait has waited long enough. -/
theorem trigger_earned (calls : List QueueCall) :
    (∀ c, (run step new calls).queue.waiting c = ((run step new calls).since c).length ∧
      (run step new calls).queue.waiting c ≤ maxQueuedPerCapability) ∧
    (∀ call, (run step new calls).answer call = some .activate →
      (run step new calls).granted (capabilityOf call) = false) ∧
    ∀ call, StepsMeet step Fair new (calls ++ [call]) →
      (run step new calls).answer call = some .activate → (run step new calls).EarnedBy call := by
  have hsound : (run step new calls).Sound := run_invariant (fun _ call h => h.step call) sound_new calls
  refine ⟨fun c => ⟨hsound.waiting_eq c, ?_⟩, fun call => hsound.granted_eq_false, fun call hfair => ?_⟩
  · rw [← ActivationQueue.waiting_entry _ c 0]
    exact (hsound c 0).bounded
  · have hstart : new.Sound ∧ new.Timely := ⟨sound_new, fun c t hsome => absurd rfl hsome⟩
    have htimely : (run step new calls).Sound ∧ (run step new calls).Timely :=
      run_invariant_of_steps (P := fun s => s.Sound ∧ s.Timely) (C := Fair)
        (fun s call h hfair => ⟨h.1.step call, h.2.step h.1 hfair⟩) hstart calls hfair.append_left
    exact htimely.2.earned htimely.1 hfair.append_right.1

namespace Sample

/-- Five requests, or one that has waited twenty seconds. -/
def policy : FleetPolicy := ⟨5, 20000⟩

/-- Both wait, and the first of them asks again after twenty seconds. -/
theorem both_wait :
    StepsMeet step Fair new ([QueueCall.park .chat 0 256, .park .chat 19000 256] ++ [QueueCall.poll .chat policy 20000]) ∧
      (run step new [.park .chat 0 256, .park .chat 19000 256]).EarnedBy (.poll .chat policy 20000) := by
  have hsome : (run step new [.park .chat 0 256, .park .chat 19000 256]).since .chat ≠ [] := by decide +kernel
  have hfair : StepsMeet step Fair new
      ([QueueCall.park .chat 0 256, .park .chat 19000 256] ++ [QueueCall.poll .chat policy 20000]) :=
    ⟨trivial, trivial, hsome, trivial⟩
  exact ⟨hfair, (trigger_earned _).2.2 _ hfair (by decide +kernel)⟩

/-- One request comes, a second nineteen seconds later, and the first leaves. -/
def calls : List QueueCall := [.park .chat 0 256, .park .chat 19000 256, .leave .chat 0]

/-- **The oldest left.**  The second request asks after a second, and is granted an activation. -/
theorem oldest_left : ¬ ∀ calls call, (run step new calls).answer call = some .activate →
    (∀ capability policy nowMs, call = .poll capability policy nowMs →
      (run step new calls).since capability ≠ []) → (run step new calls).EarnedBy call := by
  intro h
  have hwaits : (run step new calls).since .chat = [19000] := by decide +kernel
  have hearned := h calls (.poll .chat policy 20000) (by decide +kernel)
    (fun capability policy' nowMs heq => by
      cases heq
      rw [hwaits]
      simp) policy 20000 rfl
  obtain hmany | ⟨t, ht, hlong⟩ := hearned
  · exact absurd hmany (by decide +kernel)
  · have hsince : ((run step new calls).step (.poll .chat policy 20000)).since .chat = [19000] := by
      decide +kernel
    obtain rfl := List.mem_singleton.1 (hsince ▸ ht)
    exact absurd hlong (by decide)

end Sample

end Waiting

end HypeLlm.Fleet
