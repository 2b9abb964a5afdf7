import HypeLlm.Fleet.ActivationLedger
import HypeLlm.Fleet.PlanRuns

/-!
# An activation and its record

A thread that runs a plan asks the ledger, before and after each verb, to change the state of its
record.  The ledger refuses what its table does not permit, and the thread goes on either way.  The
table knows one eviction before a start, and a rollback of what has failed; the thread asks for the
states of each eviction in turn, and never says that the activation has failed.

* `runSteps`, `rollback`, `execute` — a plan against the answers of the agents;
* `Execution.walk_iff` — what the table makes of steps that go well;
* **`follows_iff`** — the record follows the activation if and only if every answer is good and the plan
  evicts one deployment at most.
-/

namespace HypeLlm.Fleet

/-- Why an activation failed. -/
inductive ActivationFailure where
  | timeout
  | unavailable
  | failed
  | cancelled
  deriving Repr, DecidableEq

/-- What the rest of the world answers in one step of a plan. -/
structure StepAnswers where
  /-- The time of the plan has not run out before the step. -/
  inTime : Bool
  /-- The deployment, its agent, or the kept checksum is found. -/
  found : Bool
  /-- The agent accepts the verb. -/
  accepted : Bool
  /-- The answers to the polls until the time runs out, with `none` for a call that fails. -/
  polls : List (Option ObservedState)
  /-- What the step was to bring about is observed afterwards. -/
  observed : Bool
  deriving Repr, DecidableEq

/-- Poll an activation until it has ended, or the time runs out. -/
def awaitTerminal : List (Option ObservedState) → Except ActivationFailure Unit
  | [] => .error .timeout
  | none :: _ => .error .unavailable
  | some .ready :: _ => .ok ()
  | some .stopped :: _ => .ok ()
  | some .failed :: _ => .error .failed
  | some .cancelled :: _ => .error .cancelled
  | some _ :: polls => awaitTerminal polls

/-- What the rest of the world answers where a victim is to be brought back. -/
structure RestoreAnswers where
  /-- It is still configured. -/
  configured : Bool
  /-- The budget of the host has an activation left. -/
  paid : Bool
  /-- The agent of the host is found. -/
  found : Bool
  /-- The agent accepts the verb. -/
  accepted : Bool
  deriving Repr, DecidableEq

/-- What a rollback did, to each victim by its place in the eviction set. -/
structure Rollback where
  /-- The budget was spent on it. -/
  spent : List (DeploymentId × ℕ)
  /-- `ACTIVATE` was sent for it. -/
  sent : List (DeploymentId × ℕ)
  /-- Its backoff was cleared. -/
  cleared : List (DeploymentId × ℕ)
  allBack : Bool
  deriving Repr, DecidableEq

/-- Bring a victim back. -/
def Rollback.restore (answers : ℕ → RestoreAnswers) (r : Rollback) (victim : DeploymentId × ℕ) : Rollback :=
  if !(answers victim.2).configured then { r with allBack := false }
  else if !(answers victim.2).paid then { r with allBack := false }
  else
    let r := { r with spent := r.spent ++ [victim] }
    if !(answers victim.2).found then { r with allBack := false }
    else
      let r := { r with sent := r.sent ++ [victim] }
      if (answers victim.2).accepted then { r with cleared := r.cleared ++ [victim] }
      else { r with allBack := false }

/-- An activation under way: the ledger, and what was asked of it, with its answers; the victims whose
stop was accepted; and the rollback, where there was one. -/
structure Execution where
  ledger : ActivationLedger
  requests : List (ActivationState × Bool)
  stopped : List DeploymentId
  rolledBack : Option Rollback

namespace Execution

def new (ledger : ActivationLedger) : Execution := ⟨ledger, [], [], none⟩

variable (x : Execution) (lease : LeaseId)

def transition (next : ActivationState) : Execution :=
  { x with
    ledger := (x.ledger.transition lease next).1
    requests := x.requests ++ [(next, (x.ledger.transition lease next).2)] }

def runStep (a : StepAnswers) : PlanStep → Except ActivationFailure Unit × Execution
  | .evict victim =>
    let x := x.transition lease .draining
    if a.found && a.accepted then
      (awaitTerminal a.polls, { x with stopped := x.stopped ++ [victim] }.transition lease .stopping)
    else (.error .unavailable, x)
  | .fetch _ _ =>
    let x := x.transition lease .fetching
    if a.found && a.accepted then (awaitTerminal a.polls, x) else (.error .unavailable, x)
  | .copy _ _ _ =>
    let x := x.transition lease .fetching
    if a.found && a.accepted then
      match awaitTerminal a.polls with
      | .error failure => (.error failure, x)
      | .ok () => (if a.observed then .ok () else .error .failed, x)
    else (.error .unavailable, x)
  | .activate _ =>
    let x := x.transition lease .starting
    if a.found && a.accepted then
      let x := x.transition lease .probing
      match awaitTerminal a.polls with
      | .error failure => (.error failure, x)
      | .ok () => if a.observed then (.ok (), x.transition lease .ready) else (.error .failed, x)
    else (.error .unavailable, x)

/-- The steps in order, from the `n`-th on, up to the first that fails. -/
def runSteps (answers : ℕ → StepAnswers) (x : Execution) :
    ℕ → List PlanStep → Except ActivationFailure Unit × Execution
  | _, [] => (.ok (), x)
  | n, step :: steps =>
    if (answers n).inTime then
      match x.runStep lease (answers n) step with
      | (.ok (), x) => runSteps answers x (n + 1) steps
      | failed => failed
    else (.error .timeout, x)

/-- Bring the victims back, one after the other; nothing where there is none. -/
def rollback (restores : ℕ → RestoreAnswers) (p : Plan) : Option Bool × Execution :=
  if p.evictionSet = [] then (none, x)
  else
    let x := x.transition lease .rollbackPending
    let r := p.evictionSet.zipIdx.foldl (Rollback.restore restores) ⟨[], [], [], true⟩
    (some r.allBack,
      { x with rolledBack := some r }.transition lease (if r.allBack then .rollbackDone else .rollbackFailed))

/-- A plan whose lease is durable is run, and rolled back if it fails and evicts something. -/
def execute (answers : ℕ → StepAnswers) (restores : ℕ → RestoreAnswers) (p : Plan) :
    ActivationOutcome × Execution :=
  match (x.transition lease .leaseHeld).runSteps lease answers 0 p.steps with
  | (.ok (), x) => (.succeeded, x)
  | (.error _, x) =>
    match if p.evicts then x.rollback lease restores p else (none, x) with
    | (none, x) => (.failed, x)
    | (some true, x) => (.failedAndRolledBack, x)
    | (some false, x) => (.failedAndQuarantined, x)

end Execution

/-- The state a record is to be in when its lease is released with an outcome. -/
def ActivationOutcome.finalState : ActivationOutcome → ActivationState
  | .succeeded => .ready
  | .failed => .failed
  | .failedAndRolledBack => .rollbackDone
  | .failedAndQuarantined => .rollbackFailed
  | .cancelled => .cancelled

theorem ActivationOutcome.finalState_isTerminal (outcome : ActivationOutcome) :
    outcome.finalState.isTerminal = true := by
  cases outcome <;> rfl

namespace ActivationLedger

variable {l : ActivationLedger} {lease : LeaseId}

/-- The state of the record of a lease. -/
def stateOf (l : ActivationLedger) (lease : LeaseId) : Option ActivationState :=
  (l.find lease).map ActivationRecord.state

/-- **A request** is permitted by the table, from the state the record is in, or changes nothing. -/
theorem stateOf_transition {s : ActivationState} (h : l.stateOf lease = some s) (next : ActivationState) :
    (l.transition lease next).2 = s.mayTransitionTo next ∧
      (l.transition lease next).1.stateOf lease = some (if s.mayTransitionTo next then next else s) := by
  obtain ⟨r, hr, rfl⟩ := Option.map_eq_some_iff.1 h
  rw [transition, hr]
  simp only
  split
  · rename_i hmay
    refine ⟨hmay.symm, ?_⟩
    have hfind : ({ l with active := l.active.map fun r =>
        if r.lease.id = lease then { r with state := next } else r } : ActivationLedger).find lease =
          (l.find lease).map fun r => if r.lease.id = lease then { r with state := next } else r := by
      refine (List.find?_map ..).trans (congrArg (Option.map _) (List.find?_congr fun r _ => ?_))
      rw [Function.comp_apply]
      split <;> rfl
    rw [stateOf, hfind, hr, Option.map_some, Option.map_some, if_pos (l.mem_of_find hr).2]
  · rename_i hmay
    refine ⟨(Bool.eq_false_iff.2 hmay).symm, ?_⟩
    rw [stateOf, hr]
    rfl

theorem released_transition (l : ActivationLedger) (lease : LeaseId) (next : ActivationState) :
    (l.transition lease next).1.released = l.released := by
  obtain ⟨g, -, h⟩ := l.transition_eq lease next
  rw [h]

/-- The detail a lease is released with. -/
def detail : ActivationOutcome → String
  | .succeeded => "the deployment became ready"
  | .failed => "the activation failed"
  | .failedAndRolledBack => "the activation failed and was rolled back"
  | .failedAndQuarantined => "the activation failed and the eviction set could not be restored"
  | .cancelled => "the activation was cancelled"

def finish (l : ActivationLedger) (lease : LeaseId) (outcome : ActivationOutcome) (nowMs : ℕ) :
    ActivationLedger × LeaseRelease := l.release lease outcome (detail outcome) nowMs

end ActivationLedger

/-! ### Requests -/

/-- What a step that goes well asks of the ledger: the first state, and the others. -/
def PlanStep.first : PlanStep → ActivationState
  | .evict _ => .draining
  | .fetch _ _ | .copy _ _ _ => .fetching
  | .activate _ => .starting

def PlanStep.others : PlanStep → List ActivationState
  | .evict _ => [.stopping]
  | .fetch _ _ | .copy _ _ _ => []
  | .activate _ => [.probing, .ready]

/-- The victim of a step. -/
def PlanStep.victim : PlanStep → Option DeploymentId
  | .evict victim => some victim
  | _ => none

/-- The state after a step that went well. -/
def PlanStep.last : PlanStep → ActivationState
  | .evict _ => .stopping
  | .fetch _ _ | .copy _ _ _ => .fetching
  | .activate _ => .ready

/-- Everything that a step depends on goes well. -/
def StepAnswers.good (a : StepAnswers) (step : PlanStep) : Bool :=
  a.inTime && (a.found && a.accepted) && (awaitTerminal a.polls).isOk &&
    match step with
    | .evict _ | .fetch _ _ => true
    | .copy _ _ _ | .activate _ => a.observed

namespace Execution

variable {x : Execution} {lease : LeaseId} {s next : ActivationState}

/-- The lease is held, and its record is in a state. -/
def At (x : Execution) (lease : LeaseId) (s : ActivationState) : Prop :=
  x.ledger.stateOf lease = some s ∧ x.ledger.released lease = none

/-- Everything that was asked for was permitted. -/
def Permitted (x : Execution) : Prop := ∀ request ∈ x.requests, request.2 = true

theorem At.transition (h : x.At lease s) (next : ActivationState) :
    (x.transition lease next).At lease (if s.mayTransitionTo next then next else s) :=
  ⟨(ActivationLedger.stateOf_transition h.1 next).2,
    (congrFun (x.ledger.released_transition lease next) lease).trans h.2⟩

theorem At.transition_of_may (h : x.At lease s) (hmay : s.mayTransitionTo next = true) :
    (x.transition lease next).At lease next := by
  have hnext := h.transition next
  rwa [if_pos hmay] at hnext

theorem At.permitted_transition (h : x.At lease s) :
    (x.transition lease next).Permitted ↔ x.Permitted ∧ s.mayTransitionTo next = true := by
  simp only [Permitted, Execution.transition, (ActivationLedger.stateOf_transition h.1 next).1,
    List.mem_append, List.mem_singleton]
  constructor
  · exact fun hall => ⟨fun request hmem => hall request (.inl hmem), hall _ (.inr rfl)⟩
  · rintro ⟨hbefore, hmay⟩ request (hmem | rfl)
    · exact hbefore request hmem
    · exact hmay

theorem Permitted.of_transition (h : (x.transition lease next).Permitted) : x.Permitted :=
  fun request hmem => h request (List.mem_append_left _ hmem)

def requestAll (x : Execution) (lease : LeaseId) (requests : List ActivationState) : Execution :=
  requests.foldl (fun x next => x.transition lease next) x

theorem Permitted.of_requestAll {requests : List ActivationState} (h : (x.requestAll lease requests).Permitted) :
    x.Permitted := by
  induction requests generalizing x with
  | nil => exact h
  | cons next requests ih => exact (ih h).of_transition

/-- **What a step that goes well makes of the record**: the table decides by its first request. -/
theorem At.requestAll (h : x.At lease s) (step : PlanStep) :
    (s.mayTransitionTo step.first = true →
      (x.requestAll lease (step.first :: step.others)).At lease step.last) ∧
    ((x.requestAll lease (step.first :: step.others)).Permitted ↔
      x.Permitted ∧ s.mayTransitionTo step.first = true) := by
  have hfirst : (x.transition lease step.first).Permitted ↔
      x.Permitted ∧ s.mayTransitionTo step.first = true := h.permitted_transition
  cases step with
  | evict victim =>
    refine ⟨fun hmay => (h.transition_of_may hmay).transition_of_may rfl, ?_⟩
    refine Iff.trans ⟨fun hall => ?_, fun hall => ?_⟩ hfirst
    · exact Permitted.of_transition (x := x.transition lease .draining) hall
    · have hat := h.transition_of_may (hfirst.1 hall).2
      exact hat.permitted_transition.2 ⟨hall, rfl⟩
  | fetch artifact host => exact ⟨fun hmay => h.transition_of_may hmay, hfirst⟩
  | copy artifact source dest => exact ⟨fun hmay => h.transition_of_may hmay, hfirst⟩
  | activate deployment =>
    refine ⟨fun hmay => ((h.transition_of_may hmay).transition_of_may rfl).transition_of_may rfl, ?_⟩
    refine Iff.trans ⟨fun hall => ?_, fun hall => ?_⟩ hfirst
    · exact Permitted.of_transition (x := x.transition lease .starting)
        (Permitted.of_transition (x := (x.transition lease .starting).transition lease .probing) hall)
    · have hat := h.transition_of_may (hfirst.1 hall).2
      have hprobing : ((x.transition lease .starting).transition lease .probing).Permitted :=
        hat.permitted_transition.2 ⟨hall, rfl⟩
      exact (hat.transition_of_may rfl).permitted_transition.2 ⟨hprobing, rfl⟩

/-! ### Steps -/

/-- What a step that goes well leaves behind. -/
def performed (x : Execution) (lease : LeaseId) (step : PlanStep) : Execution :=
  { x.requestAll lease (step.first :: step.others) with stopped := x.stopped ++ step.victim.toList }

/-- **A step goes well** if and only if its answers are good. -/
theorem runStep_cases (x : Execution) (lease : LeaseId) {a : StepAnswers} (hinTime : a.inTime = true)
    (step : PlanStep) :
    a.good step = true ∧ x.runStep lease a step = (.ok (), x.performed lease step) ∨
      a.good step = false ∧ ∃ failure, (x.runStep lease a step).1 = .error failure := by
  cases hverb : a.found && a.accepted <;> cases hawait : awaitTerminal a.polls <;> cases hobserved : a.observed <;>
    cases step <;>
    simp [runStep, StepAnswers.good, hinTime, hverb, hawait, hobserved, performed, requestAll, PlanStep.first,
      PlanStep.others, PlanStep.victim, transition, Except.isOk, Except.toBool]

/-- No step says that the activation has failed. -/
theorem runStep_not_failed (hs : s ≠ .failed) (h : x.At lease s) (a : StepAnswers) (step : PlanStep) :
    ∃ s', s' ≠ .failed ∧ (x.runStep lease a step).2.At lease s' := by
  have hnext : ∀ {x : Execution} {next : ActivationState}, next ≠ .failed →
      (∃ s, s ≠ .failed ∧ x.At lease s) → ∃ s', s' ≠ .failed ∧ (x.transition lease next).At lease s' := by
    rintro x next hne ⟨s, hs, h⟩
    refine ⟨_, ?_, h.transition next⟩
    split
    · exact hne
    · exact hs
  have hat : ∃ s, s ≠ .failed ∧ x.At lease s := ⟨s, hs, h⟩
  cases step with
  | evict victim =>
    simp only [runStep]
    split
    · exact hnext (by decide) (hnext (by decide) hat)
    · exact hnext (by decide) hat
  | fetch artifact host =>
    simp only [runStep]
    split <;> exact hnext (by decide) hat
  | copy artifact source dest =>
    simp only [runStep]
    split
    · split <;> exact hnext (by decide) hat
    · exact hnext (by decide) hat
  | activate deployment =>
    simp only [runStep]
    split
    · split
      · exact hnext (by decide) (hnext (by decide) hat)
      · split
        · exact hnext (by decide) (hnext (by decide) (hnext (by decide) hat))
        · exact hnext (by decide) (hnext (by decide) hat)
    · exact hnext (by decide) hat

theorem runSteps_not_failed (hs : s ≠ .failed) (h : x.At lease s) (answers : ℕ → StepAnswers) (n : ℕ)
    (steps : List PlanStep) : ∃ s', s' ≠ .failed ∧ (x.runSteps lease answers n steps).2.At lease s' := by
  induction steps generalizing x s n with
  | nil => exact ⟨s, hs, h⟩
  | cons step steps ih =>
    rw [runSteps]
    split
    · obtain ⟨s', hs', h'⟩ := runStep_not_failed hs h (answers n) step
      cases hstep : x.runStep lease (answers n) step with
      | mk result x' =>
        rw [hstep] at h'
        cases result with
        | ok _ => exact ih hs' h' (n + 1)
        | error failure => exact ⟨s', hs', h'⟩
    · exact ⟨s, hs, h⟩

/-- What steps that all go well ask for, one after the other. -/
def walk (x : Execution) (lease : LeaseId) (steps : List PlanStep) : Execution :=
  steps.foldl (fun x step => x.performed lease step) x

/-- **A plan goes well** if and only if all answers are good. -/
theorem runSteps_cases (x : Execution) (lease : LeaseId) (answers : ℕ → StepAnswers) (n : ℕ)
    (steps : List PlanStep) :
    (∀ i step, steps[i]? = some step → (answers (n + i)).good step = true) ∧
        x.runSteps lease answers n steps = (.ok (), x.walk lease steps) ∨
      (∃ i step, steps[i]? = some step ∧ (answers (n + i)).good step = false) ∧
        ∃ failure, (x.runSteps lease answers n steps).1 = .error failure := by
  induction steps generalizing x n with
  | nil => exact .inl ⟨(fun _ _ h => nomatch h), rfl⟩
  | cons step steps ih =>
    rw [runSteps]
    cases hinTime : (answers n).inTime with
    | false =>
      refine .inr ⟨⟨0, step, rfl, ?_⟩, _, rfl⟩
      simp [StepAnswers.good, hinTime]
    | true =>
      rw [if_pos rfl]
      rcases x.runStep_cases lease hinTime step with ⟨hgood, hstep⟩ | ⟨hbad, failure, hstep⟩
      · rw [hstep]
        rcases ih (x.performed lease step) (n + 1) with
          ⟨hall, hrest⟩ | ⟨⟨i, step', hi, hbad⟩, failure, hrest⟩
        · refine .inl ⟨fun i step' hi => ?_, hrest⟩
          cases i with
          | zero =>
            obtain rfl := Option.some.inj hi
            exact hgood
          | succ i =>
            rw [← Nat.succ_add_eq_add_succ]
            exact hall i step' hi
        · refine .inr ⟨⟨i + 1, step', hi, ?_⟩, failure, hrest⟩
          rw [← Nat.succ_add_eq_add_succ]
          exact hbad
      · refine .inr ⟨⟨0, step, rfl, hbad⟩, failure, ?_⟩
        cases hresult : x.runStep lease (answers n) step with
        | mk result x' =>
          rw [hresult] at hstep
          rw [show result = .error failure from hstep]

/-- **A plan goes well** if and only if everything that its steps depend on does. -/
theorem runSteps_ok_iff (x : Execution) (lease : LeaseId) (answers : ℕ → StepAnswers) (steps : List PlanStep) :
    (x.runSteps lease answers 0 steps).1 = .ok () ↔
      ∀ i step, steps[i]? = some step → (answers i).good step = true := by
  rcases x.runSteps_cases lease answers 0 steps with ⟨hgood, hrun⟩ | ⟨⟨i, step, hi, hbad⟩, failure, hrun⟩
  · simp only [Nat.zero_add] at hgood
    rw [hrun]
    exact iff_of_true rfl hgood
  · rw [Nat.zero_add] at hbad
    rw [hrun]
    refine iff_of_false (fun h => by cases h) fun hall => ?_
    rw [hall i step hi] at hbad
    cases hbad

/-! ### The table and the plan -/

/-- The table takes the record from a state through the steps to the end. -/
def Fits : ActivationState → List PlanStep → Prop
  | s, [] => s = .ready
  | s, step :: steps => s.mayTransitionTo step.first = true ∧ Fits step.last steps

theorem Permitted.of_walk {steps : List PlanStep} (h : (x.walk lease steps).Permitted) : x.Permitted := by
  induction steps generalizing x with
  | nil => exact h
  | cons step steps ih =>
    have hstep : (x.performed lease step).Permitted := ih h
    have hrequests : (x.requestAll lease (step.first :: step.others)).Permitted := hstep
    exact hrequests.of_requestAll

/-- **Steps that go well** are permitted, and end with the record ready, if and only if they fit. -/
theorem walk_iff (h : x.At lease s) (steps : List PlanStep) :
    (x.walk lease steps).Permitted ∧ (x.walk lease steps).At lease .ready ↔ x.Permitted ∧ Fits s steps := by
  induction steps generalizing x s with
  | nil =>
    refine and_congr_right fun _ => ⟨fun hready => ?_, fun hs => hs ▸ h⟩
    exact Option.some.inj (h.1.symm.trans hready.1)
  | cons step steps ih =>
    obtain ⟨hlast, hpermitted⟩ := h.requestAll step
    have hperformed : (x.performed lease step).Permitted ↔ x.Permitted ∧ s.mayTransitionTo step.first = true :=
      hpermitted
    by_cases hmay : s.mayTransitionTo step.first = true
    · have hat : (x.performed lease step).At lease step.last := hlast hmay
      rw [Fits, show x.walk lease (step :: steps) = (x.performed lease step).walk lease steps from rfl,
        ih hat, hperformed]
      exact and_assoc
    · constructor
      · rintro ⟨hall, -⟩
        have hwalk : ((x.performed lease step).walk lease steps).Permitted := hall
        exact absurd (hperformed.1 hwalk.of_walk).2 hmay
      · rintro ⟨-, hfirst, -⟩
        exact absurd hfirst hmay

theorem fits_ready {steps : List PlanStep} : Fits .ready steps ↔ steps = [] := by
  cases steps with
  | nil => exact ⟨fun _ => rfl, fun _ => rfl⟩
  | cons step steps =>
    refine ⟨fun h => ?_, fun h => nomatch h⟩
    cases step <;> cases h.1

theorem fits_fetching {steps : List PlanStep} : Fits .fetching steps ↔ ∃ d, steps = [.activate d] := by
  constructor
  · intro h
    cases steps with
    | nil => cases h
    | cons step steps =>
      cases step with
      | activate d => exact ⟨d, by rw [fits_ready.1 h.2]⟩
      | evict | fetch | copy => cases h.1
  · rintro ⟨d, rfl⟩
    exact ⟨rfl, rfl⟩

/-- After at most one eviction the table permits one transfer and the start. -/
theorem fits_stopping {s : ActivationState} (hs : s = .stopping ∨ s = .leaseHeld) {steps : List PlanStep}
    (hevict : s = .leaseHeld → ∀ d rest, steps ≠ .evict d :: rest) :
    Fits s steps ↔ ∃ transfer : Option Transfer, ∃ d, steps = (transfer.map Transfer.step).toList ++ [PlanStep.activate d] := by
  constructor
  · intro h
    cases steps with
    | nil =>
      have hready : s = .ready := h
      rcases hs with rfl | rfl <;> cases hready
    | cons step steps =>
      cases step with
      | evict d =>
        rcases hs with rfl | rfl
        · cases h.1
        · exact absurd rfl (hevict rfl d steps)
      | fetch artifact host =>
        obtain ⟨d, rfl⟩ := fits_fetching.1 h.2
        exact ⟨some (.fetch artifact host), d, rfl⟩
      | copy artifact source dest =>
        obtain ⟨d, rfl⟩ := fits_fetching.1 h.2
        exact ⟨some (.copy artifact source dest), d, rfl⟩
      | activate d => exact ⟨none, d, by rw [fits_ready.1 h.2]; rfl⟩
  · rintro ⟨transfer, d, rfl⟩
    rcases transfer with - | ⟨artifact, host⟩ | ⟨artifact, source, dest⟩ <;> rcases hs with rfl | rfl
    · exact ⟨rfl, rfl⟩
    · exact ⟨rfl, rfl⟩
    · exact ⟨rfl, rfl, rfl⟩
    · exact ⟨rfl, rfl, rfl⟩
    · exact ⟨rfl, rfl, rfl⟩
    · exact ⟨rfl, rfl, rfl⟩

end Execution

/-- The plan evicts one deployment at most, has one artifact brought at most, and starts the deployment. -/
def Plan.Simple (p : Plan) : Prop :=
  ∃ victim : Option DeploymentId, ∃ transfer : Option Transfer, ∃ d,
    p.steps = (victim.map PlanStep.evict).toList ++ ((transfer.map Transfer.step).toList ++ [PlanStep.activate d])

namespace Execution

variable {x : Execution} {lease : LeaseId} {s : ActivationState}

theorem fits_leaseHeld (p : Plan) : Fits .leaseHeld p.steps ↔ p.Simple := by
  unfold Plan.Simple
  generalize p.steps = steps
  by_cases hevict : ∃ d rest, steps = .evict d :: rest
  · obtain ⟨victim, rest, rfl⟩ := hevict
    have hrest : Fits .leaseHeld (.evict victim :: rest) ↔ Fits .stopping rest := ⟨fun h => h.2, fun h => ⟨rfl, h⟩⟩
    rw [hrest, fits_stopping (.inl rfl) fun h => nomatch h]
    constructor
    · rintro ⟨transfer, d, rfl⟩
      exact ⟨some victim, transfer, d, rfl⟩
    · rintro ⟨victim', transfer, d, h⟩
      cases victim' with
      | none => rcases transfer with - | ⟨artifact, host⟩ | ⟨artifact, source, dest⟩ <;> cases h
      | some victim' => exact ⟨transfer, d, (List.cons.inj h).2⟩
  · have hnot : ∀ d rest, steps ≠ .evict d :: rest := fun d rest h => hevict ⟨d, rest, h⟩
    rw [fits_stopping (.inr rfl) fun _ => hnot]
    constructor
    · rintro ⟨transfer, d, rfl⟩
      exact ⟨none, transfer, d, rfl⟩
    · rintro ⟨victim, transfer, d, h⟩
      cases victim with
      | none => exact ⟨transfer, d, h⟩
      | some victim => exact absurd h (hnot victim _)

/-! ### The record follows the activation -/

/-- Every change of state asked for is permitted, and when the lease is released, the state of the record
is the one that its outcome says, which is terminal. -/
structure Follows (lease : LeaseId) (nowMs : ℕ) (r : ActivationOutcome × Execution) : Prop where
  permitted : r.2.Permitted
  released : (r.2.ledger.finish lease r.1 nowMs).2 = .released
  ended : ∃ record, (r.2.ledger.finish lease r.1 nowMs).1.history.getLast? = some record ∧
    record.lease.id = lease ∧ record.state = r.1.finalState ∧ record.state.isTerminal = true

/-- The record of a lease that is released goes into the history as it is. -/
theorem At.finish (h : x.At lease s) (outcome : ActivationOutcome) (nowMs : ℕ) :
    (x.ledger.finish lease outcome nowMs).2 = .released ∧
      ∃ record, (x.ledger.finish lease outcome nowMs).1.history.getLast? = some record ∧
        record.lease.id = lease ∧ record.state = s := by
  obtain ⟨r, hr, hs⟩ := Option.map_eq_some_iff.1 h.1
  unfold ActivationLedger.finish ActivationLedger.release
  rw [h.2, hr, Option.isSome_none, if_neg Bool.false_ne_true]
  refine ⟨rfl, { r with
    finishedMs := some nowMs, outcome := some outcome, detail := ActivationLedger.detail outcome },
    ?_, (x.ledger.mem_of_find hr).2, hs⟩
  simp only
  rw [List.getLast?_drop, if_neg, List.getLast?_concat]
  rw [List.length_append, List.length_singleton, maxHistory]
  omega

theorem At.follows_outcome_iff (h : x.At lease s) (outcome : ActivationOutcome) (nowMs : ℕ) :
    Follows lease nowMs (outcome, x) ↔ x.Permitted ∧ x.At lease outcome.finalState := by
  obtain ⟨hreleased, record, hlast, hid, hs⟩ := h.finish outcome nowMs
  constructor
  · rintro ⟨hpermitted, -, record', hlast', -, hfinal, -⟩
    obtain rfl := Option.some.inj (hlast.symm.trans hlast')
    refine ⟨hpermitted, ?_⟩
    rw [← hfinal, hs]
    exact h
  · rintro ⟨hpermitted, hfinal⟩
    have hsame : s = outcome.finalState := Option.some.inj (h.1.symm.trans hfinal.1)
    exact ⟨hpermitted, hreleased, record, hlast, hid, hs.trans hsame,
      (hs.trans hsame) ▸ outcome.finalState_isTerminal⟩

/-- An activation that was acquired has its record, as planned. -/
theorem at_of_acquire {l l' : ActivationLedger} {p : Plan} {lease : Lease} {nowMs maxConcurrent : ℕ}
    (h : l.acquireExclusive (.fromPlan p lease nowMs) maxConcurrent = .ok l') :
    (new l').At lease.id .planned := by
  obtain ⟨⟨hfresh, hunreleased, -, -⟩, rfl⟩ := l.acquireExclusive_ok h
  refine ⟨?_, hunreleased⟩
  have hperm := ActivationLedger.insertActive_perm (.fromPlan p lease nowMs) l.active
  have hfind : (ActivationLedger.insertActive (.fromPlan p lease nowMs) l.active).find?
      (fun r => r.lease.id = lease.id) = some (.fromPlan p lease nowMs) := by
    cases hfirst : (ActivationLedger.insertActive (.fromPlan p lease nowMs) l.active).find?
        fun r => r.lease.id = lease.id with
    | none =>
      have hnone := List.find?_eq_none.1 hfirst (.fromPlan p lease nowMs) (hperm.mem_iff.2 (List.mem_cons_self ..))
      exact absurd (decide_eq_true rfl) hnone
    | some r =>
      have hid : r.lease.id = lease.id := by simpa using List.find?_some hfirst
      rcases List.mem_cons.1 (hperm.mem_iff.1 (List.mem_of_find?_eq_some hfirst)) with hsame | hold
      · rw [hsame]
      · exact absurd (hid ▸ List.mem_map_of_mem hold) hfresh
  rw [ActivationLedger.stateOf, ActivationLedger.find]
  show (List.find? _ (ActivationLedger.insertActive _ l.active)).map _ = _
  rw [hfind]
  rfl

/-- A plan that failed leaves a record that does not say so. -/
theorem not_follows_of_error {answers : ℕ → StepAnswers} {restores : ℕ → RestoreAnswers} {p : Plan} {failure : ActivationFailure}
    {nowMs : ℕ} (hs : s ≠ .failed) (h : (x.transition lease .leaseHeld).At lease s)
    (herror : ((x.transition lease .leaseHeld).runSteps lease answers 0 p.steps).1 = .error failure) :
    ¬Follows lease nowMs (x.execute lease answers restores p) := by
  obtain ⟨s', hs', h'⟩ := runSteps_not_failed hs h answers 0 p.steps
  unfold execute
  cases hresult : (x.transition lease .leaseHeld).runSteps lease answers 0 p.steps with
  | mk result x' =>
    rw [hresult] at herror h'
    obtain rfl : result = .error failure := herror
    have hfailed : ¬Follows lease nowMs (.failed, x') := by
      intro hfollows
      have hfinal := ((h'.follows_outcome_iff .failed nowMs).1 hfollows).2
      exact hs' (Option.some.inj (h'.1.symm.trans hfinal.1))
    have hrefused : s'.mayTransitionTo .rollbackPending = false := by
      cases s' <;> first | rfl | exact absurd rfl hs'
    -- A rollback is asked for from a record that has not failed.
    have hpending : ¬(x'.transition lease .rollbackPending).Permitted := by
      intro hall
      have hmay := (h'.permitted_transition.1 hall).2
      rw [hrefused] at hmay
      cases hmay
    have hrolled : ∀ r next, ¬({ x'.transition lease .rollbackPending with rolledBack := r }.transition lease
        next).Permitted := by
      intro r next hall
      exact hpending (Permitted.of_transition
        (x := { x'.transition lease .rollbackPending with rolledBack := r }) hall)
    simp only
    by_cases hevicts : p.evicts = true
    · rw [if_pos hevicts, rollback]
      by_cases hnone : p.evictionSet = []
      · rw [if_pos hnone]
        exact hfailed
      · rw [if_neg hnone]
        simp only
        split
        · rename_i hback
          cases hback
        · rename_i hback
          obtain ⟨-, rfl⟩ := Prod.mk.inj hback
          exact fun hfollows => hrolled _ _ hfollows.permitted
        · rename_i hback
          obtain ⟨-, rfl⟩ := Prod.mk.inj hback
          exact fun hfollows => hrolled _ _ hfollows.permitted
    · rw [if_neg hevicts]
      exact hfailed

/-- The record of an activation that was acquired follows it if and only if the plan goes well and is
simple. -/
theorem follows_run_iff {l l' : ActivationLedger} {p : Plan} {lease : Lease} {nowMs maxConcurrent : ℕ}
    (hacquire : l.acquireExclusive (.fromPlan p lease nowMs) maxConcurrent = .ok l')
    (answers : ℕ → StepAnswers) (restores : ℕ → RestoreAnswers) (finishedMs : ℕ) :
    Follows lease.id finishedMs ((new l').execute lease.id answers restores p) ↔
      (((new l').transition lease.id .leaseHeld).runSteps lease.id answers 0 p.steps).1 = .ok () ∧ p.Simple := by
  have hplanned := at_of_acquire hacquire
  have hmay : ActivationState.planned.mayTransitionTo .leaseHeld = true := rfl
  have hheld := hplanned.transition_of_may hmay
  have hnone : (new l').Permitted := fun _ h => by cases h
  have hpermitted := hplanned.permitted_transition.2 ⟨hnone, hmay⟩
  rcases ((new l').transition lease.id .leaseHeld).runSteps_cases lease.id answers 0 p.steps with
    ⟨-, hrun⟩ | ⟨-, failure, hrun⟩
  · have hwalk := walk_iff hheld p.steps
    obtain ⟨s', -, hs'⟩ := runSteps_not_failed (by decide) hheld answers 0 p.steps
    rw [hrun] at hs' ⊢
    rw [execute, hrun]
    exact (hs'.follows_outcome_iff .succeeded finishedMs).trans (hwalk.trans
      ⟨fun h => ⟨rfl, (fits_leaseHeld p).1 h.2⟩, fun h => ⟨hpermitted, (fits_leaseHeld p).2 h.2⟩⟩)
  · refine ⟨fun h => absurd h (not_follows_of_error (by decide) hheld hrun), fun h => ?_⟩
    rw [hrun] at h
    cases h.1

/-- **The record follows the activation** if and only if every answer is good, and the plan evicts one
deployment at most before it has one artifact brought and starts the deployment. -/
theorem follows_iff {l l' : ActivationLedger} {p : Plan} {lease : Lease} {nowMs maxConcurrent : ℕ}
    (hacquire : l.acquireExclusive (.fromPlan p lease nowMs) maxConcurrent = .ok l')
    (answers : ℕ → StepAnswers) (restores : ℕ → RestoreAnswers) (finishedMs : ℕ) :
    Follows lease.id finishedMs ((new l').execute lease.id answers restores p) ↔
      (∀ i step, p.steps[i]? = some step → (answers i).good step = true) ∧ p.Simple := by
  rw [follows_run_iff hacquire answers restores finishedMs, runSteps_ok_iff]

namespace Sample

def swap : Plan := ⟨"c", "host", [.evict "a", .activate "c"], 1000⟩

def swapTwo : Plan := ⟨"c", "host", [.evict "a", .evict "b", .activate "c"], 1000⟩

def start : Plan := ⟨"c", "host", [.activate "c"], 1000⟩

def leaseOf (p : Plan) : Lease := leaseFor p "l-0-0" "decision" 0

def goodAnswers : StepAnswers := ⟨true, true, true, [some .stopping, some .ready], true⟩

/-- The ledger in which nothing but the lease of a plan is held. -/
def held (p : Plan) : ActivationLedger :=
  { ActivationLedger.empty with
    slots := Function.update ActivationLedger.empty.slots p.host 1
    acquired := 1
    active := [.fromPlan p (leaseOf p) 0] }

theorem acquired (p : Plan) :
    ActivationLedger.empty.acquireExclusive (.fromPlan p (leaseOf p) 0) 1 = .ok (held p) := rfl

def restorable : RestoreAnswers := ⟨true, true, true, true⟩

/-- The plan is executed, with one and the same answer to every step. -/
def executed (a : StepAnswers) (p : Plan) : ActivationOutcome × Execution :=
  (new (held p)).execute (leaseOf p).id (fun _ => a) (fun _ => restorable) p

theorem swap_follows : Follows (leaseOf swap).id 50 (executed goodAnswers swap) := by
  refine (follows_iff (acquired swap) (fun _ => goodAnswers) (fun _ => restorable) 50).2 ⟨fun i step hi => ?_, ?_⟩
  · have hgood : ∀ step ∈ swap.steps, goodAnswers.good step = true := by decide
    exact hgood step (List.mem_of_getElem? hi)
  · exact ⟨some "a", none, "c", rfl⟩

/-- Where a plan evicts two deployments, the second eviction is not permitted by the table, though
nothing goes wrong; and where the verb of a start is refused, the record does not say that it failed. -/
theorem not_followed :
    ¬Follows (leaseOf swapTwo).id 50 (executed goodAnswers swapTwo) ∧
      ¬Follows (leaseOf start).id 50 (executed { goodAnswers with accepted := false } start) := by
  constructor
  · intro h
    exact absurd (h.permitted (.draining, false) (by decide +kernel)) (by decide)
  · rintro ⟨-, -, record, hlast, -, hstate, -⟩
    have hlast := congrArg (Option.map ActivationRecord.state) hlast
    rw [Option.map_some, hstate] at hlast
    revert hlast
    decide +kernel

end Sample

end Execution

end HypeLlm.Fleet
