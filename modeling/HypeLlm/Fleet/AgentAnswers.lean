import HypeLlm.Fleet.Execution

/-!
# What the agent answers to a plan

A plan is executed against whatever the agents answer (`Execution.execute`), and against the reference
agent in particular (`Agent.runPlan`).  The agent gives one of these sequences of answers: to each step
the reply to its verb, the state in which the activation has ended, and what is observed then.

* `Agent.answers` — the answers, step by step along the run;
* `Agent.runSteps_ok_iff_good` — the plan goes well against the agent where all of its answers are good;
* **`Agent.record_follows_iff`** — the record of a plan that is run against the agent follows it, if and
  only if the run goes well and the plan is simple.
-/

namespace HypeLlm.Fleet

/-- The state of an activation as the agent reports it. -/
def WorkState.observed : WorkState → ObservedState
  | .starting => .starting
  | .stopping => .stopping
  | .fetching => .fetching
  | .ready => .ready
  | .failed => .failed
  | .stopped => .stopped

/-- What a step looks up before its verb is there. -/
def RouterView.finds (view : RouterView) : PlanStep → Bool
  | .evict victim => view.configured victim
  | .copy artifact _ _ => view.keptChecksum artifact
  | _ => true

namespace Agent

section Answers

variable (table : Table) (view : RouterView) (succeeds : Command → Bool) (lease : LeaseId)

/-- The verb of a step. -/
def verb (s : Agent) : PlanStep → Except VerbError ℕ × Agent
  | .evict victim => s.startVerb table victim lease false
  | .fetch artifact host => s.fetch table artifact host
  | .copy artifact source dest => s.copy table artifact source dest
  | .activate deployment => s.startVerb table deployment lease true

/-- What is observed after a step is what it was to bring about. -/
def observes (s : Agent) : PlanStep → Bool
  | .copy artifact _ dest => s.images artifact dest
  | .activate deployment => s.observedServing succeeds deployment
  | _ => true

/-- The answers to one step.  The threads of the agent run while it is waited for, and the time of the
plan does not run out. -/
def answer (s : Agent) (step : PlanStep) : StepAnswers :=
  match s.verb table lease step with
  | (.error _, _) => ⟨true, view.finds step, false, [], false⟩
  | (.ok id, t) =>
    let u := t.runThread table succeeds id
    ⟨true, view.finds step, true, [(u.find id).map fun a => a.state.observed], u.observes succeeds step⟩

/-- The answers to the steps of a plan, up to the first that fails. -/
def answers (s : Agent) : List PlanStep → ℕ → StepAnswers
  | [], _ => ⟨true, false, false, [], false⟩
  | step :: _, 0 => s.answer table view succeeds lease step
  | step :: steps, n + 1 => answers (s.runStep table view succeeds lease step).2 steps n

end Answers

variable {T : Table} {V : RouterView} {F : Command → Bool} {lease : LeaseId}

/-- A state says that a step went well, or it does not, to both. -/
theorem isOk_awaitTerminal (state : WorkState) :
    (Fleet.awaitTerminal [some state.observed]).isOk = true ↔ verdict state = .ok () := by
  cases state <;> simp [Fleet.awaitTerminal, verdict, WorkState.observed, Except.isOk, Except.toBool]

/-- The wait for an activation, and its state at the end. -/
theorem awaitTerminal_ok_iff (t : Agent) (id : ℕ) :
    (t.awaitTerminal T F id).1 = .ok () ↔
      (Fleet.awaitTerminal [((t.runThread T F id).find id).map fun a => a.state.observed]).isOk = true := by
  rw [awaitTerminal]
  cases (t.runThread T F id).find id with
  | none => exact iff_of_false (fun h => by cases h) (by decide)
  | some a => exact (isOk_awaitTerminal a.state).symm

/-- Where one more thing has to be observed, it is. -/
theorem confirm_ok_iff (result : Except PlanFailure Unit × Agent) (check : Agent → Bool) :
    (confirm result check).1 = .ok () ↔ result.1 = .ok () ∧ check result.2 = true := by
  obtain ⟨outcome, t⟩ := result
  cases outcome with
  | ok _ => cases hcheck : check t <;> simp [confirm, hcheck]
  | error failure => exact iff_of_false (fun h => by cases h) fun h => by cases h.1

/-- A step is a look-up, a verb that is waited for, and what is observed then. -/
theorem runStep_ok_iff (s : Agent) (step : PlanStep) :
    (s.runStep T V F lease step).1 = .ok () ↔ V.finds step = true ∧
      (callAndAwait T F (s.verb T lease step)).1 = .ok () ∧
        (callAndAwait T F (s.verb T lease step)).2.observes F step = true := by
  cases step with
  | evict victim =>
    cases hfound : V.configured victim <;> simp [runStep, RouterView.finds, hfound, verb, observes]
  | fetch artifact host => simp [runStep, RouterView.finds, verb, observes]
  | copy artifact source dest =>
    cases hfound : V.keptChecksum artifact <;>
      simp [runStep, RouterView.finds, hfound, verb, observes, confirm_ok_iff]
  | activate deployment => simp [runStep, RouterView.finds, verb, observes, confirm_ok_iff]

/-- **A step goes well against the agent** if and only if its answers are good. -/
theorem runStep_ok_iff_good (s : Agent) (step : PlanStep) :
    (s.runStep T V F lease step).1 = .ok () ↔ (s.answer T V F lease step).good step = true := by
  rw [runStep_ok_iff, answer]
  generalize s.verb T lease step = reply
  obtain ⟨result, t⟩ := reply
  cases result with
  | error e =>
    refine iff_of_false (fun h => by cases h.2.1) ?_
    simp [StepAnswers.good]
  | ok id =>
    show V.finds step = true ∧ (t.awaitTerminal T F id).1 = .ok () ∧
      (t.awaitTerminal T F id).2.observes F step = true ↔ _
    rw [awaitTerminal_snd, awaitTerminal_ok_iff]
    cases step <;> simp [StepAnswers.good, observes, and_assoc]

/-- **A plan goes well against the agent** if and only if all of its answers are good. -/
theorem runSteps_ok_iff_good (s : Agent) (steps : List PlanStep) :
    (s.runSteps T V F lease steps).1 = .ok () ↔
      ∀ i step, steps[i]? = some step → (s.answers T V F lease steps i).good step = true := by
  induction steps generalizing s with
  | nil => exact iff_of_true rfl fun _ _ h => by cases h
  | cons step steps ih =>
    have hstep := @runStep_ok_iff_good T V F lease s step
    rw [runSteps]
    cases hrun : s.runStep T V F lease step with
    | mk result t =>
      rw [hrun] at hstep
      cases result with
      | error failure =>
        refine iff_of_false (fun h => by cases h) fun hall => ?_
        cases hstep.2 (hall 0 step rfl)
      | ok _ =>
        have hrest := ih t
        refine hrest.trans ⟨fun hall i step' hi => ?_, fun hall i step' hi => ?_⟩
        · cases i with
          | zero =>
            obtain rfl := Option.some.inj hi
            exact hstep.1 rfl
          | succ i =>
            rw [answers, hrun]
            exact hall i step' hi
        · have hnext := hall (i + 1) step' hi
          rw [answers, hrun] at hnext
          exact hnext

/-- **The record of a plan that is run against the agent follows the activation** if and only if the run
goes well and the plan is simple. -/
theorem record_follows_iff {l l' : ActivationLedger} {p : Plan} {lease : Lease} {nowMs maxConcurrent : ℕ}
    (hacquire : l.acquireExclusive (.fromPlan p lease nowMs) maxConcurrent = .ok l') (s : Agent)
    (restores : ℕ → RestoreAnswers) (finishedMs : ℕ) :
    Execution.Follows lease.id finishedMs
        ((Execution.new l').execute lease.id (s.answers T V F lease.id p.steps) restores p) ↔
      (s.runPlan T V F lease.id p).1 = .ok () ∧ p.Simple := by
  rw [Execution.follows_run_iff hacquire _ restores finishedMs, Execution.runSteps_ok_iff,
    ← runSteps_ok_iff_good]
  rfl

namespace Sample

open Execution.Sample (leaseOf held acquired restorable)

/-- The image model is started beside the chat model. -/
def beside : Plan := Plan.of [] none "image" "spark" 1000

theorem beside_followed :
    Execution.Follows (leaseOf beside).id 50 ((Execution.new (held beside)).execute (leaseOf beside).id
      (chatRuns.answers twoModels knowsAll (fun _ => true) (leaseOf beside).id beside.steps)
      (fun _ => restorable) beside) :=
  (record_follows_iff (acquired beside) chatRuns (fun _ => restorable) 50).2
    ⟨by decide +kernel, none, none, "image", rfl⟩

end Sample

end Agent

end HypeLlm.Fleet
