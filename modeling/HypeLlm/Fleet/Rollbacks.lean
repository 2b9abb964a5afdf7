import HypeLlm.Fleet.Execution

/-!
# What a rollback brings back

Where a plan that evicts something fails, its victims are started again: each is paid for, asked of the
agent, and relieved of its backoff.  A plan fails at any of its steps, the first stop among them, and
the rollback goes by the plan, not by what was done of it.

* `Execution.stopped_runSteps` — the victims whose stop was accepted, as the answers say them;
* `stopped_prefix` — they are the first ones of the plan;
* **`rollback_exact_iff`** — a rollback brings back exactly what was stopped where those victims can be
  brought back, and no other could be;
* `RollbackSample.running_victim_restarted` — a plan out of time before its first stop has its victim
  started, which runs.
-/

namespace HypeLlm.Fleet

/-- The victim whose stop is accepted in a step. -/
def StepAnswers.stopped (a : StepAnswers) : PlanStep → Option DeploymentId
  | .evict victim => if a.found && a.accepted then some victim else none
  | _ => none

/-- The victims whose stop the agents accept, from the `n`-th step on and up to the first that fails. -/
def stoppedVictims (answers : ℕ → StepAnswers) : ℕ → List PlanStep → List DeploymentId
  | _, [] => []
  | n, step :: steps =>
    if (answers n).inTime then
      ((answers n).stopped step).toList ++
        if (answers n).good step then stoppedVictims answers (n + 1) steps else []
    else []

/-! ### The run -/

namespace Execution

theorem stopped_runStep (x : Execution) (lease : LeaseId) (a : StepAnswers) (step : PlanStep) :
    (x.runStep lease a step).2.stopped = x.stopped ++ (a.stopped step).toList ∧
      (x.runStep lease a step).2.rolledBack = x.rolledBack := by
  cases step with
  | evict | fetch =>
    simp only [runStep, StepAnswers.stopped]
    split <;> exact ⟨by simp [transition], rfl⟩
  | copy | activate =>
    simp only [runStep, StepAnswers.stopped]
    split
    · cases awaitTerminal a.polls with
      | error _ => exact ⟨by simp [transition], rfl⟩
      | ok _ => cases a.observed <;> exact ⟨by simp [transition], rfl⟩
    · exact ⟨by simp [transition], rfl⟩

/-- **What a run stops is what the answers say**, and a run rolls nothing back. -/
theorem stopped_runSteps (x : Execution) (lease : LeaseId) (answers : ℕ → StepAnswers) (n : ℕ)
    (steps : List PlanStep) :
    (x.runSteps lease answers n steps).2.stopped = x.stopped ++ stoppedVictims answers n steps ∧
      (x.runSteps lease answers n steps).2.rolledBack = x.rolledBack := by
  induction steps generalizing x n with
  | nil => exact ⟨(List.append_nil _).symm, rfl⟩
  | cons step steps ih =>
    rw [runSteps, stoppedVictims]
    cases hinTime : (answers n).inTime with
    | false => exact ⟨(List.append_nil _).symm, rfl⟩
    | true =>
      rw [if_pos rfl, if_pos rfl]
      obtain ⟨hstopped, hrolled⟩ := x.stopped_runStep lease (answers n) step
      rcases x.runStep_cases lease hinTime step with ⟨hgood, hstep⟩ | ⟨hbad, failure, hstep⟩
      · rw [hstep] at hstopped hrolled ⊢
        obtain ⟨hrest, hrest'⟩ := ih (x.performed lease step) (n + 1)
        rw [if_pos hgood, ← List.append_assoc, ← hstopped, ← hrolled]
        exact ⟨hrest, hrest'⟩
      · rw [hbad, if_neg Bool.false_ne_true, List.append_nil, ← hstopped, ← hrolled]
        generalize x.runStep lease (answers n) step = reply at hstep ⊢
        obtain ⟨result, y⟩ := reply
        obtain rfl : result = .error failure := hstep
        exact ⟨rfl, rfl⟩

end Execution

/-- **The victims whose stop was accepted are the first ones.** -/
theorem stopped_prefix (answers : ℕ → StepAnswers) (p : Plan) :
    stoppedVictims answers 0 p.steps <+: p.evictionSet := by
  have hsteps : ∀ (steps : List PlanStep) (n : ℕ), stoppedVictims answers n steps <+:
      steps.filterMap PlanStep.victim := by
    intro steps
    induction steps with
    | nil => exact fun n => List.nil_prefix
    | cons step steps ih =>
      intro n
      have hrest : (if (answers n).good step then stoppedVictims answers (n + 1) steps else []) <+:
          steps.filterMap PlanStep.victim := by
        split
        · exact ih (n + 1)
        · exact List.nil_prefix
      rw [stoppedVictims]
      split
      · cases step with
        | evict victim =>
          rw [List.filterMap_cons, StepAnswers.stopped]
          cases hverb : (answers n).found && (answers n).accepted with
          | true => exact List.cons_prefix_cons.2 ⟨rfl, hrest⟩
          | false =>
            have hbad : (answers n).good (.evict victim) = false := by
              rw [StepAnswers.good, hverb, Bool.and_false]
              rfl
            rw [hbad]
            exact List.nil_prefix
        | fetch | copy | activate => exact hrest
      · exact List.nil_prefix
  have hset : p.evictionSet = p.steps.filterMap PlanStep.victim := by
    refine List.filterMap_congr fun step _ => ?_
    cases step <;> rfl
  rw [hset]
  exact hsteps p.steps 0

/-! ### The rollback -/

namespace RestoreAnswers

def bought (a : RestoreAnswers) : Bool := a.configured && a.paid

def asked (a : RestoreAnswers) : Bool := a.bought && a.found

def back (a : RestoreAnswers) : Bool := a.asked && a.accepted

end RestoreAnswers

open RestoreAnswers

/-- What a rollback does is a matter of the answers about each victim. -/
theorem foldl_restore (answers : ℕ → RestoreAnswers) (victims : List (DeploymentId × ℕ)) (r : Rollback) :
    victims.foldl (Rollback.restore answers) r =
      ⟨r.spent ++ victims.filter (fun v => (answers v.2).bought),
        r.sent ++ victims.filter (fun v => (answers v.2).asked),
        r.cleared ++ victims.filter (fun v => (answers v.2).back),
        r.allBack && victims.all fun v => (answers v.2).back⟩ := by
  induction victims generalizing r with
  | nil => simp
  | cons v victims ih =>
    rw [List.foldl_cons, ih, Rollback.restore]
    cases hconfigured : (answers v.2).configured
    · simp [bought, asked, back, hconfigured]
    · cases hpaid : (answers v.2).paid
      · simp [bought, asked, back, hconfigured, hpaid]
      · cases hfound : (answers v.2).found
        · simp [bought, asked, back, hconfigured, hpaid, hfound]
        · cases haccepted : (answers v.2).accepted <;>
            simp [bought, asked, back, hconfigured, hpaid, hfound, haccepted]

theorem take_zipIdx {α : Type} (l : List α) (k : ℕ) :
    l.zipIdx.take k = l.zipIdx.filter fun v => v.2 < k := by
  have hfrom : ∀ (l : List α) (n k : ℕ), (l.zipIdx n).take k = (l.zipIdx n).filter fun v => v.2 < n + k := by
    intro l
    induction l with
    | nil => exact fun n k => by simp
    | cons a l ih =>
      intro n k
      cases k with
      | zero =>
        symm
        rw [List.take_zero, List.filter_eq_nil_iff]
        rintro ⟨b, m⟩ hmem
        have hle := List.le_snd_of_mem_zipIdx hmem
        simpa using hle
      | succ k =>
        rw [List.zipIdx_cons, List.take_succ_cons, ih, List.filter_cons_of_pos (by simp)]
        have hsum : n + 1 + k = n + (k + 1) := by omega
        rw [hsum]
  simpa using hfrom l 0 k

/-- Two filters of the victims agree where they agree on every place. -/
theorem filter_zipIdx_eq_iff {α : Type} {l : List α} {f g : ℕ → Bool} :
    (l.zipIdx.filter fun v => f v.2) = (l.zipIdx.filter fun v => g v.2) ↔
      ∀ n < l.length, f n = g n := by
  constructor
  · intro h n hn
    have hmem : (l[n], n) ∈ l.zipIdx := by
      rw [List.mem_zipIdx_iff_getElem?]
      exact List.getElem?_eq_getElem hn
    have hsame : (l[n], n) ∈ (l.zipIdx.filter fun v => f v.2) ↔ (l[n], n) ∈ (l.zipIdx.filter fun v => g v.2) := by
      rw [h]
    simp only [List.mem_filter, hmem, true_and] at hsame
    exact Bool.eq_iff_iff.2 hsame
  · intro h
    refine List.filter_congr ?_
    rintro ⟨a, n⟩ hmem
    have hget := List.mem_zipIdx_iff_getElem?.1 hmem
    exact h n (List.getElem?_eq_some_iff.1 hget).1

/-- The rollback of an activation, where there is one, pays for, starts and relieves exactly the victims
whose stop was accepted. -/
def RestoresExactly (x : Execution) : Prop :=
  ∀ r, x.rolledBack = some r →
    r.spent = x.stopped.zipIdx ∧ r.sent = x.stopped.zipIdx ∧ r.cleared = x.stopped.zipIdx

/-- Every victim whose stop was accepted can be brought back, and no other can be paid for. -/
def Undone (answers : ℕ → StepAnswers) (restores : ℕ → RestoreAnswers) (p : Plan) : Prop :=
  ∀ n < p.evictionSet.length,
    if n < (stoppedVictims answers 0 p.steps).length then (restores n).back = true
    else (restores n).bought = false

theorem evicts_iff (p : Plan) : p.evicts = true ↔ p.evictionSet ≠ [] := by
  rw [Plan.evicts, Plan.evictionSet, List.any_eq_true, ne_eq, List.filterMap_eq_nil_iff, not_forall]
  constructor
  · rintro ⟨step, hmem, hevict⟩
    refine ⟨step, fun hnone => ?_⟩
    cases step with
    | evict d => cases hnone hmem
    | fetch | copy | activate => cases hevict
  · rintro ⟨step, hstep⟩
    obtain ⟨hmem, hsome⟩ := Classical.not_imp.1 hstep
    refine ⟨step, hmem, ?_⟩
    cases step with
    | evict d => rfl
    | fetch | copy | activate => exact absurd rfl hsome

/-- An activation that fails has stopped the victims that the answers say, and rolls its plan back where
the plan evicts something. -/
theorem Execution.execute_fails {l : ActivationLedger} {lease : LeaseId} {p : Plan} {answers : ℕ → StepAnswers}
    {restores : ℕ → RestoreAnswers}
    (hfails : ((Execution.new l).execute lease answers restores p).1 ≠ .succeeded) :
    ((Execution.new l).execute lease answers restores p).2.stopped = stoppedVictims answers 0 p.steps ∧
      ((Execution.new l).execute lease answers restores p).2.rolledBack =
        if p.evictionSet = [] then none
        else some (p.evictionSet.zipIdx.foldl (Rollback.restore restores) ⟨[], [], [], true⟩) := by
  obtain ⟨hstopped, hrolled⟩ :=
    ((Execution.new l).transition lease .leaseHeld).stopped_runSteps lease answers 0 p.steps
  rw [Execution.execute] at hfails ⊢
  generalize ((Execution.new l).transition lease .leaseHeld).runSteps lease answers 0 p.steps = reply
    at hstopped hrolled hfails ⊢
  obtain ⟨result, x⟩ := reply
  cases result with
  | ok _ => exact absurd rfl hfails
  | error failure =>
    by_cases hevicts : p.evictionSet = []
    · simp only [if_neg (mt (evicts_iff p).1 (not_not.2 hevicts)), if_pos hevicts]
      exact ⟨hstopped, hrolled⟩
    · simp only [if_pos ((evicts_iff p).2 hevicts), Execution.rollback, if_neg hevicts]
      generalize p.evictionSet.zipIdx.foldl (Rollback.restore restores) ⟨[], [], [], true⟩ = r
      cases r.allBack <;> exact ⟨hstopped, rfl⟩

/-- **A rollback brings back exactly what was stopped** where every victim whose stop was accepted is
configured, paid for and accepted by its agent, and no other victim is configured and could be paid for;
and only there. -/
theorem rollback_exact_iff (l : ActivationLedger) (lease : LeaseId) (p : Plan) (answers : ℕ → StepAnswers)
    (restores : ℕ → RestoreAnswers)
    (hfails : ((Execution.new l).execute lease answers restores p).1 ≠ .succeeded) :
    RestoresExactly ((Execution.new l).execute lease answers restores p).2 ↔ Undone answers restores p := by
  obtain ⟨hstopped, hrolled⟩ := Execution.execute_fails hfails
  obtain ⟨rest, hset⟩ := stopped_prefix answers p
  rw [RestoresExactly, hstopped, hrolled]
  by_cases hevicts : p.evictionSet = []
  · refine iff_of_true ?_ ?_
    · intro r hr
      rw [if_pos hevicts] at hr
      cases hr
    · intro n hn
      rw [hevicts] at hn
      exact absurd hn (Nat.not_lt_zero n)
  · have htake : (stoppedVictims answers 0 p.steps).zipIdx =
        p.evictionSet.zipIdx.take (stoppedVictims answers 0 p.steps).length := by
      rw [← hset, List.zipIdx_append, List.take_left' List.length_zipIdx]
    rw [if_neg hevicts, Undone, foldl_restore, htake]
    simp only [Option.some.injEq, forall_eq', List.nil_append, take_zipIdx]
    generalize (stoppedVictims answers 0 p.steps).length = k
    have hiff := fun f : ℕ → Bool => filter_zipIdx_eq_iff (l := p.evictionSet) (f := f)
      (g := fun n => decide (n < k))
    rw [hiff fun n => (restores n).bought, hiff fun n => (restores n).asked, hiff fun n => (restores n).back]
    rw [← forall₂_and, ← forall₂_and]
    refine forall₂_congr fun n _ => ?_
    by_cases hn : n < k
    · rw [if_pos hn, decide_eq_true hn]
      refine ⟨fun h => h.2.2, fun hback => ?_⟩
      obtain ⟨hasked, -⟩ := Bool.and_eq_true_iff.1 hback
      exact ⟨(Bool.and_eq_true_iff.1 hasked).1, hasked, hback⟩
    · rw [if_neg hn, decide_eq_false hn]
      refine ⟨And.left, fun hbought => ?_⟩
      have hasked : (restores n).asked = false := by rw [asked, hbought, Bool.false_and]
      exact ⟨hbought, hasked, by rw [back, hasked, Bool.false_and]⟩

namespace RollbackSample

/-- A plan that stops one deployment for another. -/
def swap : Plan := ⟨"new", "host", [.evict "old", .activate "new"], 0⟩

/-- The time of the plan has run out. -/
def late : ℕ → StepAnswers := fun _ => ⟨false, true, true, [], true⟩

def restorable : ℕ → RestoreAnswers := fun _ => ⟨true, true, true, true⟩

/-- The stop is accepted, and the agent is lost on the way: what was stopped is started again. -/
def lost : ℕ → StepAnswers := fun _ => ⟨true, true, true, [none], true⟩

/-- The plan is executed, and rolled back where it fails. -/
def executed (answers : ℕ → StepAnswers) : ActivationOutcome × Execution :=
  (Execution.new .empty).execute "lease" answers restorable swap

theorem stopped_victim_restarted :
    (executed lost).1 = .failedAndRolledBack ∧ (executed lost).2.stopped = ["old"] ∧
      RestoresExactly (executed lost).2 := by
  have hrolled : (executed lost).1 = .failedAndRolledBack := by decide +kernel
  have hundone : Undone lost restorable swap := by
    intro n hn
    obtain rfl : n = 0 := Nat.lt_one_iff.1 hn
    decide
  refine ⟨hrolled, by decide +kernel, (rollback_exact_iff .empty "lease" swap lost restorable ?_).2 hundone⟩
  rw [show (Execution.new .empty).execute "lease" lost restorable swap = executed lost from rfl, hrolled]
  exact fun h => by cases h

/-- **A running victim is started.**  The time of the plan runs out before its first stop, and the
rollback pays for the victim, starts it and clears its backoff. -/
theorem running_victim_restarted : (executed late).2.stopped = [] ∧
    ¬ ∀ l lease answers restores p, ((Execution.new l).execute lease answers restores p).1 ≠ .succeeded →
      RestoresExactly ((Execution.new l).execute lease answers restores p).2 := by
  refine ⟨by decide +kernel, fun h => ?_⟩
  have hspent := (h .empty "lease" late restorable swap (by decide +kernel) _ rfl).1
  exact absurd hspent (by decide +kernel)

end RollbackSample

end HypeLlm.Fleet
