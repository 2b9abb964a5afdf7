import Mathlib

/-!
# Runs of a step function

A run applies a total step function to a list of events, oldest first.  The rules here turn
what one step preserves into what a whole run preserves:

* `run_invariant` — a property every step keeps holds after every run;
* `StepsMeet` and `run_invariant_of_steps` — the same under a condition that every step of the
  run has to meet in the state it is taken from;
* `stepsMeet_iff_prefixes` — a property that a step keeps exactly under such a condition.

Nothing in this file names a program: the state and the events are arbitrary types.
-/

namespace HypeLlm.Runs

variable {σ ε : Type*} (step : σ → ε → σ)

/-- The state after the events `es`, applied oldest first. -/
def run (s : σ) (es : List ε) : σ := es.foldl step s

@[simp] theorem run_nil (s : σ) : run step s [] = s := rfl

@[simp] theorem run_cons (s : σ) (e : ε) (es : List ε) :
    run step s (e :: es) = run step (step s e) es := rfl

theorem run_append (s : σ) (es fs : List ε) :
    run step s (es ++ fs) = run step (run step s es) fs := List.foldl_append

theorem run_snoc (s : σ) (es : List ε) (e : ε) :
    run step s (es ++ [e]) = step (run step s es) e := by
  rw [run_append, run_cons, run_nil]

variable {step}

/-- **The invariant rule.**  What every step keeps, every run keeps. -/
theorem run_invariant {P : σ → Prop} (hstep : ∀ s e, P s → P (step s e)) {s : σ} (h : P s) :
    ∀ es, P (run step s es) := by
  intro es
  induction es generalizing s with
  | nil => exact h
  | cons e es ih => exact ih (hstep s e h)

/-- Every step of the run from `s` meets `C` in the state it is taken from. -/
def StepsMeet (step : σ → ε → σ) (C : σ → ε → Prop) : σ → List ε → Prop
  | _, [] => True
  | s, e :: es => C s e ∧ StepsMeet step C (step s e) es

instance StepsMeet.decidable (C : σ → ε → Prop) [∀ s e, Decidable (C s e)] :
    ∀ s es, Decidable (StepsMeet step C s es)
  | _, [] => inferInstanceAs (Decidable True)
  | s, e :: es =>
    have : Decidable (StepsMeet step C (step s e) es) := StepsMeet.decidable C (step s e) es
    inferInstanceAs (Decidable (C s e ∧ StepsMeet step C (step s e) es))

theorem StepsMeet.append_left {C : σ → ε → Prop} {s : σ} {es fs : List ε}
    (h : StepsMeet step C s (es ++ fs)) : StepsMeet step C s es := by
  induction es generalizing s with
  | nil => exact trivial
  | cons e es ih => exact ⟨h.1, ih h.2⟩

theorem StepsMeet.append_right {C : σ → ε → Prop} {s : σ} {es fs : List ε}
    (h : StepsMeet step C s (es ++ fs)) : StepsMeet step C (run step s es) fs := by
  induction es generalizing s with
  | nil => exact h
  | cons e es ih => exact ih h.2

theorem StepsMeet.append {C : σ → ε → Prop} {s : σ} {es fs : List ε} (hes : StepsMeet step C s es)
    (hfs : StepsMeet step C (run step s es) fs) : StepsMeet step C s (es ++ fs) := by
  induction es generalizing s with
  | nil => exact hfs
  | cons e es ih => exact ⟨hes.1, ih hes.2 hfs⟩

theorem StepsMeet.mono {C D : σ → ε → Prop} (hCD : ∀ s e, C s e → D s e) {s : σ} {es : List ε}
    (h : StepsMeet step C s es) : StepsMeet step D s es := by
  induction es generalizing s with
  | nil => exact trivial
  | cons e es ih => exact ⟨hCD s e h.1, ih h.2⟩

/-- Conditions that agree on the steps of a run are met by the same runs. -/
theorem StepsMeet.iff {C D R : σ → ε → Prop} (hCD : ∀ s e, R s e → (C s e ↔ D s e)) {s : σ} {es : List ε}
    (h : StepsMeet step R s es) : StepsMeet step C s es ↔ StepsMeet step D s es := by
  induction es generalizing s with
  | nil => exact Iff.rfl
  | cons e es ih => exact and_congr (hCD s e h.1) (ih h.2)

/-- **The invariant rule under a condition on the steps.** -/
theorem run_invariant_of_steps {P : σ → Prop} {C : σ → ε → Prop}
    (hstep : ∀ s e, P s → C s e → P (step s e)) {s : σ} (h : P s) :
    ∀ es, StepsMeet step C s es → P (run step s es) := by
  intro es
  induction es generalizing s with
  | nil => exact fun _ => h
  | cons e es ih => exact fun hc => ih (hstep s e h hc.1) hc.2

/-- **A property that is kept exactly by the steps that meet a condition** holds all through a run exactly
where every step meets the condition.  What is needed of the states may be a further invariant. -/
theorem stepsMeet_iff_prefixes {I P : σ → Prop} {C : σ → ε → Prop} (hI : ∀ s e, I s → I (step s e))
    (hstep : ∀ s e, I s → P s → (P (step s e) ↔ C s e)) {s : σ} (hs : I s) (h : P s) (es : List ε) :
    (∀ mid, mid <+: es → P (run step s mid)) ↔ StepsMeet step C s es := by
  induction es generalizing s with
  | nil =>
    refine iff_of_true (fun mid hmid => ?_) trivial
    rw [List.prefix_nil.mp hmid]
    exact h
  | cons e es ih =>
    constructor
    · intro hall
      have hnext : P (step s e) := hall [e] (List.prefix_append [e] es)
      refine ⟨(hstep s e hs h).mp hnext, (ih (hI s e hs) hnext).mp fun mid hmid => ?_⟩
      exact hall (e :: mid) (List.cons_prefix_cons.mpr ⟨rfl, hmid⟩)
    · rintro ⟨hc, htail⟩ mid hmid
      cases mid with
      | nil => exact h
      | cons e' mid =>
        obtain ⟨rfl, hrest⟩ := List.cons_prefix_cons.mp hmid
        exact (ih (hI s e' hs) ((hstep s e' hs h).mpr hc)).mpr htail mid hrest

end HypeLlm.Runs
