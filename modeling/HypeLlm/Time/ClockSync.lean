import HypeLlm.Lib.Runs
import HypeLlm.Lib.Words

/-!
# Steps of the wall clock

A monitor compares how far the wall clock moved between two readings with how far the monotonic clock
did.  Both movements are taken as distances, so the direction of the wall clock is lost: of a step back
the time that went by in between is taken off, where it should be added.

* `stepped_forwards`, `stepped_backwards` — when a step is reported;
* **`detects_iff`** — the runs in which every step is reported.
-/

namespace HypeLlm.Time

open HypeLlm.Words

/-- The monotonic clock and the wall clock, in milliseconds. -/
structure Reading where
  mono : ℕ
  wall : ℕ
  deriving Repr, DecidableEq

/-- The distance of two unsigned numbers. -/
def absDiff (a b : ℕ) : ℕ := if a < b then b - a else a - b

structure ClockSyncMonitor where
  last : Option Reading
  maxSkewMillis : ℕ
  skewEvents : ℕ
  deriving Repr, DecidableEq

namespace ClockSyncMonitor

def new (maxSkewMillis : ℕ) : ClockSyncMonitor := ⟨none, maxSkewMillis, 0⟩

def stepped (m : ClockSyncMonitor) (now : Reading) : Bool :=
  match m.last with
  | none => false
  | some prev =>
    let monoDelta := now.mono - prev.mono
    let wallDelta := absDiff now.wall prev.wall
    decide (m.maxSkewMillis < absDiff wallDelta monoDelta)

/-- Sample both clocks: whether a step was detected, and the monitor after it. -/
def sample (m : ClockSyncMonitor) (now : Reading) : Bool × ClockSyncMonitor :=
  (m.stepped now, {
    last := some now
    maxSkewMillis := m.maxSkewMillis
    skewEvents := if m.stepped now then wrapAdd 64 m.skewEvents 1 else m.skewEvents })

def step (m : ClockSyncMonitor) (now : Reading) : ClockSyncMonitor := (m.sample now).2

/-- The monitor after some readings. -/
def after (maxSkewMillis : ℕ) (readings : List Reading) : ClockSyncMonitor :=
  Runs.run step (new maxSkewMillis) readings

theorem after_concat (maxSkewMillis : ℕ) (readings : List Reading) (now : Reading) :
    after maxSkewMillis (readings ++ [now]) = (after maxSkewMillis readings).step now := Runs.run_snoc ..

/-! ### When a step is reported -/

/-- The wall clock and the monotonic clock moved differently, by more than the skew. -/
def Stepped (maxSkewMillis : ℕ) (prev now : Reading) : Prop :=
  (maxSkewMillis : ℤ) < |((now.wall : ℤ) - prev.wall) - ((now.mono : ℤ) - prev.mono)|

/-- A step back that is not reported: with the time that went by it is more than the skew, and without
it no more. -/
def Hidden (maxSkewMillis : ℕ) (prev now : Reading) : Prop :=
  now.wall < prev.wall ∧ maxSkewMillis < (prev.wall - now.wall) + (now.mono - prev.mono) ∧
    prev.wall - now.wall ≤ (now.mono - prev.mono) + maxSkewMillis ∧
    now.mono - prev.mono ≤ (prev.wall - now.wall) + maxSkewMillis

instance (maxSkewMillis : ℕ) (prev now : Reading) : Decidable (Hidden maxSkewMillis prev now) := by
  unfold Hidden
  infer_instance

variable {m : ClockSyncMonitor} {prev now : Reading}

theorem lt_absDiff {s a b : ℕ} : s < absDiff a b ↔ a + s < b ∨ b + s < a := by
  unfold absDiff
  split <;> omega

theorem absDiff_eq (a b : ℕ) : absDiff a b = (a - b) + (b - a) := by
  unfold absDiff
  split <;> omega

/-- Forwards, every step is reported and nothing else. -/
theorem stepped_forwards (hlast : m.last = some prev) (hmono : prev.mono ≤ now.mono) (hwall : prev.wall ≤ now.wall) :
    m.stepped now = true ↔ Stepped m.maxSkewMillis prev now := by
  rw [stepped, hlast, decide_eq_true_iff, absDiff_eq now.wall, lt_absDiff, Stepped, lt_abs]
  omega

/-- Backwards, what is reported is a step, and a step is reported that is not hidden. -/
theorem stepped_backwards (hlast : m.last = some prev) (hmono : prev.mono ≤ now.mono) (hwall : now.wall < prev.wall) :
    m.stepped now = true ↔ Stepped m.maxSkewMillis prev now ∧ ¬Hidden m.maxSkewMillis prev now := by
  rw [stepped, hlast, decide_eq_true_iff, absDiff_eq now.wall, lt_absDiff, Stepped, lt_abs, Hidden]
  omega

/-- A hidden step is a step. -/
theorem Hidden.stepped {maxSkewMillis : ℕ} (h : Hidden maxSkewMillis prev now) (hmono : prev.mono ≤ now.mono) :
    Stepped maxSkewMillis prev now := by
  obtain ⟨hwall, hfar, -, -⟩ := h
  rw [Stepped, lt_abs]
  omega

theorem stepped_iff (hlast : m.last = some prev) (hmono : prev.mono ≤ now.mono) :
    m.stepped now = true ↔ Stepped m.maxSkewMillis prev now ∧ ¬Hidden m.maxSkewMillis prev now := by
  obtain hwall | hwall := Nat.lt_or_ge now.wall prev.wall
  · exact stepped_backwards hlast hmono hwall
  · have hnot : ¬Hidden m.maxSkewMillis prev now := fun h => Nat.not_lt.2 hwall h.1
    rw [stepped_forwards hlast hmono hwall, and_iff_left hnot]

/-! ### Runs -/

theorem last_after (maxSkewMillis : ℕ) (readings : List Reading) :
    (after maxSkewMillis readings).last = readings.getLast? := by
  induction readings using List.reverseRecOn with
  | nil => rfl
  | append_singleton readings now _ =>
    rw [after_concat, List.getLast?_concat]
    rfl

theorem maxSkewMillis_after (maxSkewMillis : ℕ) (readings : List Reading) :
    (after maxSkewMillis readings).maxSkewMillis = maxSkewMillis := by
  induction readings using List.reverseRecOn with
  | nil => rfl
  | append_singleton readings now ih =>
    rw [after_concat]
    exact ih

/-- A reading is answered with a step exactly when the wall clock moved differently since the one before
it, by more than the skew. -/
def Detects (maxSkewMillis : ℕ) (readings : List Reading) : Prop :=
  ∀ before now rest, readings = before ++ now :: rest →
    (((after maxSkewMillis before).sample now).1 = true ↔
      ∃ prev, before.getLast? = some prev ∧ Stepped maxSkewMillis prev now)

/-- **The runs in which every step is reported**: those in which no step back is hidden by the time that
went by. -/
theorem detects_iff (maxSkewMillis : ℕ) (readings : List Reading)
    (hmono : readings.Pairwise fun a b => a.mono ≤ b.mono) :
    Detects maxSkewMillis readings ↔ readings.IsChain fun prev now => ¬Hidden maxSkewMillis prev now := by
  rw [List.isChain_iff_forall_rel_of_append_cons_cons]
  constructor
  · intro h prev now before rest hreadings hhidden
    have hsplit : readings = (before ++ [prev]) ++ now :: rest := by
      rw [hreadings, List.append_assoc, List.singleton_append]
    have horder : prev.mono ≤ now.mono := by
      rw [hsplit, List.pairwise_append] at hmono
      exact hmono.2.2 prev (List.mem_append_right _ (List.mem_singleton_self prev)) now List.mem_cons_self
    have hlast : (after maxSkewMillis (before ++ [prev])).last = some prev := by
      rw [last_after, List.getLast?_concat]
    have hreported := (h (before ++ [prev]) now rest hsplit).2
      ⟨prev, List.getLast?_concat, hhidden.stepped horder⟩
    have hshown := ((stepped_iff hlast horder).1 hreported).2
    rw [maxSkewMillis_after] at hshown
    exact hshown hhidden
  · intro h before now rest hreadings
    show (after maxSkewMillis before).stepped now = true ↔ _
    cases hlast : before.getLast? with
    | none =>
      have hnone : (after maxSkewMillis before).last = none := by rw [last_after, hlast]
      rw [stepped, hnone]
      exact iff_of_false Bool.false_ne_true (by rintro ⟨prev, hprev, -⟩; cases hprev)
    | some prev =>
      have hprev : (after maxSkewMillis before).last = some prev := by rw [last_after, hlast]
      have hbefore : before = before.dropLast ++ [prev] :=
        (List.dropLast_append_getLast? prev hlast).symm
      have hsplit : readings = before.dropLast ++ prev :: now :: rest := by
        rw [hreadings, hbefore, List.append_assoc, List.singleton_append, ← hbefore]
      have horder : prev.mono ≤ now.mono := by
        rw [hreadings, List.pairwise_append] at hmono
        exact hmono.2.2 prev (List.mem_of_getLast? hlast) now List.mem_cons_self
      rw [stepped_iff hprev horder, maxSkewMillis_after, and_iff_left (h hsplit)]
      constructor
      · exact fun hstep => ⟨prev, rfl, hstep⟩
      · rintro ⟨other, hother, hstep⟩
        rwa [Option.some.inj hother]

/-- A wall clock that goes an hour forward, and then an hour back. -/
theorem detects_hour :
    Detects 1000 [⟨0, 0⟩, ⟨5000, 5000⟩, ⟨6000, 3606000⟩, ⟨7000, 3606500⟩, ⟨7100, 2000⟩] :=
  (detects_iff 1000 _ (by decide)).2 (by decide)

/-- **A step back is hidden**: the wall clock goes back by five seconds while five seconds go by. -/
theorem step_back_hidden :
    ¬∀ maxSkewMillis readings, readings.Pairwise (fun a b : Reading => a.mono ≤ b.mono) →
      Detects maxSkewMillis readings := by
  intro h
  have hdetects := h 1000 [⟨0, 10000⟩, ⟨5000, 5000⟩] (by decide)
  have hreported := (hdetects [⟨0, 10000⟩] ⟨5000, 5000⟩ [] rfl).2 ⟨⟨0, 10000⟩, rfl, by norm_num [Stepped]⟩
  exact absurd hreported (by decide)

end ClockSyncMonitor

end HypeLlm.Time
