import HypeLlm.Fleet.Snapshot
import HypeLlm.Lib.Runs

/-!
# Cooldown and flap backoff

A deployment that was evicted may not be started again for a while, and the while doubles from one
eviction to the next, up to a ceiling, until a quiet period.  The quiet period is measured from the
eviction before, not from the end of the cooldown that it was given.  A cooldown that has grown past the
window therefore outlasts the memory of it: the next eviction there may be begins again at the plain
cooldown.

* `After.doubles_iff`, `After.untilMs_le_iff` — what one more eviction does to the cooldown and its end;
* **`backoff_iff`** — the cooldowns of a run double, and their ends never move back, exactly as long as
  each eviction comes within the window of the one before;
* `Sample.backoff_starts_over` — and a flapping deployment need not be evicted that often.
-/

namespace HypeLlm.Fleet

open HypeLlm.Words HypeLlm.Runs

/-- What the backoff reads of a fleet policy. -/
structure FlapPolicy where
  reactivationCooldownMs : ℕ
  flapWindowMs : ℕ
  maxFlapCooldownMs : ℕ
  reactivation_le : reactivationCooldownMs ≤ u64Max
  maxFlap_le : maxFlapCooldownMs ≤ u64Max
  deriving Repr

structure FlapState where
  /-- Consecutive cycles inside the window. -/
  cycles : ℕ
  lastCycleMs : ℕ
  /-- When the deployment may be started again. -/
  untilMs : ℕ
  deriving Repr, DecidableEq

/-- What no cooldown exceeds. -/
def FlapPolicy.ceiling (policy : FlapPolicy) : ℕ :=
  max policy.maxFlapCooldownMs policy.reactivationCooldownMs

/-- The cooldown after some consecutive cycles: the first is given the plain one. -/
def FlapPolicy.cooldown (policy : FlapPolicy) (cycles : ℕ) : ℕ :=
  min (satMul u64Max policy.reactivationCooldownMs (2 ^ min (cycles - 1) 16)) policy.ceiling

/-- One more cycle; a quiet period resets the count. -/
def FlapState.evicted (state : FlapState) (policy : FlapPolicy) (nowMs : ℕ) : FlapState :=
  let cycles := satAdd u32Max (if policy.flapWindowMs < nowMs - state.lastCycleMs then 0 else state.cycles) 1
  ⟨cycles, nowMs, satAdd u64Max nowMs (policy.cooldown cycles)⟩

abbrev FlapCounter := DeploymentId → Option FlapState

namespace FlapCounter

def new : FlapCounter := fun _ => none

/-- What is held of a deployment, with nothing to start from. -/
def state (counter : FlapCounter) (d : DeploymentId) : FlapState := (counter d).getD ⟨0, 0, 0⟩

/-- Record that a deployment was evicted, and when it may be started again. -/
def recordEviction (counter : FlapCounter) (d : DeploymentId) (policy : FlapPolicy) (nowMs : ℕ) :
    ℕ × FlapCounter :=
  let state := (counter.state d).evicted policy nowMs
  (state.untilMs, Function.update counter d (some state))

/-- When a deployment may be started again. -/
def cooldownUntilMs (counter : FlapCounter) (d : DeploymentId) : ℕ :=
  ((counter d).map FlapState.untilMs).getD 0

/-- The cooldown that a deployment was last given. -/
def cooldownMs (counter : FlapCounter) (d : DeploymentId) (policy : FlapPolicy) : ℕ :=
  policy.cooldown (counter.state d).cycles

/-- An eviction of a deployment. -/
def evict (d : DeploymentId) (policy : FlapPolicy) (counter : FlapCounter) (nowMs : ℕ) : FlapCounter :=
  (counter.recordEviction d policy nowMs).2

end FlapCounter

/-! ### One more eviction -/

namespace FlapPolicy

variable (policy : FlapPolicy)

theorem cooldown_eq (cycles : ℕ) :
    policy.cooldown cycles = min (policy.reactivationCooldownMs * 2 ^ min (cycles - 1) 16) policy.ceiling := by
  have hceiling : policy.ceiling ≤ u64Max := max_le policy.maxFlap_le policy.reactivation_le
  rw [cooldown, satMul]
  omega

theorem cooldown_one : policy.cooldown 1 = policy.reactivationCooldownMs := by
  have hceiling : policy.reactivationCooldownMs ≤ policy.ceiling := le_max_right ..
  rw [cooldown_eq, Nat.sub_self, Nat.zero_min, pow_zero, mul_one]
  exact min_eq_left hceiling

theorem cooldown_mono {m n : ℕ} (h : m ≤ n) : policy.cooldown m ≤ policy.cooldown n := by
  rw [cooldown_eq, cooldown_eq]
  refine min_le_min_right _ (Nat.mul_le_mul_left _ (Nat.pow_le_pow_right (by decide) ?_))
  omega

theorem cooldown_ge {cycles : ℕ} : policy.reactivationCooldownMs ≤ policy.cooldown cycles := by
  have hmono := policy.cooldown_mono (Nat.zero_le cycles)
  have hzero : policy.cooldown 0 = policy.reactivationCooldownMs := policy.cooldown_one
  omega

/-- A cooldown is no shorter than the one before, and twice as long up to the ceiling. -/
def Doubles (before after : ℕ) : Prop := before ≤ after ∧ after = min (2 * before) policy.ceiling

instance (before after : ℕ) : Decidable (policy.Doubles before after) :=
  inferInstanceAs (Decidable (_ ∧ _))

/-- The eviction is counted with the one before, and the count or the ceiling leaves room to double. -/
structure Escalates (state : FlapState) (nowMs : ℕ) : Prop where
  recent : nowMs - state.lastCycleMs ≤ policy.flapWindowMs
  room : state.cycles ≤ 16 ∨ policy.maxFlapCooldownMs ≤ policy.reactivationCooldownMs * 2 ^ 16

/-- There is nothing to double: the plain cooldown is none, or is the ceiling. -/
def Flat : Prop :=
  policy.reactivationCooldownMs = 0 ∨ policy.maxFlapCooldownMs ≤ policy.reactivationCooldownMs

theorem doubles_succ_iff {cycles : ℕ} (hpos : 0 < cycles) :
    policy.Doubles (policy.cooldown cycles) (policy.cooldown (cycles + 1)) ↔
      policy.Flat ∨ cycles ≤ 16 ∨ policy.maxFlapCooldownMs ≤ policy.reactivationCooldownMs * 2 ^ 16 := by
  have hlonger := policy.cooldown_mono (Nat.le_succ cycles)
  have hceiling : policy.ceiling = max policy.maxFlapCooldownMs policy.reactivationCooldownMs := rfl
  have hdouble : policy.Doubles (policy.cooldown cycles) (policy.cooldown (cycles + 1)) ↔
      policy.cooldown (cycles + 1) = min (2 * policy.cooldown cycles) policy.ceiling :=
    ⟨And.right, fun h => ⟨hlonger, h⟩⟩
  rw [hdouble, cooldown_eq, cooldown_eq, Nat.add_sub_cancel]
  by_cases hfew : cycles ≤ 16
  · refine iff_of_true ?_ (.inr (.inl hfew))
    rw [Nat.min_eq_left hfew, Nat.min_eq_left (by omega : cycles - 1 ≤ 16)]
    have hpow : 2 ^ cycles = 2 * 2 ^ (cycles - 1) := by
      rw [← pow_succ', Nat.sub_add_cancel hpos]
    rw [hpow, Nat.mul_left_comm]
    generalize policy.reactivationCooldownMs * 2 ^ (cycles - 1) = plain
    omega
  · rw [Nat.min_eq_right (by omega : 16 ≤ cycles), Nat.min_eq_right (by omega : 16 ≤ cycles - 1), Flat,
      hceiling]
    omega

theorem doubles_first_iff {cycles : ℕ} :
    policy.Doubles (policy.cooldown cycles) (policy.cooldown 1) ↔ policy.Flat := by
  have hge : policy.reactivationCooldownMs ≤ policy.cooldown cycles := policy.cooldown_ge
  have hceiling : policy.ceiling = max policy.maxFlapCooldownMs policy.reactivationCooldownMs := rfl
  have hle : policy.cooldown cycles ≤ policy.ceiling := Nat.min_le_right ..
  rw [cooldown_one, Flat]
  constructor
  · rintro ⟨-, hdouble⟩
    omega
  · intro hflat
    have hsame : policy.cooldown cycles = policy.reactivationCooldownMs := by
      obtain hnone | hcapped := hflat
      · rw [cooldown_eq, hnone, Nat.zero_mul, Nat.zero_min]
      · omega
    rw [hsame]
    exact ⟨le_refl _, by omega⟩

end FlapPolicy

namespace FlapState

variable (state : FlapState) (policy : FlapPolicy) (nowMs : ℕ)

theorem evicted_cycles_quiet (h : policy.flapWindowMs < nowMs - state.lastCycleMs) :
    (state.evicted policy nowMs).cycles = 1 := by
  rw [evicted, if_pos h]
  rfl

theorem evicted_cooldown_recent (h : nowMs - state.lastCycleMs ≤ policy.flapWindowMs)
    (hcycles : state.cycles ≤ u32Max) :
    policy.cooldown (state.evicted policy nowMs).cycles = policy.cooldown (state.cycles + 1) := by
  have hshift : min (satAdd u32Max state.cycles 1 - 1) 16 = min (state.cycles + 1 - 1) 16 := by
    have hmax : 16 < u32Max := by decide
    rw [satAdd]
    omega
  rw [evicted, if_neg (Nat.not_lt.2 h), policy.cooldown_eq, hshift,
    ← policy.cooldown_eq]

/-- The state that an eviction at a time left. -/
structure After (lastMs : ℕ) : Prop where
  counted : 0 < state.cycles
  cycles_le : state.cycles ≤ u32Max
  last : state.lastCycleMs = lastMs
  untilMs : state.untilMs = satAdd u64Max lastMs (policy.cooldown state.cycles)

theorem after_evicted : (state.evicted policy nowMs).After policy nowMs where
  counted := by
    have hmax : 0 < u32Max := by decide
    rw [evicted, satAdd]
    dsimp only
    omega
  cycles_le := Nat.min_le_right ..
  last := rfl
  untilMs := rfl

variable {state} {policy} {lastMs : ℕ}

/-- **What one more eviction makes of the cooldown.** -/
theorem After.doubles_iff (h : state.After policy lastMs) :
    policy.Doubles (policy.cooldown state.cycles) (policy.cooldown (state.evicted policy nowMs).cycles) ↔
      policy.Flat ∨ policy.Escalates state nowMs := by
  by_cases hquiet : policy.flapWindowMs < nowMs - state.lastCycleMs
  · rw [state.evicted_cycles_quiet policy nowMs hquiet, FlapPolicy.doubles_first_iff, or_iff_left]
    exact fun hescalates => absurd hescalates.recent (Nat.not_le.2 hquiet)
  · have hrecent := Nat.not_lt.1 hquiet
    rw [state.evicted_cooldown_recent policy nowMs hrecent h.cycles_le, policy.doubles_succ_iff h.counted]
    exact or_congr_right ⟨fun hroom => ⟨hrecent, hroom⟩, FlapPolicy.Escalates.room⟩

/-- **What it makes of the end of the cooldown.** -/
theorem After.untilMs_le_iff (h : state.After policy lastMs) (hle : lastMs ≤ nowMs) :
    state.untilMs ≤ (state.evicted policy nowMs).untilMs ↔
      nowMs - state.lastCycleMs ≤ policy.flapWindowMs ∨
        state.untilMs ≤ satAdd u64Max nowMs policy.reactivationCooldownMs := by
  have huntil : (state.evicted policy nowMs).untilMs =
      satAdd u64Max nowMs (policy.cooldown (state.evicted policy nowMs).cycles) := rfl
  by_cases hquiet : policy.flapWindowMs < nowMs - state.lastCycleMs
  · rw [huntil, state.evicted_cycles_quiet policy nowMs hquiet, policy.cooldown_one, or_iff_right]
    exact Nat.not_le.2 hquiet
  · have hrecent := Nat.not_lt.1 hquiet
    refine iff_of_true ?_ (.inl hrecent)
    have hmono := policy.cooldown_mono (Nat.le_succ state.cycles)
    rw [huntil, state.evicted_cooldown_recent policy nowMs hrecent h.cycles_le, h.untilMs, satAdd, satAdd]
    rw [Nat.succ_eq_add_one] at hmono
    omega

end FlapState

/-! ### Runs -/

namespace FlapCounter

variable (d : DeploymentId) (policy : FlapPolicy)

theorem state_evict (counter : FlapCounter) (nowMs : ℕ) :
    (counter.evict d policy nowMs).state d = (counter.state d).evicted policy nowMs := by
  rw [state, evict, recordEviction]
  dsimp only
  rw [Function.update_self, Option.getD_some]

theorem cooldownUntilMs_eq (counter : FlapCounter) : counter.cooldownUntilMs d = (counter.state d).untilMs := by
  rw [cooldownUntilMs, state]
  cases counter d <;> rfl

/-- The cooldown of an eviction doubles that of the one before. -/
def Doubling (counter : FlapCounter) (nowMs : ℕ) : Prop :=
  counter d ≠ none →
    policy.Doubles (counter.cooldownMs d policy) ((counter.evict d policy nowMs).cooldownMs d policy)

/-- An eviction does not move the end of the cooldown back. -/
def Forward (counter : FlapCounter) (nowMs : ℕ) : Prop :=
  counter.cooldownUntilMs d ≤ (counter.evict d policy nowMs).cooldownUntilMs d

/-- An eviction comes no later than a window after the cooldown of the one before. -/
def Flapping (counter : FlapCounter) (nowMs : ℕ) : Prop :=
  counter d ≠ none → nowMs ≤ counter.cooldownUntilMs d + policy.flapWindowMs

/-- An eviction comes within the window of the one before, with room to double; or there is nothing to
double. -/
def Escalating (counter : FlapCounter) (nowMs : ℕ) : Prop :=
  counter d ≠ none → policy.Flat ∨ policy.Escalates (counter.state d) nowMs

/-- It comes within the window, or so late that the plain cooldown ends no earlier. -/
def Extending (counter : FlapCounter) (nowMs : ℕ) : Prop :=
  counter d ≠ none → nowMs - (counter.state d).lastCycleMs ≤ policy.flapWindowMs ∨
    counter.cooldownUntilMs d ≤ satAdd u64Max nowMs policy.reactivationCooldownMs

instance (counter : FlapCounter) (nowMs : ℕ) : Decidable (Doubling d policy counter nowMs) :=
  inferInstanceAs (Decidable (_ → _))

instance (counter : FlapCounter) (nowMs : ℕ) : Decidable (Forward d policy counter nowMs) :=
  inferInstanceAs (Decidable (_ ≤ _))

instance (counter : FlapCounter) (nowMs : ℕ) : Decidable (Flapping d policy counter nowMs) :=
  inferInstanceAs (Decidable (_ → _))

/-- What is held of the deployment was left by an eviction that is not later. -/
def Earlier (counter : FlapCounter) (nowMs : ℕ) : Prop :=
  counter d ≠ none → ∃ lastMs ≤ nowMs, (counter.state d).After policy lastMs

theorem stepsMeet_earlier {counter : FlapCounter} {times : List ℕ} (hsorted : times.Pairwise (· ≤ ·))
    (h : ∀ nowMs ∈ times, Earlier d policy counter nowMs) :
    StepsMeet (evict d policy) (Earlier d policy) counter times := by
  induction times generalizing counter with
  | nil => exact trivial
  | cons nowMs times ih =>
    obtain ⟨hfirst, hrest⟩ := List.pairwise_cons.1 hsorted
    refine ⟨h nowMs List.mem_cons_self, ih hrest fun laterMs hlater _ => ?_⟩
    refine ⟨nowMs, hfirst laterMs hlater, ?_⟩
    rw [state_evict]
    exact FlapState.after_evicted _ policy nowMs

variable {d policy}

theorem Earlier.doubling_iff {counter : FlapCounter} {nowMs : ℕ} (h : Earlier d policy counter nowMs) :
    Doubling d policy counter nowMs ↔ Escalating d policy counter nowMs := by
  refine forall_congr' fun hsome => ?_
  obtain ⟨lastMs, -, hafter⟩ := h hsome
  rw [cooldownMs, cooldownMs, state_evict]
  exact hafter.doubles_iff nowMs

theorem Earlier.forward_iff {counter : FlapCounter} {nowMs : ℕ} (h : Earlier d policy counter nowMs) :
    Forward d policy counter nowMs ↔ Extending d policy counter nowMs := by
  rw [Forward, Extending, cooldownUntilMs_eq, cooldownUntilMs_eq, state_evict]
  by_cases hsome : counter d = none
  · refine iff_of_true ?_ fun hne => absurd hsome hne
    rw [state, hsome]
    exact Nat.zero_le _
  · obtain ⟨lastMs, hle, hafter⟩ := h hsome
    rw [hafter.untilMs_le_iff nowMs hle]
    exact ⟨fun hextends _ => hextends, fun hextends => hextends hsome⟩

/-- **Backoff while a deployment flaps.**  In every run of evictions of a deployment, none earlier than
the one before: the cooldown doubles from each eviction to the next, up to the ceiling, if and only if
each comes within the window of the one before while the count leaves room, or there is nothing to
double; and its end never moves back if and only if each comes within the window of the one before, or
late enough for the plain cooldown. -/
theorem backoff_iff (d : DeploymentId) (policy : FlapPolicy) (times : List ℕ)
    (hsorted : times.Pairwise (· ≤ ·)) :
    (StepsMeet (evict d policy) (Doubling d policy) new times ↔
      StepsMeet (evict d policy) (Escalating d policy) new times) ∧
    (StepsMeet (evict d policy) (Forward d policy) new times ↔
      StepsMeet (evict d policy) (Extending d policy) new times) := by
  have hearlier : StepsMeet (evict d policy) (Earlier d policy) new times :=
    stepsMeet_earlier d policy hsorted fun nowMs _ hne => absurd rfl hne
  exact ⟨StepsMeet.iff (fun _ _ => Earlier.doubling_iff) hearlier,
    StepsMeet.iff (fun _ _ => Earlier.forward_iff) hearlier⟩

namespace Sample

/-- The policy of a fleet that declares none. -/
def defaults : FlapPolicy := ⟨120000, 900000, 3600000, by decide, by decide⟩

/-- Evictions at once when a cooldown has ended.  The fifth comes sixteen minutes after the fourth. -/
def flapping : List ℕ := [0, 120000, 360000, 840000, 1800000]

/-- Evictions, the last of which comes a millisecond after the window. -/
def frequent : List ℕ := [0, 120000, 360000, 840000, 1740000, 2640001]

theorem flapping_iff :
    flapping.Pairwise (· ≤ ·) ∧
      (StepsMeet (evict "music" defaults) (Doubling "music" defaults) new flapping ↔
        StepsMeet (evict "music" defaults) (Escalating "music" defaults) new flapping) :=
  ⟨by decide, (backoff_iff "music" defaults flapping (by decide)).1⟩

/-- **Backoff starts over.**  A deployment that is evicted each time its cooldown has ended is given two
minutes after sixteen; and one evicted a millisecond after the window may be started again a quarter of
an hour before it might have been. -/
theorem backoff_starts_over :
    (¬ ∀ times : List ℕ, times.Pairwise (· ≤ ·) →
      StepsMeet (evict "music" defaults) (Flapping "music" defaults) new times →
        StepsMeet (evict "music" defaults) (Doubling "music" defaults) new times) ∧
    ¬ ∀ times : List ℕ, times.Pairwise (· ≤ ·) →
      StepsMeet (evict "music" defaults) (Forward "music" defaults) new times := by
  constructor
  · intro h
    have hdoubling := h flapping (by decide) (by decide +kernel)
    exact absurd hdoubling (by decide +kernel)
  · intro h
    have hforward := h frequent (by decide)
    exact absurd hforward (by decide +kernel)

end Sample

end FlapCounter

end HypeLlm.Fleet
