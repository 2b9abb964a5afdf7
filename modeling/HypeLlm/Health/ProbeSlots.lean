import HypeLlm.Lib.Lists
import HypeLlm.Lib.Runs
import HypeLlm.Health.Breaker

/-!
# Probe slots of the circuit breaker

The system is a breaker and every permit it has issued.  Two ghosts are kept beside them, which
no operation reads: the outcomes of probe permits, newest first, each with the epoch of its
permit, and the number of times the epoch has moved.  For every run in which the epoch has not
gone round:

* while half-open, the probes in flight are the unfinished probe permits of the epoch, and no
  more than the configuration allows;
* an open breaker issues no permit before its time;
* finishing a permit of an earlier epoch does nothing, except that a cooldown that has passed is
  noticed, as by any other call (`stale_permit_notices_the_cooldown`);
* only `force_close`, or enough successful probes of the epoch with no failed one among them,
  takes a half-open breaker to closed.
-/

namespace HypeLlm.Health

open HypeLlm.Words HypeLlm.Runs

inductive Op where
  | admitNow (nowMs : ℕ)
  | recordPermit (id : ℕ) (success : Bool) (nowMs : ℕ)
  | releasePermit (id : ℕ) (nowMs : ℕ)
  | dropPermit (id : ℕ)
  | record (success : Bool) (nowMs : ℕ)
  | state (nowMs : ℕ)
  | forceOpen (nowMs durationMs : ℕ)
  | forceClose (nowMs : ℕ)
  deriving Repr, DecidableEq

structure System where
  inner : BreakerInner
  permits : List BreakerPermit
  log : List (ℕ × Bool)
  turns : ℕ

namespace System

def init (config : BreakerConfig) (nowMs : ℕ) : System := ⟨BreakerInner.new config nowMs, [], [], 0⟩

/-- The unfinished permit in slot `id`.  Finishing consumes a permit, so a finished one has only
its `Drop` left, which does nothing. -/
def live (s : System) (id : ℕ) : Option BreakerPermit := s.permits[id]?.filter fun p => !p.finished

/-- The log with the outcome of a probe permit. -/
def logged (p : BreakerPermit) (outcome : Option Bool) (log : List (ℕ × Bool)) : List (ℕ × Bool) :=
  match outcome with
  | some success => if p.probe then (p.epoch, success) :: log else log
  | none => log

/-- Permit `id` finished with `outcome`, leaving `inner`. -/
def finish (s : System) (id : ℕ) (p : BreakerPermit) (outcome : Option Bool)
    (inner : BreakerInner) : System :=
  { s with
    inner := inner
    permits := s.permits.set id { p with finished := true }
    log := logged p outcome s.log }

def apply (config : BreakerConfig) (s : System) : Op → System
  | .admitNow nowMs =>
    { s with
      inner := (s.inner.admitNow config nowMs).2
      permits := s.permits ++ (s.inner.admitNow config nowMs).1.toList }
  | .recordPermit id success nowMs =>
    match s.live id with
    | none => s
    | some p => s.finish id p (some success) (p.record config success nowMs s.inner)
  | .releasePermit id nowMs =>
    match s.live id with
    | none => s
    | some p => s.finish id p none (p.release config nowMs s.inner)
  | .dropPermit id =>
    match s.live id with
    | none => s
    | some p => s.finish id p none (p.drop config s.inner)
  | .record success nowMs => { s with inner := s.inner.record config success nowMs }
  | .state nowMs => { s with inner := s.inner.transitionIfCooled nowMs }
  | .forceOpen nowMs durationMs => { s with inner := s.inner.forceOpen nowMs durationMs }
  | .forceClose nowMs => { s with inner := s.inner.forceClose config nowMs }

def step (config : BreakerConfig) (s : System) (op : Op) : System :=
  { s.apply config op with
    turns := if (s.apply config op).inner.epoch = s.inner.epoch then s.turns else s.turns + 1 }

def after (config : BreakerConfig) (nowMs : ℕ) (ops : List Op) : System :=
  run (step config) (init config nowMs) ops

/-- An unfinished probe permit of epoch `epoch`. -/
def probing (epoch : ℕ) (p : BreakerPermit) : Bool := p.probe && !p.finished && p.epoch = epoch

/-- The operation finishes permit `id`, at a time `nowMs` where it has one. -/
def finishes (op : Op) (id nowMs : ℕ) : Prop :=
  (∃ success, op = .recordPermit id success nowMs) ∨ op = .releasePermit id nowMs ∨
    (op = .dropPermit id ∧ nowMs = 0)

/-- The half-open slots of `s`. -/
def SlotsExact (config : BreakerConfig) (s : System) : Prop :=
  s.inner.state = .halfOpen →
    s.inner.probesInFlight = s.permits.countP (probing s.inner.epoch) ∧
    s.inner.probesInFlight ≤ config.halfOpenProbes

/-- Finishing a permit of another epoch leaves the state, the probe counters and the counts. -/
def StaleInert (config : BreakerConfig) (s : System) : Prop :=
  ∀ id p op nowMs, s.live id = some p → p.epoch ≠ s.inner.epoch → finishes op id nowMs →
    (s.step config op).inner.state = s.inner.state ∧
    (s.step config op).inner.probesInFlight = s.inner.probesInFlight ∧
    (s.step config op).inner.probeSuccesses = s.inner.probeSuccesses ∧
    (s.step config op).inner.counts = s.inner.counts

end System

/-! ### What each operation does to the slots -/

/-- The slots left as they were, or a new epoch with no probe in flight and none succeeded unless
the breaker closed. -/
inductive Change (b b' : BreakerInner) : Prop
  | quiet (state : b'.state = b.state) (epoch : b'.epoch = b.epoch)
      (probes : b'.probesInFlight = b.probesInFlight)
      (successes : b'.probeSuccesses = b.probeSuccesses)
  | turned (epoch : b'.epoch = b.nextEpoch)
      (idle : b'.state ≠ .closed → b'.probesInFlight = 0 ∧ b'.probeSuccesses = 0)

namespace BreakerInner

theorem nextEpoch_eq {b : BreakerInner} (h : b.epoch + 1 < 2 ^ 64) : b.nextEpoch = b.epoch + 1 :=
  Nat.mod_eq_of_lt h

theorem cooled_change (b : BreakerInner) (nowMs : ℕ) : Change b (b.transitionIfCooled nowMs) := by
  unfold transitionIfCooled
  split
  · exact .turned rfl fun _ => ⟨rfl, rfl⟩
  · exact .quiet rfl rfl rfl rfl

/-- A breaker that is not open, or whose time has not come, is left as it is. -/
theorem cooled_eq {b : BreakerInner} {nowMs : ℕ} (h : ¬(b.state = .open ∧ b.openUntilMs ≤ nowMs)) :
    b.transitionIfCooled nowMs = b := if_neg h

/-- Opening when the failures are above the threshold is quiet or a turn. -/
theorem openIfOverThreshold_change (config : BreakerConfig) (b : BreakerInner) (nowMs : ℕ) :
    Change b (b.openIfOverThreshold config nowMs) := by
  simp only [openIfOverThreshold]
  split
  · split
    · exact .turned rfl fun _ => ⟨rfl, rfl⟩
    · exact .quiet rfl rfl rfl rfl
  · exact .quiet rfl rfl rfl rfl

/-- **What `record` does to the slots.**  It never closes a breaker. -/
theorem record_change (config : BreakerConfig) (b : BreakerInner) (success : Bool) (nowMs : ℕ) :
    Change b (b.record config success nowMs) ∧
      ((b.record config success nowMs).state = .closed → b.state = .closed) := by
  by_cases hcool : b.state = .open ∧ b.openUntilMs ≤ nowMs
  · -- a breaker that has just cooled is half-open, and stays so
    have hstate : (b.transitionIfCooled nowMs).state = .halfOpen := by
      rw [transitionIfCooled, if_pos hcool]
    have hrecord : b.record config success nowMs = { b.transitionIfCooled nowMs with
        counts := (b.transitionIfCooled nowMs).counts.record success nowMs } := by
      simp only [record, hstate]
      simp
    rw [hrecord]
    refine ⟨?_, fun h => ?_⟩
    · rw [transitionIfCooled, if_pos hcool]
      exact .turned rfl fun _ => ⟨rfl, rfl⟩
    · rw [hstate] at h
      cases h
  · simp only [record, cooled_eq hcool]
    split
    · rename_i hclosed
      have hchange := openIfOverThreshold_change config
        { b with counts := b.counts.record success nowMs } nowMs
      refine ⟨?_, fun _ => hclosed.1⟩
      cases hchange with
      | quiet hs he hp hn => exact .quiet hs he hp hn
      | turned he hidle => exact .turned he hidle
    · exact ⟨.quiet rfl rfl rfl rfl, id⟩

/-- What `admitNow` answers, and what it leaves. -/
inductive Admitted (config : BreakerConfig) (b : BreakerInner) (nowMs : ℕ) :
    Option BreakerPermit → BreakerInner → Prop
  | refused {b' : BreakerInner} (change : Change b b') (state : b'.state ≠ .closed) :
      Admitted config b nowMs none b'
  | closed (state : b.state = .closed) : Admitted config b nowMs (some ⟨false, b.epoch, false⟩) b
  | probe {b' : BreakerInner} (change : Change b b') (half : b'.state = .halfOpen)
      (room : b'.probesInFlight < config.halfOpenProbes) :
      Admitted config b nowMs (some ⟨true, b'.epoch, false⟩)
        { b' with probesInFlight := b'.probesInFlight + 1, lastProbeAdmittedMs := nowMs }

theorem reclaim_change (config : BreakerConfig) (b : BreakerInner) (nowMs : ℕ) :
    Change b (b.reclaimIfLeaseOver config nowMs) ∧
      (b.reclaimIfLeaseOver config nowMs).state = b.state := by
  unfold reclaimIfLeaseOver
  split
  · exact ⟨.turned rfl fun _ => ⟨rfl, rfl⟩, rfl⟩
  · exact ⟨.quiet rfl rfl rfl rfl, rfl⟩

/-- The cooldown and the lease are never both over: a breaker that has just cooled has no probe in
flight to reclaim. -/
theorem cooled_reclaim_change (config : BreakerConfig) (b : BreakerInner) (nowMs : ℕ) :
    Change b ((b.transitionIfCooled nowMs).reclaimIfLeaseOver config nowMs) := by
  by_cases hcool : b.state = .open ∧ b.openUntilMs ≤ nowMs
  · have hnone : (b.transitionIfCooled nowMs).reclaimIfLeaseOver config nowMs
        = b.transitionIfCooled nowMs := by
      rw [transitionIfCooled, if_pos hcool]
      exact if_neg fun h => absurd h.2.1 (Nat.lt_irrefl 0)
    rw [hnone]
    exact cooled_change b nowMs
  · rw [cooled_eq hcool]
    exact (reclaim_change config b nowMs).1

/-- **What `admitNow` does.** -/
theorem admitNow_cases (config : BreakerConfig) (b : BreakerInner) (nowMs : ℕ) :
    Admitted config b nowMs (b.admitNow config nowMs).1 (b.admitNow config nowMs).2 := by
  unfold admitNow
  cases hstate : (b.transitionIfCooled nowMs).state with
  | closed =>
    have hcool : ¬(b.state = .open ∧ b.openUntilMs ≤ nowMs) := by
      intro hcool
      rw [transitionIfCooled, if_pos hcool] at hstate
      cases hstate
    rw [cooled_eq hcool] at hstate
    simp only [cooled_eq hcool, hstate]
    exact .closed hstate
  | «open» =>
    simp only [hstate]
    exact .refused (cooled_change b nowMs) (by rw [hstate]; simp)
  | halfOpen =>
    simp only [hstate]
    have hchange := cooled_reclaim_change config b nowMs
    have hhalf := (reclaim_change config (b.transitionIfCooled nowMs) nowMs).2.trans hstate
    generalize (b.transitionIfCooled nowMs).reclaimIfLeaseOver config nowMs = b' at *
    split
    · rename_i hroom
      rw [satAdd_eq (Nat.lt_of_lt_of_le hroom config.halfOpenProbes_le)]
      exact .probe hchange hhalf hroom
    · exact .refused hchange (by rw [hhalf]; simp)

/-- What finishing a permit of `probe` and `epoch` with `outcome` leaves.  The four last cases are
those of a probe of the epoch, in a half-open breaker. -/
inductive Finished (config : BreakerConfig) (b : BreakerInner) (probe : Bool) (epoch : ℕ) :
    Option Bool → BreakerInner → Prop
  | other {outcome : Option Bool} {b' : BreakerInner} (change : Change b b')
      (closed : b'.state = .closed → b.state = .closed)
      (stale : probe = true → b'.state = .halfOpen → epoch ≠ b'.epoch) :
      Finished config b probe epoch outcome b'
  | neutral (isProbe : probe = true) (current : epoch = b.epoch) (half : b.state = .halfOpen) :
      Finished config b probe epoch none { b with probesInFlight := b.probesInFlight - 1 }
  | counted (isProbe : probe = true) (current : epoch = b.epoch) (half : b.state = .halfOpen)
      (counts : RollingCounts)
      (below : satAdd u32Max b.probeSuccesses 1 < config.halfOpenSuccessesToClose) :
      Finished config b probe epoch (some true) { b with
        probesInFlight := b.probesInFlight - 1
        counts := counts
        probeSuccesses := satAdd u32Max b.probeSuccesses 1 }
  | closed {b' : BreakerInner} (isProbe : probe = true) (current : epoch = b.epoch)
      (half : b.state = .halfOpen)
      (enough : config.halfOpenSuccessesToClose ≤ satAdd u32Max b.probeSuccesses 1)
      (turned : b'.epoch = b.nextEpoch) (state : b'.state = .closed) :
      Finished config b probe epoch (some true) b'
  | failed {b' : BreakerInner} (isProbe : probe = true) (current : epoch = b.epoch)
      (half : b.state = .halfOpen) (turned : b'.epoch = b.nextEpoch) (state : b'.state = .open)
      (idle : b'.probesInFlight = 0 ∧ b'.probeSuccesses = 0) :
      Finished config b probe epoch (some false) b'

/-- Cooling takes a breaker to half-open, if anywhere. -/
theorem cooled_closed {b : BreakerInner} {nowMs : ℕ}
    (h : (b.transitionIfCooled nowMs).state = .closed) : b.state = .closed := by
  unfold transitionIfCooled at h
  split at h
  · cases h
  · exact h

/-- **What finishing a permit does.**  For a permit that is not a probe of the epoch it is at most
what an unattributed outcome does. -/
theorem finishPermit_cases (config : BreakerConfig) (b : BreakerInner) (probe : Bool) (epoch : ℕ)
    (outcome : Option Bool) (nowMs : ℕ) (hissued : epoch ≠ b.nextEpoch) :
    Finished config b probe epoch outcome
      (b.finishPermit config probe epoch outcome nowMs) := by
  have hcooled := cooled_change b nowMs
  -- a permit of the epoch finds a breaker that has not just cooled
  have hcurrent : epoch = (b.transitionIfCooled nowMs).epoch → b.transitionIfCooled nowMs = b := by
    intro heq
    refine cooled_eq fun hcool => hissued ?_
    rw [heq, transitionIfCooled, if_pos hcool]
  unfold finishPermit
  cases probe with
  | true =>
    simp only [if_true]
    split
    · rename_i hstale
      refine .other hcooled cooled_closed fun _ hhalf hepoch => ?_
      rcases hstale with hne | hne
      · exact hne hepoch
      · exact hne hhalf
    · rename_i hnot
      simp only [not_or, not_not] at hnot
      have hsame := hcurrent hnot.1
      rw [hsame] at hnot ⊢
      obtain ⟨hepoch, hhalf⟩ := hnot
      cases outcome with
      | none => exact .neutral rfl hepoch hhalf
      | some success =>
        cases success with
        | true =>
          simp only [if_true, probeSucceeded]
          split
          · rename_i henough
            exact .closed rfl hepoch hhalf henough rfl rfl
          · rename_i hbelow
            exact .counted rfl hepoch hhalf _ (Nat.lt_of_not_le hbelow)
        | false => exact .failed rfl hepoch hhalf rfl rfl ⟨rfl, rfl⟩
  | false =>
    simp only [Bool.false_eq_true, if_false]
    cases outcome with
    | none => exact .other hcooled cooled_closed fun h => by cases h
    | some success =>
      simp only
      split
      · exact .other hcooled cooled_closed fun h => by cases h
      · rename_i hnot
        simp only [not_or, not_not] at hnot
        have hsame := hcurrent hnot.1
        rw [hsame] at hnot ⊢
        cases success with
        | true => exact .other (.quiet rfl rfl rfl rfl) id fun h => by cases h
        | false =>
          simp only [Bool.false_eq_true, if_false]
          have hchange := openIfOverThreshold_change config
            { b with counts := b.counts.record false nowMs } nowMs
          refine .other ?_ (fun _ => hnot.2) fun h => by cases h
          cases hchange with
          | quiet hs he hp hn => exact .quiet hs he hp hn
          | turned he hidle => exact .turned he hidle

/-- **Finishing a permit of another epoch** only notices a cooldown that has passed. -/
theorem finishPermit_stale (config : BreakerConfig) (b : BreakerInner) (probe : Bool) (epoch : ℕ)
    (outcome : Option Bool) (nowMs : ℕ) (hissued : epoch ≠ b.nextEpoch)
    (hstale : epoch ≠ b.epoch) :
    b.finishPermit config probe epoch outcome nowMs = b.transitionIfCooled nowMs := by
  have hne : epoch ≠ (b.transitionIfCooled nowMs).epoch := by
    cases cooled_change b nowMs with
    | quiet _ he _ _ => rw [he]; exact hstale
    | turned he _ => rw [he]; exact hissued
  unfold finishPermit
  cases probe with
  | true => simp only [if_true, ne_eq, hne, not_false_eq_true, true_or]
  | false =>
    cases outcome with
    | none => rfl
    | some success =>
      simp only [Bool.false_eq_true, if_false, ne_eq, hne, not_false_eq_true, true_or, if_true]

end BreakerInner

namespace System

/-! ### The invariant -/

theorem live_eq_some {s : System} {id : ℕ} {p : BreakerPermit} :
    s.live id = some p ↔ s.permits[id]? = some p ∧ p.finished = false := by
  simp only [live, Option.filter_eq_some_iff, Bool.not_eq_true']

/-- While the epoch has not gone round it is the number of turns, and permits and outcomes are of
epochs up to it; the slots and the successes of a half-open breaker are those of the epoch. -/
structure Sound (config : BreakerConfig) (s : System) : Prop where
  epoch : s.inner.epoch = s.turns
  permits : ∀ p ∈ s.permits, p.epoch ≤ s.inner.epoch
  log : ∀ e ∈ s.log, e.1 ≤ s.inner.epoch
  slots : SlotsExact config s
  successes : s.inner.state = .halfOpen →
    s.inner.probeSuccesses = s.log.count (s.inner.epoch, true) ∧
    s.log.count (s.inner.epoch, false) = 0 ∧
    s.inner.probeSuccesses < max 1 config.halfOpenSuccessesToClose
  idle : s.inner.state = .open → s.inner.probesInFlight = 0 ∧ s.inner.probeSuccesses = 0

theorem sound_init (config : BreakerConfig) (nowMs : ℕ) : Sound config (init config nowMs) where
  epoch := rfl
  permits := by simp [init]
  log := by simp [init]
  slots := fun h => by cases h
  successes := fun h => by cases h
  idle := fun h => by cases h

/-- Nothing has been issued or recorded in an epoch that has not begun. -/
theorem Sound.fresh {config : BreakerConfig} {s : System} (h : Sound config s) (epoch : ℕ)
    (hlt : s.inner.epoch < epoch) :
    s.permits.countP (probing epoch) = 0 ∧ ∀ x, s.log.count (epoch, x) = 0 := by
  constructor
  · rw [List.countP_eq_zero]
    intro p hp hprobing
    have hle := h.permits p hp
    simp only [probing, Bool.and_eq_true, decide_eq_true_eq] at hprobing
    omega
  · intro x
    rw [List.count_eq_zero]
    intro hmem
    have hle := h.log _ hmem
    simp only at hle
    omega

/-- **The rule for a change of the breaker**, with the permits and the log moved in ways that do
not touch the epoch it leaves. -/
theorem sound_change {config : BreakerConfig} {s : System} (h : Sound config s)
    (hturns : s.turns + 1 < 2 ^ 64) {b' : BreakerInner} {permits : List BreakerPermit}
    {log : List (ℕ × Bool)} (hchange : Change s.inner b')
    (hpermits : ∀ p ∈ permits, p.epoch ≤ s.inner.epoch)
    (hlog : ∀ e ∈ log, e.1 ≤ s.inner.epoch)
    (hcount : b'.state = .halfOpen →
      permits.countP (probing b'.epoch) = s.permits.countP (probing b'.epoch))
    (hlogged : b'.state = .halfOpen → ∀ x, log.count (b'.epoch, x) = s.log.count (b'.epoch, x)) :
    Sound config ⟨b', permits, log,
      if b'.epoch = s.inner.epoch then s.turns else s.turns + 1⟩ := by
  have hepoch := h.epoch
  cases hchange with
  | quiet hstate he hprobes hsuccesses =>
    refine ⟨by simp only [he, if_true, hepoch], fun p hp => he ▸ hpermits p hp,
      fun e hm => he ▸ hlog e hm, fun hhalf => ?_, fun hhalf => ?_, fun hopen => ?_⟩
    · have hslots := h.slots (hstate ▸ hhalf)
      have hsame := hcount hhalf
      rw [he] at hsame
      simp only [hprobes, he, hsame]
      exact hslots
    · have hold := h.successes (hstate ▸ hhalf)
      have hsame := hlogged hhalf
      rw [he] at hsame
      simp only [hsuccesses, he, hsame]
      exact hold
    · simp only [hprobes, hsuccesses]
      exact h.idle (hstate ▸ hopen)
  | turned he hidle =>
    have hnext := @BreakerInner.nextEpoch_eq s.inner (by omega)
    rw [hnext] at he
    have hfresh := h.fresh b'.epoch (by omega)
    refine ⟨?_, fun p hp => ?_, fun e hm => ?_, fun hhalf => ?_, fun hhalf => ?_, fun hopen => ?_⟩
    · rw [if_neg (by omega)]
      simp only [he, hepoch]
    · have hle := hpermits p hp
      simp only
      omega
    · have hle := hlog e hm
      simp only
      omega
    · have hzero := hidle (by rw [hhalf]; simp)
      simp only [hzero.1, hcount hhalf, hfresh.1]
      exact ⟨trivial, Nat.zero_le _⟩
    · have hzero := hidle (by rw [hhalf]; simp)
      simp only [hzero.2, hlogged hhalf, hfresh.2]
      exact ⟨trivial, trivial, by omega⟩
    · exact hidle (by rw [hopen]; simp)

/-! ### One step -/

theorem apply_finish {config : BreakerConfig} {s : System} {op : Op} {id nowMs : ℕ}
    {p : BreakerPermit} (hop : finishes op id nowMs) (hlive : s.live id = some p) :
    ∃ outcome, (∀ success, outcome = some success → op = .recordPermit id success nowMs) ∧
      s.apply config op
        = s.finish id p outcome (s.inner.finishPermit config p.probe p.epoch outcome nowMs) := by
  have hunfinished := (live_eq_some.mp hlive).2
  rcases hop with ⟨success, rfl⟩ | rfl | ⟨rfl, rfl⟩
  · refine ⟨some success, fun success' heq => ?_, ?_⟩
    · rw [Option.some.inj heq]
    · simp only [apply, hlive]
      rfl
  · refine ⟨none, fun _ heq => (nomatch heq), ?_⟩
    simp only [apply, hlive]
    rfl
  · refine ⟨none, fun _ heq => (nomatch heq), ?_⟩
    simp only [apply, hlive, BreakerPermit.drop, hunfinished]
    rfl

theorem step_finish_dead {config : BreakerConfig} {s : System} {op : Op} {id nowMs : ℕ}
    (hop : finishes op id nowMs) (hlive : s.live id = none) : s.step config op = s := by
  have happly : s.apply config op = s := by
    rcases hop with ⟨success, rfl⟩ | rfl | ⟨rfl, rfl⟩ <;> simp only [apply, hlive]
  rw [step, happly]
  simp

/-- Finishing a permit takes it out of the unfinished probes of its epoch. -/
theorem probing_finish {s : System} {id : ℕ} {p : BreakerPermit} (hlive : s.live id = some p)
    (epoch : ℕ) :
    (s.permits.set id { p with finished := true }).countP (probing epoch)
      + (if p.probe = true ∧ p.epoch = epoch then 1 else 0) = s.permits.countP (probing epoch) := by
  obtain ⟨hslot, hunfinished⟩ := live_eq_some.mp hlive
  have hset := Lists.countP_set (probing epoch) s.permits id p { p with finished := true } hslot
  have hnone : probing epoch { p with finished := true } = false := by simp [probing]
  have hiff : (probing epoch p = true) = (p.probe = true ∧ p.epoch = epoch) := by
    simp [probing, hunfinished]
  rw [hnone] at hset
  simpa only [hiff, Bool.false_eq_true, if_false, Nat.add_zero] using hset

theorem permits_finish {config : BreakerConfig} {s : System} (h : Sound config s) {id : ℕ}
    {p : BreakerPermit} (hlive : s.live id = some p) :
    ∀ q ∈ s.permits.set id { p with finished := true }, q.epoch ≤ s.inner.epoch := by
  intro q hq
  rcases List.mem_or_eq_of_mem_set hq with hmem | rfl
  · exact h.permits q hmem
  · exact h.permits p (List.mem_of_getElem? (live_eq_some.mp hlive).1)

/-- A permit is never of the epoch to come. -/
theorem Sound.issued {config : BreakerConfig} {s : System} (h : Sound config s)
    (hturns : s.turns + 1 < 2 ^ 64) {id : ℕ} {p : BreakerPermit} (hlive : s.live id = some p) :
    p.epoch ≠ s.inner.nextEpoch := by
  have hle := h.permits p (List.mem_of_getElem? (live_eq_some.mp hlive).1)
  have hepoch := h.epoch
  rw [BreakerInner.nextEpoch_eq (by omega)]
  omega

theorem logged_le {config : BreakerConfig} {s : System} (h : Sound config s) {id : ℕ}
    {p : BreakerPermit} (hlive : s.live id = some p) (outcome : Option Bool) :
    ∀ e ∈ logged p outcome s.log, e.1 ≤ s.inner.epoch := by
  have hmem : p ∈ s.permits := List.mem_of_getElem? (live_eq_some.mp hlive).1
  intro e he
  cases outcome with
  | none => exact h.log e he
  | some success =>
    simp only [logged] at he
    split at he
    · rcases List.mem_cons.mp he with rfl | hold
      · exact h.permits p hmem
      · exact h.log e hold
    · exact h.log e he

/-- An outcome is counted in the epoch of its permit only. -/
theorem logged_count_ne {p : BreakerPermit} {epoch : ℕ} (h : p.probe = true → p.epoch ≠ epoch)
    (outcome : Option Bool) (log : List (ℕ × Bool)) (x : Bool) :
    (logged p outcome log).count (epoch, x) = log.count (epoch, x) := by
  cases outcome with
  | none => rfl
  | some success =>
    simp only [logged]
    split
    · rename_i hprobe
      refine List.count_cons_of_ne fun heq => h hprobe ?_
      exact congrArg Prod.fst heq
    · rfl

/-- **Finishing a permit keeps the invariant.** -/
theorem sound_finish {config : BreakerConfig} {s : System} (h : Sound config s)
    (hturns : s.turns + 1 < 2 ^ 64) {op : Op} {id nowMs : ℕ} {p : BreakerPermit}
    (hop : finishes op id nowMs) (hlive : s.live id = some p) : Sound config (s.step config op) := by
  obtain ⟨outcome, -, happly⟩ := @apply_finish config _ _ _ _ _ hop hlive
  have hcases := s.inner.finishPermit_cases config p.probe p.epoch outcome nowMs
    (h.issued hturns hlive)
  rw [step, happly]
  simp only [finish]
  generalize s.inner.finishPermit config p.probe p.epoch outcome nowMs = b' at *
  have hpermits := permits_finish h hlive
  have hlog := logged_le h hlive outcome
  have hcount := probing_finish hlive
  have hepoch := h.epoch
  cases hcases with
  | other change closed stale =>
    refine sound_change h hturns change hpermits hlog (fun hhalf => ?_) fun hhalf x => ?_
    · have hnot : ¬(p.probe = true ∧ p.epoch = b'.epoch) := fun hand =>
        stale hand.1 hhalf hand.2
      have hsame := hcount b'.epoch
      rw [if_neg hnot, Nat.add_zero] at hsame
      exact hsame
    · exact logged_count_ne (fun hprobe => stale hprobe hhalf) outcome s.log x
  | neutral isProbe current half =>
    have hslots := h.slots half
    have hsame := hcount s.inner.epoch
    rw [if_pos ⟨isProbe, current⟩] at hsame
    refine ⟨by simp only [if_true]; exact hepoch, hpermits, hlog, fun _ => ?_, fun _ => ?_, fun hopen => ?_⟩
    · simp only
      omega
    · exact h.successes half
    · simp only [half] at hopen
      cases hopen
  | counted isProbe current half counts below =>
    have hslots := h.slots half
    have hsame := hcount s.inner.epoch
    rw [if_pos ⟨isProbe, current⟩] at hsame
    obtain ⟨hcounted, hfailed, hbelow⟩ := h.successes half
    have hlogged : logged p (some true) s.log = (s.inner.epoch, true) :: s.log := by
      simp only [logged, isProbe, if_true, current]
    have hsat : satAdd u32Max s.inner.probeSuccesses 1 = s.inner.probeSuccesses + 1 := by
      have hle := config.halfOpenSuccessesToClose_le
      unfold satAdd at below ⊢
      omega
    refine ⟨by simp only [if_true]; exact hepoch, hpermits, hlog, fun _ => ?_, fun _ => ?_, fun hopen => ?_⟩
    · simp only
      omega
    · simp only [hlogged, hsat, List.count_cons_self]
      refine ⟨by omega, ?_, by rw [hsat] at below; omega⟩
      rw [List.count_cons_of_ne (by simp)]
      exact hfailed
    · simp only [half] at hopen
      cases hopen
  | closed isProbe current half enough turned state =>
    have hchange : Change s.inner b' := .turned turned fun hne => absurd state hne
    refine sound_change h hturns hchange hpermits hlog (fun hhalf => ?_) fun hhalf => ?_
    · rw [state] at hhalf
      cases hhalf
    · rw [state] at hhalf
      cases hhalf
  | failed isProbe current half turned state idle =>
    have hchange : Change s.inner b' := .turned turned fun _ => idle
    refine sound_change h hturns hchange hpermits hlog (fun hhalf => ?_) fun hhalf => ?_
    · rw [state] at hhalf
      cases hhalf
    · rw [state] at hhalf
      cases hhalf

/-- **Asking for a permit keeps the invariant.** -/
theorem sound_admitNow {config : BreakerConfig} {s : System} (h : Sound config s)
    (hturns : s.turns + 1 < 2 ^ 64) {nowMs : ℕ} {permit : Option BreakerPermit}
    {b' : BreakerInner} (hcases : s.inner.Admitted config nowMs permit b') :
    Sound config ⟨b', s.permits ++ permit.toList, s.log,
      if b'.epoch = s.inner.epoch then s.turns else s.turns + 1⟩ := by
  cases hcases with
  | refused change state =>
    rw [Option.toList_none, List.append_nil]
    exact sound_change h hturns change h.permits h.log (fun _ => rfl) fun _ _ => rfl
  | closed state =>
    have hpermits : ∀ p ∈ s.permits ++ [(⟨false, s.inner.epoch, false⟩ : BreakerPermit)],
        p.epoch ≤ s.inner.epoch := by
      intro p hp
      rcases List.mem_append.mp hp with hold | hnew
      · exact h.permits p hold
      · obtain rfl := List.mem_singleton.mp hnew
        exact le_rfl
    refine sound_change h hturns (.quiet rfl rfl rfl rfl) hpermits h.log (fun hhalf => ?_)
      fun _ _ => rfl
    rw [state] at hhalf
    cases hhalf
  | @probe b' change half room =>
    -- the breaker as the cooldown or the lease left it, then one probe more
    have hsound := sound_change h hturns change h.permits h.log (fun _ => rfl) fun _ _ => rfl
    refine ⟨hsound.epoch, fun p hp => ?_, hsound.log, fun _ => ?_, hsound.successes, fun hopen => ?_⟩
    · rcases List.mem_append.mp hp with hold | hnew
      · exact hsound.permits p hold
      · obtain rfl := List.mem_singleton.mp hnew
        exact le_rfl
    · have hslots := hsound.slots half
      have hprobing : probing b'.epoch ⟨true, b'.epoch, false⟩ = true := by simp [probing]
      simp only [Option.toList_some, List.countP_append, List.countP_cons, List.countP_nil,
        hprobing, if_true]
      simp only at hslots
      omega
    · simp only [half] at hopen
      cases hopen

/-- **One operation keeps the invariant**, until the epoch would go round. -/
theorem sound_step {config : BreakerConfig} {s : System} (h : Sound config s)
    (hturns : s.turns + 1 < 2 ^ 64) (op : Op) : Sound config (s.step config op) := by
  have hfinish : ∀ {id nowMs}, finishes op id nowMs → Sound config (s.step config op) := by
    intro id nowMs hop
    cases hlive : s.live id with
    | none =>
      rw [step_finish_dead hop hlive]
      exact h
    | some p => exact sound_finish h hturns hop hlive
  cases op with
  | admitNow nowMs => exact sound_admitNow h hturns (s.inner.admitNow_cases config nowMs)
  | recordPermit id success nowMs => exact hfinish (.inl ⟨success, rfl⟩)
  | releasePermit id nowMs => exact hfinish (.inr (.inl rfl))
  | dropPermit id => exact hfinish (.inr (.inr ⟨rfl, rfl⟩))
  | record success nowMs =>
    exact sound_change h hturns (s.inner.record_change config success nowMs).1 h.permits h.log
      (fun _ => rfl) fun _ _ => rfl
  | state nowMs =>
    exact sound_change h hturns (s.inner.cooled_change nowMs) h.permits h.log (fun _ => rfl)
      fun _ _ => rfl
  | forceOpen nowMs durationMs =>
    exact sound_change h hturns (.turned rfl fun _ => ⟨rfl, rfl⟩) h.permits h.log (fun _ => rfl)
      fun _ _ => rfl
  | forceClose nowMs =>
    exact sound_change h hturns (.turned rfl fun _ => ⟨rfl, rfl⟩) h.permits h.log (fun _ => rfl)
      fun _ _ => rfl

/-- **Every state before the epoch goes round is sound.** -/
theorem sound_after (config : BreakerConfig) (nowMs : ℕ) (ops : List Op)
    (h : (after config nowMs ops).turns + 1 < 2 ^ 64) : Sound config (after config nowMs ops) := by
  revert h
  refine run_invariant (P := fun s => s.turns + 1 < 2 ^ 64 → Sound config s) ?_
    (fun _ => sound_init config nowMs) ops
  intro s op hs hturns
  have hle : s.turns ≤ (s.step config op).turns := by
    simp only [step]
    split <;> omega
  have hbefore : s.turns + 1 < 2 ^ 64 := by omega
  exact sound_step (hs hbefore) hbefore op

/-! ### The epoch goes round -/

/-- Quarantining `n` times over moves the epoch `n` times and issues nothing. -/
theorem quarantined (config : BreakerConfig) (s : System) (hs : s.inner.epoch < 2 ^ 64) (n : ℕ) :
    (run (step config) s (List.replicate n (.forceOpen 0 0))).permits = s.permits ∧
    (run (step config) s (List.replicate n (.forceOpen 0 0))).inner.epoch
      = (s.inner.epoch + n) % 2 ^ 64 ∧
    (0 < n → (run (step config) s (List.replicate n (.forceOpen 0 0))).inner.state = .open ∧
      (run (step config) s (List.replicate n (.forceOpen 0 0))).inner.openUntilMs = 0) := by
  induction n with
  | zero =>
    refine ⟨rfl, ?_, fun h => absurd h (Nat.lt_irrefl 0)⟩
    exact (Nat.mod_eq_of_lt hs).symm
  | succ n ih =>
    obtain ⟨hpermits, hepoch, -⟩ := ih
    rw [List.replicate_succ', run_snoc]
    refine ⟨hpermits, ?_, fun _ => ⟨rfl, rfl⟩⟩
    show (BreakerInner.epoch _ + 1) % 2 ^ 64 = _
    rw [hepoch]
    omega

/-- **A stale permit notices the cooldown, and the epoch goes round.**  A permit issued while
closed, finished after the breaker was quarantined for a second, takes it from open to half-open
once the second is over.  And a probe permit kept while the breaker is quarantined `2 ^ 64 - 1`
times and cools once more belongs to the epoch again, which has no probe in flight. -/
theorem stale_permit_notices_the_cooldown :
    (¬ ∀ config nowMs ops, StaleInert config (after config nowMs ops)) ∧
    (¬ ∀ config nowMs ops, SlotsExact config (after config nowMs ops)) := by
  constructor
  · intro h
    have hstate := (h .default 0 [.admitNow 0, .forceOpen 0 1000] 0 ⟨false, 0, false⟩
      (.recordPermit 0 true 2000) 2000 (by decide) (by decide) (.inl ⟨true, rfl⟩)).1
    revert hstate
    decide
  · intro h
    obtain ⟨n, hn⟩ : ∃ n, n + 1 = 2 ^ 64 := ⟨2 ^ 64 - 1, by norm_num⟩
    have hslots := h .default 0
      ([Op.forceOpen 0 0, .admitNow 0] ++ List.replicate n (Op.forceOpen 0 0) ++ [Op.state 0])
    rw [after, run_snoc, run_append] at hslots
    obtain ⟨hpermits, hepoch, hopen⟩ := quarantined .default
      (run (step .default) (init .default 0) [.forceOpen 0 0, .admitNow 0]) (by decide) n
    obtain ⟨hstate, huntil⟩ := hopen (by omega)
    have hstart : (run (step .default) (init .default 0) [.forceOpen 0 0, .admitNow 0]).permits
        = [⟨true, 2, false⟩] := by decide
    have hsecond : (run (step .default) (init .default 0)
        [.forceOpen 0 0, .admitNow 0]).inner.epoch = 2 := by decide
    rw [hstart] at hpermits
    rw [hsecond] at hepoch
    generalize run (step .default) (run (step .default) (init .default 0)
      [.forceOpen 0 0, .admitNow 0]) (List.replicate n (.forceOpen 0 0)) = s at *
    have hcool : s.inner.transitionIfCooled 0 = { s.inner with
        state := .halfOpen, probesInFlight := 0, probeSuccesses := 0,
        epoch := s.inner.nextEpoch } := if_pos ⟨hstate, by omega⟩
    have hnext : s.inner.nextEpoch = 2 := by
      unfold BreakerInner.nextEpoch wrapAdd
      rw [hepoch]
      omega
    have hexact := (hslots (by simp only [step, apply, hcool])).1
    simp only [step, apply, hcool, hnext, hpermits] at hexact
    revert hexact
    decide

/-! ### The probe slots -/

/-- What holds of the probe slots of `s` and of what the next operation makes of them. -/
structure ProbeSlots (config : BreakerConfig) (s : System) : Prop where
  /-- While half-open, the probes in flight are the unfinished probe permits of the epoch. -/
  slots : SlotsExact config s
  /-- No permit is issued while open before `openUntilMs`. -/
  refused : ∀ nowMs, s.inner.state = .open → nowMs < s.inner.openUntilMs →
    s.inner.admitNow config nowMs = (none, s.inner)
  /-- Finishing a permit of an earlier epoch changes nothing, or notices that the cooldown is
  over: neither the probe counters nor the counts move. -/
  stale : ∀ id p op nowMs, s.live id = some p → p.epoch ≠ s.inner.epoch → finishes op id nowMs →
    (s.step config op).inner = s.inner ∨
    (s.inner.state = .open ∧ s.inner.openUntilMs ≤ nowMs ∧
      (s.step config op).inner
        = { s.inner with state := .halfOpen, epoch := s.inner.nextEpoch })
  /-- From half-open to closed only by force, or by the last of enough successful probes of the
  epoch, with no failed one among them. -/
  closes : ∀ op, s.inner.state = .halfOpen → (s.step config op).inner.state = .closed →
    (∃ nowMs, op = .forceClose nowMs) ∨
    ∃ id nowMs p, op = .recordPermit id true nowMs ∧ s.live id = some p ∧ p.probe = true ∧
      p.epoch = s.inner.epoch ∧
      (s.step config op).log.count (s.inner.epoch, true)
        = max 1 config.halfOpenSuccessesToClose ∧
      (s.step config op).log.count (s.inner.epoch, false) = 0

theorem Sound.stale {config : BreakerConfig} {s : System} (h : Sound config s)
    (hturns : s.turns + 1 < 2 ^ 64) {op : Op} {id nowMs : ℕ} {p : BreakerPermit}
    (hop : finishes op id nowMs) (hlive : s.live id = some p) (hstale : p.epoch ≠ s.inner.epoch) :
    (s.step config op).inner = s.inner ∨
    (s.inner.state = .open ∧ s.inner.openUntilMs ≤ nowMs ∧
      (s.step config op).inner
        = { s.inner with state := .halfOpen, epoch := s.inner.nextEpoch }) := by
  obtain ⟨outcome, -, happly⟩ := @apply_finish config _ _ _ _ _ hop hlive
  have hinner : (s.step config op).inner = s.inner.transitionIfCooled nowMs := by
    show (s.apply config op).inner = _
    rw [happly]
    exact s.inner.finishPermit_stale config p.probe p.epoch outcome nowMs
      (h.issued hturns hlive) hstale
  rw [hinner]
  by_cases hcool : s.inner.state = .open ∧ s.inner.openUntilMs ≤ nowMs
  · -- an open breaker has no probes in flight and no successes to lose
    obtain ⟨hprobes, hsuccesses⟩ := h.idle hcool.1
    refine .inr ⟨hcool.1, hcool.2, ?_⟩
    rw [BreakerInner.transitionIfCooled, if_pos hcool, ← hprobes]
    congr 1
    rw [hprobes, hsuccesses]
  · exact .inl (BreakerInner.cooled_eq hcool)

theorem Sound.closes {config : BreakerConfig} {s : System} (h : Sound config s)
    (hturns : s.turns + 1 < 2 ^ 64) (op : Op) (hhalf : s.inner.state = .halfOpen)
    (hclosed : (s.step config op).inner.state = .closed) :
    (∃ nowMs, op = .forceClose nowMs) ∨
    ∃ id nowMs p, op = .recordPermit id true nowMs ∧ s.live id = some p ∧ p.probe = true ∧
      p.epoch = s.inner.epoch ∧
      (s.step config op).log.count (s.inner.epoch, true)
        = max 1 config.halfOpenSuccessesToClose ∧
      (s.step config op).log.count (s.inner.epoch, false) = 0 := by
  have hnot : s.inner.state ≠ .closed := by rw [hhalf]; simp
  have hfinish : ∀ {id nowMs}, finishes op id nowMs →
      ∃ id nowMs p, op = .recordPermit id true nowMs ∧ s.live id = some p ∧ p.probe = true ∧
        p.epoch = s.inner.epoch ∧
        (s.step config op).log.count (s.inner.epoch, true)
          = max 1 config.halfOpenSuccessesToClose ∧
        (s.step config op).log.count (s.inner.epoch, false) = 0 := by
    intro id nowMs hop
    cases hlive : s.live id with
    | none =>
      rw [step_finish_dead hop hlive] at hclosed
      exact absurd hclosed hnot
    | some p =>
      obtain ⟨outcome, hrecorded, happly⟩ := @apply_finish config _ _ _ _ _ hop hlive
      have hcases := s.inner.finishPermit_cases config p.probe p.epoch outcome nowMs
        (h.issued hturns hlive)
      have hstate : (s.inner.finishPermit config p.probe p.epoch outcome nowMs).state
          = .closed := by
        have hinner : (s.apply config op).inner.state = .closed := hclosed
        rwa [happly] at hinner
      have hlog : (s.step config op).log = logged p outcome s.log := by
        show (s.apply config op).log = _
        rw [happly]
        rfl
      generalize s.inner.finishPermit config p.probe p.epoch outcome nowMs = b' at *
      cases hcases with
      | other change closed stale => exact absurd (closed hstate) hnot
      | neutral => exact absurd hstate hnot
      | counted => exact absurd hstate hnot
      | failed isProbe current half turned state idle =>
        rw [state] at hstate
        cases hstate
      | closed isProbe current half enough turned state =>
        obtain ⟨hcounted, hfailed, hbelow⟩ := h.successes hhalf
        have hlogged : logged p (some true) s.log = (s.inner.epoch, true) :: s.log := by
          simp only [logged, isProbe, if_true, current]
        refine ⟨id, nowMs, p, hrecorded true rfl, hlive, isProbe, current, ?_, ?_⟩
        · rw [hlog, hlogged, List.count_cons_self, ← hcounted]
          unfold satAdd at enough
          omega
        · rw [hlog, hlogged, List.count_cons_of_ne (by simp)]
          exact hfailed
  cases op with
  | admitNow nowMs =>
    have hcases := s.inner.admitNow_cases config nowMs
    have hstate : (s.inner.admitNow config nowMs).2.state = .closed := hclosed
    generalize (s.inner.admitNow config nowMs).1 = permit at hcases
    generalize (s.inner.admitNow config nowMs).2 = b' at *
    cases hcases with
    | refused change state => exact absurd hstate state
    | closed state => exact absurd state hnot
    | probe change half room =>
      simp only [half] at hstate
      cases hstate
  | recordPermit id success nowMs => exact .inr (hfinish (.inl ⟨success, rfl⟩))
  | releasePermit id nowMs => exact .inr (hfinish (.inr (.inl rfl)))
  | dropPermit id => exact .inr (hfinish (.inr (.inr ⟨rfl, rfl⟩)))
  | record success nowMs =>
    exact absurd ((s.inner.record_change config success nowMs).2 hclosed) hnot
  | state nowMs => exact absurd (BreakerInner.cooled_closed hclosed) hnot
  | forceOpen nowMs durationMs => cases hclosed
  | forceClose nowMs => exact .inl ⟨nowMs, rfl⟩

/-- **Probe slots.**  In every run of the breaker, with any configuration and at any times, until
the epoch has moved `2 ^ 64 - 1` times. -/
theorem probe_slots_exact (config : BreakerConfig) (nowMs : ℕ) (ops : List Op)
    (h : (after config nowMs ops).turns + 1 < 2 ^ 64) :
    ProbeSlots config (after config nowMs ops) := by
  have hsound := sound_after config nowMs ops h
  refine ⟨hsound.slots, ?_, ?_, fun op => hsound.closes h op⟩
  · intro now hopen hbefore
    have hcool : ¬((after config nowMs ops).inner.state = .open ∧
        (after config nowMs ops).inner.openUntilMs ≤ now) := fun hcool =>
      absurd hcool.2 (Nat.not_le_of_lt hbefore)
    simp only [BreakerInner.admitNow, BreakerInner.cooled_eq hcool, hopen]
  · intro id p op now hlive hstale hop
    exact hsound.stale h hop hlive hstale

/-- A run that is quarantined, probes, and has its first success. -/
theorem probe_slots_exact_after_success :
    ProbeSlots .default (after .default 0
      [.admitNow 0, .forceOpen 0 1000, .admitNow 1000, .recordPermit 1 true 1100, .admitNow 1200]) :=
  probe_slots_exact .default 0 _ (by decide)

end System

end HypeLlm.Health
