import HypeLlm.Fleet.Snapshot
import HypeLlm.Lib.Runs

/-!
# Activation budgets

A host may be swapped so often an hour.  The budget keeps the times of the spends that are less than an
hour old, in the order they were made; a spend is refused while there are as many as the policy allows.
A spend that came to nothing is refunded: the *newest* entry is taken out, whichever spend it was.

* **`hourly_ceiling`** — in no hour there are more spends than allowed, as long as each refund is of the
  newest spend;
* `refund_of_an_older_spend` — with two plans in flight it need not be, and then there are more.
-/

namespace HypeLlm.Fleet

open HypeLlm.Words HypeLlm.Routing HypeLlm.Runs

def budgetPeriodMs : ℕ := 3600000

def maxWindowEntries : ℕ := 256

structure Budgets where
  /-- The times of the spends on a host, the newest last. -/
  windows : HostId → List ℕ

namespace Budgets

def empty : Budgets := ⟨fun _ => []⟩

def isLive (atMs nowMs : ℕ) : Bool := nowMs < satAdd u64Max atMs budgetPeriodMs

def prune (window : List ℕ) (nowMs : ℕ) : List ℕ := window.filter fun t => isLive t nowMs

def capacity (policy : SwapPolicy) : ℕ := min policy.maxActivationsPerHour maxWindowEntries

variable (b : Budgets) (host : HostId) (policy : SwapPolicy) (nowMs : ℕ)

def setWindow (window : List ℕ) : Budgets := ⟨Function.update b.windows host window⟩

def trySpend : Budgets × Bool :=
  let window := prune (b.windows host) nowMs
  if capacity policy ≤ window.length then (b.setWindow host window, false)
  else (b.setWindow host (window ++ [nowMs]), true)

def refund : Budgets := b.setWindow host (prune (b.windows host) nowMs).dropLast

/-- Before the last instant of the clock a spend is live for exactly a period. -/
theorem isLive_iff {t now : ℕ} (hnow : now < u64Max) : isLive t now = true ↔ now < t + budgetPeriodMs := by
  rw [isLive, decide_eq_true_eq, satAdd]
  omega

end Budgets

/-! ### One host -/

/-- The spends in the period that ends at `w`. -/
def spentWithin (standing : List ℕ) (w : ℕ) : List ℕ :=
  standing.filter fun t => t ≤ w ∧ w < t + budgetPeriodMs

/-- What stands and is live is in the window, and no period has too many. -/
structure Ceiling (capacity clock : ℕ) (standing window : List ℕ) : Prop where
  covered : ∀ t, clock < t + budgetPeriodMs → standing.count t ≤ window.count t
  bounded : ∀ w, (spentWithin standing w).length ≤ capacity

theorem count_prune {window : List ℕ} {now t : ℕ} (hnow : now < u64Max) (ht : now < t + budgetPeriodMs) :
    (Budgets.prune window now).count t = window.count t :=
  List.count_filter ((Budgets.isLive_iff hnow).2 ht)

namespace Ceiling

variable {capacity clock now : ℕ} {standing window : List ℕ}

theorem later (h : Ceiling capacity clock standing window) {clock' : ℕ} (hle : clock ≤ clock') :
    Ceiling capacity clock' standing window :=
  ⟨fun t ht => h.covered t (by omega), h.bounded⟩

theorem prune (h : Ceiling capacity clock standing window) (hnow : now < u64Max) :
    Ceiling capacity (max clock now) standing (Budgets.prune window now) := by
  refine ⟨?_, h.bounded⟩
  intro t ht
  rw [count_prune hnow (by omega)]
  exact h.covered t (by omega)

/-- What stands in a period that is not over is live, so it is in the window. -/
theorem length_le (h : Ceiling capacity clock standing window) {w : ℕ} (hw : clock ≤ w) :
    (spentWithin standing w).length ≤ window.length := by
  have hsub : (spentWithin standing w).Subperm window := by
    rw [List.subperm_ext_iff]
    intro t ht
    have hlive := (List.mem_filter.1 ht).2
    rw [decide_eq_true_eq] at hlive
    calc (spentWithin standing w).count t
        ≤ standing.count t := List.filter_sublist.count_le t
      _ ≤ window.count t := h.covered t (by omega)
  exact hsub.length_le

/-- **A spend** finds room in every period that ends with it or later. -/
theorem push (h : Ceiling capacity now standing window) (hroom : window.length < capacity) :
    Ceiling capacity now (now :: standing) (window ++ [now]) := by
  constructor
  · intro t ht
    have hcovered := h.covered t ht
    rw [List.count_cons, List.count_append, List.count_singleton]
    omega
  · intro w
    rw [spentWithin, List.filter_cons]
    split
    · rename_i hin
      rw [decide_eq_true_eq] at hin
      have hbefore := h.length_le hin.1
      rw [spentWithin] at hbefore
      rw [List.length_cons]
      omega
    · exact h.bounded w

theorem erase_bounded (h : Ceiling capacity clock standing window) (t w : ℕ) :
    (spentWithin (standing.erase t) w).length ≤ capacity :=
  (List.erase_sublist.filter _).length_le.trans (h.bounded w)

/-- **A refund of the newest entry** takes out what it pays back. -/
theorem pop (h : Ceiling capacity clock standing window) {t : ℕ} (hlast : window.getLast? = some t) :
    Ceiling capacity clock (standing.erase t) window.dropLast := by
  refine ⟨?_, h.erase_bounded t⟩
  intro t' ht'
  have hcovered := h.covered t' ht'
  obtain ⟨front, rfl⟩ := List.getLast?_eq_some_iff.1 hlast
  rw [List.count_append, List.count_singleton] at hcovered
  rw [List.count_erase, List.dropLast_concat]
  omega

/-- Where nothing is live there is nothing to take out. -/
theorem pop_nil (h : Ceiling capacity clock standing []) (t : ℕ) :
    Ceiling capacity clock (standing.erase t) [] := by
  refine ⟨?_, h.erase_bounded t⟩
  intro t' ht'
  exact (List.erase_sublist.count_le t').trans (h.covered t' ht')

end Ceiling

/-! ### Runs -/

inductive BudgetEvent where
  | spend (host : HostId) (nowMs : ℕ)
  /-- The refund of a spend at `atMs`. -/
  | refund (host : HostId) (atMs nowMs : ℕ)
  deriving Repr, DecidableEq

/-- The budgets, and the spends that stand. -/
structure BudgetWatch where
  budgets : Budgets
  /-- The times of the spends on a host that were not refunded. -/
  standing : HostId → List ℕ
  /-- The latest time anything was asked at. -/
  clock : ℕ

namespace BudgetWatch

variable (policyFor : HostId → SwapPolicy)

def start : BudgetWatch := ⟨.empty, fun _ => [], 0⟩

def step (s : BudgetWatch) : BudgetEvent → BudgetWatch
  | .spend host now =>
    match s.budgets.trySpend host (policyFor host) now with
    | (b, true) => ⟨b, Function.update s.standing host (now :: s.standing host), max s.clock now⟩
    | (b, false) => ⟨b, s.standing, max s.clock now⟩
  | .refund host atMs now =>
    ⟨s.budgets.refund host now, Function.update s.standing host ((s.standing host).erase atMs),
      max s.clock now⟩

/-- Nothing is spent at a time before an earlier call, and only what was spent and stands is refunded. -/
def InOrder (s : BudgetWatch) : BudgetEvent → Prop
  | .spend _ now => s.clock ≤ now
  | .refund host atMs _ => atMs ∈ s.standing host

/-- The refund is of the newest entry, or there is none; and it is not the last instant of the clock. -/
def Newest (s : BudgetWatch) : BudgetEvent → Prop
  | .spend _ now => now < u64Max
  | .refund host atMs now => now < u64Max ∧
    ((Budgets.prune (s.budgets.windows host) now).getLast? = some atMs ∨
      Budgets.prune (s.budgets.windows host) now = [])

instance (s : BudgetWatch) : ∀ e, Decidable (s.InOrder e)
  | .spend _ now => inferInstanceAs (Decidable (s.clock ≤ now))
  | .refund host atMs _ => inferInstanceAs (Decidable (atMs ∈ s.standing host))

instance (s : BudgetWatch) : ∀ e, Decidable (s.Newest e)
  | .spend _ now => inferInstanceAs (Decidable (now < u64Max))
  | .refund _ _ now => inferInstanceAs (Decidable (now < u64Max ∧ (_ = _ ∨ _ = _)))

def Sound (s : BudgetWatch) : Prop :=
  ∀ host, Ceiling (Budgets.capacity (policyFor host)) s.clock (s.standing host) (s.budgets.windows host)

variable {policyFor} {s : BudgetWatch}

theorem start_sound : Sound policyFor start := fun _ => ⟨fun _ _ => Nat.le_refl _, fun _ => Nat.zero_le _⟩

/-- The windows of the other hosts are as they were. -/
theorem Sound.update (h : Sound policyFor s) {host : HostId} {standing window : List ℕ} {clock : ℕ}
    (hclock : s.clock ≤ clock)
    (hhost : Ceiling (Budgets.capacity (policyFor host)) clock standing window) :
    Sound policyFor ⟨s.budgets.setWindow host window, Function.update s.standing host standing, clock⟩ := by
  intro host'
  show Ceiling _ clock (Function.update s.standing host standing host')
    (Function.update s.budgets.windows host window host')
  by_cases heq : host' = host
  · rw [heq, Function.update_self, Function.update_self]
    exact hhost
  · rw [Function.update_of_ne heq, Function.update_of_ne heq]
    exact (h host').later hclock

theorem Sound.spend (h : Sound policyFor s) {host : HostId} {now : ℕ} (hclock : s.clock ≤ now)
    (hnow : now < u64Max) : Sound policyFor (s.step policyFor (.spend host now)) := by
  have hpruned := (h host).prune hnow
  rw [max_eq_right hclock] at hpruned
  have hmax : max s.clock now = now := max_eq_right hclock
  rw [step, Budgets.trySpend]
  by_cases hfull : Budgets.capacity (policyFor host) ≤ (Budgets.prune (s.budgets.windows host) now).length
  · simp only [if_pos hfull, hmax]
    have hsame := h.update hclock hpruned
    rwa [Function.update_eq_self] at hsame
  · simp only [if_neg hfull, hmax]
    exact h.update hclock (hpruned.push (not_le.1 hfull))

theorem Sound.refund (h : Sound policyFor s) {host : HostId} {atMs now : ℕ} (hnow : now < u64Max)
    (hnewest : (Budgets.prune (s.budgets.windows host) now).getLast? = some atMs ∨
      Budgets.prune (s.budgets.windows host) now = []) :
    Sound policyFor (s.step policyFor (.refund host atMs now)) := by
  have hpruned := (h host).prune hnow
  refine h.update (le_max_left _ _) ?_
  rcases hnewest with hlast | hnone
  · exact hpruned.pop hlast
  · rw [hnone] at hpruned ⊢
    exact hpruned.pop_nil atMs

theorem step_sound (s : BudgetWatch) (e : BudgetEvent) (h : Sound policyFor s)
    (hc : s.InOrder e ∧ s.Newest e) : Sound policyFor (s.step policyFor e) := by
  cases e with
  | spend host now => exact h.spend hc.1 hc.2
  | refund host atMs now => exact h.refund hc.2.1 hc.2.2

/-- **The hourly ceiling.**  In every run in which each refund is of the newest entry of its window, or
finds none, the spends on a host that stand in any period are no more than the policy allows. -/
theorem hourly_ceiling (policyFor : HostId → SwapPolicy) (es : List BudgetEvent)
    (hmeet : StepsMeet (step policyFor) (fun s e => s.InOrder e ∧ s.Newest e) start es) (host : HostId)
    (w : ℕ) :
    (spentWithin ((run (step policyFor) start es).standing host) w).length ≤
      min (policyFor host).maxActivationsPerHour maxWindowEntries := by
  have hsound := run_invariant_of_steps (P := Sound policyFor) step_sound start_sound es hmeet
  exact (hsound host).bounded w

namespace Sample

/-- Two swaps an hour. -/
def twice : HostId → SwapPolicy := fun _ => ⟨2, 0, 4, false, 0, false⟩

/-- Two spends, the second refunded, and two more of which one finds no room. -/
def newestRefunded : List BudgetEvent :=
  [.spend "h" 0, .spend "h" 1, .refund "h" 1 2, .spend "h" 3, .spend "h" 4]

/-- The second spend is paid back, and there are two in the hour. -/
theorem newest_refunded :
    (spentWithin ((run (step twice) start newestRefunded).standing "h") 5).length = 2 ∧
      (spentWithin ((run (step twice) start newestRefunded).standing "h") 5).length ≤ min 2 256 := by
  exact ⟨by decide +kernel, hourly_ceiling twice newestRefunded (by decide +kernel) "h" 5⟩

/-- Two plans spend; the first comes to nothing, and its refund takes out the entry of the second. -/
def olderRefunded : List BudgetEvent :=
  [.spend "h" 0, .spend "h" 1, .refund "h" 0 1, .spend "h" 3600000, .spend "h" 3600000]

/-- At the last instant of the clock no entry is live, and nothing is refused. -/
def atTheEnd : List BudgetEvent := List.replicate 3 (.spend "h" u64Max)

/-- **The refund of an older spend**: the first entry stays in the place of the second and leaves the
window a millisecond too early, and three spends stand in one hour where two are allowed.  And so they
do at the last instant of the clock. -/
theorem refund_of_an_older_spend :
    StepsMeet (step twice) InOrder start olderRefunded ∧
      (spentWithin ((run (step twice) start olderRefunded).standing "h") 3600000).length = 3 ∧
      StepsMeet (step twice) InOrder start atTheEnd ∧
      (spentWithin ((run (step twice) start atTheEnd).standing "h") u64Max).length = 3 := by
  decide +kernel

end Sample

end BudgetWatch

end HypeLlm.Fleet
