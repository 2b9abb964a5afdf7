import HypeLlm.Fleet.ActivationQueue
import HypeLlm.Fleet.Snapshot
import HypeLlm.Lib.Lists
import HypeLlm.Lib.Sorting

/-!
# Which waiting model is loaded next

Deployments that requests wait for contend for their host.  `rank` orders them; `gate` answers one of
them that asks to be loaded now: the first of the ready ones goes, the others wait, and what would stop
a model that has work waits unless it starves.

The comparator reads the time that two contenders have waited where both starve, and their priority
elsewhere.  It is a total order all the same: whether one starves is compared before.

* `order_isLE_iff` — the comparator compares keys;
* **`one_proceeds`** — the order of the list is not felt, the gate lets one of the ready contenders
  through and defers the others, and it stops a busy model for one that starves only.
-/

namespace HypeLlm.Fleet.Schedule

open HypeLlm.Words

/-- What scheduling reads of a fleet policy. -/
structure SchedulePolicy extends FleetPolicy where
  /-- How long waiting work may be reordered behind other work; zero disables reordering. -/
  maxReorderWaitMs : ℕ
  deriving Repr, DecidableEq

/-- A deployment that requests are waiting for a host to load. -/
structure Contender where
  deployment : DeploymentId
  waiting : ℕ
  /-- When the oldest of them started waiting. -/
  oldestMs : ℕ
  restoreCostMs : ℕ
  /-- The highest class among them. -/
  priorityClass : PriorityClass
  deriving Repr, DecidableEq

namespace Contender

variable (c : Contender) (nowMs : ℕ) (policy : SchedulePolicy)

def ageMs : ℕ := nowMs - c.oldestMs

/-- The oldest request has waited past the bound on reordering. -/
def isStarving : Bool := policy.maxReorderWaitMs ≠ 0 ∧ policy.maxReorderWaitMs ≤ c.ageMs nowMs

/-- Enough demand, a long enough wait, or starvation. -/
def isReady : Bool :=
  0 < c.waiting ∧ (max policy.activationMinDemand 1 ≤ c.waiting ∨
    policy.activationMaxWaitMs ≤ c.ageMs nowMs ∨ c.isStarving nowMs policy)

/-- Waiting demand, aged, per unit of load cost. -/
def priority : ℕ :=
  let aged := satAdd u64Max 1000 (c.ageMs nowMs / 100)
  satMul u64Max (satMul u64Max c.waiting aged) 1000000 / satAdd u64Max c.restoreCostMs 30000

end Contender

/-- How contenders for one host compare: the first is to be loaded next. -/
def order (nowMs : ℕ) (policy : SchedulePolicy) (a b : Contender) : Ordering :=
  (compare a.priorityClass.rank b.priorityClass.rank).then <|
  (compare (b.isStarving nowMs policy) (a.isStarving nowMs policy)).then <|
  (if a.isStarving nowMs policy && b.isStarving nowMs policy then compare a.oldestMs b.oldestMs
    else compare (b.priority nowMs) (a.priority nowMs)).then <|
  (compare a.restoreCostMs b.restoreCostMs).then <|
  (compare a.oldestMs b.oldestMs).then <|
  compare a.deployment b.deployment

def rank (contenders : List Contender) (nowMs : ℕ) (policy : SchedulePolicy) : List Contender :=
  contenders.insertionSort fun a b => (order nowMs policy a b).isLE

/-- Why an activation may go now. -/
inductive Proceed where
  | disabled
  | uncontended
  | ranked
  | starving
  deriving Repr, DecidableEq

/-- Why an activation should wait. -/
inductive Defer where
  | outranked
  | warmDemand
  deriving Repr, DecidableEq

inductive Verdict where
  | proceed (reason : Proceed)
  | defer (reason : Defer)
  deriving Repr, DecidableEq

/-- What the gate needs to know about the plan being asked for. -/
structure Asking where
  deployment : DeploymentId
  /-- The plan stops something. -/
  evicts : Bool
  /-- Something it would stop has work in flight. -/
  victimsBusy : Bool
  deriving Repr, DecidableEq

/-- May the activation go now, given everything that waits for its host? -/
def gate (asking : Asking) (contenders : List Contender) (nowMs : ℕ) (policy : SchedulePolicy) :
    Verdict :=
  if policy.maxReorderWaitMs = 0 then .proceed .disabled
  else
    let own := contenders.find? fun c => c.deployment = asking.deployment
    let starving := own.any fun c => c.isStarving nowMs policy
    if asking.evicts && asking.victimsBusy && !starving then .defer .warmDemand
    else
      match own with
      | none => .proceed .uncontended
      | some own =>
        let ready := contenders.filter fun c => c.isReady nowMs policy || c.deployment = own.deployment
        let ranked := rank ready nowMs policy
        if (ranked.head?).any fun first => first.deployment ≠ own.deployment then .defer .outranked
        else if starving then .proceed .starving
        else if 1 < ranked.length then .proceed .ranked
        else .proceed .uncontended

/-! ### The order is total -/

section

variable {α : Type} [LinearOrder α]

theorem isLE_compare_then (a b : α) (o : Ordering) :
    ((compare a b).then o).isLE = true ↔ a < b ∨ a = b ∧ o.isLE = true := by
  rcases lt_trichotomy a b with h | rfl | h
  · rw [compare_lt_iff_lt.2 h]
    exact iff_of_true rfl (.inl h)
  · rw [compare_eq_iff_eq.2 rfl]
    simp
  · rw [compare_gt_iff_gt.2 h]
    refine iff_of_false (by simp) ?_
    rintro (hlt | ⟨rfl, -⟩)
    · exact lt_asymm h hlt
    · exact lt_irrefl _ h

theorem isLE_compare (a b : α) : (compare a b).isLE = true ↔ a ≤ b := by
  have h := isLE_compare_then a b .eq
  rw [Ordering.then_eq] at h
  rw [h, le_iff_lt_or_eq]
  simp

end

/-- What contenders are ordered by: the class, starvation, the time waited or the priority, the cost, the
time, and the identifier. -/
def Contender.key (c : Contender) (nowMs : ℕ) (policy : SchedulePolicy) :
    ℕ ×ₗ ℕ ×ₗ ℤ ×ₗ ℕ ×ₗ ℕ ×ₗ DeploymentId :=
  toLex (c.priorityClass.rank, toLex (if c.isStarving nowMs policy then 0 else 1,
    toLex (if c.isStarving nowMs policy then (c.oldestMs : ℤ) else -(c.priority nowMs : ℤ),
      toLex (c.restoreCostMs, toLex (c.oldestMs, c.deployment)))))

/-- **The comparator compares keys.** -/
theorem order_isLE_iff (nowMs : ℕ) (policy : SchedulePolicy) (a b : Contender) :
    (order nowMs policy a b).isLE = true ↔ a.key nowMs policy ≤ b.key nowMs policy := by
  simp only [order, Contender.key, isLE_compare_then, Prod.Lex.toLex_le_toLex]
  cases a.isStarving nowMs policy <;> cases b.isStarving nowMs policy
  · simp [isLE_compare_then, isLE_compare, eq_comm (a := b.priority nowMs)]
  · simp
  · simp
  · simp [isLE_compare_then, isLE_compare]

section

variable {nowMs : ℕ} {policy : SchedulePolicy}

instance : IsTrans Contender fun a b => (order nowMs policy a b).isLE = true where
  trans a b c hab hbc := by
    rw [order_isLE_iff] at hab hbc ⊢
    exact hab.trans hbc

instance : Std.Total fun a b => (order nowMs policy a b).isLE = true where
  total a b := by
    rw [order_isLE_iff, order_isLE_iff]
    exact le_total _ _

theorem Contender.deployment_eq_of_key_eq {a b : Contender} (h : a.key nowMs policy = b.key nowMs policy) :
    a.deployment = b.deployment := by
  simp only [key, EmbeddingLike.apply_eq_iff_eq, Prod.mk.injEq] at h
  exact h.2.2.2.2.2

/-- **The order of the list is not felt.** -/
theorem rank_perm {l l' : List Contender} (h : l.Perm l') (hdistinct : (l.map Contender.deployment).Nodup) :
    rank l nowMs policy = rank l' nowMs policy := by
  refine Sorting.insertionSort_perm_eq _ h fun a ha b hb hab hba => ?_
  rw [order_isLE_iff] at hab hba
  exact List.inj_on_of_nodup_map hdistinct ha hb (Contender.deployment_eq_of_key_eq (le_antisymm hab hba))

/-- What is ranked first has the least key. -/
theorem rank_head (nowMs : ℕ) (policy : SchedulePolicy) {l : List Contender} (hne : l ≠ []) :
    ∃ first ∈ l, (rank l nowMs policy).head? = some first ∧
      ∀ c ∈ l, first.key nowMs policy ≤ c.key nowMs policy := by
  have hperm := List.perm_insertionSort (fun a b => (order nowMs policy a b).isLE = true) l
  have hsorted := List.pairwise_insertionSort (fun a b => (order nowMs policy a b).isLE = true) l
  cases hrank : rank l nowMs policy with
  | nil =>
    rw [rank] at hrank
    rw [hrank] at hperm
    exact absurd hperm.nil_eq.symm hne
  | cons first rest =>
    rw [rank] at hrank
    rw [hrank] at hperm hsorted
    refine ⟨first, hperm.subset List.mem_cons_self, rfl, fun c hc => ?_⟩
    obtain rfl | hrest := List.mem_cons.1 (hperm.mem_iff.2 hc)
    · exact le_refl _
    · exact (order_isLE_iff nowMs policy first c).1 ((List.pairwise_cons.1 hsorted).1 c hrest)

/-! ### The gate -/

/-- The contenders that have earned an activation. -/
def readyContenders (contenders : List Contender) (nowMs : ℕ) (policy : SchedulePolicy) : List Contender :=
  contenders.filter fun c => c.isReady nowMs policy

/-- A ready contender that stops nothing busy is deferred if another is ranked first, and goes if it is
first itself. -/
theorem gate_ready {l : List Contender} (hdistinct : (l.map Contender.deployment).Nodup)
    (henabled : policy.maxReorderWaitMs ≠ 0) {c first : Contender} (hc : c ∈ readyContenders l nowMs policy)
    (hfirst : (rank (readyContenders l nowMs policy) nowMs policy).head? = some first)
    (evicts : Bool) :
    if first.deployment = c.deployment then
      ∃ reason, gate ⟨c.deployment, evicts, false⟩ l nowMs policy = .proceed reason
    else gate ⟨c.deployment, evicts, false⟩ l nowMs policy = .defer .outranked := by
  obtain ⟨hmem, hready⟩ := List.mem_filter.1 hc
  have hown : l.find? (fun c' => decide (c'.deployment = c.deployment)) = some c :=
    Lists.find?_key hdistinct hmem
  have hsame : (l.filter fun c' => c'.isReady nowMs policy || decide (c'.deployment = c.deployment)) =
      readyContenders l nowMs policy := by
    refine List.filter_congr fun c' hc' => ?_
    by_cases hid : c'.deployment = c.deployment
    · rw [List.inj_on_of_nodup_map hdistinct hc' hmem hid, hready, Bool.true_or]
    · rw [decide_eq_false hid, Bool.or_false]
  rw [gate, if_neg henabled]
  dsimp only
  rw [hown, Bool.and_false, Bool.false_and, if_neg Bool.false_ne_true]
  dsimp only
  rw [hsame, hfirst]
  by_cases hid : first.deployment = c.deployment
  · rw [if_pos hid]
    simp only [Option.any_some, hid, ne_eq, not_true_eq_false, decide_false, Bool.false_eq_true, if_false]
    split
    · exact ⟨_, rfl⟩
    · split <;> exact ⟨_, rfl⟩
  · rw [if_neg hid]
    simp [hid]

/-- A plan that would stop a busy model goes only for one that starves. -/
theorem gate_busy {l : List Contender} (henabled : policy.maxReorderWaitMs ≠ 0) {deployment : DeploymentId}
    {reason : Proceed} (h : gate ⟨deployment, true, true⟩ l nowMs policy = .proceed reason) :
    ∃ own ∈ l, own.deployment = deployment ∧ own.isStarving nowMs policy = true := by
  rw [gate, if_neg henabled] at h
  dsimp only at h
  split at h
  · cases h
  · rename_i hstarving
    rw [Bool.and_self, Bool.true_and, Bool.not_eq_true, Bool.not_eq_false', Option.any_eq_true] at hstarving
    obtain ⟨own, hfind, hown⟩ := hstarving
    exact ⟨own, List.mem_of_find?_eq_some hfind, by simpa using List.find?_some hfind, hown⟩

/-- The first contender is of the highest class, and starves longest where one of its class starves. -/
theorem first_of_class {first c : Contender} (h : first.key nowMs policy ≤ c.key nowMs policy) :
    first.priorityClass.rank ≤ c.priorityClass.rank ∧
      (c.priorityClass = first.priorityClass → c.isStarving nowMs policy = true →
        first.isStarving nowMs policy = true ∧ first.oldestMs ≤ c.oldestMs) := by
  simp only [Contender.key, Prod.Lex.toLex_le_toLex] at h
  refine ⟨by omega, fun hclass hstarving => ?_⟩
  rw [hclass, hstarving] at h
  obtain h | ⟨-, h⟩ := h
  · exact absurd h (lt_irrefl _)
  · cases hfirst : first.isStarving nowMs policy
    · rw [hfirst] at h
      simp at h
    · rw [hfirst] at h
      simp only [if_true, lt_irrefl, true_and, false_or] at h
      exact ⟨rfl, by omega⟩

/-- **One of them goes.**  For contenders of distinct deployments, and with reordering enabled: ranking
does not depend on the order of the list; where some are ready, the gate lets exactly one of them through
and tells the others that they are outranked, and the one is of the highest class among them and, if one
of that class starves, starves and has waited longest; and what would stop a busy model is let through
for a starving contender only. -/
theorem one_proceeds (l : List Contender) (nowMs : ℕ) (policy : SchedulePolicy)
    (hdistinct : (l.map Contender.deployment).Nodup) (henabled : policy.maxReorderWaitMs ≠ 0) :
    (∀ l', l.Perm l' → rank l nowMs policy = rank l' nowMs policy) ∧
    ((∃ c ∈ l, c.isReady nowMs policy = true) → ∃ winner ∈ l, winner.isReady nowMs policy = true ∧
      (∀ evicts, ∃ reason, gate ⟨winner.deployment, evicts, false⟩ l nowMs policy =
        .proceed reason) ∧
      ∀ c ∈ l, c.isReady nowMs policy = true →
        (c ≠ winner → ∀ evicts, gate ⟨c.deployment, evicts, false⟩ l nowMs policy =
          .defer .outranked) ∧
        winner.priorityClass.rank ≤ c.priorityClass.rank ∧
        (c.priorityClass = winner.priorityClass → c.isStarving nowMs policy = true →
          winner.isStarving nowMs policy = true ∧ winner.oldestMs ≤ c.oldestMs)) ∧
    ∀ deployment reason, gate ⟨deployment, true, true⟩ l nowMs policy = .proceed reason →
      ∃ own ∈ l, own.deployment = deployment ∧ own.isStarving nowMs policy = true := by
  refine ⟨fun l' hperm => rank_perm hperm hdistinct, ?_, fun _ _ => gate_busy henabled⟩
  rintro ⟨c₀, hc₀, hready₀⟩
  have hne : readyContenders l nowMs policy ≠ [] := List.ne_nil_of_mem (List.mem_filter.2 ⟨hc₀, hready₀⟩)
  obtain ⟨winner, hwinner, hfirst, hleast⟩ := rank_head nowMs policy hne
  obtain ⟨hmem, hready⟩ := List.mem_filter.1 hwinner
  refine ⟨winner, hmem, hready, fun evicts => ?_, fun c hc hcready => ⟨fun hother evicts => ?_, ?_⟩⟩
  · have hgate := gate_ready hdistinct henabled hwinner hfirst evicts
    rwa [if_pos rfl] at hgate
  · have hgate := gate_ready hdistinct henabled (List.mem_filter.2 ⟨hc, hcready⟩) hfirst evicts
    have hid : winner.deployment ≠ c.deployment :=
      fun hid => hother (List.inj_on_of_nodup_map hdistinct hc hmem hid.symm)
    rwa [if_neg hid] at hgate
  · exact first_of_class (hleast c (List.mem_filter.2 ⟨hc, hcready⟩))

end

namespace Sample

/-- A chat model that starves, and a speech model with more demand. -/
def contenders : List Contender :=
  [⟨"speech", 9, 90000, 10000, .standard⟩, ⟨"chat", 1, 0, 60000, .standard⟩]

def policy : SchedulePolicy where
  activationMinDemand := 1
  activationMaxWaitMs := 20000
  maxReorderWaitMs := 60000

/-- The chat model is started, though that stops what is busy, and the speech model waits for it. -/
theorem chat_proceeds :
    gate ⟨"chat", true, true⟩ contenders 100000 policy = .proceed .starving ∧
      gate ⟨"speech", true, false⟩ contenders 100000 policy = .defer .outranked ∧
      rank contenders 100000 policy = rank contenders.reverse 100000 policy ∧
      ∃ own ∈ contenders, own.deployment = "chat" ∧ own.isStarving 100000 policy = true := by
  have hproceeds : gate ⟨"chat", true, true⟩ contenders 100000 policy = .proceed .starving := by
    decide +kernel
  obtain ⟨hperm, -, hbusy⟩ := one_proceeds contenders 100000 policy (by decide) (by decide)
  exact ⟨hproceeds, by decide +kernel, hperm _ contenders.reverse_perm.symm, hbusy "chat" _ hproceeds⟩

end Sample

end HypeLlm.Fleet.Schedule
