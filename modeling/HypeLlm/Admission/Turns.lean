import HypeLlm.Admission.Scope
import HypeLlm.Lib.Runs

/-!
# Whose turn it is

A waiting line is ordered by class, then by the round stamped on arrival, then by arrival.  The round is
the number of the tenant's waiters of the class that are in line at that moment, so every tenant's first
waiter goes before any tenant's second.  It is never computed again: where a waiter that stays was behind
others that have left, one that joins later may be stamped with a smaller round.

* `fifo_iff` — arrival order within a tenant and a class, by the ranks of pairs;
* **`fifo_of_run_iff`** — a run keeps it if and only if nobody joins while a waiter of the tenant and
  class has a round above their number;
* **`one_before`** — a waiter that joined alone of its tenant and class sees at most one waiter of each
  other tenant of the class go first.
-/

namespace HypeLlm.Admission

open HypeLlm.Words HypeLlm.Runs

theorem Waiter.before_iff (w v : Waiter) : w.before v = true ↔
    w.priority.rank < v.priority.rank ∨ w.priority.rank = v.priority.rank ∧
      (w.round < v.round ∨ w.round = v.round ∧ w.seq < v.seq) := by
  simp only [before, Bool.or_eq_true, Bool.and_eq_true, decide_eq_true_eq]

theorem Waiter.before_eq_false_iff (w v : Waiter) : w.before v = false ↔
    v.priority.rank < w.priority.rank ∨ v.priority.rank = w.priority.rank ∧
      (v.round < w.round ∨ v.round = w.round ∧ v.seq ≤ w.seq) := by
  rw [← Bool.not_eq_true, before_iff]
  omega

theorem PriorityClass.eq_of_rank {c c' : PriorityClass} (h : c.rank = c'.rank) : c = c' := by
  cases c <;> cases c' <;> first | rfl | cases h

namespace QueueState

theorem first_eq_none (waiting : List Waiter) : first waiting = none ↔ waiting = [] := by
  cases waiting with
  | nil => exact ⟨fun _ => rfl, fun _ => rfl⟩
  | cons w rest =>
    simp only [first, reduceCtorEq, iff_false]
    split
    · simp
    · split <;> simp

/-- **The waiter whose turn it is** goes before all that came earlier, and nobody that came later goes
before it. -/
theorem first_eq_some {line : List Waiter} {w : Waiter} (h : first line = some w) :
    ∃ earlier later, line = earlier ++ w :: later ∧ (∀ v ∈ earlier, w.before v = true) ∧
      ∀ v ∈ later, v.before w = false := by
  induction line generalizing w with
  | nil => cases h
  | cons u line ih =>
    rw [first] at h
    cases hrest : first line with
    | none =>
      rw [hrest, Option.some.injEq] at h
      have hline : line = [] := (first_eq_none line).1 hrest
      subst h hline
      exact ⟨[], [], rfl, fun _ hv => (nomatch hv), fun _ hv => nomatch hv⟩
    | some v =>
      obtain ⟨earlier, later, rfl, hearlier, hlater⟩ := ih hrest
      rw [hrest] at h
      simp only at h
      split at h
      · rename_i hbefore
        rw [Option.some.injEq] at h
        subst h
        refine ⟨u :: earlier, later, rfl, fun x hx => ?_, hlater⟩
        rcases List.mem_cons.1 hx with rfl | hx
        · exact hbefore
        · exact hearlier x hx
      · rename_i hbefore
        rw [Option.some.injEq] at h
        subst h
        refine ⟨[], earlier ++ v :: later, rfl, fun _ hx => (nomatch hx), fun x hx => ?_⟩
        rw [Bool.not_eq_true, Waiter.before_eq_false_iff] at hbefore
        rw [Waiter.before_eq_false_iff]
        rcases List.mem_append.1 hx with hx | hx
        · have hv := (Waiter.before_iff v x).1 (hearlier x hx)
          omega
        · rcases List.mem_cons.1 hx with rfl | hx
          · exact hbefore
          · have hv := (Waiter.before_eq_false_iff x v).1 (hlater x hx)
            omega

/-- Whoever leaves the line: the one whose turn it is has nobody of its tenant and class before it that
joined earlier. -/
def Fifo (line : List Waiter) : Prop :=
  ∀ left, left.Sublist line → ∀ w earlier later, first left = some w → left = earlier ++ w :: later →
    ∀ v ∈ earlier, v.tenant = w.tenant → v.priority = w.priority → v = w

/-- The second of two waiters, if of the same tenant and class, does not go before the first. -/
def InOrder (v w : Waiter) : Prop := v.tenant = w.tenant → v.priority = w.priority → w.before v = false

/-- The order within a tenant and class is a matter of pairs. -/
theorem fifo_iff (line : List Waiter) : Fifo line ↔ line.Pairwise InOrder := by
  constructor
  · intro h
    rw [List.pairwise_iff_forall_sublist]
    intro v w hsub htenant hpriority
    by_contra hbefore
    rw [Bool.not_eq_false] at hbefore
    have hfirst : first [v, w] = some w := by
      rw [first, first, first]
      simp only [hbefore, if_true]
    have hsame := h [v, w] hsub w [v] [] hfirst rfl v (List.mem_singleton_self v) htenant hpriority
    rw [hsame, Waiter.before_iff] at hbefore
    omega
  · intro h left hsub w earlier later hfirst hleft v hv htenant hpriority
    have hpair : InOrder v w := by
      have hpairs := h.sublist hsub
      rw [hleft] at hpairs
      exact (List.pairwise_append.1 hpairs).2.2 v hv w List.mem_cons_self
    have hlow := (Waiter.before_eq_false_iff w v).1 (hpair htenant hpriority)
    obtain ⟨earlier', later', hleft', hearlier, hlater⟩ := first_eq_some hfirst
    have hmem : v ∈ earlier' ++ w :: later' := by
      rw [← hleft', hleft]
      exact List.mem_append_left _ hv
    rw [hpriority] at hlow
    rcases List.mem_append.1 hmem with hmem | hmem
    · have hbefore := (Waiter.before_iff w v).1 (hearlier v hmem)
      rw [hpriority] at hbefore
      omega
    · rcases List.mem_cons.1 hmem with rfl | hmem
      · rfl
      · have hnot := (Waiter.before_eq_false_iff v w).1 (hlater v hmem)
        rw [hpriority] at hnot
        obtain ⟨seq, priority, tenant, round⟩ := v
        obtain ⟨seq', priority', tenant', round'⟩ := w
        simp only at htenant hpriority hlow hnot
        rw [Waiter.mk.injEq]
        exact ⟨by omega, hpriority, htenant, by omega⟩

end QueueState

/-! ### Joins and leaves -/

inductive QueueOp where
  | join (priority : PriorityClass) (tenant : TenantId)
  | leave (ticket : ℕ)
  deriving Repr, DecidableEq

namespace Scope

def queueStep (s : Scope) : QueueOp → Scope
  | .join priority tenant => (s.joinQueue priority tenant).2
  | .leave ticket => s.leaveQueue ticket

/-- There is a queue, and it is not full. -/
def HasRoom (s : Scope) : Prop :=
  s.limits.maxQueued ≠ 0 ∧ min s.queue.waiting.length u32Max < s.limits.maxQueued

instance (s : Scope) : Decidable s.HasRoom := inferInstanceAs (Decidable (_ ∧ _))

/-- The waiter that joins. -/
def joining (s : Scope) (priority : PriorityClass) (tenant : TenantId) : Waiter :=
  ⟨s.queue.nextSeq, priority, tenant, s.queue.nextRound priority tenant⟩

variable (s : Scope) (priority : PriorityClass) (tenant : TenantId)

theorem join_of_room (h : s.HasRoom) :
    (s.queueStep (.join priority tenant)).queue.waiting = s.queue.waiting ++ [s.joining priority tenant] ∧
      (s.queueStep (.join priority tenant)).queue.nextSeq = satAdd u64Max s.queue.nextSeq 1 := by
  rw [queueStep, joinQueue, if_neg h.1, if_neg (not_le.2 h.2)]
  exact ⟨rfl, rfl⟩

theorem join_of_no_room (h : ¬s.HasRoom) : s.queueStep (.join priority tenant) = s := by
  rw [queueStep, joinQueue]
  split
  · rfl
  · rename_i hqueue
    rw [if_pos (not_lt.1 fun hroom => h ⟨hqueue, hroom⟩)]

theorem leave_waiting (ticket : ℕ) :
    (s.queueStep (.leave ticket)).queue.waiting = s.queue.waiting.filter fun w => w.seq ≠ ticket := rfl

/-- No ticket is above the next one. -/
def Stamped (s : Scope) : Prop := ∀ w ∈ s.queue.waiting, w.seq ≤ s.queue.nextSeq

theorem Stamped.step {s : Scope} (h : s.Stamped) (op : QueueOp) : (s.queueStep op).Stamped := by
  cases op with
  | join priority tenant =>
    by_cases hroom : s.HasRoom
    · obtain ⟨hwaiting, hnext⟩ := s.join_of_room priority tenant hroom
      have hle := s.queue.nextSeq_le
      intro w hw
      rw [hwaiting] at hw
      rw [hnext, satAdd]
      rcases List.mem_append.1 hw with hw | hw
      · have hseq := h w hw
        omega
      · rw [List.mem_singleton.1 hw]
        show s.queue.nextSeq ≤ _
        omega
    · rw [s.join_of_no_room priority tenant hroom]
      exact h
  | leave ticket => exact fun w hw => h w (List.mem_of_mem_filter hw)

/-! ### Arrival order -/

/-- Nobody joins while a waiter of the tenant and class has a round above their number. -/
def JoinsInOrder (s : Scope) : QueueOp → Prop
  | .join priority tenant =>
    s.HasRoom → ∀ w ∈ s.queue.waiting, w.tenant = tenant → w.priority = priority →
      w.round ≤ s.queue.nextRound priority tenant
  | .leave _ => True

instance (s : Scope) (op : QueueOp) : Decidable (s.JoinsInOrder op) :=
  match op with
  | .join priority tenant => inferInstanceAs (Decidable (s.HasRoom → ∀ w ∈ s.queue.waiting, w.tenant = tenant →
      w.priority = priority → w.round ≤ s.queue.nextRound priority tenant))
  | .leave _ => inferInstanceAs (Decidable True)

/-- **One step** keeps the arrival order if and only if the join is in order. -/
theorem fifo_step_iff {s : Scope} (hfifo : QueueState.Fifo s.queue.waiting) (hstamped : s.Stamped)
    (op : QueueOp) : QueueState.Fifo (s.queueStep op).queue.waiting ↔ s.JoinsInOrder op := by
  rw [QueueState.fifo_iff] at hfifo ⊢
  cases op with
  | leave ticket =>
    rw [leave_waiting]
    exact ⟨fun _ => trivial, fun _ => hfifo.filter _⟩
  | join priority tenant =>
    rw [JoinsInOrder]
    by_cases hroom : s.HasRoom
    · rw [(s.join_of_room priority tenant hroom).1, List.pairwise_append]
      have hpair : ∀ w ∈ s.queue.waiting, QueueState.InOrder w (s.joining priority tenant) ↔
          (w.tenant = tenant → w.priority = priority → w.round ≤ s.queue.nextRound priority tenant) := by
        intro w hw
        rw [QueueState.InOrder, Waiter.before_eq_false_iff]
        show (w.tenant = tenant → w.priority = priority →
          w.priority.rank < priority.rank ∨ w.priority.rank = priority.rank ∧
            (w.round < s.queue.nextRound priority tenant ∨ w.round = s.queue.nextRound priority tenant ∧
              w.seq ≤ s.queue.nextSeq)) ↔ _
        have hseq := hstamped w hw
        refine forall_congr' fun _ => forall_congr' fun hpriority => ?_
        rw [hpriority]
        omega
      constructor
      · rintro ⟨-, -, h⟩ - w hw
        exact (hpair w hw).1 (h w hw _ (List.mem_singleton_self _))
      · intro h
        refine ⟨hfifo, List.pairwise_singleton _ _, fun w hw v hv => ?_⟩
        rw [List.mem_singleton.1 hv]
        exact (hpair w hw).2 (h hroom w hw)
    · rw [s.join_of_no_room priority tenant hroom]
      exact ⟨fun _ h => absurd h hroom, fun _ => hfifo⟩

theorem fifo_run_iff {s : Scope} (hfifo : QueueState.Fifo s.queue.waiting) (hstamped : s.Stamped)
    (ops : List QueueOp) :
    (∀ es, es <+: ops → QueueState.Fifo (run queueStep s es).queue.waiting) ↔
      StepsMeet queueStep JoinsInOrder s ops := by
  induction ops generalizing s with
  | nil =>
    refine ⟨fun _ => trivial, fun _ es hes => ?_⟩
    rw [List.prefix_nil.1 hes]
    exact hfifo
  | cons op ops ih =>
    rw [StepsMeet]
    constructor
    · intro h
      have hstep : QueueState.Fifo (s.queueStep op).queue.waiting := h [op] (List.prefix_append [op] ops)
      refine ⟨(fifo_step_iff hfifo hstamped op).1 hstep, (ih hstep (hstamped.step op)).1 fun es hes => ?_⟩
      exact h (op :: es) (List.cons_prefix_cons.2 ⟨rfl, hes⟩)
    · rintro ⟨hjoin, hrest⟩ es hes
      have hstep := (fifo_step_iff hfifo hstamped op).2 hjoin
      cases es with
      | nil => exact hfifo
      | cons e es =>
        obtain ⟨rfl, htail⟩ := List.cons_prefix_cons.1 hes
        exact (ih hstep (hstamped.step e)).2 hrest es htail

/-- **Arrival order within a tenant and class** is kept in every state of a run if and only if nobody
joins while a waiter of its tenant and class has a round above their number. -/
theorem fifo_of_run_iff (name : String) (limits : ScopeLimits) (nowMs : ℕ) (ops : List QueueOp) :
    (∀ es, es <+: ops → QueueState.Fifo (run queueStep (.new name limits nowMs) es).queue.waiting) ↔
      StepsMeet queueStep JoinsInOrder (.new name limits nowMs) ops :=
  fifo_run_iff ((QueueState.fifo_iff []).2 .nil) (fun _ hw => absurd hw List.not_mem_nil) ops

namespace Sample

def limits : ScopeLimits := { ScopeLimits.unlimited with maxConcurrency := 1, maxQueued := 8 }

/-- Three requests of one tenant join, two of them leave, and another joins. -/
def stayer : List QueueOp :=
  [.join .standard "acme", .join .standard "acme", .join .standard "acme", .leave 0, .leave 1,
    .join .standard "acme"]

/-- The one that joined last is served before the one that stayed. -/
theorem later_first :
    (run queueStep (.new "t" limits 0) stayer).queue.waiting =
        [⟨2, .standard, "acme", 2⟩, ⟨3, .standard, "acme", 1⟩] ∧
      (run queueStep (.new "t" limits 0) stayer).queue.head = some 3 ∧
      ¬QueueState.Fifo (run queueStep (.new "t" limits 0) stayer).queue.waiting := by
  have hwaiting : (run queueStep (.new "t" limits 0) stayer).queue.waiting =
      [⟨2, .standard, "acme", 2⟩, ⟨3, .standard, "acme", 1⟩] := by decide
  refine ⟨hwaiting, by decide, fun h => ?_⟩
  rw [hwaiting, QueueState.fifo_iff, List.pairwise_pair] at h
  exact absurd (h rfl rfl) (by decide)

end Sample

/-! ### Turns between tenants -/

/-- Of a tenant's waiters of a class at most one has round zero. -/
def OneFirst (v w : Waiter) : Prop := v.tenant = w.tenant → v.priority = w.priority → v.round = 0 → w.round ≠ 0

instance : Std.Symm OneFirst where
  symm _ _ h htenant hpriority hw hv := h htenant.symm hpriority.symm hv hw

theorem oneFirst_step {s : Scope} (h : s.queue.waiting.Pairwise OneFirst) (op : QueueOp) :
    (s.queueStep op).queue.waiting.Pairwise OneFirst := by
  cases op with
  | leave ticket => exact h.filter _
  | join priority tenant =>
    by_cases hroom : s.HasRoom
    · rw [(s.join_of_room priority tenant hroom).1, List.pairwise_append]
      refine ⟨h, List.pairwise_singleton _ _, fun w hw v hv htenant hpriority _ => ?_⟩
      rw [List.mem_singleton.1 hv] at htenant hpriority ⊢
      show s.queue.nextRound priority tenant ≠ 0
      have hpos : 0 < s.queue.nextRound priority tenant := by
        rw [QueueState.nextRound, List.countP_pos_iff]
        refine ⟨w, hw, ?_⟩
        rw [htenant, hpriority]
        simp [joining]
      omega
    · rw [s.join_of_no_room priority tenant hroom]
      exact h

/-- A waiter with its place: before it are some that were there when it joined, and of those behind it
none has an earlier ticket, or is of its tenant and class in the first round. -/
structure Placed (old : List Waiter) (w : Waiter) (s : Scope) : Prop where
  ticket : w.seq ≤ s.queue.nextSeq
  place : ∃ earlier later, s.queue.waiting = earlier ++ w :: later ∧ earlier.Sublist old ∧
    ∀ v ∈ later, w.seq ≤ v.seq ∧ (v.tenant = w.tenant → v.priority = w.priority → v.round ≠ 0)

/-- It keeps its place for as long as it is in line. -/
theorem Placed.step {old : List Waiter} {w : Waiter} {s : Scope} (h : Placed old w s) {op : QueueOp}
    (hstays : w ∈ (s.queueStep op).queue.waiting) : Placed old w (s.queueStep op) := by
  obtain ⟨earlier, later, hwaiting, hearlier, hlater⟩ := h.place
  cases op with
  | leave ticket =>
    refine ⟨h.ticket, ?_⟩
    rw [leave_waiting, List.mem_filter, decide_eq_true_eq] at hstays
    rw [leave_waiting, hwaiting, List.filter_append, List.filter_cons_of_pos (by simpa using hstays.2)]
    exact ⟨_, _, rfl, (List.filter_sublist).trans hearlier, fun v hv => hlater v (List.mem_of_mem_filter hv)⟩
  | join priority tenant =>
    by_cases hroom : s.HasRoom
    · obtain ⟨hjoined, hnext⟩ := s.join_of_room priority tenant hroom
      have hticket := h.ticket
      have hle := s.queue.nextSeq_le
      refine ⟨?_, earlier, later ++ [s.joining priority tenant], ?_, hearlier, fun v hv => ?_⟩
      · rw [hnext, satAdd]
        omega
      · rw [hjoined, hwaiting, List.append_assoc]
        rfl
      · rcases List.mem_append.1 hv with hv | hv
        · exact hlater v hv
        · rw [List.mem_singleton.1 hv]
          refine ⟨hticket, fun htenant hpriority => ?_⟩
          show s.queue.nextRound priority tenant ≠ 0
          have hpos : 0 < s.queue.nextRound priority tenant := by
            rw [QueueState.nextRound, List.countP_pos_iff, hwaiting]
            refine ⟨w, List.mem_append_right _ List.mem_cons_self, ?_⟩
            rw [← htenant, ← hpriority]
            simp [joining]
          omega
    · rw [s.join_of_no_room priority tenant hroom]
      exact h

/-- Whoever goes first of the others was there when it joined, in the first round of its tenant, or is of
a higher class. -/
theorem Placed.chosen {old : List Waiter} {w : Waiter} {s : Scope} (h : Placed old w s) (hround : w.round = 0)
    {v : Waiter} (hfirst : QueueState.first s.queue.waiting = some v) (hne : v ≠ w) :
    v.priority.rank < w.priority.rank ∨ v.priority = w.priority ∧ v ∈ old ∧ v.round = 0 := by
  obtain ⟨earlier, later, hwaiting, hearlier, hlater⟩ := h.place
  obtain ⟨earlier', later', hwaiting', hbefore, hnotBefore⟩ := QueueState.first_eq_some hfirst
  have hsplit : earlier ++ w :: later = earlier' ++ v :: later' := hwaiting.symm.trans hwaiting'
  rcases List.append_eq_append_iff.1 hsplit with ⟨between, hmore, hrest⟩ | ⟨between, hmore, hrest⟩
  · cases between with
    | nil =>
      rw [List.nil_append, List.cons.injEq] at hrest
      exact absurd hrest.1.symm hne
    | cons x between =>
      -- `w` comes before `v`, so `v` goes before it by class alone
      rw [List.cons_append, List.cons.injEq] at hrest
      obtain ⟨rfl, hrest⟩ := hrest
      have hgoes := (Waiter.before_iff v w).1
        (hbefore w (hmore ▸ List.mem_append_right _ List.mem_cons_self))
      have hseq := (hlater v (hrest ▸ List.mem_append_right _ List.mem_cons_self)).1
      rw [hround] at hgoes
      omega
  · cases between with
    | nil =>
      rw [List.nil_append, List.cons.injEq] at hrest
      exact absurd hrest.1 hne
    | cons x between =>
      -- `v` comes before `w`, which does not go before it
      rw [List.cons_append, List.cons.injEq] at hrest
      obtain ⟨rfl, hrest⟩ := hrest
      have hnot := (Waiter.before_eq_false_iff w v).1
        (hnotBefore w (hrest ▸ List.mem_append_right _ List.mem_cons_self))
      have hold : v ∈ old := hearlier.subset (hmore ▸ List.mem_append_right _ List.mem_cons_self)
      rw [hround] at hnot
      rcases hnot with hlt | ⟨hrank, hle⟩
      · exact .inl hlt
      · exact .inr ⟨PriorityClass.eq_of_rank hrank, hold, by omega⟩

/-- `w` is in line after each of these steps. -/
def Waits (w : Waiter) (s : Scope) (ops : List QueueOp) : Prop :=
  ∀ es, es <+: ops → w ∈ (run queueStep s es).queue.waiting

/-- Another waiter has its turn while `w` waits. -/
def ChosenBefore (w : Waiter) (s : Scope) (ops : List QueueOp) (v : Waiter) : Prop :=
  ∃ es, es <+: ops ∧ QueueState.first (run queueStep s es).queue.waiting = some v ∧ v ≠ w

theorem placed_run {old : List Waiter} {w : Waiter} {s : Scope} (h : Placed old w s) {ops : List QueueOp}
    (hwaits : Waits w s ops) : Placed old w (run queueStep s ops) := by
  induction ops generalizing s with
  | nil => exact h
  | cons op ops ih =>
    have hstays : w ∈ (s.queueStep op).queue.waiting := hwaits [op] (List.prefix_append [op] ops)
    exact ih (h.step hstays) fun es hes => hwaits (op :: es) (List.cons_prefix_cons.2 ⟨rfl, hes⟩)

/-- **One turn for each other tenant.**  After a waiter has joined alone of its tenant and class, those who
have their turn before it are of a higher class, or they were in line when it joined; and of these each
other tenant has at most one of its class. -/
theorem one_before (name : String) (limits : ScopeLimits) (nowMs : ℕ) (es : List QueueOp)
    (priority : PriorityClass) (tenant : TenantId) (fs : List QueueOp)
    (hroom : (run queueStep (.new name limits nowMs) es).HasRoom)
    (halone : ∀ v ∈ (run queueStep (.new name limits nowMs) es).queue.waiting,
      ¬(v.tenant = tenant ∧ v.priority = priority)) :
    let s := run queueStep (.new name limits nowMs) es
    let w := s.joining priority tenant
    Waits w (s.queueStep (.join priority tenant)) fs →
      (∀ v, ChosenBefore w (s.queueStep (.join priority tenant)) fs v →
        v.priority.rank < priority.rank ∨
          v.priority = priority ∧ v.tenant ≠ tenant ∧ v ∈ s.queue.waiting) ∧
      ∀ v v', ChosenBefore w (s.queueStep (.join priority tenant)) fs v →
        ChosenBefore w (s.queueStep (.join priority tenant)) fs v' →
        v.priority = priority → v'.priority = priority → v.tenant = v'.tenant → v = v' := by
  intro s w hwaits
  have hround : w.round = 0 := by
    show s.queue.nextRound priority tenant = 0
    rw [QueueState.nextRound, List.countP_eq_zero]
    intro v hv hsame
    rw [Bool.and_eq_true, decide_eq_true_eq, decide_eq_true_eq] at hsame
    exact halone v hv ⟨hsame.2, hsame.1⟩
  have honce : s.queue.waiting.Pairwise OneFirst := by
    refine run_invariant (P := fun s : Scope => s.queue.waiting.Pairwise OneFirst) (fun s op h => oneFirst_step h op) ?_ es
    exact List.Pairwise.nil
  have hplaced : Placed s.queue.waiting w (s.queueStep (.join priority tenant)) := by
    obtain ⟨hwaiting, hnext⟩ := s.join_of_room priority tenant hroom
    have hle := s.queue.nextSeq_le
    refine ⟨?_, s.queue.waiting, [], hwaiting, List.Sublist.refl _, fun _ hv => absurd hv List.not_mem_nil⟩
    rw [hnext, satAdd]
    show s.queue.nextSeq ≤ _
    omega
  have hchosen : ∀ v, ChosenBefore w (s.queueStep (.join priority tenant)) fs v →
      v.priority.rank < priority.rank ∨
        v.priority = priority ∧ v.tenant ≠ tenant ∧ v ∈ s.queue.waiting ∧ v.round = 0 := by
    rintro v ⟨gs, hgs, hfirst, hne⟩
    have hplaced' := placed_run hplaced fun es hes => hwaits es (hes.trans hgs)
    rcases hplaced'.chosen hround hfirst hne with hrank | ⟨hpriority, hold, hzero⟩
    · exact .inl hrank
    · exact .inr ⟨hpriority, fun htenant => halone v hold ⟨htenant, hpriority⟩, hold, hzero⟩
  refine ⟨fun v hv => (hchosen v hv).imp_right fun h => ⟨h.1, h.2.1, h.2.2.1⟩, ?_⟩
  intro v v' hv hv' hpriority hpriority' htenant
  rcases hchosen v hv with hrank | ⟨-, -, hold, hzero⟩
  · rw [hpriority] at hrank
    omega
  rcases hchosen v' hv' with hrank | ⟨-, -, hold', hzero'⟩
  · rw [hpriority'] at hrank
    omega
  by_contra hne
  exact honce.forall hold hold' hne htenant (hpriority.trans hpriority'.symm) hzero hzero'

namespace Sample

/-- A backlog of one tenant. -/
def backlog : List QueueOp := [.join .standard "acme", .join .standard "acme", .join .standard "acme"]

/-- The head is served, and the backlog grows. -/
def service : List QueueOp := [.join .standard "acme", .leave 0, .join .standard "acme"]

/-- Another tenant's request joins behind the backlog. -/
def single : Waiter := ⟨3, .standard, "globex", 0⟩

theorem one_of_the_backlog_before :
    (∃ v, ChosenBefore single ((run queueStep (.new "t" limits 0) backlog).queueStep (.join .standard "globex"))
        service v) ∧
      ∀ v v', ChosenBefore single
          ((run queueStep (.new "t" limits 0) backlog).queueStep (.join .standard "globex")) service v →
        ChosenBefore single
          ((run queueStep (.new "t" limits 0) backlog).queueStep (.join .standard "globex")) service v' →
        v.priority = .standard → v'.priority = .standard → v.tenant = v'.tenant → v = v' := by
  have hwaits : Waits single
      ((run queueStep (.new "t" limits 0) backlog).queueStep (.join .standard "globex")) service := by
    intro es hes
    have hin : ∀ es ∈ service.inits, single ∈ (run queueStep
        ((run queueStep (.new "t" limits 0) backlog).queueStep (.join .standard "globex")) es).queue.waiting := by
      decide
    exact hin es ((List.mem_inits es service).2 hes)
  have hbound := one_before "t" limits 0 backlog .standard "globex" service (by decide) (by decide) hwaits
  refine ⟨⟨⟨0, .standard, "acme", 0⟩, [], List.nil_prefix, by decide, by decide⟩, hbound.2⟩

end Sample

end Scope

end HypeLlm.Admission
