import HypeLlm.Lib.Lists
import HypeLlm.Admission.Moves

/-!
# Reservations are conserved

For every run of the system and every scope ever created, dropped from the maps or not:

* the requests in flight and the difference of the two counters are the number of unfinished
  reservations that hold the scope, in the arithmetic of their widths;
* a reservation releases each of its scopes once, when it is finished, and no other scope;
* a request is admitted at a scope only while the scope has room;
* so the requests in flight never exceed the largest limit in force since they were last within it.

`inFlight` is a 32-bit counter that goes round, so that it *is* the number of reservations needs fewer
than `2 ^ 32` of them to hold the scope at once (`in_flight_goes_round`).
-/

namespace HypeLlm.Admission

open HypeLlm.Words HypeLlm.Machine HypeLlm.Runs

/-! ### One scope -/

namespace Scope

/-- The counters of a scope that `n` reservations hold. -/
structure Booked (n : ℕ) (s : Scope) : Prop where
  inFlight : s.inFlight = UInt32.ofNat n
  balance : s.acquired - s.released = UInt64.ofNat n

theorem Booked.quiet {n : ℕ} {s s' : Scope} (h : Booked n s) (hq : Quiet s s') : Booked n s' :=
  ⟨hq.inFlight.trans h.inFlight, hq.balance.trans h.balance⟩

theorem Idle.booked {s : Scope} (h : Idle s) : Booked 0 s := ⟨h.inFlight, h.balance⟩

theorem Booked.acquired {n tokens nowMs : ℕ} {ticket : Option ℕ} {s s' : Scope} (h : Booked n s)
    (ha : Acquired tokens nowMs ticket s s') : Booked (n + 1) s' where
  inFlight := by
    rw [ha.inFlight, h.inFlight, UInt32.ofNat_add]
    rfl
  balance := by
    have hbalance := h.balance
    rw [ha.acquired, ha.released, UInt64.ofNat_add, ← hbalance]
    show s.acquired + 1 - s.released = s.acquired - s.released + 1
    grind

theorem Booked.release {n : ℕ} {s : Scope} (h : Booked (n + 1) s) (reserved actual nowMs : ℕ) :
    Booked n (s.release reserved actual nowMs) where
  inFlight := by
    show s.inFlight - 1 = UInt32.ofNat n
    rw [h.inFlight, UInt32.ofNat_add]
    exact UInt32.add_sub_cancel _ _
  balance := by
    have hbalance := h.balance
    rw [UInt64.ofNat_add] at hbalance
    have hone : UInt64.ofNat 1 = 1 := rfl
    show s.acquired - (s.released + 1) = UInt64.ofNat n
    grind

/-- Below `2 ^ 32` reservations the counters are exact. -/
theorem Booked.exact {n : ℕ} {s : Scope} (h : Booked n s) (hn : n < 2 ^ 32) :
    s.inFlight.toNat = n ∧ (s.acquired - s.released).toNat = n := by
  rw [h.inFlight, h.balance]
  exact ⟨UInt32.toNat_ofNat_of_lt' hn, UInt64.toNat_ofNat_of_lt' (hn.trans (by decide))⟩

end Scope

/-! ### The scopes of a reservation -/

theorem releaseAll_next (reserved actual nowMs : ℕ) (held : List ScopeRef) (scopes : Heap Scope) :
    (releaseAll reserved actual nowMs held scopes).next = scopes.next := by
  induction held generalizing scopes with
  | nil => rfl
  | cons i held ih => exact ih _

theorem releaseAll_cell (reserved actual nowMs : ℕ) {held : List ScopeRef} (hnodup : held.Nodup)
    (scopes : Heap Scope) (i : ScopeRef) :
    (releaseAll reserved actual nowMs held scopes).cell i
      = if i ∈ held then (scopes.cell i).release reserved actual nowMs else scopes.cell i := by
  induction held generalizing scopes with
  | nil => rfl
  | cons j held ih =>
    obtain ⟨hj, hrest⟩ := List.nodup_cons.mp hnodup
    have hcell := ih hrest (scopes.modify j (·.release reserved actual nowMs))
    rw [Heap.modify_cell] at hcell
    refine Eq.trans hcell ?_
    by_cases hij : i = j
    · subst hij
      rw [if_neg hj, if_pos rfl, if_pos List.mem_cons_self]
    · simp only [List.mem_cons, hij, if_false, false_or]

namespace System

/-- An unfinished reservation of scope `i`. -/
def holds (i : ScopeRef) (r : Reservation) : Bool := !r.released && r.scopes.contains i

/-- The unfinished reservations that hold scope `i`. -/
def holding (s : System) (i : ScopeRef) : ℕ := s.reservations.countP (holds i)

/-! ### The books -/

/-- What every run keeps. -/
structure Sound (s : System) : Prop where
  wired : s.controller.Wired
  booked : ∀ i, i < s.controller.scopes.next → (s.controller.scopes.cell i).Booked (s.holding i)
  bounded : ∀ r ∈ s.reservations, ∀ i ∈ r.scopes, i < s.controller.scopes.next
  nodup : ∀ r ∈ s.reservations, r.scopes.Nodup

/-- Nobody holds a scope that does not exist yet. -/
theorem Sound.holding_fresh {s : System} (h : Sound s) {i : ScopeRef}
    (hi : s.controller.scopes.next ≤ i) : s.holding i = 0 := by
  refine List.countP_eq_zero.mpr fun r hr hholds => ?_
  simp only [holds, Bool.and_eq_true, List.contains_iff_mem] at hholds
  exact absurd (h.bounded r hr i hholds.2) (Nat.not_lt.mpr hi)

theorem booked_quiet {s : System} (h : Sound s) {scopes : Heap Scope}
    (g : QuietGrowth s.controller.scopes scopes) {i : ScopeRef} (hi : i < scopes.next) :
    (scopes.cell i).Booked (s.holding i) := by
  rcases Nat.lt_or_ge i s.controller.scopes.next with hold | hnew
  · exact (h.booked i hold).quiet (g.old i hold)
  · rw [h.holding_fresh hnew]
    exact (g.fresh i hnew hi).booked

theorem holding_append {s s' : System} {r : Reservation}
    (h : s'.reservations = s.reservations ++ [r]) (hr : r.released = false) (i : ScopeRef) :
    s'.holding i = s.holding i + if i ∈ r.scopes then 1 else 0 := by
  simp only [holding, h, List.countP_append, List.countP_cons, List.countP_nil, holds, hr,
    Bool.not_false, Bool.true_and, List.contains_iff_mem, Nat.zero_add]

theorem holding_set {s s' : System} {id : ℕ} {r r' : Reservation}
    (hslot : s.reservations[id]? = some r) (h : s'.reservations = s.reservations.set id r')
    (hr : r'.released = true) (i : ScopeRef) :
    s'.holding i + (if holds i r then 1 else 0) = s.holding i := by
  have hset := Lists.countP_set (holds i) s.reservations id r r' hslot
  have hdone : holds i r' = false := by simp [holds, hr]
  rw [hdone] at hset
  simpa [holding, h] using hset

theorem mem_set {s : System} {id : ℕ} {r r' : Reservation} {P : Reservation → Prop}
    (hslot : s.reservations[id]? = some r) (hr' : P r → P r')
    (h : ∀ r ∈ s.reservations, P r) : ∀ r ∈ s.reservations.set id r', P r := by
  intro q hq
  rcases List.mem_or_eq_of_mem_set hq with hq | rfl
  · exact h q hq
  · exact hr' (h r (List.mem_of_getElem? hslot))

theorem sound_admitted {s s' : System} (h : Sound s) (hw : s'.controller.Wired) {k : Call}
    {r : Reservation} (ha : Admitted s k r s') : Sound s' := by
  have hlook := (s.controller.chain_looked k.route k.clock).quiet
  have hnodup : r.scopes.Nodup := ha.scopes ▸ Controller.chain_nodup h.wired k.route k.clock
  have hgrow := ha.acquired.steady
  have hnext : s.controller.scopes.next ≤ s'.controller.scopes.next :=
    hlook.next_le.trans hgrow.next_le
  refine ⟨hw, fun i hi => ?_, fun q hq i hi => ?_, fun q hq => ?_⟩
  · have hi' : i < (s.controller.chain k.route k.clock).2.scopes.next := by
      rwa [ha.acquired.next] at hi
    have hbooked := booked_quiet h hlook hi'
    obtain ⟨hout, hin⟩ := ha.acquired.cell hnodup i
    rw [holding_append ha.reservations ha.unreleased]
    by_cases hmem : i ∈ r.scopes
    · rw [if_pos hmem]
      exact hbooked.acquired (hin hmem)
    · rw [if_neg hmem, hout hmem]
      exact hbooked
  · rw [ha.reservations, List.mem_append, List.mem_singleton] at hq
    rcases hq with hq | rfl
    · exact (h.bounded q hq i hi).trans_le hnext
    · rw [ha.scopes] at hi
      exact ((s.controller.chain_candidate k.route k.clock hi).lt
        ((s.controller.chain_extends k.route k.clock).wired h.wired)).trans_le hgrow.next_le
  · rw [ha.reservations, List.mem_append, List.mem_singleton] at hq
    rcases hq with hq | rfl
    · exact h.nodup q hq
    · exact hnodup

theorem sound_step (s : System) (e : Op) (h : Sound s) : Sound (s.step e) := by
  have hw := s.wired_step e h.wired
  cases s.step_move e with
  | quiet _ hreservations hscopes =>
    refine ⟨hw, fun i hi => ?_, ?_, ?_⟩
    · have hholding : (s.step e).holding i = s.holding i := by simp only [holding, hreservations]
      rw [hholding]
      exact booked_quiet h hscopes hi
    · rw [hreservations]
      exact fun r hr i hi => (h.bounded r hr i hi).trans_le hscopes.next_le
    · rw [hreservations]
      exact h.nodup
  | admitted k r _ hadmitted => exact sound_admitted h hw hadmitted
  | finished id r r' _ hslot hopen hdone hsame hreservations hscopes =>
    obtain ⟨actual, nowMs, hscopes⟩ := hscopes
    have hmem := List.mem_of_getElem? hslot
    have hnodup := List.nodup_reverse.mpr (h.nodup r hmem)
    have hnext : (s.step e).controller.scopes.next = s.controller.scopes.next := by
      rw [hscopes, releaseAll_next]
    refine ⟨hw, fun i hi => ?_, ?_, ?_⟩
    · have hbooked := h.booked i (hi.trans_eq hnext)
      have hcount := holding_set hslot hreservations hdone i
      rw [hscopes, releaseAll_cell _ _ _ hnodup]
      simp only [List.mem_reverse, holds, hopen, Bool.not_false, Bool.true_and,
        List.contains_iff_mem] at hcount ⊢
      rw [← hcount] at hbooked
      split
      · rename_i hi'
        rw [if_pos hi'] at hbooked
        exact hbooked.release _ _ _
      · rename_i hi'
        rw [if_neg hi'] at hbooked
        exact hbooked
    · rw [hreservations, hnext]
      exact mem_set hslot (fun hr => hsame ▸ hr) h.bounded
    · rw [hreservations]
      exact mem_set hslot (fun hr => hsame ▸ hr) h.nodup
  | again id r r' _ hslot hclosed hdone hsame hreservations hscopes =>
    refine ⟨hw, fun i hi => ?_, ?_, ?_⟩
    · have hcount := holding_set hslot hreservations hdone i
      have hnot : holds i r = false := by simp [holds, hclosed]
      simp only [hnot, Bool.false_eq_true, if_false, Nat.add_zero] at hcount
      rw [hcount]
      rw [hscopes] at hi ⊢
      exact h.booked i hi
    · rw [hreservations, hscopes]
      exact mem_set hslot (fun hr => hsame ▸ hr) h.bounded
    · rw [hreservations]
      exact mem_set hslot (fun hr => hsame ▸ hr) h.nodup

theorem sound_init (global : ScopeLimits) (nowMs : ℕ) : Sound (init global nowMs) where
  wired := wired_init global nowMs
  booked i hi := by
    obtain rfl : i = 0 := Nat.lt_one_iff.mp hi
    exact (Scope.idle_new globalName global nowMs).booked
  bounded r hr := absurd hr List.not_mem_nil
  nodup r hr := absurd hr List.not_mem_nil

theorem sound_after (global : ScopeLimits) (nowMs : ℕ) (es : List Op) :
    Sound (after global nowMs es) := run_invariant sound_step (sound_init global nowMs) es

/-! ### Releases -/

/-- By how much a step raises the number of releases scope `i` has counted. -/
def rise (s : System) (e : Op) (i : ScopeRef) : ℕ :=
  (((s.step e).controller.scopes.cell i).released - (s.controller.scopes.cell i).released).toNat

/-- How often the steps that finish reservation `id` release scope `i`. -/
def timesReleased (id : ℕ) (i : ScopeRef) : System → List Op → ℕ
  | _, [] => 0
  | s, e :: es => (if e.finishes = some id then s.rise e i else 0) + timesReleased id i (s.step e) es

/-- One if reservation `id` is finished and had scope `i`. -/
def released (s : System) (id : ℕ) (i : ScopeRef) : ℕ :=
  match s.reservations[id]? with
  | some r => if r.released && r.scopes.contains i then 1 else 0
  | none => 0

theorem rise_eq_zero {s : System} {e : Op} {i : ScopeRef}
    (h : (s.step e).controller.scopes = s.controller.scopes) : s.rise e i = 0 := by
  rw [rise, h, UInt64.sub_self]
  rfl

theorem released_set {s s' : System} {id id' : ℕ} {r' : Reservation}
    (h : s'.reservations = s.reservations.set id' r') (hne : id' ≠ id) (i : ScopeRef) :
    s'.released id i = s.released id i := by
  simp only [released, h, List.getElem?_set_ne hne]

theorem released_set_self {s s' : System} {id : ℕ} {r r' : Reservation}
    (hslot : s.reservations[id]? = some r) (h : s'.reservations = s.reservations.set id r')
    (hdone : r'.released = true) (hsame : r'.scopes = r.scopes) (i : ScopeRef) :
    s'.released id i = if i ∈ r.scopes then 1 else 0 := by
  obtain ⟨hlt, -⟩ := List.getElem?_eq_some_iff.mp hslot
  simp only [released, h, List.getElem?_set_self hlt, hdone, hsame, Bool.true_and,
    List.contains_iff_mem]

theorem released_append {s s' : System} {r : Reservation}
    (h : s'.reservations = s.reservations ++ [r]) (hr : r.released = false) (id : ℕ) (i : ScopeRef) :
    s'.released id i = s.released id i := by
  rcases Nat.lt_trichotomy id s.reservations.length with hlt | rfl | hgt
  · simp only [released, h, List.getElem?_append_left hlt]
  · simp [released, h, hr]
  · have hnone : (s.reservations ++ [r])[id]? = none :=
      List.getElem?_eq_none (by rw [List.length_append]; exact hgt)
    simp only [released, h, hnone, List.getElem?_eq_none hgt.le]

/-- A step releases scope `i` for reservation `id` when it finishes it, and not again. -/
theorem released_step {s : System} (h : Sound s) (e : Op) (id : ℕ) (i : ScopeRef) :
    (if e.finishes = some id then s.rise e i else 0) + s.released id i
      = (s.step e).released id i := by
  cases s.step_move e with
  | quiet hop hreservations _ =>
    have hsame : (s.step e).released id i = s.released id i := by
      simp only [released, hreservations]
    rcases hop with hop | hstay
    · rw [if_neg (by simp [hop]), hsame, Nat.zero_add]
    · rw [rise_eq_zero (by rw [hstay]), hsame, ite_self, Nat.zero_add]
  | admitted k r hcall hadmitted =>
    rw [if_neg (by simp [callOf_finishes hcall]), Nat.zero_add,
      released_append hadmitted.reservations hadmitted.unreleased]
  | finished id' r r' hop hslot hopen hdone hsame hreservations hscopes =>
    obtain ⟨actual, nowMs, hscopes⟩ := hscopes
    by_cases hid : id' = id
    · subst hid
      have hnodup := List.nodup_reverse.mpr (h.nodup r (List.mem_of_getElem? hslot))
      have hbefore : s.released id' i = 0 := by simp [released, hslot, hopen]
      rw [if_pos hop, hbefore, released_set_self hslot hreservations hdone hsame, rise, hscopes,
        releaseAll_cell _ _ _ hnodup]
      simp only [List.mem_reverse]
      split
      · show (((s.controller.scopes.cell i).released + 1)
          - (s.controller.scopes.cell i).released).toNat + 0 = 1
        rw [UInt64.add_comm, UInt64.add_sub_cancel]
        rfl
      · rw [UInt64.sub_self]
        rfl
    · rw [if_neg (by simp [hop, hid]), Nat.zero_add, released_set hreservations hid]
  | again id' r r' hop hslot hclosed hdone hsame hreservations hscopes =>
    rw [rise_eq_zero hscopes, ite_self, Nat.zero_add]
    by_cases hid : id' = id
    · subst hid
      rw [released_set_self hslot hreservations hdone hsame]
      simp [released, hslot, hclosed]
    · rw [released_set hreservations hid]

theorem timesReleased_run (id : ℕ) (i : ScopeRef) (es : List Op) :
    ∀ s, Sound s → timesReleased id i s es + s.released id i = (run step s es).released id i := by
  induction es with
  | nil =>
    intro s _
    exact Nat.zero_add _
  | cons e es ih =>
    intro s h
    have hstep := released_step h e id i
    have hrest := ih (s.step e) (sound_step s e h)
    rw [run_cons, ← hrest, ← hstep, timesReleased]
    omega

/-! ### Room -/

/-- The limit of a scope; zero means none. -/
def ceiling (s : Scope) : ℕ∞ :=
  if s.limits.maxConcurrency = 0 then ⊤ else (s.limits.maxConcurrency.toNat : ℕ∞)

/-- The largest limit of scope `i` in the states of a run. -/
noncomputable def largestLimit (i : ScopeRef) : System → List Op → ℕ∞
  | s, [] => ceiling (s.controller.scopes.cell i)
  | s, e :: es => max (ceiling (s.controller.scopes.cell i)) (largestLimit i (s.step e) es)

/-- The requests a scope counts as in flight. -/
def inFlight (s : System) (i : ScopeRef) : ℕ := (s.controller.scopes.cell i).inFlight.toNat

theorem room_of_hasCapacity {s : Scope} (h : s.hasCapacity = true) :
    s.limits.maxConcurrency = 0 ∨ s.inFlight < s.limits.maxConcurrency := by
  simpa [Scope.hasCapacity] using h

/-- An acquisition leaves the requests in flight within the limit it found. -/
theorem acquired_le_ceiling {tokens nowMs : ℕ} {ticket : Option ℕ} {s s' : Scope}
    (h : Scope.Acquired tokens nowMs ticket s s') : (s'.inFlight.toNat : ℕ∞) ≤ ceiling s := by
  unfold ceiling
  split
  · exact le_top
  · rename_i hlimit
    have hlt := UInt32.lt_iff_toNat_lt.mp ((room_of_hasCapacity h.room).resolve_left hlimit)
    have hmax := s.limits.maxConcurrency.toNat_lt
    rw [h.inFlight, UInt32.toNat_add, Nat.cast_le]
    have hone : (1 : UInt32).toNat = 1 := rfl
    rw [hone, Nat.mod_eq_of_lt (by omega)]
    omega

/-- **A step keeps the requests in flight within what they were and the limit in force.** -/
theorem inFlight_step {s : System} (h : Sound s) (e : Op) {i : ScopeRef}
    (hi : i < s.controller.scopes.next) (hn : s.holding i < 2 ^ 32) :
    ((s.step e).inFlight i : ℕ∞) ≤ max (s.inFlight i : ℕ∞) (ceiling (s.controller.scopes.cell i)) := by
  cases s.step_move e with
  | quiet _ _ hscopes =>
    refine le_max_of_le_left (le_of_eq ?_)
    rw [inFlight, (hscopes.old i hi).inFlight]
    rfl
  | admitted k r _ hadmitted =>
    have hlook := (s.controller.chain_looked k.route k.clock).old i hi
    have hnodup : r.scopes.Nodup :=
      hadmitted.scopes ▸ Controller.chain_nodup h.wired k.route k.clock
    obtain ⟨hout, hin⟩ := hadmitted.acquired.cell hnodup i
    by_cases hmem : i ∈ r.scopes
    · have hacquired := hin hmem
      rw [← hlook] at hacquired
      exact le_max_of_le_right (acquired_le_ceiling hacquired)
    · refine le_max_of_le_left (le_of_eq ?_)
      rw [inFlight, hout hmem, ← hlook]
      rfl
  | finished id r r' _ hslot hopen hdone hsame hreservations hscopes =>
    obtain ⟨actual, nowMs, hscopes⟩ := hscopes
    have hmem := List.mem_of_getElem? hslot
    have hnodup := List.nodup_reverse.mpr (h.nodup r hmem)
    refine le_max_of_le_left (Nat.cast_le.mpr ?_)
    rw [inFlight, hscopes, releaseAll_cell _ _ _ hnodup]
    split
    · rename_i hheld
      -- Somebody holds the scope, so the counter does not go round below zero.
      have hexact := ((h.booked i hi).exact hn).1
      have hholds : holds i r = true := by
        simpa [holds, hopen] using hheld
      have hpos : 0 < s.holding i := List.countP_pos_iff.mpr ⟨r, hmem, hholds⟩
      show ((s.controller.scopes.cell i).inFlight - 1).toNat ≤ s.inFlight i
      have hle : (1 : UInt32) ≤ (s.controller.scopes.cell i).inFlight := by
        rw [UInt32.le_iff_toNat_le, hexact]
        exact hpos
      rw [UInt32.toNat_sub_of_le _ _ hle, inFlight]
      exact Nat.sub_le _ _
    · exact le_rfl
  | again _ _ _ _ _ _ _ _ _ hscopes =>
    refine le_max_of_le_left (le_of_eq ?_)
    rw [inFlight, hscopes]
    rfl

theorem step_next_le (s : System) (e : Op) :
    s.controller.scopes.next ≤ (s.step e).controller.scopes.next := by
  rcases s.step_extends e with ⟨plan, nowMs, rfl⟩ | hextends
  · exact (s.controller.apply_published plan nowMs).quiet.next_le
  · exact hextends.steady.next_le

theorem inFlight_run {i : ScopeRef} (es : List Op) :
    ∀ (s : System) (b : ℕ∞), Sound s → i < s.controller.scopes.next →
      StepsMeet step (fun s _ => s.holding i < 2 ^ 32) s es → (s.inFlight i : ℕ∞) ≤ b →
      ((run step s es).inFlight i : ℕ∞) ≤ max b (largestLimit i s es) := by
  induction es with
  | nil =>
    intro s b _ _ _ hb
    exact le_max_of_le_left hb
  | cons e es ih =>
    intro s b h hi hmeet hb
    have hstep := (inFlight_step h e hi hmeet.1).trans (max_le_max_right _ hb)
    have hrest := ih (s.step e) _ (sound_step s e h) (hi.trans_le (s.step_next_le e)) hmeet.2 hstep
    rw [max_assoc] at hrest
    exact hrest

end System

/-! ### A counter that goes round -/

/-- A scope that refuses nothing. -/
structure Scope.Unlimited (s : Scope) : Prop where
  limits : s.limits = .unlimited
  requestBucket : s.requestBucket = none
  tokenBucket : s.tokenBucket = none
  waiting : s.queue.waiting = []

theorem Scope.unlimited_new (name : String) (ms : ℕ) : (Scope.new name .unlimited ms).Unlimited :=
  ⟨rfl, rfl, rfl, rfl⟩

theorem Scope.Unlimited.tryAcquireAs {s : Scope} (h : s.Unlimited) (tokens nowMs : ℕ)
    (ticket : Option ℕ) :
    ∃ s', s.tryAcquireAs tokens nowMs ticket = (.ok (), s') ∧ s'.Unlimited := by
  obtain ⟨hlimits, hrequest, htoken, hwaiting⟩ := h
  have hover : s.overBudget nowMs = false := by
    simp [overBudget, hlimits, ScopeLimits.unlimited]
  have hyield : s.mustYield ticket = false := by
    simp [mustYield, QueueState.head, QueueState.first, hwaiting]
  have hroom : s.hasCapacity = true := by
    simp [hasCapacity, hlimits, ScopeLimits.unlimited]
  have hroll : s.rollBudget nowMs = s := by
    simp [rollBudget, hlimits, ScopeLimits.unlimited]
  simp only [Scope.tryAcquireAs, hover, hyield, hroom, hroll, hrequest, htoken, withBucket,
    Bool.not_true, Bool.false_eq_true, if_false]
  exact ⟨_, rfl, hlimits, rfl, rfl, hwaiting⟩

theorem acquireAll_unlimited {tokens nowMs : ℕ} {ticketAt : String → Option ℕ}
    (chain held : List ScopeRef) (scopes : Heap Scope) (h : ∀ i, (scopes.cell i).Unlimited) :
    ∃ scopes', acquireAll tokens nowMs ticketAt chain held scopes
        = (.ok (held.reverse ++ chain), scopes') ∧ ∀ i, (scopes'.cell i).Unlimited := by
  induction chain generalizing held scopes with
  | nil => exact ⟨scopes, by rw [acquireAll, List.append_nil], h⟩
  | cons j rest ih =>
    obtain ⟨s', hacquire, hs'⟩ := (h j).tryAcquireAs tokens nowMs (ticketAt (scopes.cell j).name)
    obtain ⟨scopes', hloop, hscopes'⟩ := ih (j :: held) (scopes.set j s') fun i => by
      rw [Heap.set_cell]
      split
      · exact hs'
      · exact h i
    refine ⟨scopes', ?_, hscopes'⟩
    simp only [acquireAll, hacquire]
    rw [hloop, List.reverse_cons, List.append_assoc, List.singleton_append]

/-- A controller that refuses nothing. -/
structure Controller.Unlimited (c : Controller) : Prop where
  scopes : ∀ i, (c.scopes.cell i).Unlimited
  tenants : c.defaultTenantLimits = .unlimited
  principals : c.defaultPrincipalLimits = .unlimited
  memory : c.targetMemory = ∅

namespace Controller

theorem Unlimited.tenantScope {c : Controller} (h : c.Unlimited) (tenant : TenantId) (ms : ℕ) :
    (c.tenantScope tenant ms).2.Unlimited := by
  simp only [Controller.tenantScope]
  split
  · exact h
  · refine ⟨fun i => ?_, h.tenants, h.principals, h.memory⟩
    simp only [Heap.alloc_cell, h.tenants]
    split
    · exact Scope.unlimited_new _ _
    · exact h.scopes i

theorem Unlimited.principalScope {c : Controller} (h : c.Unlimited) (principal : PrincipalId)
    (ms : ℕ) : (c.principalScope principal ms).2.Unlimited := by
  simp only [Controller.principalScope]
  split
  · exact h
  · refine ⟨fun i => ?_, h.tenants, h.principals, h.memory⟩
    simp only [Heap.alloc_cell, h.principals]
    split
    · exact Scope.unlimited_new _ _
    · exact h.scopes i

theorem Unlimited.chain {c : Controller} (h : c.Unlimited) (route : Route) (clock : Readings) :
    (c.chain route clock).2.Unlimited :=
  (h.tenantScope route.tenant clock.tenant).principalScope route.principal clock.principal

/-- It admits every request. -/
theorem Unlimited.reserve {c : Controller} (h : c.Unlimited) (route : Route) (tokens : ℕ)
    (clock : Readings) :
    ∃ r c', c.acquireChain route tokens none (.take .standard none) clock = (.ok r, c') ∧
      c'.Unlimited ∧ c'.global = c.global ∧ c.global ∈ r.scopes ∧ r.released = false := by
  have hchain := h.chain route clock
  have hglobal := (c.chain_extends route clock).global
  obtain ⟨scopes, hloop, hscopes⟩ := @acquireAll_unlimited tokens clock.now
    ((c.chain route clock).2.ticketAt none) (c.chain route clock).1 [] _ hchain.scopes
  have hmachine : { (c.chain route clock).2 with scopes := scopes }.machineFor route.target .standard
      = none := by
    simp [machineFor, hchain.memory]
  refine ⟨⟨(c.chain route clock).1, tokens, false, route.target, none⟩,
    { (c.chain route clock).2 with scopes := scopes }, ?_, ⟨hscopes, hchain.tenants,
    hchain.principals, hchain.memory⟩, hglobal, ?_, rfl⟩
  · simp only [acquireChain, hloop, acquireMemory, hmachine]
    rfl
  · obtain ⟨_, _, _, _, heq, -⟩ := c.chain_eq route clock
    show c.global ∈ (c.chain route clock).1
    rw [heq, hglobal]
    exact List.mem_append_left _ (List.mem_append_left _ List.mem_cons_self)

end Controller

namespace System

/-- `n` reservations in a row. -/
def crowd (n : ℕ) : List Op := List.replicate n (.reserveFor ⟨"acme", "svc", none, "t"⟩ 0 ⟨0, 0, 0⟩)

theorem crowd_holding (n : ℕ) : (after .unlimited 0 (crowd n)).holding 0 = n := by
  have hcrowd : (after .unlimited 0 (crowd n)).controller.Unlimited ∧
      (after .unlimited 0 (crowd n)).controller.global = 0 ∧
      (after .unlimited 0 (crowd n)).holding 0 = n := by
    induction n with
    | zero =>
      refine ⟨⟨fun i => ?_, rfl, rfl, rfl⟩, rfl, rfl⟩
      show (((Heap.empty Controller.noScope).alloc (.new globalName .unlimited 0)).cell i).Unlimited
      rw [Heap.alloc_cell]
      split <;> exact Scope.unlimited_new _ _
    | succ n ih =>
      obtain ⟨hopen, hglobal, hholding⟩ := ih
      have hlast : after .unlimited 0 (crowd (n + 1)) = (after .unlimited 0 (crowd n)).step
          (.reserveFor ⟨"acme", "svc", none, "t"⟩ 0 ⟨0, 0, 0⟩) := by
        rw [after, crowd, List.replicate_succ', run_snoc]
        rfl
      obtain ⟨r, c', hcall, hopen', hglobal', hmem, hr⟩ :=
        hopen.reserve ⟨"acme", "svc", none, "t"⟩ 0 ⟨0, 0, 0⟩
      have hstep : (after .unlimited 0 (crowd n)).step
          (.reserveFor ⟨"acme", "svc", none, "t"⟩ 0 ⟨0, 0, 0⟩) =
          { after .unlimited 0 (crowd n) with
            controller := c'
            reservations := (after .unlimited 0 (crowd n)).reservations ++ [r] } := by
        simp only [step, acquire, Controller.call, hcall]
      rw [hlast, hstep]
      refine ⟨hopen', hglobal'.trans hglobal, ?_⟩
      rw [holding_append rfl hr, hholding, if_pos (hglobal ▸ hmem)]
  exact hcrowd.2.2

/-- With `2 ^ 32` reservations of one scope its counter of requests in flight says there are none. -/
theorem in_flight_goes_round :
    0 < (after .unlimited 0 (crowd (2 ^ 32))).controller.scopes.next ∧
    (after .unlimited 0 (crowd (2 ^ 32))).holding 0 = 2 ^ 32 ∧
    (after .unlimited 0 (crowd (2 ^ 32))).inFlight 0 = 0 := by
  have hsound := sound_after .unlimited 0 (crowd (2 ^ 32))
  have hglobal : 0 < (after .unlimited 0 (crowd (2 ^ 32))).controller.scopes.next :=
    (Nat.zero_le _).trans_lt hsound.wired.global_lt
  have hbooked := (hsound.booked 0 hglobal).inFlight
  rw [crowd_holding] at hbooked
  refine ⟨hglobal, crowd_holding _, ?_⟩
  rw [inFlight, hbooked]
  rfl

/-! ### The whole -/

/-- The scope a step found at `i`, or the one it created there, had room. -/
def HadRoom (s : System) (i : ScopeRef) : Prop :=
  ∃ found : Scope, (i < s.controller.scopes.next → found = s.controller.scopes.cell i) ∧
    (s.controller.scopes.next ≤ i → Controller.Created found) ∧
    (found.limits.maxConcurrency = 0 ∨ found.inFlight < found.limits.maxConcurrency)

theorem hadRoom_of_admitted {s : System} (h : Sound s) (e : Op) {r : Reservation}
    (hr : (s.step e).reservations = s.reservations ++ [r]) {i : ScopeRef} (hi : i ∈ r.scopes) :
    s.HadRoom i := by
  cases s.step_move e with
  | quiet _ hsame _ =>
    have hlength := congrArg List.length (hr.symm.trans hsame)
    simp at hlength
  | admitted k r' _ hadmitted =>
    obtain rfl : r' = r := by
      have hlist := hadmitted.reservations.symm.trans hr
      simpa using hlist
    have hnodup : r'.scopes.Nodup := hadmitted.scopes ▸ Controller.chain_nodup h.wired k.route k.clock
    have hlook := s.controller.chain_looked k.route k.clock
    have hacquired := (hadmitted.acquired.cell hnodup i).2 hi
    have hlt := (s.controller.chain_candidate k.route k.clock (hadmitted.scopes ▸ hi)).lt
      ((s.controller.chain_extends k.route k.clock).wired h.wired)
    exact ⟨_, fun hold => (hlook.old i hold).symm, fun hnew => hlook.fresh i hnew hlt,
      room_of_hasCapacity hacquired.room⟩
  | finished id q q' _ _ _ _ _ hset _ =>
    have hlength := congrArg List.length (hr.symm.trans hset)
    simp at hlength
  | again id q q' _ _ _ _ _ hset _ =>
    have hlength := congrArg List.length (hr.symm.trans hset)
    simp at hlength

theorem released_le_one (s : System) (id : ℕ) (i : ScopeRef) : s.released id i ≤ 1 := by
  unfold released
  split
  · split <;> decide
  · decide

/-- **Reservations are conserved.**  After every run: the counters of every scope are those of the
unfinished reservations that hold it, exactly while these are fewer than `2 ^ 32`; a reservation has
released a scope once if it is finished and held it, and else never; whoever was admitted found room;
and the requests in flight are within the largest limit in force since they last were within it. -/
theorem reservations_are_conserved (global : ScopeLimits) (nowMs : ℕ) (es : List Op) :
    (∀ i, i < (after global nowMs es).controller.scopes.next →
      ((after global nowMs es).controller.scopes.cell i).Booked ((after global nowMs es).holding i) ∧
      ((after global nowMs es).holding i < 2 ^ 32 →
        (after global nowMs es).inFlight i = (after global nowMs es).holding i ∧
        (((after global nowMs es).controller.scopes.cell i).acquired
          - ((after global nowMs es).controller.scopes.cell i).released).toNat
          = (after global nowMs es).holding i)) ∧
    (∀ id i, timesReleased id i (init global nowMs) es = (after global nowMs es).released id i ∧
      timesReleased id i (init global nowMs) es ≤ 1) ∧
    (∀ e r, ((after global nowMs es).step e).reservations
        = (after global nowMs es).reservations ++ [r] →
      ∀ i ∈ r.scopes, (after global nowMs es).HadRoom i) ∧
    (∀ pre suf i, es = pre ++ suf → i < (after global nowMs pre).controller.scopes.next →
      ((after global nowMs pre).inFlight i : ℕ∞)
        ≤ ceiling ((after global nowMs pre).controller.scopes.cell i) →
      StepsMeet step (fun s _ => s.holding i < 2 ^ 32) (after global nowMs pre) suf →
      ((after global nowMs es).inFlight i : ℕ∞) ≤ largestLimit i (after global nowMs pre) suf) := by
  have hsound := sound_after global nowMs es
  refine ⟨fun i hi => ⟨hsound.booked i hi, (hsound.booked i hi).exact⟩, fun id i => ?_,
    fun e r hr i hi => hadRoom_of_admitted hsound e hr hi, ?_⟩
  · have hrun := timesReleased_run id i es _ (sound_init global nowMs)
    have hstart : (init global nowMs).released id i = 0 := rfl
    rw [hstart, Nat.add_zero] at hrun
    exact ⟨hrun, hrun.trans_le (released_le_one _ id i)⟩
  · rintro pre suf i rfl hi hwithin hmeet
    have hrun := inFlight_run suf _ _ (sound_after global nowMs pre) hi hmeet hwithin
    rw [after, run_append]
    refine hrun.trans (max_le ?_ le_rfl)
    cases suf with
    | nil => exact le_rfl
    | cons e suf => exact le_max_left _ _

end System

end HypeLlm.Admission
