import HypeLlm.Lib.Lists
import HypeLlm.Lib.Runs
import HypeLlm.Machine.Ledger

/-!
# The books of a machine agree

The books are a ledger and every hold it has handed out.  Memory is accounted three times, in
total, by target and in two counters, and for every run of the operations:

* the total is the sum over the unreleased holds, and a hold that needs memory leaves it within
  the capacity;
* the entry of a target is the number and the bytes of its unreleased holds, as long as no more
  than `u32Max` of them have been unreleased at once;
* the counters count the holds taken and returned, as long as no more than `u64Max` were taken.

The counts saturate, so the last two are not unconditional (`crowded_target_is_undercounted`).
-/

namespace HypeLlm.Machine

open HypeLlm.Words HypeLlm.Runs

inductive Op where
  | tryHold (target : TargetId) (bytes : ℕ) (priority : PriorityClass) (key : Option String)
      (nowMs : ℕ)
  | claim (key : String) (priority : PriorityClass) (bytes nowMs : ℕ)
  | dropClaim (key : String)
  | reconfigure (capacityBytes : ℕ)
  | view (nowMs : ℕ)
  /-- `release` or `Drop` of a hold, in any order and any number of times. -/
  | release (id : ℕ)
  deriving Repr, DecidableEq

structure Books where
  ledger : MachineLedger
  holds : List MachineHold

namespace Books

def init (capacityBytes : ℕ) : Books := ⟨MachineLedger.new "m" capacityBytes, []⟩

def step (b : Books) : Op → Books
  | .tryHold target bytes priority key nowMs =>
    match b.ledger.tryHold target bytes priority key nowMs with
    | (.ok hold, m) => ⟨m, b.holds ++ [hold]⟩
    | (.error _, m) => { b with ledger := m }
  | .claim key priority bytes nowMs => { b with ledger := (b.ledger.claim key priority bytes nowMs).2 }
  | .dropClaim key => { b with ledger := b.ledger.dropClaim key }
  | .reconfigure capacityBytes => { b with ledger := b.ledger.reconfigure capacityBytes }
  | .view nowMs => { b with ledger := (b.ledger.view nowMs).2 }
  | .release id =>
    match b.holds[id]? with
    | some hold => ⟨(hold.release b.ledger).2, b.holds.set id (hold.release b.ledger).1⟩
    | none => b

def after (capacityBytes : ℕ) (ops : List Op) : Books := run step (init capacityBytes) ops

/-- What a hold keeps of the machine. -/
def unreleasedBytes (h : MachineHold) : ℕ := if h.released then 0 else h.bytes

/-- An unreleased hold of `target` that needs memory. -/
def heldBy (target : TargetId) (h : MachineHold) : Bool :=
  !h.released && 0 < h.bytes && h.target = target

def count (b : Books) (target : TargetId) : ℕ := b.holds.countP (heldBy target)

/-- The bytes `target` holds. -/
def bytesOf (b : Books) (target : TargetId) : ℕ :=
  (b.holds.map fun h => if heldBy target h then h.bytes else 0).sum

/-- The entry the holders map should have for `target`. -/
def holderOf (b : Books) (target : TargetId) : Option (ℕ × ℕ) :=
  if b.count target = 0 then none else some (b.count target, b.bytesOf target)

end Books

/-! ### What each operation does to the books -/

/-- Two states with the same books: they differ in who waits at most. -/
structure SameBooks (s s' : LedgerState) : Prop where
  capacity : s'.capacityBytes = s.capacityBytes
  held : s'.heldBytes = s.heldBytes
  holders : s'.holders = s.holders
  acquired : s'.acquired = s.acquired
  released : s'.released = s.released

theorem SameBooks.trans {s s' s'' : LedgerState} (h : SameBooks s s') (h' : SameBooks s' s'') :
    SameBooks s s'' :=
  ⟨h'.capacity.trans h.capacity, h'.held.trans h.held, h'.holders.trans h.holders,
    h'.acquired.trans h.acquired, h'.released.trans h.released⟩

theorem expire_same (s : LedgerState) (nowMs : ℕ) : SameBooks s (s.expire nowMs) := by
  simp only [LedgerState.expire]
  split <;> exact ⟨rfl, rfl, rfl, rfl, rfl⟩

theorem withoutClaim_same (s : LedgerState) (key : String) : SameBooks s (s.withoutClaim key) := by
  simp only [LedgerState.withoutClaim]
  split <;> exact ⟨rfl, rfl, rfl, rfl, rfl⟩

theorem consume_same (s : LedgerState) (key : Option String) : SameBooks s (s.consume key) := by
  cases key with
  | none => exact ⟨rfl, rfl, rfl, rfl, rfl⟩
  | some key => exact withoutClaim_same s key

namespace MachineLedger

theorem claim_same (m : MachineLedger) (key : String) (priority : PriorityClass)
    (bytes nowMs : ℕ) : SameBooks m.state (m.claim key priority bytes nowMs).2.state := by
  have hexpire := expire_same m.state nowMs
  simp only [claim]
  split
  · exact ⟨rfl, rfl, rfl, rfl, rfl⟩
  split
  · exact ⟨hexpire.capacity, hexpire.held, hexpire.holders, hexpire.acquired, hexpire.released⟩
  split
  · exact hexpire
  · exact ⟨hexpire.capacity, hexpire.held, hexpire.holders, hexpire.acquired, hexpire.released⟩

/-- What a hold that was granted leaves of the state `s` it found. -/
structure Held (s : LedgerState) (target : TargetId) (bytes : ℕ) (s' : LedgerState) : Prop where
  capacity : s'.capacityBytes = s.capacityBytes
  held : s'.heldBytes = s.heldBytes + bytes
  fits : 0 < bytes → s'.heldBytes ≤ s.capacityBytes ∧ s'.heldBytes ≤ u64Max
  holders : s'.holders = if 0 < bytes then
    s.holders.insert target (satAdd u32Max (s.holders[target]?.getD (0, 0)).1 1,
      satAdd u64Max (s.holders[target]?.getD (0, 0)).2 bytes) else s.holders
  acquired : s'.acquired = satAdd u64Max s.acquired 1
  released : s'.released = s.released

/-- **What `tryHold` does.**  It refuses and leaves the books, or it enters the hold. -/
theorem tryHold_cases (m : MachineLedger) (target : TargetId) (bytes : ℕ)
    (priority : PriorityClass) (key : Option String) (nowMs : ℕ) :
    ((m.tryHold target bytes priority key nowMs).1 = .error .refused ∧
      SameBooks m.state (m.tryHold target bytes priority key nowMs).2.state) ∨
    ((m.tryHold target bytes priority key nowMs).1 = .ok ⟨target, bytes, false⟩ ∧
      Held m.state target bytes (m.tryHold target bytes priority key nowMs).2.state) := by
  have hexpire := expire_same m.state nowMs
  simp only [tryHold]
  split
  · exact .inl ⟨rfl, hexpire⟩
  rename_i hgranted
  refine .inr ⟨rfl, ?_⟩
  by_cases hbytes : 0 < bytes
  · simp only [hbytes, decide_true, Bool.true_and, Bool.or_eq_true, Bool.not_eq_true',
      not_or, Bool.not_eq_false, Bool.not_eq_true] at hgranted
    obtain ⟨total, htotal, hle⟩ := (Option.any_eq_true _ _).mp hgranted.1
    obtain ⟨rfl, htop⟩ := checkedAdd_eq_some.mp htotal
    simp only [decide_eq_true_eq, hexpire.held, hexpire.capacity] at hle htop
    have hsame := consume_same (take (m.state.expire nowMs) target bytes) key
    have hsum : (take (m.state.expire nowMs) target bytes).heldBytes
        = m.state.heldBytes + bytes := by
      show satAdd u64Max (m.state.expire nowMs).heldBytes bytes = _
      rw [hexpire.held]
      exact satAdd_eq htop
    simp only [if_pos hbytes]
    refine ⟨hsame.capacity.trans hexpire.capacity, hsame.held.trans hsum, fun _ => ?_, ?_, ?_,
      hsame.released.trans hexpire.released⟩
    · rw [hsame.held, hsum]
      exact ⟨hle, htop⟩
    · refine hsame.holders.trans ?_
      rw [if_pos hbytes, ← hexpire.holders]
      rfl
    · show satAdd u64Max (LedgerState.consume _ key).acquired 1 = _
      rw [hsame.acquired]
      exact congrArg (satAdd u64Max · 1) hexpire.acquired
  · have hsame := hexpire.trans (consume_same (m.state.expire nowMs) key)
    have hzero : bytes = 0 := by omega
    simp only [if_neg hbytes]
    refine ⟨hsame.capacity, ?_, fun h => absurd h hbytes, ?_, ?_, hsame.released⟩
    · rw [hzero]
      exact hsame.held
    · rw [if_neg hbytes]
      exact hsame.holders
    · exact congrArg (satAdd u64Max · 1) hsame.acquired

end MachineLedger

namespace Books

/-! ### The sums over the holds -/

theorem step_granted {b : Books} {target : TargetId} {bytes : ℕ} {priority : PriorityClass}
    {key : Option String} {nowMs : ℕ} {hold : MachineHold}
    (h : (b.ledger.tryHold target bytes priority key nowMs).1 = .ok hold) :
    b.step (.tryHold target bytes priority key nowMs)
      = ⟨(b.ledger.tryHold target bytes priority key nowMs).2, b.holds ++ [hold]⟩ := by
  rw [step, ← Prod.mk.eta (p := b.ledger.tryHold target bytes priority key nowMs), h]

theorem step_refused {b : Books} {target : TargetId} {bytes : ℕ} {priority : PriorityClass}
    {key : Option String} {nowMs : ℕ}
    (h : (b.ledger.tryHold target bytes priority key nowMs).1 = .error .refused) :
    b.step (.tryHold target bytes priority key nowMs)
      = { b with ledger := (b.ledger.tryHold target bytes priority key nowMs).2 } := by
  rw [step, ← Prod.mk.eta (p := b.ledger.tryHold target bytes priority key nowMs), h]

theorem step_release_again {b : Books} {id : ℕ}
    (h : ∀ hold, b.holds[id]? = some hold → hold.released = true) : b.step (.release id) = b := by
  rw [step]
  cases hslot : b.holds[id]? with
  | none => rfl
  | some hold =>
    simp only [MachineHold.release, h hold hslot, if_true]
    obtain ⟨hlt, hget⟩ := List.getElem?_eq_some_iff.mp hslot
    rw [← hget, List.set_getElem_self]

theorem step_release {b : Books} {id : ℕ} {hold : MachineHold} (hslot : b.holds[id]? = some hold)
    (h : hold.released = false) :
    b.step (.release id) = ⟨b.ledger.giveBack hold.target hold.bytes,
      b.holds.set id { hold with released := true }⟩ := by
  rw [step, hslot]
  simp only [MachineHold.release, h]
  rfl

/-- A release changes nothing, or it is the first of its hold. -/
theorem step_release_cases (b : Books) (id : ℕ) :
    b.step (.release id) = b ∨ ∃ hold, b.holds[id]? = some hold ∧ hold.released = false := by
  by_cases hagain : ∀ hold, b.holds[id]? = some hold → hold.released = true
  · exact .inl (step_release_again hagain)
  · exact .inr (by simpa using hagain)

/-- What a target holds is part of what the machine holds. -/
theorem bytesOf_le (b : Books) (target : TargetId) :
    b.bytesOf target ≤ (b.holds.map unreleasedBytes).sum := by
  refine List.sum_le_sum fun h _ => ?_
  simp only [heldBy, unreleasedBytes]
  by_cases hreleased : h.released = true
  · simp [hreleased]
  · simp only [hreleased]
    split <;> simp

theorem count_append (b : Books) (m : MachineLedger) (hold : MachineHold) (target : TargetId) :
    count ⟨m, b.holds ++ [hold]⟩ target
      = b.count target + if heldBy target hold then 1 else 0 := by
  simp [count, List.countP_append, List.countP_cons]

theorem bytesOf_append (b : Books) (m : MachineLedger) (hold : MachineHold) (target : TargetId) :
    bytesOf ⟨m, b.holds ++ [hold]⟩ target
      = b.bytesOf target + if heldBy target hold then hold.bytes else 0 := by
  simp [bytesOf]

theorem count_release {b : Books} {id : ℕ} {hold : MachineHold}
    (hslot : b.holds[id]? = some hold) (m : MachineLedger) (target : TargetId) :
    count ⟨m, b.holds.set id { hold with released := true }⟩ target
      + (if heldBy target hold then 1 else 0) = b.count target := by
  have hset := Lists.countP_set (heldBy target) b.holds id hold { hold with released := true } hslot
  simpa [count, heldBy] using hset

theorem bytesOf_release {b : Books} {id : ℕ} {hold : MachineHold}
    (hslot : b.holds[id]? = some hold) (m : MachineLedger) (target : TargetId) :
    bytesOf ⟨m, b.holds.set id { hold with released := true }⟩ target
      + (if heldBy target hold then hold.bytes else 0) = b.bytesOf target := by
  have hset := Lists.sum_map_set (fun h => if heldBy target h then h.bytes else 0) b.holds id hold
    { hold with released := true } hslot
  simpa [bytesOf, heldBy] using hset

/-! ### The total and the counters -/

/-- The total and the two counters agree with the holds. -/
structure Balanced (b : Books) : Prop where
  held : b.ledger.state.heldBytes = (b.holds.map unreleasedBytes).sum
  representable : b.ledger.state.heldBytes ≤ u64Max
  acquired : b.ledger.state.acquired = min b.holds.length u64Max
  released : b.ledger.state.released = min (b.holds.countP (·.released)) u64Max

theorem Balanced.frame {b : Books} (h : Balanced b) {m : MachineLedger}
    (hsame : SameBooks b.ledger.state m.state) : Balanced { b with ledger := m } where
  held := hsame.held.trans h.held
  representable := by rw [hsame.held]; exact h.representable
  acquired := hsame.acquired.trans h.acquired
  released := hsame.released.trans h.released

theorem giveBack_state (m : MachineLedger) (target : TargetId) (bytes : ℕ) :
    (m.giveBack target bytes).state.heldBytes = m.state.heldBytes - bytes ∧
    (m.giveBack target bytes).state.capacityBytes = m.state.capacityBytes ∧
    (m.giveBack target bytes).state.acquired = m.state.acquired ∧
    (m.giveBack target bytes).state.released = satAdd u64Max m.state.released 1 := by
  simp only [MachineLedger.giveBack]
  split
  · split
    · split <;> exact ⟨rfl, rfl, rfl, rfl⟩
    · exact ⟨rfl, rfl, rfl, rfl⟩
  · exact ⟨rfl, rfl, rfl, rfl⟩

/-- **One operation keeps the balance.** -/
theorem balanced_step {b : Books} (op : Op) (h : Balanced b) : Balanced (b.step op) := by
  cases op with
  | tryHold target bytes priority key nowMs =>
    obtain ⟨herr, hsame⟩ | ⟨hok, hheld⟩ :=
      b.ledger.tryHold_cases target bytes priority key nowMs
    · rw [step_refused herr]
      exact h.frame hsame
    · rw [step_granted hok]
      have hsum : ((b.holds ++ [(⟨target, bytes, false⟩ : MachineHold)]).map unreleasedBytes).sum
          = (b.holds.map unreleasedBytes).sum + bytes := by
        simp [unreleasedBytes]
      refine ⟨?_, ?_, ?_, ?_⟩
      · rw [hsum, ← h.held]
        exact hheld.held
      · rcases Nat.eq_zero_or_pos bytes with hzero | hpos
        · have hsame := hheld.held
          have hrep := h.representable
          simp only
          omega
        · exact (hheld.fits hpos).2
      · have hacquired := hheld.acquired
        rw [h.acquired] at hacquired
        simp only [hacquired, satAdd_min, List.length_append, List.length_singleton]
      · have hreleased := hheld.released
        rw [h.released] at hreleased
        simp [hreleased, List.countP_append]
  | claim key priority bytes nowMs => exact h.frame (b.ledger.claim_same key priority bytes nowMs)
  | dropClaim key => exact h.frame (withoutClaim_same b.ledger.state key)
  | reconfigure capacityBytes => exact ⟨h.held, h.representable, h.acquired, h.released⟩
  | view nowMs => exact h.frame (expire_same b.ledger.state nowMs)
  | release id =>
    rcases step_release_cases b id with hsame | ⟨hold, hslot, hunreleased⟩
    · rw [hsame]
      exact h
    · have hsum := Lists.sum_map_set unreleasedBytes b.holds id hold
        { hold with released := true } hslot
      have hcount := Lists.countP_set (·.released) b.holds id hold
        { hold with released := true } hslot
      have hzero : unreleasedBytes { hold with released := true } = 0 := rfl
      have hbytes : unreleasedBytes hold = hold.bytes := by simp [unreleasedBytes, hunreleased]
      rw [hzero, hbytes] at hsum
      simp only [hunreleased, if_true, Bool.false_eq_true, if_false, Nat.add_zero] at hcount
      obtain ⟨hheld, -, hacquired, hreleased⟩ := giveBack_state b.ledger hold.target hold.bytes
      rw [step_release hslot hunreleased]
      have hheld' := h.held
      have hrep := h.representable
      have hreleased' := h.released
      refine ⟨?_, ?_, ?_, ?_⟩
      · simp only [hheld]
        omega
      · simp only [hheld]
        omega
      · simp only [hacquired, List.length_set]
        exact h.acquired
      · simp only [hreleased, hreleased', satAdd_min, hcount]

theorem balanced_after (capacityBytes : ℕ) (ops : List Op) : Balanced (after capacityBytes ops) := by
  refine run_invariant (fun _ op h => balanced_step op h) ?_ ops
  exact ⟨rfl, Nat.zero_le _, rfl, rfl⟩

/-! ### The holders map -/

/-- The map lists `target` with the count and the bytes of its unreleased holds. -/
def Exact (target : TargetId) (b : Books) : Prop :=
  b.ledger.state.holders[target]? = b.holderOf target

/-- The operation does not take `target` above the largest count. -/
def RoomFor (target : TargetId) (b : Books) : Op → Prop
  | .tryHold target' bytes _ _ _ => target' = target → 0 < bytes → b.count target < u32Max
  | _ => True

theorem Exact.frame {target : TargetId} {b : Books} (h : Exact target b) {m : MachineLedger}
    (hholders : m.state.holders = b.ledger.state.holders) :
    Exact target { b with ledger := m } := by
  show m.state.holders[target]? = _
  rw [hholders]
  exact h

/-- An exact entry, read with the default of a target that holds nothing. -/
theorem Exact.getD {target : TargetId} {b : Books} (h : Exact target b) :
    b.ledger.state.holders[target]?.getD (0, 0) = (b.count target, b.bytesOf target) := by
  rw [h, holderOf]
  split
  · rename_i hzero
    have hbytes : b.bytesOf target = 0 := by
      rw [bytesOf, List.sum_eq_zero_iff]
      intro n hn
      obtain ⟨hold, hmem, rfl⟩ := List.mem_map.mp hn
      have hnot := List.countP_eq_zero.mp hzero hold hmem
      rw [if_neg hnot]
    rw [hbytes, hzero]
    rfl
  · rfl

/-- **Entering a hold keeps its target exact**, where there is room in the count. -/
theorem exact_granted {target target' : TargetId} {b : Books} (hb : Balanced b)
    (h : Exact target b) {bytes : ℕ} {m : MachineLedger}
    (hheld : MachineLedger.Held b.ledger.state target' bytes m.state)
    (hroom : target' = target → 0 < bytes → b.count target < u32Max) :
    Exact target ⟨m, b.holds ++ [⟨target', bytes, false⟩]⟩ := by
  have hcount := count_append b m ⟨target', bytes, false⟩ target
  have hbytes := bytesOf_append b m ⟨target', bytes, false⟩ target
  show m.state.holders[target]? = _
  rw [hheld.holders, holderOf, hcount, hbytes]
  by_cases hmine : 0 < bytes ∧ target' = target
  · obtain ⟨hpos, rfl⟩ := hmine
    have hmem : heldBy target' ⟨target', bytes, false⟩ = true := by simp [heldBy, hpos]
    have hle := b.bytesOf_le target'
    have hfits := (hheld.fits hpos).2
    have hsum := hheld.held
    have htotal := hb.held
    have hrange : b.bytesOf target' + bytes ≤ u64Max := by omega
    have hlt := hroom rfl hpos
    rw [if_pos hpos, Maps.getElem?_insert, if_pos rfl, h.getD, hmem]
    simp only [if_true]
    rw [satAdd_eq hrange, satAdd_eq (Nat.succ_le_of_lt hlt), if_neg (Nat.succ_ne_zero _)]
  · have hmem : heldBy target ⟨target', bytes, false⟩ = false := by
      simpa [heldBy] using hmine
    rw [hmem]
    simp only [Bool.false_eq_true, if_false, Nat.add_zero]
    split
    · rename_i hpos
      have hne : target ≠ target' := fun heq => hmine ⟨hpos, heq.symm⟩
      rw [Maps.getElem?_insert, if_neg hne]
      exact h
    · exact h

theorem giveBack_holders (m : MachineLedger) (target a : TargetId) (bytes : ℕ) :
    (m.giveBack target bytes).state.holders[a]?
      = if 0 < bytes ∧ a = target then
          m.state.holders[target]?.bind fun e =>
            if e.1 - 1 = 0 then none else some (e.1 - 1, e.2 - bytes)
        else m.state.holders[a]? := by
  simp only [MachineLedger.giveBack, LedgerState.changed]
  by_cases hpos : 0 < bytes
  · simp only [hpos, if_true, true_and]
    cases hentry : m.state.holders[target]? with
    | none =>
      by_cases ha : a = target
      · rw [if_pos ha, ha]
        exact hentry
      · rw [if_neg ha]
    | some e =>
      rw [Option.bind_some]
      by_cases hlast : e.1 - 1 = 0
      · simp only [hlast, if_true, Maps.getElem?_erase]
      · simp only [hlast, if_false, Maps.getElem?_insert]
  · simp only [hpos, if_false, false_and]

/-- **Returning a hold keeps every target exact.** -/
theorem exact_released {target : TargetId} {b : Books} (h : Exact target b) {id : ℕ}
    {hold : MachineHold} (hslot : b.holds[id]? = some hold) (hunreleased : hold.released = false) :
    Exact target ⟨b.ledger.giveBack hold.target hold.bytes,
      b.holds.set id { hold with released := true }⟩ := by
  have hcount := count_release hslot (b.ledger.giveBack hold.target hold.bytes) target
  have hbytes := bytesOf_release hslot (b.ledger.giveBack hold.target hold.bytes) target
  show (b.ledger.giveBack hold.target hold.bytes).state.holders[target]? = _
  rw [giveBack_holders, holderOf]
  by_cases hmine : 0 < hold.bytes ∧ target = hold.target
  · obtain ⟨hpos, rfl⟩ := hmine
    have hmem : heldBy hold.target hold = true := by simp [heldBy, hpos, hunreleased]
    rw [hmem] at hcount hbytes
    simp only [if_true] at hcount hbytes
    have hentry : b.ledger.state.holders[hold.target]?
        = some (b.count hold.target, b.bytesOf hold.target) := by
      rw [h, holderOf, if_neg (by omega)]
    rw [if_pos ⟨hpos, rfl⟩, hentry, Option.bind_some]
    by_cases hlast : b.count hold.target - 1 = 0
    · rw [if_pos hlast, if_pos (by omega)]
    · rw [if_neg hlast, if_neg (by omega), ← hcount, ← hbytes, Nat.add_sub_cancel,
        Nat.add_sub_cancel]
  · have hmem : heldBy target hold = false := by
      simp only [heldBy, Bool.and_eq_false_iff, decide_eq_false_iff_not]
      by_cases hpos : 0 < hold.bytes
      · exact .inr fun heq => hmine ⟨hpos, heq.symm⟩
      · exact .inl (.inr hpos)
    rw [hmem] at hcount hbytes
    simp only [Bool.false_eq_true, if_false, Nat.add_zero] at hcount hbytes
    rw [if_neg hmine, hcount, hbytes]
    exact h

/-- **One operation keeps a target exact**, where there is room in the count. -/
theorem exact_step {target : TargetId} {b : Books} (hb : Balanced b) (op : Op)
    (h : Exact target b) (hroom : RoomFor target b op) : Exact target (b.step op) := by
  cases op with
  | tryHold target' bytes priority key nowMs =>
    obtain ⟨herr, hsame⟩ | ⟨hok, hheld⟩ :=
      b.ledger.tryHold_cases target' bytes priority key nowMs
    · rw [step_refused herr]
      exact h.frame hsame.holders
    · rw [step_granted hok]
      exact exact_granted hb h hheld hroom
  | claim key priority bytes nowMs =>
    exact h.frame (b.ledger.claim_same key priority bytes nowMs).holders
  | dropClaim key => exact h.frame (withoutClaim_same b.ledger.state key).holders
  | reconfigure capacityBytes => exact h
  | view nowMs => exact h.frame (expire_same b.ledger.state nowMs).holders
  | release id =>
    rcases step_release_cases b id with hsame | ⟨hold, hslot, hunreleased⟩
    · rw [hsame]
      exact h
    · rw [step_release hslot hunreleased]
      exact exact_released h hslot hunreleased

theorem exact_after (capacityBytes : ℕ) (ops : List Op) (target : TargetId)
    (h : StepsMeet step (RoomFor target) (init capacityBytes) ops) :
    Exact target (after capacityBytes ops) := by
  have hinit : Balanced (init capacityBytes) ∧ Exact target (init capacityBytes) := by
    refine ⟨⟨rfl, Nat.zero_le _, rfl, rfl⟩, ?_⟩
    simp [Exact, init, MachineLedger.new, holderOf, count]
  have hboth := run_invariant_of_steps (P := fun b => Balanced b ∧ Exact target b)
    (fun b op hb hroom => ⟨balanced_step op hb.1, exact_step hb.1 op hb.2 hroom⟩) hinit ops h
  exact hboth.2

/-! ### The capacity -/

/-- The machine holds no more than its capacity. -/
def Within (b : Books) : Prop := b.ledger.state.heldBytes ≤ b.ledger.state.capacityBytes

/-- The operation does not lower the capacity. -/
def KeepsCapacity (b : Books) (op : Op) : Prop :=
  ∀ c, op = .reconfigure c → b.ledger.state.capacityBytes ≤ c

/-- **Within the capacity, unless the capacity is lowered.** -/
theorem within_step {b : Books} (op : Op) (h : Within b) (hop : KeepsCapacity b op) :
    Within (b.step op) := by
  have hframe : ∀ s' : LedgerState, SameBooks b.ledger.state s' →
      s'.heldBytes ≤ s'.capacityBytes := by
    intro s' hsame
    rw [hsame.held, hsame.capacity]
    exact h
  have hwithin : b.ledger.state.heldBytes ≤ b.ledger.state.capacityBytes := h
  cases op with
  | tryHold target bytes priority key nowMs =>
    obtain ⟨herr, hsame⟩ | ⟨hok, hheld⟩ :=
      b.ledger.tryHold_cases target bytes priority key nowMs
    · rw [step_refused herr]
      exact hframe _ hsame
    · rw [step_granted hok]
      rcases Nat.eq_zero_or_pos bytes with hzero | hpos
      · have hsum := hheld.held
        have hcapacity := hheld.capacity
        simp only [Within]
        omega
      · have hcapacity := hheld.capacity
        have hfits := (hheld.fits hpos).1
        simp only [Within]
        omega
  | claim key priority bytes nowMs => exact hframe _ (b.ledger.claim_same key priority bytes nowMs)
  | dropClaim key => exact hframe _ (withoutClaim_same b.ledger.state key)
  | reconfigure c => exact hwithin.trans (hop c rfl)
  | view nowMs => exact hframe _ (expire_same b.ledger.state nowMs)
  | release id =>
    rcases step_release_cases b id with hsame | ⟨hold, hslot, hunreleased⟩
    · rw [hsame]
      exact h
    · rw [step_release hslot hunreleased]
      obtain ⟨hheld, hcapacity, -, -⟩ := giveBack_state b.ledger hold.target hold.bytes
      simp only [Within]
      omega

/-! ### The books as a whole -/

/-- The books of a machine agree with its holds: the total, the map of holders and the counters are
those of the unreleased holds, and no hold that needs memory passes the capacity. -/
structure Agree (b : Books) : Prop where
  held : b.ledger.state.heldBytes = (b.holds.map unreleasedBytes).sum
  holders : ∀ target, b.ledger.state.holders[target]? = b.holderOf target
  counters : b.ledger.state.acquired = b.ledger.state.released + b.holds.countP (!·.released)
  capacity : ∀ target bytes priority key nowMs hold, 0 < bytes →
    (b.ledger.tryHold target bytes priority key nowMs).1 = .ok hold →
    (b.ledger.tryHold target bytes priority key nowMs).2.state.heldBytes
      ≤ b.ledger.state.capacityBytes

/-- One hold of one byte for the target `"t"`. -/
def oneByte : Op := .tryHold "t" 1 .standard none 0

/-- Memory that is free is granted while nobody waits. -/
theorem tryHold_free {m : MachineLedger} (hclaims : m.state.claims = []) {bytes : ℕ}
    (hfits : m.state.heldBytes + bytes ≤ m.state.capacityBytes)
    (htop : m.state.heldBytes + bytes ≤ u64Max) (target : TargetId) (priority : PriorityClass)
    (nowMs : ℕ) :
    (m.tryHold target bytes priority none nowMs).1 = .ok ⟨target, bytes, false⟩ ∧
      (m.tryHold target bytes priority none nowMs).2.state.claims = [] := by
  have hexpire : m.state.expire nowMs = m.state := by
    simp [LedgerState.expire, hclaims]
    rw [← hclaims]
  have hgranted : (decide (0 < bytes) && (!(checkedAdd u64Max m.state.heldBytes bytes).any
      (fun total => total ≤ m.state.capacityBytes) || m.state.outranked priority u64Max none))
      = false := by
    simp [checkedAdd, htop, hfits, LedgerState.outranked, hclaims]
  simp only [MachineLedger.tryHold, hexpire, Option.bind_none, Option.map_none, Option.getD_none,
    hgranted, Bool.false_eq_true, if_false, true_and]
  show (if 0 < bytes then MachineLedger.take m.state target bytes else m.state).claims = []
  split <;> exact hclaims

/-- The books after `n` holds of one byte on a machine that has room for them. -/
theorem crowd (capacityBytes n : ℕ) (hn : n ≤ capacityBytes) (htop : n ≤ u64Max) :
    (after capacityBytes (List.replicate n oneByte)).holds = List.replicate n ⟨"t", 1, false⟩ ∧
    (after capacityBytes (List.replicate n oneByte)).ledger.state.claims = [] ∧
    (after capacityBytes (List.replicate n oneByte)).ledger.state.capacityBytes = capacityBytes ∧
    (after capacityBytes (List.replicate n oneByte)).ledger.state.heldBytes = n ∧
    (after capacityBytes (List.replicate n oneByte)).ledger.state.holders["t"]?.getD (0, 0)
      = (min n u32Max, n) := by
  induction n with
  | zero => exact ⟨rfl, rfl, rfl, rfl, rfl⟩
  | succ n ih =>
    obtain ⟨hholds, hclaims, hcapacity, hheld, hentry⟩ := ih (by omega) (by omega)
    have hsnoc : after capacityBytes (List.replicate (n + 1) oneByte)
        = step (after capacityBytes (List.replicate n oneByte)) oneByte := by
      rw [List.replicate_succ', after, run_snoc]
      rfl
    rw [hsnoc]
    generalize after capacityBytes (List.replicate n oneByte) = b at *
    obtain ⟨hok, hclaims'⟩ := @tryHold_free b.ledger hclaims 1 (by omega) (by omega) "t"
      .standard 0
    obtain ⟨herr, -⟩ | ⟨-, hgranted⟩ := b.ledger.tryHold_cases "t" 1 .standard none 0
    · rw [hok] at herr
      cases herr
    rw [oneByte, step_granted hok]
    refine ⟨?_, hclaims', hgranted.capacity.trans hcapacity, ?_, ?_⟩
    · rw [hholds, ← List.replicate_succ']
    · rw [hgranted.held, hheld]
    · show (b.ledger.tryHold "t" 1 .standard none 0).2.state.holders["t"]?.getD (0, 0) = _
      rw [hgranted.holders, if_pos Nat.one_pos, Maps.getElem?_insert, if_pos rfl, hentry,
        Option.getD_some, satAdd_min, satAdd_eq htop]

/-- **A crowded target is undercounted.**  After `2 ^ 32` holds of one byte on a machine of
`2 ^ 32` bytes the map says that the target has one hold fewer than it has. -/
theorem crowded_target_is_undercounted :
    ¬ ∀ capacityBytes ops, Agree (after capacityBytes ops) := by
  intro h
  obtain ⟨hholds, -, -, -, hentry⟩ := crowd (u32Max + 1) (u32Max + 1) le_rfl (by decide)
  have hagree := (h (u32Max + 1) (List.replicate (u32Max + 1) oneByte)).holders "t"
  have hcount : (after (u32Max + 1) (List.replicate (u32Max + 1) oneByte)).count "t"
      = u32Max + 1 := by
    rw [count, hholds, List.countP_replicate]
    rfl
  rw [hagree, holderOf, hcount, if_neg (Nat.succ_ne_zero _), Option.getD_some] at hentry
  have hfirst := congrArg Prod.fst hentry
  simp only at hfirst
  omega

/-- What holds of the books after `ops`, the widths of the counts said. -/
structure AgreeWhileCounted (capacityBytes : ℕ) (ops : List Op) : Prop where
  held : (after capacityBytes ops).ledger.state.heldBytes
    = ((after capacityBytes ops).holds.map unreleasedBytes).sum
  /-- A target whose holds have fitted their count throughout is listed exactly. -/
  holders : ∀ target, StepsMeet step (RoomFor target) (init capacityBytes) ops →
    (after capacityBytes ops).ledger.state.holders[target]?
      = (after capacityBytes ops).holderOf target
  counters : (after capacityBytes ops).holds.length ≤ u64Max →
    (after capacityBytes ops).ledger.state.acquired
      = (after capacityBytes ops).ledger.state.released
        + (after capacityBytes ops).holds.countP (!·.released)
  capacity : ∀ target bytes priority key nowMs hold, 0 < bytes →
    ((after capacityBytes ops).ledger.tryHold target bytes priority key nowMs).1 = .ok hold →
    ((after capacityBytes ops).ledger.tryHold target bytes priority key nowMs).2.state.heldBytes
      ≤ (after capacityBytes ops).ledger.state.capacityBytes
  /-- Only lowering the capacity takes the machine above it. -/
  within : ∀ later, Within (after capacityBytes ops) →
    StepsMeet step KeepsCapacity (after capacityBytes ops) later →
    Within (after capacityBytes (ops ++ later))

/-- **The books of a machine agree**, after every run of its operations, while the counts fit
their words. -/
theorem machine_books_agree (capacityBytes : ℕ) (ops : List Op) :
    AgreeWhileCounted capacityBytes ops := by
  have hbalanced := balanced_after capacityBytes ops
  refine ⟨hbalanced.held, fun target hroom => exact_after capacityBytes ops target hroom, ?_, ?_, ?_⟩
  · intro hlength
    have hsplit := List.length_eq_countP_add_countP (·.released)
      (l := (after capacityBytes ops).holds)
    have hnot : (after capacityBytes ops).holds.countP (fun h => decide ¬(h.released = true))
        = (after capacityBytes ops).holds.countP (!·.released) := by
      refine List.countP_congr fun h _ => ?_
      simp
    rw [hnot] at hsplit
    rw [hbalanced.acquired, hbalanced.released, Nat.min_eq_left hlength]
    omega
  · intro target bytes priority key nowMs hold hpos hok
    obtain ⟨herr, -⟩ | ⟨-, hgranted⟩ :=
      (after capacityBytes ops).ledger.tryHold_cases target bytes priority key nowMs
    · rw [hok] at herr
      cases herr
    · exact (hgranted.fits hpos).1
  · intro later hwithin hkeeps
    rw [after, run_append]
    exact run_invariant_of_steps (fun b op hb hop => within_step op hb hop) hwithin later hkeeps

end Books

end HypeLlm.Machine
