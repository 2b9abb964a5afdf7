import HypeLlm.Lib.Words

/-!
# Token buckets

A refilling bucket over monotonic time, in thousandths of a unit.  A request larger than the
capacity is admitted when the bucket is full and charged in full, with the part beyond the
capacity carried as debt that refill pays off before anything else is admitted.

`TokenBucket` carries what every operation keeps: the level is within the capacity, a bucket in
debt is empty, and the capacity is a 64-bit number.  That is what makes a refund undo a take
exactly (`refund_tryTake`): without it the capped, debt-first credit of a refund would not be an
inverse.
-/

namespace HypeLlm.Admission

open HypeLlm.Words

structure BucketState where
  capacityMilli : ℕ
  /-- Refill in thousandths of a unit per millisecond. -/
  refillMilliPerMs : ℕ
  levelMilli : ℕ
  lastMs : ℕ
  /-- Units admitted beyond the capacity and not yet paid for. -/
  debtMilli : ℕ
  deriving Repr, DecidableEq

/-- A bucket's capacity and refill. -/
structure BucketShape where
  capacityMilli : ℕ
  refillMilliPerMs : ℕ
  capacity_le : capacityMilli ≤ u64Max

namespace BucketShape

def perSecond (rate burst : ℕ) : BucketShape where
  capacityMilli := satMul u64Max (max (max burst rate) 1) 1000
  refillMilliPerMs := rate
  capacity_le := Nat.min_le_right _ _

/-- Rates below 60 units per minute floor to a zero refill rate. -/
def perMinute (rate burst : ℕ) : BucketShape where
  capacityMilli := satMul u64Max (max (max burst ((rate + 59) / 60)) 1) 1000
  refillMilliPerMs := satMul u64Max rate 1000 / 60000
  capacity_le := Nat.min_le_right _ _

end BucketShape

namespace BucketState

/-- What every operation keeps. -/
structure WellFormed (s : BucketState) : Prop where
  level_le : s.levelMilli ≤ s.capacityMilli
  debt_empty : 0 < s.debtMilli → s.levelMilli = 0
  capacity_le : s.capacityMilli ≤ u64Max

/-- Credit `amount` thousandths: pay down debt first, then raise the level. -/
def credit (s : BucketState) (amount : ℕ) : BucketState :=
  let paid := min amount s.debtMilli
  { s with
    debtMilli := s.debtMilli - paid
    levelMilli := min (satAdd u64Max s.levelMilli (amount - paid)) s.capacityMilli }

def full (shape : BucketShape) (nowMs : ℕ) : BucketState where
  capacityMilli := shape.capacityMilli
  refillMilliPerMs := shape.refillMilliPerMs
  levelMilli := shape.capacityMilli
  lastMs := nowMs
  debtMilli := 0

/-- `refill_locked`. -/
def refill (s : BucketState) (nowMs : ℕ) : BucketState :=
  let elapsed := nowMs - s.lastMs
  if elapsed = 0 then s
  else { s.credit (satMul u64Max elapsed s.refillMilliPerMs) with lastMs := nowMs }

/-- Change the rate and capacity, keeping what has been drawn: time up to `nowMs` is refilled at
the old rate, and the level is clamped and never raised. -/
def retune (s : BucketState) (shape : BucketShape) (nowMs : ℕ) : BucketState :=
  let s := s.refill nowMs
  { s with
    capacityMilli := shape.capacityMilli
    refillMilliPerMs := shape.refillMilliPerMs
    levelMilli := min s.levelMilli shape.capacityMilli }

/-- Try to take `amount` units, all or nothing. -/
def tryTake (s : BucketState) (amount nowMs : ℕ) : Bool × BucketState :=
  let s := s.refill nowMs
  let want := satMul u64Max amount 1000
  if 0 < s.debtMilli then (false, s)
  else if s.capacityMilli < want then
    if s.levelMilli < s.capacityMilli then (false, s)
    else (true, { s with debtMilli := want - s.levelMilli, levelMilli := 0 })
  else if want ≤ s.levelMilli then (true, { s with levelMilli := s.levelMilli - want })
  else (false, s)

/-- Return `amount` units, never exceeding the capacity. -/
def refund (s : BucketState) (amount : ℕ) : BucketState := s.credit (satMul u64Max amount 1000)

/-- Deduct `amount` units, draining to empty when the level is short. -/
def charge (s : BucketState) (amount nowMs : ℕ) : BucketState :=
  let s := s.refill nowMs
  { s with levelMilli := s.levelMilli - satMul u64Max amount 1000 }

/-! ### Well-formedness -/

namespace WellFormed

variable {s : BucketState}

theorem credit (h : s.WellFormed) (amount : ℕ) : (s.credit amount).WellFormed where
  level_le := Nat.min_le_right _ _
  debt_empty hdebt := by
    have hempty := h.debt_empty
    simp only [BucketState.credit, satAdd] at hdebt ⊢
    omega
  capacity_le := h.capacity_le

theorem refill (h : s.WellFormed) (nowMs : ℕ) : (s.refill nowMs).WellFormed := by
  simp only [BucketState.refill]
  split
  · exact h
  · exact ⟨(h.credit _).level_le, (h.credit _).debt_empty, h.capacity_le⟩

theorem retune (h : s.WellFormed) (shape : BucketShape) (nowMs : ℕ) :
    (s.retune shape nowMs).WellFormed where
  level_le := Nat.min_le_right _ _
  debt_empty hdebt := by
    have hempty := (h.refill nowMs).debt_empty hdebt
    simp only [BucketState.retune, hempty]
    exact Nat.zero_min _
  capacity_le := shape.capacity_le

theorem tryTake (h : s.WellFormed) (amount nowMs : ℕ) : (s.tryTake amount nowMs).2.WellFormed := by
  have hrefill := h.refill nowMs
  simp only [BucketState.tryTake]
  split
  · exact hrefill
  rename_i hdebt
  split
  · split
    · exact hrefill
    · exact ⟨Nat.zero_le _, fun _ => rfl, hrefill.capacity_le⟩
  · split
    · exact ⟨(Nat.sub_le _ _).trans hrefill.level_le, fun hpos => absurd hpos hdebt,
        hrefill.capacity_le⟩
    · exact hrefill

theorem charge (h : s.WellFormed) (amount nowMs : ℕ) : (s.charge amount nowMs).WellFormed where
  level_le := (Nat.sub_le _ _).trans (h.refill nowMs).level_le
  debt_empty hdebt := by
    have hempty := (h.refill nowMs).debt_empty hdebt
    simp only [BucketState.charge, hempty]
    exact Nat.zero_sub _
  capacity_le := (h.refill nowMs).capacity_le

end WellFormed

/-- Time that has been credited is not credited again. -/
theorem refill_refill (s : BucketState) (nowMs : ℕ) :
    (s.refill nowMs).refill nowMs = s.refill nowMs := by
  by_cases h : nowMs - s.lastMs = 0
  · have hsame : s.refill nowMs = s := if_pos h
    rw [hsame, hsame]
  · have hlast : (s.refill nowMs).lastMs = nowMs := by
      simp only [refill, if_neg h]
    exact if_pos (by rw [hlast, Nat.sub_self])

/-- A bucket that was taken from at `nowMs` has been refilled to `nowMs`. -/
theorem refill_tryTake (s : BucketState) (amount nowMs : ℕ) :
    (s.tryTake amount nowMs).2.refill nowMs = (s.tryTake amount nowMs).2 := by
  have hlast : (s.tryTake amount nowMs).2.lastMs = (s.refill nowMs).lastMs := by
    simp only [tryTake]
    split
    · rfl
    · split <;> split <;> rfl
  have hfresh : nowMs - (s.refill nowMs).lastMs = 0 := by
    simp only [refill]
    split
    · assumption
    · exact Nat.sub_self nowMs
  exact if_pos (by rw [hlast, hfresh])

/-- A take that is refused has only refilled the bucket. -/
theorem tryTake_refused {s : BucketState} {amount nowMs : ℕ}
    (h : (s.tryTake amount nowMs).1 = false) : (s.tryTake amount nowMs).2 = s.refill nowMs := by
  simp only [tryTake] at h ⊢
  split
  · rfl
  rename_i hdebt
  rw [if_neg hdebt] at h
  split
  · rename_i hover
    rw [if_pos hover] at h
    split
    · rfl
    · rename_i hlevel
      rw [if_neg hlevel] at h
      cases h
  · rename_i hover
    rw [if_neg hover] at h
    split
    · rename_i hlevel
      rw [if_pos hlevel] at h
      cases h
    · rfl

/-- **A refund undoes a take exactly**, an oversized one that left debt included. -/
theorem refund_tryTake {s : BucketState} (hs : s.WellFormed) {amount nowMs : ℕ}
    (h : (s.tryTake amount nowMs).1 = true) :
    (s.tryTake amount nowMs).2.refund amount = s.refill nowMs := by
  obtain ⟨hlevel, hdebt, hcapacity⟩ := hs.refill nowMs
  simp only [tryTake] at h ⊢
  generalize s.refill nowMs = r at *
  obtain ⟨capacity, rate, level, last, debt⟩ := r
  simp only at hlevel hdebt hcapacity h ⊢
  generalize hwant : satMul u64Max amount 1000 = want at *
  by_cases hpos : 0 < debt
  · rw [if_pos hpos] at h
    cases h
  · rw [if_neg hpos] at h ⊢
    have hzero : debt = 0 := by omega
    subst hzero
    by_cases hover : capacity < want
    · rw [if_pos hover] at h ⊢
      by_cases hshort : level < capacity
      · rw [if_pos hshort] at h
        cases h
      · rw [if_neg hshort]
        simp only [refund, credit, hwant, satAdd, mk.injEq, true_and]
        omega
    · rw [if_neg hover] at h ⊢
      by_cases hroom : want ≤ level
      · rw [if_pos hroom]
        simp only [refund, credit, hwant, satAdd, mk.injEq, true_and]
        omega
      · rw [if_neg hroom] at h
        cases h

end BucketState

/-- A bucket in a state its operations keep. -/
structure TokenBucket where
  state : BucketState
  wf : state.WellFormed

namespace TokenBucket

theorem ext' {b b' : TokenBucket} (h : b.state = b'.state) : b = b' := by
  obtain ⟨state, wf⟩ := b
  obtain ⟨state', wf'⟩ := b'
  subst h
  rfl

def full (shape : BucketShape) (nowMs : ℕ) : TokenBucket where
  state := BucketState.full shape nowMs
  wf := ⟨le_rfl, fun h => absurd h (Nat.lt_irrefl 0), shape.capacity_le⟩

def refill (b : TokenBucket) (nowMs : ℕ) : TokenBucket := ⟨b.state.refill nowMs, b.wf.refill nowMs⟩

def retune (b : TokenBucket) (shape : BucketShape) (nowMs : ℕ) : TokenBucket :=
  ⟨b.state.retune shape nowMs, b.wf.retune shape nowMs⟩

def tryTake (b : TokenBucket) (amount nowMs : ℕ) : Bool × TokenBucket :=
  ((b.state.tryTake amount nowMs).1, ⟨(b.state.tryTake amount nowMs).2, b.wf.tryTake amount nowMs⟩)

def refund (b : TokenBucket) (amount : ℕ) : TokenBucket :=
  ⟨b.state.refund amount, b.wf.credit _⟩

def charge (b : TokenBucket) (amount nowMs : ℕ) : TokenBucket :=
  ⟨b.state.charge amount nowMs, b.wf.charge amount nowMs⟩

theorem refill_refill (b : TokenBucket) (nowMs : ℕ) :
    (b.refill nowMs).refill nowMs = b.refill nowMs := ext' (b.state.refill_refill nowMs)

theorem refill_tryTake (b : TokenBucket) (amount nowMs : ℕ) :
    (b.tryTake amount nowMs).2.refill nowMs = (b.tryTake amount nowMs).2 :=
  ext' (b.state.refill_tryTake amount nowMs)

theorem tryTake_refused {b : TokenBucket} {amount nowMs : ℕ}
    (h : (b.tryTake amount nowMs).1 = false) : (b.tryTake amount nowMs).2 = b.refill nowMs :=
  ext' (BucketState.tryTake_refused h)

theorem refund_tryTake {b : TokenBucket} {amount nowMs : ℕ}
    (h : (b.tryTake amount nowMs).1 = true) :
    (b.tryTake amount nowMs).2.refund amount = b.refill nowMs :=
  ext' (BucketState.refund_tryTake b.wf h)

end TokenBucket

/-- The bucket in a slot; an absent bucket admits everything. -/
def withBucket (slot : Option TokenBucket) (f : TokenBucket → Bool × TokenBucket) :
    Bool × Option TokenBucket :=
  match slot with
  | none => (true, none)
  | some bucket => ((f bucket).1, some (f bucket).2)

/-- Retune, create or drop the bucket in `slot` to match `shape`. -/
def reshape (slot : Option TokenBucket) (shape : Option BucketShape) (nowMs : ℕ) :
    Option TokenBucket :=
  match slot, shape with
  | some bucket, some shape => some (bucket.retune shape nowMs)
  | none, some shape => some (TokenBucket.full shape nowMs)
  | _, none => none

end HypeLlm.Admission
