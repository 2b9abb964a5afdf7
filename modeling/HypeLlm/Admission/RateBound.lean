import HypeLlm.Admission.Bucket
import HypeLlm.Lib.Runs

/-!
# What a token bucket grants over time

An oversized request is admitted against debt, and what is credited pays the debt before it raises the
level.  Over any history of takes the thousandths that were charged are covered by the capacity the
bucket started with, by what it was refilled with since, and by the debt that is still open.  A charge
stops at the top of the word, so an amount whose thousandths do not fit in it is charged less.

* `Metered.take` — a take, and what is granted and charged in all;
* **`rate_bound`** — what is charged is covered, and the shape that debt and level keep.
-/

namespace HypeLlm.Admission

open HypeLlm.Words HypeLlm.Runs

namespace BucketState

/-- What has been charged is covered by a start and by the time that was credited since. -/
def Covers (s : BucketState) (charged start createdMs : ℕ) : Prop :=
  charged + s.levelMilli ≤ start + s.refillMilliPerMs * (s.lastMs - createdMs) + s.debtMilli

variable {s : BucketState} {charged start createdMs : ℕ}

@[simp] theorem refillMilliPerMs_refill (s : BucketState) (nowMs : ℕ) :
    (s.refill nowMs).refillMilliPerMs = s.refillMilliPerMs := by
  rw [refill]
  split <;> rfl

@[simp] theorem capacityMilli_refill (s : BucketState) (nowMs : ℕ) :
    (s.refill nowMs).capacityMilli = s.capacityMilli := by
  rw [refill]
  split <;> rfl

theorem lastMs_refill (s : BucketState) (nowMs : ℕ) : (s.refill nowMs).lastMs = max s.lastMs nowMs := by
  simp only [refill]
  split
  · omega
  · show nowMs = _
    omega

/-- Only time that has passed is credited, and it is credited once. -/
theorem Covers.refill (h : s.Covers charged start createdMs) (hcreated : createdMs ≤ s.lastMs) (nowMs : ℕ) :
    (s.refill nowMs).Covers charged start createdMs := by
  simp only [BucketState.refill]
  split
  · exact h
  · rename_i helapsed
    have hsplit : s.refillMilliPerMs * (nowMs - createdMs) =
        s.refillMilliPerMs * (s.lastMs - createdMs) + s.refillMilliPerMs * (nowMs - s.lastMs) := by
      rw [← Nat.mul_add]
      congr 1
      omega
    have hcredit : satMul u64Max (nowMs - s.lastMs) s.refillMilliPerMs ≤
        s.refillMilliPerMs * (nowMs - s.lastMs) := by
      rw [satMul, Nat.mul_comm]
      exact Nat.min_le_left _ _
    show charged + min (satAdd u64Max s.levelMilli _) s.capacityMilli ≤
      start + s.refillMilliPerMs * (nowMs - createdMs) + (s.debtMilli - _)
    rw [Covers] at h
    rw [hsplit, satAdd]
    omega

/-- **What a take does** after the bucket is refilled: nothing, or it leaves debt, or it lowers the level. -/
theorem tryTake_cases (s : BucketState) (amount nowMs : ℕ) :
    s.tryTake amount nowMs = (false, s.refill nowMs) ∨
      (s.refill nowMs).debtMilli = 0 ∧ (s.refill nowMs).capacityMilli < satMul u64Max amount 1000 ∧
        (s.refill nowMs).capacityMilli ≤ (s.refill nowMs).levelMilli ∧
        s.tryTake amount nowMs = (true, { s.refill nowMs with
          debtMilli := satMul u64Max amount 1000 - (s.refill nowMs).levelMilli, levelMilli := 0 }) ∨
      (s.refill nowMs).debtMilli = 0 ∧ satMul u64Max amount 1000 ≤ (s.refill nowMs).levelMilli ∧
        s.tryTake amount nowMs = (true, { s.refill nowMs with
          levelMilli := (s.refill nowMs).levelMilli - satMul u64Max amount 1000 }) := by
  simp only [tryTake]
  split
  · exact .inl rfl
  · rename_i hdebt
    have hzero : (s.refill nowMs).debtMilli = 0 := Nat.eq_zero_of_not_pos hdebt
    split
    · rename_i hover
      split
      · exact .inl rfl
      · rename_i hfull
        exact .inr (.inl ⟨hzero, hover, not_lt.1 hfull, rfl⟩)
    · split
      · rename_i hroom
        exact .inr (.inr ⟨hzero, hroom, rfl⟩)
      · exact .inl rfl

/-- A take changes neither the shape nor the clock but by refilling. -/
theorem shape_tryTake (s : BucketState) (amount nowMs : ℕ) :
    (s.tryTake amount nowMs).2.capacityMilli = s.capacityMilli ∧
      (s.tryTake amount nowMs).2.refillMilliPerMs = s.refillMilliPerMs ∧
      (s.tryTake amount nowMs).2.lastMs = max s.lastMs nowMs := by
  have hrefill : (s.refill nowMs).capacityMilli = s.capacityMilli ∧
      (s.refill nowMs).refillMilliPerMs = s.refillMilliPerMs ∧
      (s.refill nowMs).lastMs = max s.lastMs nowMs :=
    ⟨s.capacityMilli_refill nowMs, s.refillMilliPerMs_refill nowMs, s.lastMs_refill nowMs⟩
  rcases s.tryTake_cases amount nowMs with h | ⟨-, -, -, h⟩ | ⟨-, -, h⟩
  all_goals
    rw [h]
    exact hrefill

/-- A take charges what it grants. -/
theorem Covers.tryTake (h : s.Covers charged start createdMs) (hs : s.WellFormed) (hcreated : createdMs ≤ s.lastMs)
    (amount nowMs : ℕ) :
    (s.tryTake amount nowMs).2.Covers
      (charged + if (s.tryTake amount nowMs).1 then satMul u64Max amount 1000 else 0) start createdMs := by
  have hrefill := h.refill hcreated nowMs
  have hlevel := (hs.refill nowMs).level_le
  rcases s.tryTake_cases amount nowMs with htake | ⟨hdebt, hover, hfull, htake⟩ | ⟨hdebt, hroom, htake⟩
  · rw [htake]
    exact hrefill
  · rw [htake]
    rw [Covers] at hrefill
    show charged + satMul u64Max amount 1000 + 0 ≤ start + (s.refill nowMs).refillMilliPerMs *
      ((s.refill nowMs).lastMs - createdMs) + (satMul u64Max amount 1000 - (s.refill nowMs).levelMilli)
    omega
  · rw [htake]
    rw [Covers] at hrefill
    show charged + satMul u64Max amount 1000 + ((s.refill nowMs).levelMilli - satMul u64Max amount 1000) ≤
      start + (s.refill nowMs).refillMilliPerMs * ((s.refill nowMs).lastMs - createdMs) +
        (s.refill nowMs).debtMilli
    omega

/-- Nothing is granted while debt is outstanding. -/
theorem tryTake_of_debt {nowMs : ℕ} (h : 0 < (s.refill nowMs).debtMilli) (amount : ℕ) :
    (s.tryTake amount nowMs).1 = false := by
  simp only [BucketState.tryTake, if_pos h]

end BucketState

/-- A bucket and what it has granted. -/
structure Metered where
  bucket : TokenBucket
  /-- The units granted. -/
  granted : ℕ
  /-- The thousandths charged for them. -/
  charged : ℕ

namespace Metered

def start (shape : BucketShape) (createdMs : ℕ) : Metered := ⟨.full shape createdMs, 0, 0⟩

/-- A take of an amount at a time. -/
def take (m : Metered) (e : ℕ × ℕ) : Metered :=
  let taken := m.bucket.tryTake e.1 e.2
  if taken.1 then ⟨taken.2, m.granted + e.1, m.charged + satMul u64Max e.1 1000⟩
  else { m with bucket := taken.2 }

/-- The latest time seen. -/
def latest (createdMs : ℕ) (takes : List (ℕ × ℕ)) : ℕ := takes.foldl (fun t e => max t e.2) createdMs

theorem take_bucket (m : Metered) (e : ℕ × ℕ) : (m.take e).bucket = (m.bucket.tryTake e.1 e.2).2 := by
  simp only [take]
  split <;> rfl

theorem take_charged (m : Metered) (e : ℕ × ℕ) : (m.take e).charged =
    m.charged + if (m.bucket.tryTake e.1 e.2).1 then satMul u64Max e.1 1000 else 0 := by
  simp only [take]
  split <;> rfl

theorem take_granted (m : Metered) (e : ℕ × ℕ) :
    (m.take e).granted = m.granted + if (m.bucket.tryTake e.1 e.2).1 then e.1 else 0 := by
  simp only [take]
  split <;> rfl

/-- What holds of a bucket after a history of takes. -/
structure Bounded (shape : BucketShape) (createdMs latestMs : ℕ) (m : Metered) : Prop where
  capacity : m.bucket.state.capacityMilli = shape.capacityMilli
  rate : m.bucket.state.refillMilliPerMs = shape.refillMilliPerMs
  last : m.bucket.state.lastMs = latestMs
  since : createdMs ≤ latestMs
  covers : m.bucket.state.Covers m.charged shape.capacityMilli createdMs

theorem Bounded.take {shape : BucketShape} {createdMs latestMs : ℕ} {m : Metered}
    (h : m.Bounded shape createdMs latestMs) (e : ℕ × ℕ) : (m.take e).Bounded shape createdMs (max latestMs e.2) := by
  obtain ⟨hcapacity, hrate, hlast⟩ := m.bucket.state.shape_tryTake e.1 e.2
  have hcreated : createdMs ≤ m.bucket.state.lastMs := by
    rw [h.last]
    exact h.since
  constructor
  · rw [take_bucket]
    exact hcapacity.trans h.capacity
  · rw [take_bucket]
    exact hrate.trans h.rate
  · rw [take_bucket]
    exact hlast.trans (by rw [h.last])
  · exact h.since.trans (Nat.le_max_left _ _)
  · rw [take_bucket, take_charged]
    exact h.covers.tryTake m.bucket.wf hcreated e.1 e.2

theorem bounded_run {shape : BucketShape} {createdMs latestMs : ℕ} (takes : List (ℕ × ℕ)) {m : Metered}
    (h : m.Bounded shape createdMs latestMs) :
    (run take m takes).Bounded shape createdMs (latest latestMs takes) := by
  induction takes generalizing m latestMs with
  | nil => exact h
  | cons e takes ih => exact ih (h.take e)

/-- Nothing is charged less than it is, where its thousandths fit in a word. -/
theorem charged_run (takes : List (ℕ × ℕ)) (hfits : ∀ e ∈ takes, 1000 * e.1 ≤ u64Max) (m : Metered)
    (h : m.charged = 1000 * m.granted) : (run take m takes).charged = 1000 * (run take m takes).granted := by
  induction takes generalizing m with
  | nil => exact h
  | cons e takes ih =>
    refine ih (fun e he => hfits e (List.mem_cons_of_mem _ he)) (m.take e) ?_
    have hfit := hfits e List.mem_cons_self
    rw [take_charged, take_granted, satMul]
    split <;> omega

/-- **What is granted is paid for.**  After any takes at any times the thousandths charged for what was
granted are covered by the capacity, by what was refilled until the latest time seen, and by the debt;
a thousand times what was granted is, where no amount asked for is beyond a word of thousandths.  Debt
stands only at level zero and keeps anything from being granted, and the level is within the capacity. -/
theorem rate_bound (shape : BucketShape) (createdMs : ℕ) (takes : List (ℕ × ℕ)) :
    let m := run take (start shape createdMs) takes
    let limit := shape.capacityMilli + shape.refillMilliPerMs * (latest createdMs takes - createdMs) +
      m.bucket.state.debtMilli
    m.charged ≤ limit ∧
      ((∀ e ∈ takes, 1000 * e.1 ≤ u64Max) → 1000 * m.granted ≤ limit) ∧
      (0 < m.bucket.state.debtMilli → m.bucket.state.levelMilli = 0) ∧
      (∀ amount nowMs, 0 < (m.bucket.refill nowMs).state.debtMilli →
        (m.bucket.tryTake amount nowMs).1 = false) ∧
      m.bucket.state.levelMilli ≤ shape.capacityMilli := by
  intro m limit
  have hstart : (start shape createdMs).Bounded shape createdMs createdMs := by
    refine ⟨rfl, rfl, rfl, le_rfl, ?_⟩
    show 0 + shape.capacityMilli ≤ shape.capacityMilli + shape.refillMilliPerMs * (createdMs - createdMs) + 0
    omega
  have hm : m.Bounded shape createdMs (latest createdMs takes) := bounded_run takes hstart
  have hcharged : m.charged ≤ limit := by
    have hcovers := hm.covers
    rw [BucketState.Covers, hm.rate, hm.last] at hcovers
    exact (Nat.le_add_right _ _).trans hcovers
  refine ⟨hcharged, fun hfits => ?_, m.bucket.wf.debt_empty, ?_, ?_⟩
  · rw [← charged_run takes hfits (start shape createdMs) rfl]
    exact hcharged
  · exact fun amount nowMs hdebt => BucketState.tryTake_of_debt hdebt amount
  · rw [← hm.capacity]
    exact m.bucket.wf.level_le

/-- An amount whose thousandths do not fit in a word is charged the word. -/
theorem charge_stops_at_the_word :
    let m := run take (start (.perSecond 1 1) 0) [(u64Max, 0)]
    m.granted = u64Max ∧ (BucketShape.perSecond 1 1).capacityMilli +
      (BucketShape.perSecond 1 1).refillMilliPerMs * (latest 0 [(u64Max, 0)] - 0) +
        m.bucket.state.debtMilli < 1000 * m.granted := by
  decide +kernel

end Metered

end HypeLlm.Admission
