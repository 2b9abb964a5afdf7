import HypeLlm.Admission.Scope

/-!
# Limits over several routers

A deployment of several routers gives each a share of every limit, divided with what is left over
dropped, and refuses a limit so small that a share would be zero, which stands for no limit.  The shares
add up to no more than the whole.  What a router makes of its share does not always: a bucket holds at
least a second's worth of its rate, rounded up, and every router rounds for itself.

* `floors_le_iff` — when the routers' rounded shares fit the rounded whole;
* `capacities_le_iff`, `refills_le_iff` — the same for what a word holds of them;
* **`partitioned_conservative_iff`** — when the routers together enforce no more than one would.
-/

namespace HypeLlm.Admission

open HypeLlm.Words

/-! ### Shares -/

/-- `divide_u32` and `divide_u64`. -/
def divide (value parts : ℕ) : ℕ := if parts = 0 then value else value / parts

/-- A rate a minute, rounded up to what one second of it is worth. -/
theorem sixty_mul_floor (rate : ℕ) : 60 * ((rate + 59) / 60) = rate + (60 - rate % 60) % 60 := by omega

/-- The rounded shares fit the rounded whole when what every share was rounded by is less than a minute's
step and what was left over. -/
theorem floors_le_iff (rate n : ℕ) :
    n * ((rate / n + 59) / 60) ≤ (rate + 59) / 60 ↔ n * ((60 - rate / n % 60) % 60) < 60 + rate % n := by
  have hshare := sixty_mul_floor (rate / n)
  have hwhole := Nat.div_add_mod rate n
  have hscaled : n * ((rate / n + 59) / 60) * 60 = n * (rate / n) + n * ((60 - rate / n % 60) % 60) := by
    calc n * ((rate / n + 59) / 60) * 60 = n * (60 * ((rate / n + 59) / 60)) := by ring
      _ = n * (rate / n) + n * ((60 - rate / n % 60) % 60) := by rw [hshare, Nat.mul_add]
  rw [Nat.le_div_iff_mul_le (by decide), hscaled]
  omega

/-- What a word holds of the shares' thousandths, and of the whole's. -/
theorem capacities_le_iff (share whole : ℕ) {n : ℕ} (hn : 2 ≤ n) :
    n * satMul u64Max share 1000 ≤ satMul u64Max whole 1000 ↔
      n * share ≤ whole ∧ n * (share * 1000) ≤ u64Max := by
  have htwo : 2 * satMul u64Max share 1000 ≤ n * satMul u64Max share 1000 := Nat.mul_le_mul_right _ hn
  have hthousand : n * (share * 1000) = n * share * 1000 := (Nat.mul_assoc _ _ _).symm
  constructor
  · intro h
    have hfits : share * 1000 ≤ u64Max := by
      by_contra hover
      simp only [satMul, u64Max] at htwo h hover
      omega
    rw [satMul, Nat.min_eq_left hfits, satMul] at h
    constructor <;> omega
  · rintro ⟨hle, hfits⟩
    have hone : share * 1000 ≤ n * (share * 1000) := Nat.le_mul_of_pos_left _ (by omega)
    rw [satMul, Nat.min_eq_left (hone.trans hfits), satMul]
    omega

/-- What a word leaves of the shares' refills, and of the whole's. -/
theorem refills_le_iff (rate : ℕ) {n : ℕ} (hn : 2 ≤ n) :
    n * (satMul u64Max (rate / n) 1000 / 60000) ≤ satMul u64Max rate 1000 / 60000 ↔
      n * (rate / n / 60) ≤ u64Max / 60000 := by
  have hcut : ∀ r : ℕ, satMul u64Max r 1000 / 60000 = min (r / 60) (u64Max / 60000) := by
    intro r
    simp only [satMul, u64Max]
    omega
  have hshare : n * (rate / n / 60) ≤ rate / 60 := by
    rw [Nat.le_div_iff_mul_le (by decide)]
    calc n * (rate / n / 60) * 60 = n * (rate / n / 60 * 60) := Nat.mul_assoc _ _ _
      _ ≤ n * (rate / n) := Nat.mul_le_mul_left _ (Nat.div_mul_le_self _ _)
      _ ≤ rate := Nat.mul_div_le rate n
  have htop : 0 < u64Max / 60000 := by decide
  rw [hcut, hcut]
  constructor
  · intro h
    have hbelow : rate / n / 60 ≤ u64Max / 60000 := by
      by_contra hover
      rw [Nat.min_eq_right (by omega)] at h
      have htwo : 2 * (u64Max / 60000) ≤ n * (u64Max / 60000) := Nat.mul_le_mul_right _ hn
      omega
    rw [Nat.min_eq_left hbelow] at h
    omega
  · intro h
    have hone : rate / n / 60 ≤ n * (rate / n / 60) := Nat.le_mul_of_pos_left _ (by omega)
    rw [Nat.min_eq_left (hone.trans h)]
    omega

/-! ### Partitions -/

namespace ScopeLimits

/-- This scope's share of the limit when the deployment runs `partitions` routers. -/
def partitioned (limits : ScopeLimits) (partitions : UInt32) : ScopeLimits :=
  if partitions ≤ 1 then limits
  else
    { maxConcurrency := limits.maxConcurrency / partitions
      maxQueued := divide limits.maxQueued partitions.toNat
      requestsPerSecond := divide limits.requestsPerSecond partitions.toNat
      requestBurst := divide limits.requestBurst partitions.toNat
      tokensPerMinute := divide limits.tokensPerMinute partitions.toNat
      tokenBurst := divide limits.tokenBurst partitions.toNat
      budgetMinorUnits := divide limits.budgetMinorUnits partitions.toNat
      budgetPeriod := limits.budgetPeriod }

/-- Whether partitioning would turn a real limit into "unlimited". -/
def partitionUnderflows (limits : ScopeLimits) (partitions : UInt32) : Bool :=
  if partitions ≤ 1 then false
  else
    (limits.maxConcurrency ≠ 0 && limits.maxConcurrency < partitions) ||
      (limits.requestsPerSecond ≠ 0 && limits.requestsPerSecond < partitions.toNat) ||
      (limits.tokensPerMinute ≠ 0 && limits.tokensPerMinute < partitions.toNat) ||
      (limits.budgetMinorUnits ≠ 0 && limits.budgetMinorUnits < partitions.toNat)

/-- The numbers fit the words they are kept in. -/
structure InWords (limits : ScopeLimits) : Prop where
  requestsPerSecond : limits.requestsPerSecond ≤ u32Max
  requestBurst : limits.requestBurst ≤ u32Max
  tokensPerMinute : limits.tokensPerMinute ≤ u64Max
  tokenBurst : limits.tokenBurst ≤ u64Max
  budgetMinorUnits : limits.budgetMinorUnits ≤ u64Max

end ScopeLimits

/-- `n` buckets of a share hold and refill no more than one of the whole, where there is one. -/
def Shares (n : ℕ) (share whole : Option BucketShape) : Prop :=
  ∀ w, whole = some w → ∃ s, share = some s ∧
    n * s.capacityMilli ≤ w.capacityMilli ∧ n * s.refillMilliPerMs ≤ w.refillMilliPerMs

/-- `n` routers with a share enforce together no more than one router with the whole, and no limit is
lifted. -/
structure Conservative (n : ℕ) (share whole : ScopeLimits) : Prop where
  concurrencyKept : whole.maxConcurrency ≠ 0 → share.maxConcurrency ≠ 0
  requestsKept : whole.requestsPerSecond ≠ 0 → share.requestsPerSecond ≠ 0
  tokensKept : whole.tokensPerMinute ≠ 0 → share.tokensPerMinute ≠ 0
  budgetKept : whole.budgetMinorUnits ≠ 0 → share.budgetMinorUnits ≠ 0
  concurrency : n * share.maxConcurrency.toNat ≤ whole.maxConcurrency.toNat
  budget : n * share.budgetMinorUnits ≤ whole.budgetMinorUnits
  requests : Shares n (requestShape share) (requestShape whole)
  tokens : Shares n (tokenShape share) (tokenShape whole)

/-- When the rounding of the shares shows in no token bucket: the burst covers it or what was left over
does, and neither the shares' thousandths nor their refills pass what the whole's word holds. -/
def TokensFit (limits : ScopeLimits) (n : ℕ) : Prop :=
  limits.tokensPerMinute = 0 ∨
    (n * ((limits.tokensPerMinute / n + 59) / 60) ≤ limits.tokenBurst ∨
        n * ((60 - limits.tokensPerMinute / n % 60) % 60) < 60 + limits.tokensPerMinute % n) ∧
      n * (max (limits.tokenBurst / n) ((limits.tokensPerMinute / n + 59) / 60) * 1000) ≤ u64Max ∧
      n * (limits.tokensPerMinute / n / 60) ≤ u64Max / 60000

section

variable {limits : ScopeLimits} {partitions : UInt32}

theorem two_le_toNat (h : 2 ≤ partitions) : 2 ≤ partitions.toNat := UInt32.le_iff_toNat_le.mp h

theorem partitioned_of_two_le (h : 2 ≤ partitions) :
    limits.partitioned partitions =
      { maxConcurrency := limits.maxConcurrency / partitions
        maxQueued := limits.maxQueued / partitions.toNat
        requestsPerSecond := limits.requestsPerSecond / partitions.toNat
        requestBurst := limits.requestBurst / partitions.toNat
        tokensPerMinute := limits.tokensPerMinute / partitions.toNat
        tokenBurst := limits.tokenBurst / partitions.toNat
        budgetMinorUnits := limits.budgetMinorUnits / partitions.toNat
        budgetPeriod := limits.budgetPeriod } := by
  have htwo := two_le_toNat h
  have hmany : ¬partitions ≤ 1 := fun hle => by
    have hone := UInt32.le_iff_toNat_le.mp hle
    exact absurd (htwo.trans hone) (by decide)
  simp only [ScopeLimits.partitioned, if_neg hmany, divide, if_neg (show partitions.toNat ≠ 0 by omega)]

/-- What a limit is when its share is not zero: none, or at least one for each router. -/
theorem partitionUnderflows_eq_false (h : 2 ≤ partitions) :
    limits.partitionUnderflows partitions = false ↔
      (limits.maxConcurrency ≠ 0 → partitions ≤ limits.maxConcurrency) ∧
        (limits.requestsPerSecond ≠ 0 → partitions.toNat ≤ limits.requestsPerSecond) ∧
        (limits.tokensPerMinute ≠ 0 → partitions.toNat ≤ limits.tokensPerMinute) ∧
        (limits.budgetMinorUnits ≠ 0 → partitions.toNat ≤ limits.budgetMinorUnits) := by
  have hmany : ¬partitions ≤ 1 := fun hle =>
    absurd ((two_le_toNat h).trans (UInt32.le_iff_toNat_le.mp hle)) (by decide)
  simp [ScopeLimits.partitionUnderflows, if_neg hmany, and_assoc]

theorem requests_share {rate burst n : ℕ} (hn : 2 ≤ n) (hrate : rate ≠ 0 → n ≤ rate) (hword : rate ≤ u32Max)
    (hburst : burst ≤ u32Max) :
    Shares n (if 0 < rate / n then some (.perSecond (rate / n) (burst / n)) else none)
      (if 0 < rate then some (.perSecond rate burst) else none) := by
  intro w hw
  split at hw
  · rename_i hpos
    cases hw
    have hshare : 0 < rate / n := Nat.div_pos (hrate hpos.ne') (by omega)
    have hone : rate / n ≤ n * (rate / n) := Nat.le_mul_of_pos_left _ (by omega)
    have hrateLe := Nat.mul_div_le rate n
    have hburstLe := Nat.mul_div_le burst n
    have hmax : n * max (max (burst / n) (rate / n)) 1 ≤ max (max burst rate) 1 := by
      rw [Nat.max_eq_left (Nat.le_trans hshare (Nat.le_max_right _ _) : 1 ≤ max (burst / n) (rate / n))]
      rcases Nat.le_total (burst / n) (rate / n) with hle | hle
      · rw [Nat.max_eq_right hle]
        omega
      · rw [Nat.max_eq_left hle]
        omega
    refine ⟨_, if_pos hshare, (capacities_le_iff _ _ hn).mpr ⟨hmax, ?_⟩, hrateLe⟩
    have hthousand : n * (max (max (burst / n) (rate / n)) 1 * 1000) = n * max (max (burst / n) (rate / n)) 1 * 1000 :=
      (Nat.mul_assoc _ _ _).symm
    simp only [u32Max, u64Max] at hword hburst ⊢
    omega
  · cases hw

theorem capacity_perMinute {rate : ℕ} (hrate : 0 < rate) (burst : ℕ) :
    (BucketShape.perMinute rate burst).capacityMilli = satMul u64Max (max burst ((rate + 59) / 60)) 1000 := by
  have hone : 1 ≤ (rate + 59) / 60 := by omega
  show satMul u64Max (max (max burst ((rate + 59) / 60)) 1) 1000 = _
  rw [Nat.max_eq_left (hone.trans (Nat.le_max_right _ _))]

theorem refill_perMinute (rate burst : ℕ) :
    (BucketShape.perMinute rate burst).refillMilliPerMs = satMul u64Max rate 1000 / 60000 := rfl

theorem tokens_share_iff {limits : ScopeLimits} {n : ℕ} (hn : 2 ≤ n)
    (hrate : limits.tokensPerMinute ≠ 0 → n ≤ limits.tokensPerMinute) :
    Shares n (if 0 < limits.tokensPerMinute / n then
        some (.perMinute (limits.tokensPerMinute / n) (limits.tokenBurst / n)) else none)
      (if 0 < limits.tokensPerMinute then some (.perMinute limits.tokensPerMinute limits.tokenBurst) else none) ↔
      TokensFit limits n := by
  rcases Nat.eq_zero_or_pos limits.tokensPerMinute with hzero | hpos
  · rw [TokensFit, hzero, if_neg (lt_irrefl 0)]
    exact ⟨fun _ => .inl rfl, fun _ w hw => nomatch hw⟩
  have hshare : 0 < limits.tokensPerMinute / n := Nat.div_pos (hrate hpos.ne') (by omega)
  have hfloor := floors_le_iff limits.tokensPerMinute n
  have hburst := Nat.mul_div_le limits.tokenBurst n
  rw [if_pos hshare, if_pos hpos, TokensFit, ← hfloor]
  generalize hshareFloor : (limits.tokensPerMinute / n + 59) / 60 = floor
  -- What the nodes' capacities come to in units.
  have hunits : n * max (limits.tokenBurst / n) floor ≤ max limits.tokenBurst ((limits.tokensPerMinute + 59) / 60) ↔
      n * floor ≤ limits.tokenBurst ∨ n * floor ≤ (limits.tokensPerMinute + 59) / 60 := by
    rw [← le_max_iff]
    rcases Nat.le_total (limits.tokenBurst / n) floor with hle | hle
    · rw [Nat.max_eq_right hle]
    · rw [Nat.max_eq_left hle]
      have hmul := Nat.mul_le_mul_left n hle
      exact ⟨fun h => hmul.trans h, fun _ => hburst.trans (Nat.le_max_left _ _)⟩
  have hcapacity := capacities_le_iff (max (limits.tokenBurst / n) floor)
    (max limits.tokenBurst ((limits.tokensPerMinute + 59) / 60)) hn
  rw [hunits, ← hshareFloor, ← capacity_perMinute hshare, ← capacity_perMinute hpos, hshareFloor] at hcapacity
  have hrefill := refills_le_iff limits.tokensPerMinute hn
  rw [← refill_perMinute _ (limits.tokenBurst / n), ← refill_perMinute _ limits.tokenBurst] at hrefill
  constructor
  · intro h
    obtain ⟨s, hs, hcap, href⟩ := h _ rfl
    obtain rfl := Option.some.inj hs
    obtain ⟨hfits, hthousand⟩ := hcapacity.mp hcap
    exact .inr ⟨hfits, hthousand, hrefill.mp href⟩
  · rintro (hzero | ⟨hfits, hthousand, hslow⟩)
    · exact absurd hzero hpos.ne'
    · rintro w hw
      cases hw
      exact ⟨_, rfl, hcapacity.mpr ⟨hfits, hthousand⟩, hrefill.mpr hslow⟩

/-- **When partitioned limits are conservative.** -/
theorem partitioned_conservative_iff (limits : ScopeLimits) (partitions : UInt32) (hwords : limits.InWords)
    (htwo : 2 ≤ partitions) (hfits : limits.partitionUnderflows partitions = false) :
    Conservative partitions.toNat (limits.partitioned partitions) limits ↔ TokensFit limits partitions.toNat := by
  have hn := two_le_toNat htwo
  obtain ⟨hconcurrency, hrequests, htokens, hbudget⟩ := (partitionUnderflows_eq_false htwo).mp hfits
  have hkept : ∀ {value : ℕ}, (value ≠ 0 → partitions.toNat ≤ value) → value ≠ 0 → value / partitions.toNat ≠ 0 :=
    fun hle hne => (Nat.div_pos (hle hne) (by omega)).ne'
  rw [← tokens_share_iff hn htokens, partitioned_of_two_le htwo]
  constructor
  · exact fun h => h.tokens
  · intro h
    refine ⟨fun hne hzero => ?_, hkept hrequests, hkept htokens, hkept hbudget, ?_, Nat.mul_div_le _ _,
      requests_share hn hrequests hwords.requestsPerSecond hwords.requestBurst, h⟩
    · have hdiv := congrArg UInt32.toNat hzero
      rw [UInt32.toNat_div] at hdiv
      have hle := UInt32.le_iff_toNat_le.mp (hconcurrency hne)
      exact absurd hdiv (Nat.div_pos hle (by omega)).ne'
    · show partitions.toNat * (limits.maxConcurrency / partitions).toNat ≤ limits.maxConcurrency.toNat
      rw [UInt32.toNat_div]
      exact Nat.mul_div_le _ _

end

namespace ScopeLimits.Sample

/-- A token a second and no burst. -/
def slow : ScopeLimits := { ScopeLimits.unlimited with tokensPerMinute := 60 }

/-- A thousand tokens a minute, and twice that at once. -/
def roomy : ScopeLimits := { ScopeLimits.unlimited with tokensPerMinute := 1000, tokenBurst := 2000 }

theorem roomy_conservative : Conservative 3 (roomy.partitioned 3) roomy :=
  (partitioned_conservative_iff roomy 3 (by constructor <;> decide) (by decide) (by decide)).mpr
    (.inr (by decide))

/-- Each of two routers may admit the one token that one router may. -/
theorem slow_exceeds :
    slow.partitionUnderflows 2 = false ∧
      (tokenShape slow).map (·.capacityMilli) = some 1000 ∧
      (tokenShape (slow.partitioned 2)).map (·.capacityMilli) = some 1000 ∧
      ¬Conservative 2 (slow.partitioned 2) slow := by
  have hwhole : (tokenShape slow).map (·.capacityMilli) = some 1000 := by decide
  have hshare : (tokenShape (slow.partitioned 2)).map (·.capacityMilli) = some 1000 := by decide
  refine ⟨by decide, hwhole, hshare, fun h => ?_⟩
  obtain ⟨w, hw, hcapacity⟩ := Option.map_eq_some_iff.mp hwhole
  obtain ⟨s, hs, hle, -⟩ := h.tokens w hw
  rw [hs, Option.map_some, Option.some.injEq] at hshare
  rw [hcapacity, hshare] at hle
  exact absurd hle (by decide)

end ScopeLimits.Sample

end HypeLlm.Admission
