import HypeLlm.Lib.Calendar
import HypeLlm.Lib.Decimal
import HypeLlm.Lib.Words

/-!
# Timestamps

A time of 64 bits in milliseconds, as text.  Its day is found by the arithmetic of eras of 400 years that
begin on the first of March, in numbers of 64 bits that must not overflow.

* `exists_position` — a day is the day of a year of an era;
* `yearOfEra_eq` — and the arithmetic finds the year;
* `civil_iterate` — what it finds is what the calendar says, day by day;
* **`timestamps_follow_calendar`** — so do timestamps, which are ordered as their times are.
-/

namespace HypeLlm.Time

open HypeLlm.Words HypeLlm.Calendar List

/-! ### The source -/

/-- The date of a day since 1970-01-01; none if a step overflows. -/
def civilFromDays (daysSinceEpoch : ℕ) : Option Date := do
  let z ← checkedAdd u64Max daysSinceEpoch 719468
  let era := z / 146097
  let doe := z % 146097
  let unleaped ← checkedAdd u64Max (← checkedSub doe (doe / 1460)) (doe / 36524)
  let yoe := (← checkedSub unleaped (doe / 146096)) / 365
  let y ← checkedAdd u64Max yoe (← checkedMul u64Max era 400)
  let start ← checkedSub (← checkedAdd u64Max (← checkedMul u64Max 365 yoe) (yoe / 4)) (yoe / 100)
  let doy ← checkedSub doe start
  let mp := (← checkedAdd u64Max (← checkedMul u64Max 5 doy) 2) / 153
  let before := (← checkedAdd u64Max (← checkedMul u64Max 153 mp) 2) / 5
  let d ← checkedAdd u64Max (← checkedSub doy before) 1
  let m ← if mp < 10 then checkedAdd u64Max mp 3 else checkedSub mp 9
  let y ← if m ≤ 2 then checkedAdd u64Max y 1 else some y
  return ⟨y, m, d⟩

def rfc3339 (date : Date) (hour minute second millis : ℕ) : List Char :=
  Decimal.padded 4 date.year ++ '-' :: (Decimal.padded 2 date.month ++ '-' :: (Decimal.padded 2 date.day ++ 'T' ::
    (Decimal.padded 2 hour ++ ':' :: (Decimal.padded 2 minute ++ ':' :: (Decimal.padded 2 second ++ '.' ::
      (Decimal.padded 3 millis ++ ['Z']))))))

/-- A wall-clock time as text. -/
def formatRfc3339 (wallMillis : ℕ) : Option (List Char) := do
  let secs := wallMillis / 1000
  let millis := wallMillis % 1000
  let days := secs / 86400
  let secsOfDay := secs % 86400
  let date ← civilFromDays days
  return rfc3339 date (secsOfDay / 3600) (secsOfDay % 3600 / 60) (secsOfDay % 60) millis

example : formatRfc3339 1709164800000 = some "2024-02-29T00:00:00.000Z".toList := by decide +kernel

/-! ### Years that begin in March -/

/-- The days before a year of an era. -/
def yearStart (yoe : ℕ) : ℕ := 365 * yoe + yoe / 4 - yoe / 100

/-- The days of the year that begins in March of a year. -/
def yearLength (year : ℕ) : ℕ := if isLeap (year + 1) then 366 else 365

/-- The year of an era that a day of it is in. -/
def yearOfEra (doe : ℕ) : ℕ := (doe - doe / 1460 + doe / 36524 - doe / 146096) / 365

/-- The month of a day of a year, by months that have 153 days in five. -/
def monthOfDay (doy : ℕ) : ℕ :=
  let mp := (5 * doy + 2) / 153
  if mp < 10 then mp + 3 else mp - 9

def dayOfMonth (doy : ℕ) : ℕ := doy - (153 * ((5 * doy + 2) / 153) + 2) / 5 + 1

/-- A day of the year that begins in March of `year`, counted from zero. -/
def ofDay (year doy : ℕ) : Date :=
  ⟨if monthOfDay doy ≤ 2 then year + 1 else year, monthOfDay doy, dayOfMonth doy⟩

/-- How the month and the day of the month go on, up to the end of February. -/
def GoesOn (leap : Bool) (doy : ℕ) : Prop :=
  if dayOfMonth doy < daysInMonth leap (monthOfDay doy) then
    monthOfDay (doy + 1) = monthOfDay doy ∧ dayOfMonth (doy + 1) = dayOfMonth doy + 1
  else if monthOfDay doy < 12 then
    monthOfDay (doy + 1) = monthOfDay doy + 1 ∧ dayOfMonth (doy + 1) = 1 ∧ monthOfDay doy ≠ 2
  else monthOfDay (doy + 1) = 1 ∧ dayOfMonth (doy + 1) = 1

instance (leap : Bool) (doy : ℕ) : Decidable (GoesOn leap doy) := by
  unfold GoesOn
  infer_instance

theorem goesOn (leap : Bool) : ∀ doy < 364, GoesOn leap doy := by
  cases leap <;> decide +kernel

/-- **The next day of a year**, where there is one. -/
theorem next_ofDay {year doy : ℕ} (h : doy + 1 < yearLength year) : (ofDay year doy).next = ofDay year (doy + 1) := by
  unfold yearLength at h
  obtain hdoy | rfl : doy < 364 ∨ doy = 364 := by split at h <;> omega
  · have hgoes := goesOn (isLeap (ofDay year doy).year) doy hdoy
    unfold GoesOn at hgoes
    unfold Date.next
    show (if dayOfMonth doy < daysInMonth (isLeap (ofDay year doy).year) (monthOfDay doy) then _
      else if monthOfDay doy < 12 then _ else _) = _
    split at hgoes
    · rename_i hday
      rw [if_pos hday, ofDay, ofDay, hgoes.1, hgoes.2]
    · rename_i hday
      rw [if_neg hday]
      split at hgoes
      · rename_i hmonth
        obtain ⟨hnext, hone, hnot⟩ := hgoes
        have hsame : (monthOfDay doy + 1 ≤ 2) = (monthOfDay doy ≤ 2) := propext (by omega)
        rw [if_pos hmonth, ofDay, ofDay, hnext, hone]
        simp only [hsame]
      · rename_i hmonth
        have hlate : ¬monthOfDay doy ≤ 2 := by omega
        rw [if_neg hmonth, ofDay, ofDay, hgoes.1, hgoes.2, if_neg hlate]
        rfl
  · have hleap : isLeap (year + 1) = true := by
      by_contra hnot
      rw [if_neg hnot] at h
      omega
    have hfeb : ofDay year 364 = ⟨year + 1, 2, 28⟩ := rfl
    rw [hfeb, Date.next]
    dsimp only
    rw [hleap]
    rfl

/-- **After the last day of a year** comes the first of March. -/
theorem next_ofLastDay (year : ℕ) : (ofDay year (yearLength year - 1)).next = ofDay (year + 1) 0 := by
  unfold yearLength
  cases hleap : isLeap (year + 1) with
  | true =>
    have hfeb : ofDay year 365 = ⟨year + 1, 2, 29⟩ := rfl
    show (ofDay year 365).next = _
    rw [hfeb, Date.next]
    dsimp only
    rw [hleap]
    rfl
  | false =>
    have hfeb : ofDay year 364 = ⟨year + 1, 2, 28⟩ := rfl
    show (ofDay year 364).next = _
    rw [hfeb, Date.next]
    dsimp only
    rw [hleap]
    rfl

/-! ### Eras -/

theorem isLeap_add_era (era year : ℕ) : isLeap (400 * era + year) = isLeap year := by
  have h4 : (400 * era + year) % 4 = year % 4 := by omega
  have h100 : (400 * era + year) % 100 = year % 100 := by omega
  have h400 : (400 * era + year) % 400 = year % 400 := by omega
  rw [isLeap, isLeap, h4, h100, h400]

/-- A year of an era is as long as there are days before the next. -/
theorem yearStart_succ {yoe : ℕ} (h : yoe + 1 < 400) : yearStart (yoe + 1) = yearStart yoe + yearLength yoe := by
  unfold yearStart yearLength isLeap
  have h400 : (yoe + 1) % 400 ≠ 0 := by omega
  by_cases h4 : (yoe + 1) % 4 = 0 <;> by_cases h100 : (yoe + 1) % 100 = 0 <;> simp [h4, h100, h400] <;> omega

/-- A day of a year of an era. -/
structure Position (era yoe doy z : ℕ) : Prop where
  day : z = 146097 * era + yearStart yoe + doy
  year : yoe < 400
  within : doy < yearLength yoe

/-- The day after. -/
theorem Position.next {era yoe doy z : ℕ} (h : Position era yoe doy z) :
    Position era yoe (doy + 1) (z + 1) ∧ doy + 1 < yearLength yoe ∨
      doy = yearLength yoe - 1 ∧ (Position era (yoe + 1) 0 (z + 1) ∨ yoe = 399 ∧ Position (era + 1) 0 0 (z + 1)) := by
  obtain ⟨rfl, hyear, hwithin⟩ := h
  have hpos : ∀ year, 0 < yearLength year := fun year => by
    unfold yearLength
    split <;> decide
  obtain hlt | hlast : doy + 1 < yearLength yoe ∨ doy + 1 = yearLength yoe := by omega
  · exact .inl ⟨⟨rfl, hyear, hlt⟩, hlt⟩
  · refine .inr ⟨by omega, ?_⟩
    obtain hnext | rfl : yoe + 1 < 400 ∨ yoe = 399 := by omega
    · refine .inl ⟨?_, hnext, hpos _⟩
      rw [yearStart_succ hnext]
      omega
    · refine .inr ⟨rfl, ?_, by decide, hpos 0⟩
      have hlength : yearLength 399 = 366 := by decide
      have hstart : yearStart 399 = 145731 ∧ yearStart 0 = 0 := by decide
      omega

/-- **A day is the day of a year of an era**, by induction on the days. -/
theorem exists_position (z : ℕ) : ∃ era yoe doy, Position era yoe doy z := by
  induction z with
  | zero => exact ⟨0, 0, 0, by decide, by decide, by decide⟩
  | succ z ih =>
    obtain ⟨era, yoe, doy, h⟩ := ih
    obtain ⟨hnext, -⟩ | ⟨-, hnext | ⟨-, hnext⟩⟩ := h.next
    · exact ⟨_, _, _, hnext⟩
    · exact ⟨_, _, _, hnext⟩
    · exact ⟨_, _, _, hnext⟩

/-- A year by its century, its four years and itself. -/
theorem yearOfEra_parts {c q r doy : ℕ} (hc : c < 4) (hq : q < 25) (hr : r < 4)
    (hdoy : doy < 365 ∨ doy = 365 ∧ r = 3 ∧ (q < 24 ∨ c = 3)) :
    yearOfEra (36524 * c + 1461 * q + 365 * r + doy) = 100 * c + 4 * q + r := by
  -- only the last day of the era is in none of its centuries
  have hcentury : (36524 * c + 1461 * q + 365 * r + doy) / 36524 = c ∨
      (36524 * c + 1461 * q + 365 * r + doy) / 36524 = c + 1 ∧ doy = 365 ∧ q = 24 ∧ c = 3 ∧ r = 3 := by omega
  have hera : (36524 * c + 1461 * q + 365 * r + doy) / 146096 = 0 ∨
      (36524 * c + 1461 * q + 365 * r + doy) / 146096 = 1 ∧ doy = 365 ∧ q = 24 ∧ c = 3 ∧ r = 3 := by omega
  have hleaps : (36524 * c + 1461 * q + 365 * r + doy) / 1460 = 25 * c + q ∧ 24 * c + q + 365 * r + doy < 1460 ∨
      (36524 * c + 1461 * q + 365 * r + doy) / 1460 = 25 * c + q + 1 ∧ 1460 ≤ 24 * c + q + 365 * r + doy := by omega
  unfold yearOfEra
  omega

/-- **The arithmetic finds the year of an era.** -/
theorem yearOfEra_eq {yoe doy : ℕ} (hyear : yoe < 400) (hdoy : doy < yearLength yoe) :
    yearOfEra (yearStart yoe + doy) = yoe := by
  obtain ⟨c, q, r, hc, hq, hr, rfl⟩ : ∃ c q r, c < 4 ∧ q < 25 ∧ r < 4 ∧ yoe = 100 * c + 4 * q + r :=
    ⟨yoe / 100, yoe % 100 / 4, yoe % 4, by omega, by omega, by omega, by omega⟩
  have hstart : yearStart (100 * c + 4 * q + r) = 36524 * c + 1461 * q + 365 * r := by
    unfold yearStart
    omega
  have hleap : isLeap (100 * c + 4 * q + r + 1) = true → r = 3 ∧ (q < 24 ∨ c = 3) := by
    unfold isLeap
    simp only [Bool.and_eq_true, Bool.or_eq_true, decide_eq_true_eq]
    omega
  have hparts : doy < 365 ∨ doy = 365 ∧ r = 3 ∧ (q < 24 ∨ c = 3) := by
    unfold yearLength at hdoy
    split at hdoy
    · rename_i hyes
      have hshape := hleap hyes
      omega
    · exact .inl hdoy
  rw [hstart]
  exact yearOfEra_parts hc hq hr hparts

/-! ### The date of a day -/

/-- The date of a day since 0000-03-01, in numbers without a bound. -/
def dateOf (z : ℕ) : Date :=
  ofDay (yearOfEra (z % 146097) + z / 146097 * 400) (z % 146097 - yearStart (yearOfEra (z % 146097)))

theorem Position.lt {era yoe doy z : ℕ} (h : Position era yoe doy z) : yearStart yoe + doy < 146097 := by
  have hyear := h.year
  have hwithin := h.within
  obtain hnext | rfl : yoe + 1 < 400 ∨ yoe = 399 := by omega
  · have hsucc := yearStart_succ hnext
    unfold yearStart at hsucc ⊢
    omega
  · have hlength : yearLength 399 = 366 := by decide
    have hstart : yearStart 399 = 145731 := by decide
    omega

/-- The date of a day of a year of an era. -/
theorem Position.dateOf {era yoe doy z : ℕ} (h : Position era yoe doy z) :
    dateOf z = ofDay (400 * era + yoe) doy := by
  have hlt := h.lt
  have hera : z / 146097 = era := by
    rw [h.day]
    omega
  have hdoe : z % 146097 = yearStart yoe + doy := by
    rw [h.day]
    omega
  rw [Time.dateOf, hera, hdoe, yearOfEra_eq h.year h.within, Nat.add_sub_cancel_left, Nat.add_comm yoe,
    Nat.mul_comm era]

theorem yearLength_add_era (era yoe : ℕ) : yearLength (400 * era + yoe) = yearLength yoe := by
  rw [yearLength, yearLength, Nat.add_assoc, isLeap_add_era]

/-- **The date of the next day is the next date.** -/
theorem dateOf_succ (z : ℕ) : dateOf (z + 1) = (dateOf z).next := by
  obtain ⟨era, yoe, doy, h⟩ := exists_position z
  rw [h.dateOf]
  obtain ⟨hnext, hmore⟩ | ⟨rfl, hnext | ⟨rfl, hnext⟩⟩ := h.next
  · rw [hnext.dateOf, next_ofDay (by rwa [yearLength_add_era])]
  · rw [hnext.dateOf, ← yearLength_add_era era yoe, next_ofLastDay]
    rfl
  · rw [hnext.dateOf, ← yearLength_add_era era 399, next_ofLastDay]
    rfl

def epoch : Date := ⟨1970, 1, 1⟩

theorem dateOf_iterate (days : ℕ) : dateOf (days + 719468) = Date.next^[days] epoch := by
  induction days with
  | zero => decide +kernel
  | succ days ih => rw [Nat.succ_add, dateOf_succ, ih, Function.iterate_succ_apply']

/-- The days of all times of 64 bits. -/
def maxDays : ℕ := u64Max / 86400000

/-- **The source overflows on no day of a time of 64 bits**, and finds the date that the calendar says. -/
theorem civil_iterate {days : ℕ} (h : days ≤ maxDays) : civilFromDays days = some (Date.next^[days] epoch) := by
  have hmax : u64Max = 18446744073709551615 := rfl
  have hmaxDays : maxDays = 213503982334 := by norm_num [maxDays, u64Max]
  have hsum : checkedAdd u64Max days 719468 = some (days + 719468) := checkedAdd_eq (by omega)
  rw [← dateOf_iterate]
  have hsmall : days + 719468 ≤ 213504701802 := by omega
  generalize days + 719468 = z at hsmall hsum
  obtain ⟨era, yoe, doy, hposition⟩ := exists_position z
  have hlt := hposition.lt
  have hyear := hposition.year
  have hwithin : doy < 366 := by
    have hlength := hposition.within
    unfold yearLength at hlength
    split at hlength <;> omega
  have hera : z / 146097 = era := by
    rw [hposition.day]
    omega
  have hdoe : z % 146097 = yearStart yoe + doy := by
    rw [hposition.day]
    omega
  have hyoe : yearOfEra (yearStart yoe + doy) = yoe := yearOfEra_eq hyear hposition.within
  rw [hposition.dateOf]
  rw [civilFromDays, hsum, Option.bind_eq_bind, Option.bind_some]
  extract_lets era' doe'
  have hera' : era' = era := hera
  have hdoe' : doe' = yearStart yoe + doy := hdoe
  clear_value era' doe'
  rw [← hdoe'] at hlt hyoe
  have hdoy : doe' - yearStart yoe = doy := by omega
  -- the year of the era
  rw [checkedSub_eq (Nat.div_le_self _ _), Option.bind_some, checkedAdd_eq (by omega), Option.bind_some,
    checkedSub_eq (by omega), Option.bind_some]
  rw [yearOfEra] at hyoe
  rw [hyoe]
  extract_lets yoe'
  have hyoe' : yoe' = yoe := rfl
  clear_value yoe'
  rw [hyoe', checkedMul_eq (by omega), Option.bind_some, checkedAdd_eq (by omega), Option.bind_some,
    checkedMul_eq (by omega), Option.bind_some, checkedAdd_eq (by omega), Option.bind_some, checkedSub_eq (by omega),
    Option.bind_some]
  -- the day of the year
  rw [yearStart] at hdoy hdoe'
  rw [checkedSub_eq (by omega), Option.bind_some, hdoy, checkedMul_eq (by omega), Option.bind_some,
    checkedAdd_eq (by omega), Option.bind_some]
  extract_lets mp
  have hmp : mp = (5 * doy + 2) / 153 := rfl
  clear_value mp
  rw [checkedMul_eq (by omega), Option.bind_some, checkedAdd_eq (by omega), Option.bind_some]
  extract_lets before
  have hbefore : before = (153 * mp + 2) / 5 := rfl
  clear_value before
  rw [checkedSub_eq (by omega), Option.bind_some, checkedAdd_eq (by omega), Option.bind_some]
  -- the month, and the year that it is in
  have hyears : ∀ m, (if m ≤ 2 then
      (checkedAdd u64Max (yoe + era' * 400) 1).bind fun y => some (⟨y, m, doy - before + 1⟩ : Date)
      else (some (yoe + era' * 400)).bind fun y => some ⟨y, m, doy - before + 1⟩) =
        some ⟨if m ≤ 2 then 400 * era + yoe + 1 else 400 * era + yoe, m, dayOfMonth doy⟩ := by
    intro m
    rw [checkedAdd_eq (by omega), Option.bind_some, Option.bind_some, dayOfMonth, ← hmp, ← hbefore, hera',
      Nat.mul_comm 400, Nat.add_comm _ yoe]
    split <;> rfl
  dsimp only
  rw [ofDay, monthOfDay, ← hmp]
  by_cases hearly : mp < 10
  · rw [if_pos hearly, checkedAdd_eq (by omega), Option.bind_some, if_pos hearly]
    exact hyears _
  · rw [if_neg hearly, checkedSub_eq (by omega), Option.bind_some, if_neg hearly]
    exact hyears _

/-! ### The time of day -/

/-- A time of day. -/
structure TimeOfDay where
  hour : ℕ
  minute : ℕ
  second : ℕ
  millis : ℕ
  hour_lt : hour < 24
  minute_lt : minute < 60
  second_lt : second < 60
  millis_lt : millis < 1000

namespace TimeOfDay

/-- The milliseconds since midnight. -/
def total (t : TimeOfDay) : ℕ := ((t.hour * 60 + t.minute) * 60 + t.second) * 1000 + t.millis

def ofMillis (wallMillis : ℕ) : TimeOfDay where
  hour := wallMillis / 1000 % 86400 / 3600
  minute := wallMillis / 1000 % 86400 % 3600 / 60
  second := wallMillis / 1000 % 86400 % 60
  millis := wallMillis % 1000
  hour_lt := by omega
  minute_lt := by omega
  second_lt := by omega
  millis_lt := by omega

theorem total_ofMillis (wallMillis : ℕ) : (ofMillis wallMillis).total = wallMillis % 86400000 := by
  simp only [total, ofMillis]
  omega

def fields (t : TimeOfDay) : List ℕ := [t.hour, t.minute, t.second, t.millis]

theorem fields_lt {s t : TimeOfDay} (h : s.total < t.total) : s.fields < t.fields := by
  have hs := s.minute_lt
  have hs' := s.second_lt
  have hs'' := s.millis_lt
  have ht := t.minute_lt
  have ht' := t.second_lt
  have ht'' := t.millis_lt
  simp only [total] at h
  simp only [fields, cons_lt_cons_iff, not_lt_nil, and_false, or_false]
  omega

end TimeOfDay

/-- A date and a time of day as text. -/
def timestamp (date : Date) (t : TimeOfDay) : List Char := rfc3339 date t.hour t.minute t.second t.millis

theorem formatRfc3339_eq {wallMillis : ℕ} (h : wallMillis ≤ u64Max) :
    formatRfc3339 wallMillis =
      some (timestamp (Date.next^[wallMillis / 86400000] epoch) (.ofMillis wallMillis)) := by
  have hdays : wallMillis / 1000 / 86400 = wallMillis / 86400000 := Nat.div_div_eq_div_mul ..
  have hbound : wallMillis / 86400000 ≤ maxDays := Nat.div_le_div_right h
  rw [formatRfc3339, hdays, civil_iterate hbound]
  rfl

/-! ### The order of the texts -/

/-- Numbers of fixed widths, each with a character after it. -/
def render : List (ℕ × Char) → List ℕ → List Char
  | (width, mark) :: format, n :: fields =>
    (Decimal.lastDigits width n).map Decimal.digitChar ++ mark :: render format fields
  | _, _ => []

def rfc3339Format : List (ℕ × Char) :=
  [(4, '-'), (2, '-'), (2, 'T'), (2, ':'), (2, ':'), (2, '.'), (3, 'Z')]

/-- Each number fits into its width. -/
def FitsFormat (format : List (ℕ × Char)) (fields : List ℕ) : Prop :=
  Forall₂ (fun place n => n < 10 ^ place.1) format fields

theorem digits_lt {width a b : ℕ} (hlt : a < b) (hb : b < 10 ^ width) :
    (Decimal.lastDigits width a).map Decimal.digitChar < (Decimal.lastDigits width b).map Decimal.digitChar := by
  refine Lists.map_lt_map (Decimal.lastDigits_lt hlt hb) fun x hx y hy hxy => ?_
  have hx' := Decimal.toNat_digitChar (Decimal.lt_of_mem_lastDigits hx)
  have hy' := Decimal.toNat_digitChar (Decimal.lt_of_mem_lastDigits hy)
  show (Decimal.digitChar x).toNat < (Decimal.digitChar y).toNat
  omega

/-- **Numbers that fit are compared as their texts are.** -/
theorem render_lt {format : List (ℕ × Char)} {fields more : List ℕ} (hfields : FitsFormat format fields)
    (hmore : FitsFormat format more) (hlt : fields < more) : render format fields < render format more := by
  induction hfields generalizing more with
  | nil =>
    cases hmore
    exact absurd hlt (not_lt_nil [])
  | @cons place n format fields hn _ ih =>
    cases hmore with
    | @cons _ m _ more hm hrest =>
      obtain ⟨width, mark⟩ := place
      have hlen : ((Decimal.lastDigits width n).map Decimal.digitChar).length =
          ((Decimal.lastDigits width m).map Decimal.digitChar).length := by
        rw [length_map, length_map, Decimal.length_lastDigits, Decimal.length_lastDigits]
      rw [render, render, Lists.append_lt_append hlen]
      obtain hhead | ⟨rfl, htail⟩ := cons_lt_cons_iff.1 hlt
      · exact .inl (digits_lt hhead hm)
      · exact .inr ⟨rfl, cons_lt_cons_iff.2 (.inr ⟨rfl, ih hrest htail⟩)⟩

theorem fitsFormat {date : Date} (hdate : date.Valid) (hyear : date.year ≤ 9999) (t : TimeOfDay) :
    FitsFormat rfc3339Format (date.fields ++ t.fields) := by
  have hdays := Date.daysInMonth_bounds (isLeap date.year) date.month
  have hmonth := hdate.month
  have hday := hdate.day
  have hhour := t.hour_lt
  have hminute := t.minute_lt
  have hsecond := t.second_lt
  have hmillis := t.millis_lt
  refine .cons ?_ (.cons ?_ (.cons ?_ (.cons ?_ (.cons ?_ (.cons ?_ (.cons ?_ .nil))))))
  all_goals
    dsimp only
    omega

/-- With a year of four digits the text has a fixed form. -/
theorem timestamp_eq_render {date : Date} (hdate : date.Valid) (hyear : date.year ≤ 9999) (t : TimeOfDay) :
    timestamp date t = render rfc3339Format (date.fields ++ t.fields) := by
  have hdays := Date.daysInMonth_bounds (isLeap date.year) date.month
  have hmonth := hdate.month
  have hday := hdate.day
  have htwo : ∀ n < 100, Decimal.padded 2 n = (Decimal.lastDigits 2 n).map Decimal.digitChar :=
    fun n hn => Decimal.padded_eq (by decide) (by decide) hn
  have hfour : Decimal.padded 4 date.year = (Decimal.lastDigits 4 date.year).map Decimal.digitChar :=
    Decimal.padded_eq (by decide) (by decide) (by omega)
  have hthree : Decimal.padded 3 t.millis = (Decimal.lastDigits 3 t.millis).map Decimal.digitChar :=
    Decimal.padded_eq (by decide) (by decide) t.millis_lt
  rw [timestamp, rfc3339, hfour, hthree, htwo _ (show date.month < 100 by omega), htwo _ (show date.day < 100 by omega),
    htwo _ (t.hour_lt.trans (by decide)), htwo _ (t.minute_lt.trans (by decide)),
    htwo _ (t.second_lt.trans (by decide))]
  rfl

theorem timestamp_lt {date later : Date} {s t : TimeOfDay} (hdate : date.Valid) (hyear : date.year ≤ 9999)
    (hlater : later.Valid) (hlaterYear : later.year ≤ 9999)
    (hlt : date.fields < later.fields ∨ date.fields = later.fields ∧ s.fields < t.fields) :
    timestamp date s < timestamp later t := by
  have hlen : date.fields.length = later.fields.length := rfl
  rw [timestamp_eq_render hdate hyear, timestamp_eq_render hlater hlaterYear]
  refine render_lt (fitsFormat hdate hyear s) (fitsFormat hlater hlaterYear t) ?_
  exact (Lists.append_lt_append hlen).2 hlt

/-- **Timestamps follow the calendar.**  Every time of 64 bits is written, without an overflow, as the date
that is reached from 1970-01-01 one day at a time, and the exact time of day.  With years up to 9999 the
texts are ordered as the times are. -/
theorem timestamps_follow_calendar :
    (∀ wallMillis ≤ u64Max, ∃ t : TimeOfDay,
      formatRfc3339 wallMillis = some (timestamp (Date.next^[wallMillis / 86400000] epoch) t) ∧
        wallMillis = wallMillis / 86400000 * 86400000 + t.total) ∧
    ∀ a ≤ u64Max, ∀ b ≤ u64Max, (Date.next^[a / 86400000] epoch).year ≤ 9999 →
      (Date.next^[b / 86400000] epoch).year ≤ 9999 → ∀ textA textB, formatRfc3339 a = some textA →
      formatRfc3339 b = some textB → (textA < textB ↔ a < b) := by
  have hepoch : epoch.Valid := ⟨by decide, by decide⟩
  have hmono : ∀ a b, (Date.next^[a / 86400000] epoch).year ≤ 9999 → (Date.next^[b / 86400000] epoch).year ≤ 9999 →
      a < b → timestamp (Date.next^[a / 86400000] epoch) (.ofMillis a) <
        timestamp (Date.next^[b / 86400000] epoch) (.ofMillis b) := by
    intro a b hyearA hyearB hlt
    refine timestamp_lt (Date.iterate_next_valid hepoch _) hyearA (Date.iterate_next_valid hepoch _) hyearB ?_
    obtain hday | hday := Nat.lt_or_eq_of_le (Nat.div_le_div_right hlt.le : a / 86400000 ≤ b / 86400000)
    · exact .inl (Date.iterate_next_lt epoch hday)
    · refine .inr ⟨by rw [hday], TimeOfDay.fields_lt ?_⟩
      rw [TimeOfDay.total_ofMillis, TimeOfDay.total_ofMillis]
      omega
  refine ⟨fun wallMillis h => ⟨.ofMillis wallMillis, formatRfc3339_eq h, ?_⟩, ?_⟩
  · rw [TimeOfDay.total_ofMillis]
    omega
  · intro a ha b hb hyearA hyearB textA textB htextA htextB
    rw [formatRfc3339_eq ha] at htextA
    rw [formatRfc3339_eq hb] at htextB
    obtain rfl := Option.some.inj htextA
    obtain rfl := Option.some.inj htextB
    constructor
    · intro hlt
      by_contra hle
      obtain heq | hgt := Nat.eq_or_lt_of_le (Nat.le_of_not_lt hle)
      · rw [heq] at hlt
        exact lt_irrefl _ hlt
      · exact lt_irrefl _ (hlt.trans (hmono b a hyearB hyearA hgt))
    · exact hmono a b hyearA hyearB

/-- The last millisecond of a leap day, and two times on the first days. -/
theorem leap_day_written :
    (∃ t : TimeOfDay, formatRfc3339 1709251199999 =
        some (timestamp (Date.next^[1709251199999 / 86400000] epoch) t) ∧
      1709251199999 = 1709251199999 / 86400000 * 86400000 + t.total) ∧
    ("1970-01-01T00:00:00.999Z".toList < "1970-01-02T00:00:00.000Z".toList ↔ 999 < 86400000) := by
  obtain ⟨hwritten, hordered⟩ := timestamps_follow_calendar
  refine ⟨hwritten 1709251199999 (by decide), ?_⟩
  exact hordered 999 (by decide) 86400000 (by decide) (by decide) (by decide) _ _ (by decide +kernel)
    (by decide +kernel)

end HypeLlm.Time
