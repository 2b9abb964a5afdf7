import Mathlib

/-!
# The Gregorian calendar

Dates of the proleptic Gregorian calendar and the day after each of them.

* `next_valid`, `lt_next` — the day after a date is a date, and a later one;
* `iterate_next_valid`, `iterate_next_lt` — so are the days after that.
-/

namespace HypeLlm.Calendar

structure Date where
  year : ℕ
  month : ℕ
  day : ℕ
  deriving Repr, DecidableEq

/-- Every fourth year, without the hundredth ones, but with the four hundredth ones. -/
def isLeap (year : ℕ) : Bool := year % 4 = 0 && (year % 100 ≠ 0 || year % 400 = 0)

def daysInMonth (leap : Bool) : ℕ → ℕ
  | 2 => if leap then 29 else 28
  | 4 | 6 | 9 | 11 => 30
  | _ => 31

namespace Date

/-- The day after. -/
def next (d : Date) : Date :=
  if d.day < daysInMonth (isLeap d.year) d.month then ⟨d.year, d.month, d.day + 1⟩
  else if d.month < 12 then ⟨d.year, d.month + 1, 1⟩
  else ⟨d.year + 1, 1, 1⟩

/-- A date that there is. -/
structure Valid (d : Date) : Prop where
  month : 1 ≤ d.month ∧ d.month ≤ 12
  day : 1 ≤ d.day ∧ d.day ≤ daysInMonth (isLeap d.year) d.month

theorem daysInMonth_bounds (leap : Bool) (month : ℕ) : 1 ≤ daysInMonth leap month ∧ daysInMonth leap month ≤ 31 := by
  unfold daysInMonth
  split
  · cases leap <;> decide
  all_goals decide

theorem next_valid {d : Date} (h : d.Valid) : d.next.Valid := by
  obtain ⟨hmonth, hday⟩ := h
  unfold next
  split
  · rename_i hlt
    exact ⟨hmonth, Nat.le_add_left 1 d.day, hlt⟩
  · split
    · rename_i hlt
      exact ⟨⟨Nat.le_add_left 1 d.month, hlt⟩, le_rfl, (daysInMonth_bounds _ _).1⟩
    · exact ⟨⟨le_rfl, show 1 ≤ 12 by decide⟩, le_rfl, (daysInMonth_bounds _ _).1⟩

theorem iterate_next_valid {d : Date} (h : d.Valid) (n : ℕ) : (next^[n] d).Valid := by
  induction n with
  | zero => exact h
  | succ n ih =>
    rw [Function.iterate_succ_apply']
    exact next_valid ih

/-- The year, the month and the day, which are compared in that order. -/
def fields (d : Date) : List ℕ := [d.year, d.month, d.day]

theorem fields_lt_iff {a b : Date} : a.fields < b.fields ↔
    a.year < b.year ∨ a.year = b.year ∧ (a.month < b.month ∨ a.month = b.month ∧ a.day < b.day) := by
  simp only [fields, List.cons_lt_cons_iff, List.not_lt_nil, and_false, or_false]

theorem lt_next (d : Date) : d.fields < d.next.fields := by
  rw [fields_lt_iff]
  unfold next
  split
  · exact .inr ⟨rfl, .inr ⟨rfl, d.day.lt_succ_self⟩⟩
  · split
    · exact .inr ⟨rfl, .inl d.month.lt_succ_self⟩
    · exact .inl d.year.lt_succ_self

/-- **Later days are later dates.** -/
theorem iterate_next_lt (d : Date) {m n : ℕ} (h : m < n) : (next^[m] d).fields < (next^[n] d).fields := by
  induction h with
  | refl =>
    rw [Nat.succ_eq_add_one, Function.iterate_succ_apply']
    exact lt_next _
  | step _ ih =>
    rw [Function.iterate_succ_apply']
    exact ih.trans (lt_next _)

end Date

end HypeLlm.Calendar
