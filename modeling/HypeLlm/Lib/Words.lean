import Mathlib

/-!
# Fixed-width counters over `ℕ`

Counters of a fixed width are natural numbers here, and every place where the width is felt is
written out: `satAdd` and `satMul` stop at the largest value of the type, `checkedAdd` reports
that it would have been passed, and `wrapAdd` goes round.  Subtraction that saturates at zero is
the subtraction of `ℕ` and needs no name of its own.  Signed scores are integers, and
`satAddInt` stops at both ends of the 64-bit range.

The lemmas say when the width is *not* felt, which is what a proof about a bounded counter
needs: below the top, saturating and wrapping operations are the operations of `ℕ`.
-/

namespace HypeLlm.Words

/-- The largest value of a 32-bit counter. -/
def u32Max : ℕ := 2 ^ 32 - 1

/-- The largest value of a 64-bit counter. -/
def u64Max : ℕ := 2 ^ 64 - 1

/-- The largest value of a signed 64-bit number; the smallest is `-i64Max - 1`. -/
def i64Max : ℤ := 2 ^ 63 - 1

/-- Signed addition that stops at both ends. -/
def satAddInt (a b : ℤ) : ℤ := max (-i64Max - 1) (min (a + b) i64Max)

/-- Addition that stops at `top`. -/
def satAdd (top a b : ℕ) : ℕ := min (a + b) top

/-- Multiplication that stops at `top`. -/
def satMul (top a b : ℕ) : ℕ := min (a * b) top

/-- Addition that goes round at `2 ^ w`. -/
def wrapAdd (w a b : ℕ) : ℕ := (a + b) % 2 ^ w

/-- Addition that fails above `top`. -/
def checkedAdd (top a b : ℕ) : Option ℕ := if a + b ≤ top then some (a + b) else none

/-- Multiplication that fails above `top`. -/
def checkedMul (top a b : ℕ) : Option ℕ := if a * b ≤ top then some (a * b) else none

/-- Subtraction that fails below zero. -/
def checkedSub (a b : ℕ) : Option ℕ := if b ≤ a then some (a - b) else none

theorem satAdd_eq {top a b : ℕ} (h : a + b ≤ top) : satAdd top a b = a + b := Nat.min_eq_left h

theorem checkedAdd_eq_some {top a b c : ℕ} :
    checkedAdd top a b = some c ↔ a + b = c ∧ c ≤ top := by
  unfold checkedAdd
  split
  · simp only [Option.some.injEq]
    constructor <;> intro h <;> omega
  · simp only [reduceCtorEq, false_iff]
    omega

theorem checkedAdd_eq {top a b : ℕ} (h : a + b ≤ top) : checkedAdd top a b = some (a + b) := if_pos h

theorem checkedMul_eq {top a b : ℕ} (h : a * b ≤ top) : checkedMul top a b = some (a * b) := if_pos h

theorem checkedSub_eq {a b : ℕ} (h : b ≤ a) : checkedSub a b = some (a - b) := if_pos h

/-- A saturating sum cut again at a smaller bound is the plain sum cut at that bound. -/
theorem min_satAdd {top low a b : ℕ} (h : low ≤ top) : min (satAdd top a b) low = min (a + b) low := by
  unfold satAdd
  omega

/-- A counter that stops at the top goes on stopping there. -/
theorem satAdd_min (top a b : ℕ) : satAdd top (min a top) b = min (a + b) top := by
  unfold satAdd
  omega

end HypeLlm.Words
