import Mathlib

/-!
# Fixed-width little-endian fields

A fixed-width number is written as its bytes, lowest first.  Reading back what was written gives
the number modulo the width, and a field of a buffer does not see what comes after it.
-/

namespace HypeLlm.Bytes

/-- The lowest `width` bytes of `n`, lowest first. -/
def toLe : ℕ → ℕ → List UInt8
  | 0, _ => []
  | width + 1, n => UInt8.ofNat n :: toLe width (n / 256)

/-- The number whose bytes these are, lowest first. -/
def ofLe : List UInt8 → ℕ
  | [] => 0
  | b :: bs => b.toNat + 256 * ofLe bs

@[simp] theorem length_toLe (width n : ℕ) : (toLe width n).length = width := by
  induction width generalizing n with
  | zero => rfl
  | succ width ih => simp [toLe, ih]

theorem ofLe_toLe (width n : ℕ) : ofLe (toLe width n) = n % 256 ^ width := by
  induction width generalizing n with
  | zero => simp [toLe, ofLe, Nat.mod_one]
  | succ width ih =>
    have hbyte : (UInt8.ofNat n).toNat = n % 256 := UInt8.toNat_ofNat'
    rw [toLe, ofLe, ih, hbyte, pow_succ', Nat.mod_mul]

theorem ofLe_toLe_of_lt {width n : ℕ} (h : n < 256 ^ width) : ofLe (toLe width n) = n := by
  rw [ofLe_toLe, Nat.mod_eq_of_lt h]

theorem toLe_ofLe (bs : List UInt8) : toLe bs.length (ofLe bs) = bs := by
  induction bs with
  | nil => rfl
  | cons b bs ih =>
    have hb : b.toNat < 256 := b.toNat_lt
    have hlow : UInt8.ofNat (b.toNat + 256 * ofLe bs) = b := by
      apply UInt8.toNat_inj.1
      rw [UInt8.toNat_ofNat']
      omega
    have hhigh : (b.toNat + 256 * ofLe bs) / 256 = ofLe bs := by omega
    rw [List.length_cons, ofLe, toLe, hlow, hhigh, ih]

/-- The `width` bytes at `offset`. -/
def field (buf : List UInt8) (offset width : ℕ) : List UInt8 := (buf.drop offset).take width

/-- A field after its prelude, whatever follows it. -/
theorem field_append {pre bytes : List UInt8} {offset width : ℕ} (rest : List UInt8)
    (hpre : pre.length = offset) (hbytes : bytes.length = width) :
    field (pre ++ (bytes ++ rest)) offset width = bytes := by
  rw [field, List.drop_append_of_le_length (by omega), List.drop_of_length_le (by omega),
    List.nil_append, List.take_append_of_le_length (by omega), List.take_of_length_le (by omega)]

end HypeLlm.Bytes
