import HypeLlm.Lib.Lists

/-!
# Numbers in decimal

The digits of a number, the highest first, and the number that digits stand for.

* `value_digits` — the digits of a number stand for it;
* `parse_text` — what is written is read back;
* `padded_eq`, `lastDigits_lt` — numbers of a fixed width, and their order.
-/

namespace HypeLlm.Decimal

open List

/-- The digits of `n`, the highest first and none for zero; at most `fuel` of them. -/
def digits : ℕ → ℕ → List ℕ
  | 0, _ => []
  | fuel + 1, n => if n = 0 then [] else digits fuel (n / 10) ++ [n % 10]

/-- The number that digits stand for. -/
def value (ds : List ℕ) : ℕ := ds.foldl (fun v d => 10 * v + d) 0

theorem value_snoc (ds : List ℕ) (d : ℕ) : value (ds ++ [d]) = 10 * value ds + d := by
  rw [value, foldl_append]
  rfl

theorem value_digits {fuel n : ℕ} (h : n < 10 ^ fuel) : value (digits fuel n) = n := by
  induction fuel generalizing n with
  | zero =>
    have hn : n = 0 := by omega
    rw [hn]
    rfl
  | succ fuel ih =>
    rw [digits]
    split
    · rename_i hn
      rw [hn]
      rfl
    · have hrest : n / 10 < 10 ^ fuel := by
        rw [Nat.pow_succ] at h
        omega
      rw [value_snoc, ih hrest]
      omega

theorem lt_of_mem_digits {fuel n d : ℕ} (h : d ∈ digits fuel n) : d < 10 := by
  induction fuel generalizing n with
  | zero => cases h
  | succ fuel ih =>
    rw [digits] at h
    split at h
    · cases h
    · rcases mem_append.1 h with h | h
      · exact ih h
      · obtain rfl := mem_singleton.1 h
        omega

theorem digits_ne_nil {fuel n : ℕ} (hfuel : 0 < fuel) (hn : n ≠ 0) : digits fuel n ≠ [] := by
  obtain ⟨fuel, rfl⟩ := Nat.exists_eq_succ_of_ne_zero hfuel.ne'
  rw [digits, if_neg hn]
  exact append_ne_nil_of_right_ne_nil _ (cons_ne_nil _ _)

/-- The first digit is not zero. -/
theorem head_digits {fuel n : ℕ} (h : n < 10 ^ fuel) {d : ℕ} {ds : List ℕ}
    (hdigits : digits fuel n = d :: ds) : 0 < d := by
  induction fuel generalizing n d ds with
  | zero => cases hdigits
  | succ fuel ih =>
    rw [digits] at hdigits
    split at hdigits
    · cases hdigits
    · rename_i hn
      have hrest : n / 10 < 10 ^ fuel := by
        rw [Nat.pow_succ] at h
        omega
      cases hfront : digits fuel (n / 10) with
      | nil =>
        rw [hfront, nil_append] at hdigits
        obtain ⟨rfl, -⟩ := cons.inj hdigits
        have hzero := value_digits hrest
        rw [hfront] at hzero
        have hvalue : value [] = 0 := rfl
        omega
      | cons e es =>
        rw [hfront, cons_append] at hdigits
        obtain ⟨rfl, -⟩ := cons.inj hdigits
        exact ih hrest hfront

theorem length_digits_le {fuel n k : ℕ} (h : n < 10 ^ k) : (digits fuel n).length ≤ k := by
  induction fuel generalizing n k with
  | zero => exact Nat.zero_le k
  | succ fuel ih =>
    rw [digits]
    split
    · exact Nat.zero_le k
    · obtain _ | k := k
      · omega
      · have hrest : n / 10 < 10 ^ k := by
          rw [Nat.pow_succ] at h
          omega
        rw [length_append, length_singleton]
        exact Nat.succ_le_succ (ih hrest)

theorem lt_length_digits {fuel n k : ℕ} (hk : k < fuel) (h : 10 ^ k ≤ n) :
    k < (digits fuel n).length := by
  induction fuel generalizing n k with
  | zero => exact absurd hk (Nat.not_lt_zero k)
  | succ fuel ih =>
    have hpos : 0 < 10 ^ k := Nat.pow_pos (by decide)
    rw [digits, if_neg (by omega), length_append, length_singleton]
    obtain _ | k := k
    · omega
    · have hrest : 10 ^ k ≤ n / 10 := by
        rw [Nat.pow_succ] at h
        omega
      exact Nat.succ_lt_succ (ih (by omega) hrest)

theorem value_eq_zero_iff {ds : List ℕ} : value ds = 0 ↔ ∀ d ∈ ds, d = 0 := by
  induction ds using reverseRecOn with
  | nil => exact ⟨fun _ d hd => absurd hd not_mem_nil, fun _ => rfl⟩
  | append_singleton ds d ih =>
    rw [value_snoc, forall_mem_append, ← ih]
    constructor
    · intro h
      refine ⟨by omega, ?_⟩
      intro x hx
      obtain rfl := mem_singleton.1 hx
      omega
    · rintro ⟨hvalue, hlast⟩
      have hd := hlast d (mem_singleton.2 rfl)
      omega

/-! ### As text -/

def digitChar (d : ℕ) : Char := Char.ofNat (48 + d)

/-- The digit that a character stands for. -/
def digitOf (c : Char) : Option ℕ :=
  if 48 ≤ c.toNat ∧ c.toNat ≤ 57 then some (c.toNat - 48) else none

theorem toNat_digitChar {d : ℕ} (h : d < 10) : (digitChar d).toNat = 48 + d := by
  have hvalid : (48 + d).isValidChar := .inl (by omega)
  rw [digitChar, Char.ofNat, dif_pos hvalid]
  rfl

theorem digitOf_digitChar {d : ℕ} (h : d < 10) : digitOf (digitChar d) = some d := by
  rw [digitOf, toNat_digitChar h, if_pos (by omega), Nat.add_sub_cancel_left]

/-- A number as text. -/
def text (fuel n : ℕ) : List Char := if n = 0 then ['0'] else (digits fuel n).map digitChar

/-- Read a number of digits only. -/
def parseDigits (cs : List Char) : Option ℕ := (cs.mapM digitOf).map value

/-- Read a number up to `max`: a plus sign may lead it, and it has a digit. -/
def parse (max : ℕ) (cs : List Char) : Option ℕ :=
  let ds := if cs.head? = some '+' then cs.tail else cs
  if ds = [] then none else (parseDigits ds).filter (· ≤ max)

theorem mapM_digitOf {ds : List ℕ} (h : ∀ d ∈ ds, d < 10) :
    (ds.map digitChar).mapM digitOf = some ds := by
  induction ds with
  | nil => rfl
  | cons d ds ih =>
    have hrest := ih fun x hx => h x (mem_cons_of_mem d hx)
    simp [mapM_cons, digitOf_digitChar (h d mem_cons_self), hrest]

/-- Each character that was read gave one of the digits. -/
theorem mem_of_mapM_digitOf {cs : List Char} {ds : List ℕ} (h : cs.mapM digitOf = some ds) {c : Char}
    (hc : c ∈ cs) : ∃ d ∈ ds, c = digitChar d := by
  induction cs generalizing ds with
  | nil => exact absurd hc not_mem_nil
  | cons x cs ih =>
    rw [mapM_cons] at h
    obtain ⟨d, hd, h⟩ := Option.bind_eq_some_iff.1 h
    obtain ⟨rest, hrest, h⟩ := Option.bind_eq_some_iff.1 h
    obtain rfl := Option.some.inj h
    obtain rfl | hc := mem_cons.1 hc
    · refine ⟨d, mem_cons_self, ?_⟩
      rw [digitOf] at hd
      split at hd
      · rw [digitChar, ← Option.some.inj hd, Nat.add_sub_cancel' (by omega), Char.ofNat_toNat]
      · cases hd
    · obtain ⟨d', hd', hsame⟩ := ih hrest hc
      exact ⟨d', mem_cons_of_mem d hd', hsame⟩

theorem parseDigits_text {fuel n : ℕ} (h : n < 10 ^ fuel) : parseDigits (text fuel n) = some n := by
  rw [text]
  split
  · rename_i hn
    rw [hn]
    rfl
  · rw [parseDigits, mapM_digitOf fun d hd => lt_of_mem_digits hd, Option.map_some, value_digits h]

theorem digit_of_mem_text {fuel n : ℕ} {c : Char} (h : c ∈ text fuel n) :
    ∃ d < 10, c = digitChar d := by
  rw [text] at h
  split at h
  · obtain rfl := mem_singleton.1 h
    exact ⟨0, by omega, rfl⟩
  · obtain ⟨d, hd, rfl⟩ := mem_map.1 h
    exact ⟨d, lt_of_mem_digits hd, rfl⟩

theorem text_ne_nil {fuel n : ℕ} (hfuel : 0 < fuel) : text fuel n ≠ [] := by
  rw [text]
  split
  · exact cons_ne_nil _ _
  · rename_i hn
    exact mt map_eq_nil_iff.1 (digits_ne_nil hfuel hn)

theorem length_text_le_iff {fuel n k : ℕ} (hpos : 0 < k) (hk : k < fuel) :
    (text fuel n).length ≤ k ↔ n < 10 ^ k := by
  rw [text]
  split
  · rename_i hn
    rw [hn]
    exact ⟨fun _ => Nat.pow_pos (by decide), fun _ => hpos⟩
  · rw [length_map]
    constructor
    · intro h
      by_contra hle
      have hlong := lt_length_digits hk (not_lt.1 hle)
      omega
    · exact length_digits_le

/-- **What is written is read back.** -/
theorem parse_text {fuel n max : ℕ} (hfuel : 0 < fuel) (h : n < 10 ^ fuel) (hmax : n ≤ max) :
    parse max (text fuel n) = some n := by
  have hplus : (text fuel n).head? ≠ some '+' := by
    intro hhead
    obtain ⟨d, hd, hc⟩ := digit_of_mem_text (mem_of_head? hhead)
    have htoNat := toNat_digitChar hd
    rw [← hc] at htoNat
    have hvalue : '+'.toNat = 43 := rfl
    omega
  rw [parse, if_neg hplus]
  rw [if_neg (text_ne_nil hfuel), parseDigits_text h, Option.filter_some, if_pos (decide_eq_true hmax)]

/-! ### Fixed width -/

/-- The last `width` digits. -/
def lastDigits : ℕ → ℕ → List ℕ
  | 0, _ => []
  | width + 1, n => lastDigits width (n / 10) ++ [n % 10]

/-- A number with zeros before it up to a width, as it is printed. -/
def padded (width n : ℕ) : List Char :=
  replicate (width - (text 20 n).length) '0' ++ text 20 n

theorem length_lastDigits (width n : ℕ) : (lastDigits width n).length = width := by
  induction width generalizing n with
  | zero => rfl
  | succ width ih => rw [lastDigits, length_append, ih, length_singleton]

theorem lt_of_mem_lastDigits {width n d : ℕ} (h : d ∈ lastDigits width n) : d < 10 := by
  induction width generalizing n with
  | zero => cases h
  | succ width ih =>
    obtain h | h := mem_append.1 h
    · exact ih h
    · rw [mem_singleton.1 h]
      exact Nat.mod_lt _ (by decide)

/-- The digits that there are come after zeros. -/
theorem replicate_digits {width fuel n : ℕ} (h : n < 10 ^ width) (hfuel : width ≤ fuel) :
    replicate (width - (digits fuel n).length) 0 ++ digits fuel n = lastDigits width n := by
  induction width generalizing fuel n with
  | zero =>
    have hn : n = 0 := by omega
    cases fuel with
    | zero => rfl
    | succ fuel =>
      rw [digits, if_pos hn]
      rfl
  | succ width ih =>
    obtain ⟨fuel, rfl⟩ := Nat.exists_eq_succ_of_ne_zero (Nat.pos_iff_ne_zero.1
      (Nat.lt_of_lt_of_le width.succ_pos hfuel))
    have hrest : n / 10 < 10 ^ width := by
      rw [Nat.pow_succ] at h
      omega
    have hstep := ih hrest (Nat.le_of_succ_le_succ hfuel)
    rw [digits, lastDigits, ← hstep]
    split
    · rename_i hn
      have hnone : digits fuel (n / 10) = [] := by
        rw [hn]
        cases fuel <;> rfl
      rw [hnone, hn, append_nil, append_nil, length_nil]
      exact replicate_succ'
    · rw [length_append, length_singleton, Nat.add_sub_add_right, append_assoc]

/-- **A number that fits is printed in a fixed number of digits.** -/
theorem padded_eq {width n : ℕ} (hpos : 0 < width) (hwidth : width ≤ 20) (h : n < 10 ^ width) :
    padded width n = (lastDigits width n).map digitChar := by
  rw [← replicate_digits h hwidth, map_append, map_replicate, padded, text]
  split
  · rename_i hn
    have hnone : digits 20 n = [] := by rw [hn]; rfl
    obtain ⟨rest, rfl⟩ := Nat.exists_eq_succ_of_ne_zero hpos.ne'
    rw [hnone, map_nil, append_nil, length_nil, length_singleton]
    exact replicate_succ'.symm
  · rw [length_map]
    rfl

/-- Numbers of a width are compared as their digits are. -/
theorem lastDigits_lt {width a b : ℕ} (hlt : a < b) (hb : b < 10 ^ width) :
    lastDigits width a < lastDigits width b := by
  induction width generalizing a b with
  | zero => omega
  | succ width ih =>
    have hrest : b / 10 < 10 ^ width := by
      rw [Nat.pow_succ] at hb
      omega
    rw [lastDigits, lastDigits, Lists.append_lt_append (by rw [length_lastDigits, length_lastDigits])]
    obtain hlt' | heq := Nat.lt_or_eq_of_le (Nat.div_le_div_right hlt.le : a / 10 ≤ b / 10)
    · exact .inl (ih hlt' hrest)
    · refine .inr ⟨by rw [heq], ?_⟩
      rw [List.cons_lt_cons_iff]
      exact .inl (by omega)

end HypeLlm.Decimal
