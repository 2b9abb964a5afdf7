import Mathlib

/-!
# Blocks of numbers that share their first bits

The numbers of a fixed width that share their first bits, as address blocks do, and tables of such
blocks in which the first row that holds a number decides.  Two blocks are nested or apart, and
which of the two is seen from their bases alone.

* `Block.not_contains_of_apart` — blocks that are apart share no number;
* `lookup_eq_iff` — when a table answers with a row;
* `lookup_mem_iff_within` — when it answers with a key of a kind.
-/

namespace HypeLlm.Blocks

/-- The numbers of `width` bits that share the first `length` bits of `base`. -/
structure Block where
  width : ℕ
  base : ℕ
  length : ℕ
  deriving DecidableEq

namespace Block

def Contains (block : Block) (n : ℕ) : Prop :=
  n / 2 ^ (block.width - block.length) = block.base / 2 ^ (block.width - block.length)

instance (block : Block) (n : ℕ) : Decidable (block.Contains n) :=
  inferInstanceAs (Decidable (_ = _))

/-- The bases differ within the bits that both blocks fix. -/
def Apart (p q : Block) : Prop :=
  p.width = q.width ∧ p.base / 2 ^ (p.width - min p.length q.length) ≠
    q.base / 2 ^ (p.width - min p.length q.length)

instance (p q : Block) : Decidable (p.Apart q) := inferInstanceAs (Decidable (_ ∧ _))

/-- Fewer bits are shared when more are. -/
theorem Contains.fewer {block : Block} {n : ℕ} (h : block.Contains n) {length : ℕ}
    (hlen : length ≤ block.length) :
    n / 2 ^ (block.width - length) = block.base / 2 ^ (block.width - length) := by
  obtain ⟨k, hk⟩ : ∃ k, block.width - length = block.width - block.length + k :=
    Nat.exists_eq_add_of_le (by omega)
  unfold Contains at h
  rw [hk, pow_add, ← Nat.div_div_eq_div_mul, ← Nat.div_div_eq_div_mul, h]

theorem not_contains_of_apart {p q : Block} (h : p.Apart q) {n : ℕ} (hp : p.Contains n) :
    ¬q.Contains n := by
  intro hq
  have hpn := hp.fewer (min_le_left p.length q.length)
  have hqn := hq.fewer (min_le_right p.length q.length)
  rw [← h.1] at hqn
  exact h.2 (hpn.symm.trans hqn)

end Block

/-- A mask of the highest bits keeps what they say of the number. -/
theorem and_highBits {k m n : ℕ} (hn : n < 2 ^ (k + m)) :
    n &&& (2 ^ m - 1) * 2 ^ k = n / 2 ^ k * 2 ^ k := by
  have hhigh : (n &&& (2 ^ m - 1) * 2 ^ k) / 2 ^ k = n / 2 ^ k := by
    rw [Nat.and_div_two_pow, Nat.mul_div_cancel _ (Nat.two_pow_pos k),
      Nat.and_two_pow_sub_one_eq_mod]
    exact Nat.mod_eq_of_lt (Nat.div_lt_of_lt_mul (by rwa [← pow_add]))
  have hlow : (n &&& (2 ^ m - 1) * 2 ^ k) % 2 ^ k = 0 := by
    rw [Nat.and_mod_two_pow, Nat.mul_mod_left, Nat.and_zero]
  calc n &&& (2 ^ m - 1) * 2 ^ k
      = (n &&& (2 ^ m - 1) * 2 ^ k) / 2 ^ k * 2 ^ k := by
        rw [Nat.div_mul_cancel (Nat.dvd_of_mod_eq_zero hlow)]
    _ = n / 2 ^ k * 2 ^ k := by rw [hhigh]

/-- Two numbers of as many digits agree above the first `i` of them when those digits do. -/
theorem div_pow_eq_iff {b : ℕ} (hb : 1 < b) {l l' : List ℕ} (hlen : l.length = l'.length)
    (hl : ∀ d ∈ l, d < b) (hl' : ∀ d ∈ l', d < b) (i : ℕ) :
    Nat.ofDigits b l / b ^ i = Nat.ofDigits b l' / b ^ i ↔ l.drop i = l'.drop i := by
  rw [Nat.ofDigits_div_pow_eq_ofDigits_drop i (by omega) l hl,
    Nat.ofDigits_div_pow_eq_ofDigits_drop i (by omega) l' hl']
  refine ⟨fun h => ?_, congrArg _⟩
  exact Nat.ofDigits_inj_of_len_eq hb (by rw [List.length_drop, List.length_drop, hlen])
    (fun d hd => hl d (List.mem_of_mem_drop hd)) (fun d hd => hl' d (List.mem_of_mem_drop hd)) h

/-! ### Lists of blocks -/

/-- In one of the blocks. -/
def Within (n : ℕ) (blocks : List Block) : Prop := ∃ block ∈ blocks, block.Contains n

instance (n : ℕ) (blocks : List Block) : Decidable (Within n blocks) :=
  inferInstanceAs (Decidable (∃ block ∈ blocks, block.Contains n))

@[simp] theorem within_nil (n : ℕ) : ¬Within n [] := by simp [Within]

@[simp] theorem within_cons (n : ℕ) (block : Block) (blocks : List Block) :
    Within n (block :: blocks) ↔ block.Contains n ∨ Within n blocks := by
  simp [Within]

@[simp] theorem within_append (n : ℕ) (blocks more : List Block) :
    Within n (blocks ++ more) ↔ Within n blocks ∨ Within n more := by
  simp [Within, or_and_right, exists_or]

/-- No block of the one list meets a block of the other. -/
def Disjoint (blocks others : List Block) : Prop := ∀ p ∈ blocks, ∀ q ∈ others, p.Apart q

instance (blocks others : List Block) : Decidable (Disjoint blocks others) :=
  inferInstanceAs (Decidable (∀ p ∈ blocks, ∀ q ∈ others, p.Apart q))

theorem Disjoint.not_within {blocks others : List Block} (h : Disjoint blocks others) {n : ℕ}
    (hn : Within n blocks) : ¬Within n others := by
  rintro ⟨q, hq, hqn⟩
  obtain ⟨p, hp, hpn⟩ := hn
  exact Block.not_contains_of_apart (h p hp q hq) hpn hqn

/-! ### Tables -/

variable {κ : Type*}

/-- The key of the first row whose blocks hold the number. -/
def lookup (otherwise : κ) : List (κ × List Block) → ℕ → κ
  | [], _ => otherwise
  | (key, blocks) :: rest, n => if Within n blocks then key else lookup otherwise rest n

/-- What a table answers is the key of a row that holds the number, unless no row does. -/
theorem lookup_eq_otherwise_or (otherwise : κ) (table : List (κ × List Block)) (n : ℕ) :
    (lookup otherwise table n = otherwise ∧ ∀ row ∈ table, ¬Within n row.2) ∨
      ∃ row ∈ table, row.1 = lookup otherwise table n ∧ Within n row.2 := by
  induction table with
  | nil => exact .inl ⟨rfl, by simp⟩
  | cons row table ih =>
    rw [lookup]
    by_cases hrow : Within n row.2
    · rw [if_pos hrow]
      exact .inr ⟨row, by simp, rfl, hrow⟩
    · rw [if_neg hrow]
      rcases ih with ⟨heq, hnone⟩ | ⟨found, hmem, hkey, hwithin⟩
      · refine .inl ⟨heq, fun other hother => ?_⟩
        rcases List.mem_cons.1 hother with rfl | hother
        · exact hrow
        · exact hnone other hother
      · exact .inr ⟨found, List.mem_cons_of_mem _ hmem, hkey, hwithin⟩

/-- A key that one row has and that is not the answer for want of a row is the answer for the
numbers of that row that no earlier row holds. -/
theorem lookup_eq_iff {otherwise key : κ} (before : List (κ × List Block)) (blocks : List Block)
    (after : List (κ × List Block)) (hkey : key ≠ otherwise) (hbefore : ∀ row ∈ before, row.1 ≠ key)
    (hafter : ∀ row ∈ after, row.1 ≠ key) (n : ℕ) :
    lookup otherwise (before ++ (key, blocks) :: after) n = key ↔
      Within n blocks ∧ ∀ row ∈ before, ¬Within n row.2 := by
  induction before with
  | nil =>
    rw [List.nil_append, lookup]
    by_cases hn : Within n blocks
    · rw [if_pos hn]
      exact ⟨fun _ => ⟨hn, by simp⟩, fun _ => rfl⟩
    · rw [if_neg hn]
      refine ⟨fun h => ?_, fun h => absurd h.1 hn⟩
      rcases lookup_eq_otherwise_or otherwise after n with ⟨heq, -⟩ | ⟨row, hrow, heq, -⟩
      · exact absurd (h.symm.trans heq) hkey
      · exact absurd (heq.trans h) (hafter row hrow)
  | cons row before ih =>
    rw [List.cons_append, lookup]
    by_cases hrow : Within n row.2
    · rw [if_pos hrow]
      exact ⟨fun h => absurd h (hbefore row (by simp)), fun h => absurd hrow (h.2 row (by simp))⟩
    · rw [if_neg hrow, ih fun row hrow => hbefore row (List.mem_cons_of_mem _ hrow)]
      simp [hrow]

/-- The keys of a kind are the answers for the numbers of their rows, where no row of the other kind
that comes first meets one of them. -/
theorem lookup_mem_iff {P : κ → Prop} {otherwise : κ} (hother : ¬P otherwise)
    {table : List (κ × List Block)}
    (hapart : table.Pairwise fun row later => ¬P row.1 → P later.1 → Disjoint row.2 later.2)
    (n : ℕ) : P (lookup otherwise table n) ↔ ∃ row ∈ table, P row.1 ∧ Within n row.2 := by
  induction table with
  | nil => simp [lookup, hother]
  | cons row rest ih =>
    obtain ⟨hfirst, hrest⟩ := List.pairwise_cons.1 hapart
    rw [lookup, List.exists_mem_cons_iff, ← ih hrest]
    by_cases hrow : Within n row.2
    · rw [if_pos hrow]
      refine ⟨fun h => .inl ⟨h, hrow⟩, ?_⟩
      rintro (⟨h, -⟩ | h)
      · exact h
      · by_contra hkey
        obtain ⟨later, hlater, hP, hin⟩ := (ih hrest).1 h
        exact (hfirst later hlater hkey hP).not_within hrow hin
    · rw [if_neg hrow]
      refine ⟨.inr, ?_⟩
      rintro (⟨-, hin⟩ | h)
      · exact absurd hin hrow
      · exact h

/-- The same over a list of the blocks of that kind. -/
theorem lookup_mem_iff_within {P : κ → Prop} {otherwise : κ} (hother : ¬P otherwise)
    {table : List (κ × List Block)} {blocks : List Block}
    (hapart : table.Pairwise fun row later => ¬P row.1 → P later.1 → Disjoint row.2 later.2)
    (hrows : ∀ row ∈ table, P row.1 → row.2 ⊆ blocks)
    (hblocks : ∀ block ∈ blocks, ∃ row ∈ table, P row.1 ∧ block ∈ row.2) (n : ℕ) :
    P (lookup otherwise table n) ↔ Within n blocks := by
  rw [lookup_mem_iff hother hapart]
  constructor
  · rintro ⟨row, hrow, hP, block, hblock, hin⟩
    exact ⟨block, hrows row hrow hP hblock, hin⟩
  · rintro ⟨block, hblock, hin⟩
    obtain ⟨row, hrow, hP, hmem⟩ := hblocks block hblock
    exact ⟨row, hrow, hP, block, hmem, hin⟩

end HypeLlm.Blocks
