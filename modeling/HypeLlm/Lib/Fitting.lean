import Mathlib

/-!
# Filling a bounded buffer

Pieces of a sequence arrive one after the other for a buffer of a limited weight, and of each piece the
buffer takes the longest beginning it has room for.  A piece that is cut leaves a gap, and the gap
stays open when a later piece begins with something lighter.

* `poured_prefix_iff` — what is in the buffer is a beginning of all that arrived exactly when nothing
  went in after the first cut;
* `poured_eq_flatten` — it is all that arrived when everything fits.
-/

namespace HypeLlm.Fitting

open List

variable {α : Type*} (w : α → ℕ)

/-- The weight of a sequence. -/
def weigh (xs : List α) : ℕ := (xs.map w).sum

@[simp] theorem weigh_nil : weigh w [] = 0 := rfl

@[simp] theorem weigh_cons (x : α) (xs : List α) : weigh w (x :: xs) = w x + weigh w xs := by
  simp [weigh]

@[simp] theorem weigh_append (xs ys : List α) : weigh w (xs ++ ys) = weigh w xs + weigh w ys := by
  simp [weigh]

/-- The longest beginning of a sequence within a weight. -/
def fitting : ℕ → List α → List α
  | _, [] => []
  | room, x :: xs => if w x ≤ room then x :: fitting (room - w x) xs else []

@[simp] theorem fitting_nil (room : ℕ) : fitting w room [] = [] := rfl

variable {w}

theorem fitting_cons_of_le {room : ℕ} {x : α} {xs : List α} (h : w x ≤ room) :
    fitting w room (x :: xs) = x :: fitting w (room - w x) xs := by
  rw [fitting, if_pos h]

theorem fitting_cons_of_lt {room : ℕ} {x : α} {xs : List α} (h : room < w x) :
    fitting w room (x :: xs) = [] := by
  rw [fitting, if_neg (Nat.not_le.2 h)]

theorem weigh_fitting_le (room : ℕ) (xs : List α) : weigh w (fitting w room xs) ≤ room := by
  induction xs generalizing room with
  | nil => simp
  | cons x xs ih =>
    rcases Nat.lt_or_ge room (w x) with h | h
    · simp [fitting_cons_of_lt h]
    · rw [fitting_cons_of_le h, weigh_cons]
      have := ih (room - w x)
      omega

theorem weigh_fitting_mono {room room' : ℕ} (h : room ≤ room') (xs : List α) :
    weigh w (fitting w room xs) ≤ weigh w (fitting w room' xs) := by
  induction xs generalizing room room' with
  | nil => simp
  | cons x xs ih =>
    rcases Nat.lt_or_ge room (w x) with hx | hx
    · simp [fitting_cons_of_lt hx]
    · rw [fitting_cons_of_le hx, fitting_cons_of_le (hx.trans h), weigh_cons, weigh_cons]
      have := ih (Nat.sub_le_sub_right h (w x))
      omega

theorem fitting_eq_self {room : ℕ} {xs : List α} (h : weigh w xs ≤ room) :
    fitting w room xs = xs := by
  induction xs generalizing room with
  | nil => rfl
  | cons x xs ih =>
    rw [weigh_cons] at h
    rw [fitting_cons_of_le (by omega), ih (by omega)]

/-- What does not fit breaks off before something heavier than the room that is left. -/
theorem exists_eq_fitting_append {room : ℕ} {xs : List α} (h : room < weigh w xs) :
    ∃ y rest, xs = fitting w room xs ++ y :: rest ∧ room - weigh w (fitting w room xs) < w y := by
  induction xs generalizing room with
  | nil => simp at h
  | cons x xs ih =>
    rw [weigh_cons] at h
    rcases Nat.lt_or_ge room (w x) with hx | hx
    · exact ⟨x, xs, by rw [fitting_cons_of_lt hx, nil_append],
        by rw [fitting_cons_of_lt hx, weigh_nil]; exact hx⟩
    · obtain ⟨y, rest, heq, hy⟩ := ih (show room - w x < weigh w xs by omega)
      refine ⟨y, rest, ?_, ?_⟩
      · rw [fitting_cons_of_le hx, cons_append, ← heq]
      · rw [fitting_cons_of_le hx, weigh_cons]
        omega

theorem weight_le_of_mem_fitting {room : ℕ} {xs : List α} {x : α} (h : x ∈ fitting w room xs) :
    w x ≤ room := by
  induction xs generalizing room with
  | nil => exact absurd h not_mem_nil
  | cons y ys ih =>
    rcases Nat.lt_or_ge room (w y) with hy | hy
    · rw [fitting_cons_of_lt hy] at h
      exact absurd h not_mem_nil
    · rw [fitting_cons_of_le hy, mem_cons] at h
      rcases h with rfl | h
      · exact hy
      · exact (ih h).trans (Nat.sub_le _ _)

theorem fitting_eq_nil_iff {room : ℕ} {xs : List α} :
    fitting w room xs = [] ↔ ∀ x ∈ xs.head?, room < w x := by
  cases xs with
  | nil => simp
  | cons x xs =>
    rcases Nat.lt_or_ge room (w x) with h | h
    · simp [fitting_cons_of_lt h, h]
    · simp [fitting_cons_of_le h, h]

/-! ### A whole arrival -/

variable (w)

/-- What a buffer takes of the pieces that arrive while it has `room`. -/
def poured : ℕ → List (List α) → List α
  | _, [] => []
  | room, piece :: pieces =>
    fitting w room piece ++ poured (room - weigh w (fitting w room piece)) pieces

/-- Nothing goes in after the first cut: what is left of the room then is too little for the beginning
of any later piece. -/
def Unbroken : ℕ → List (List α) → Prop
  | _, [] => True
  | room, piece :: pieces =>
    if weigh w piece ≤ room then Unbroken (room - weigh w piece) pieces
    else ∀ later ∈ pieces, ∀ x ∈ later.head?, room - weigh w (fitting w room piece) < w x

variable {w}

theorem weigh_poured_le (room : ℕ) (pieces : List (List α)) :
    weigh w (poured w room pieces) ≤ room := by
  induction pieces generalizing room with
  | nil => simp [poured]
  | cons piece pieces ih =>
    rw [poured, weigh_append]
    have hpiece := weigh_fitting_le (w := w) room piece
    have := ih (room - weigh w (fitting w room piece))
    omega

theorem weight_le_of_mem_poured {room : ℕ} {pieces : List (List α)} {x : α}
    (h : x ∈ poured w room pieces) : w x ≤ room := by
  induction pieces generalizing room with
  | nil => exact absurd h not_mem_nil
  | cons piece pieces ih =>
    rw [poured, mem_append] at h
    rcases h with h | h
    · exact weight_le_of_mem_fitting h
    · exact (ih h).trans (Nat.sub_le _ _)

theorem poured_eq_nil_iff {room : ℕ} {pieces : List (List α)} :
    poured w room pieces = [] ↔ ∀ piece ∈ pieces, ∀ x ∈ piece.head?, room < w x := by
  induction pieces with
  | nil => simp [poured]
  | cons piece pieces ih =>
    rw [poured, append_eq_nil_iff, forall_mem_cons, ← fitting_eq_nil_iff]
    refine and_congr_right fun hpiece => ?_
    rw [hpiece, weigh_nil, Nat.sub_zero, ih]

/-- Behind something too heavy for the room, nothing is taken that continues with it. -/
theorem poured_prefix_heavy_iff {room : ℕ} {pieces : List (List α)} {y : α} {rest : List α}
    (hy : room < w y) : poured w room pieces <+: y :: rest ↔ poured w room pieces = [] := by
  constructor
  · intro h
    cases hpoured : poured w room pieces with
    | nil => rfl
    | cons x xs =>
      have hx : x = y := by
        rw [hpoured, cons_prefix_cons] at h
        exact h.1
      have hmem : x ∈ poured w room pieces := by
        rw [hpoured]
        exact mem_cons_self
      have hroom := weight_le_of_mem_poured hmem
      rw [hx] at hroom
      omega
  · intro h
    rw [h]
    exact nil_prefix

theorem poured_prefix_iff {room : ℕ} {pieces : List (List α)} :
    poured w room pieces <+: pieces.flatten ↔ Unbroken w room pieces := by
  induction pieces generalizing room with
  | nil => simp [poured, Unbroken]
  | cons piece pieces ih =>
    rw [poured, flatten_cons, Unbroken]
    split
    next hfits => rw [fitting_eq_self hfits, prefix_append_right_inj, ih]
    next hcut =>
      -- Behind the cut the arrival goes on with what did not fit.
      obtain ⟨y, rest, heq, hy⟩ := exists_eq_fitting_append (Nat.not_le.1 hcut)
      have hsplit : piece ++ pieces.flatten =
          fitting w room piece ++ y :: (rest ++ pieces.flatten) := by
        nth_rewrite 1 [heq]
        simp
      rw [hsplit, prefix_append_right_inj, poured_prefix_heavy_iff hy, poured_eq_nil_iff]

theorem poured_eq_flatten {room : ℕ} {pieces : List (List α)} (h : weigh w pieces.flatten ≤ room) :
    poured w room pieces = pieces.flatten := by
  induction pieces generalizing room with
  | nil => rfl
  | cons piece pieces ih =>
    rw [flatten_cons, weigh_append] at h
    have hpiece : fitting w room piece = piece := fitting_eq_self (by omega)
    rw [poured, flatten_cons, hpiece, ih (by omega)]

/-- One more piece goes into the room that the earlier ones left. -/
theorem poured_concat (room : ℕ) (pieces : List (List α)) (piece : List α) :
    poured w room (pieces ++ [piece]) = poured w room pieces ++
      fitting w (room - weigh w (poured w room pieces)) piece := by
  induction pieces generalizing room with
  | nil => simp [poured]
  | cons first pieces ih =>
    rw [cons_append, poured, poured, ih, weigh_append, append_assoc, Nat.sub_sub]

end HypeLlm.Fitting
