import HypeLlm.Lib.Fitting

/-!
# Text within a limit

Text arrives in fragments and is kept up to a number of bytes.  A fragment that does not fit is cut at
the last character boundary within the limit, so the text may stop short of the limit, and a later
fragment that begins with a shorter character still finds room.

* `appendBounded_eq` — of a fragment the longest beginning of whole characters that fits is kept;
* `collected_prefix_iff` — what is kept is a beginning of what arrived exactly when nothing was kept
  behind a cut.
-/

namespace HypeLlm.Pipeline

open HypeLlm.Fitting

/-- The beginning of some text that ends at a byte, when a character ends there. -/
def upTo? : List Char → ℕ → Option (List Char)
  | _, 0 => some []
  | [], _ + 1 => none
  | c :: cs, n + 1 => if c.utf8Size ≤ n + 1 then (upTo? cs (n + 1 - c.utf8Size)).map (c :: ·) else none

def isCharBoundary (addition : String) (position : ℕ) : Bool :=
  (upTo? addition.toList position).isSome

/-- The last character boundary up to a position. -/
def floorBoundary (addition : String) : ℕ → ℕ
  | 0 => 0
  | position + 1 =>
    if isCharBoundary addition (position + 1) then position + 1 else floorBoundary addition position

/-- Append within a limit.  With the text comes whether anything was discarded. -/
def appendBounded (target addition : String) (max : ℕ) : Bool × String :=
  if max ≤ target.utf8ByteSize then (!addition.isEmpty, target)
  else if addition.utf8ByteSize ≤ max - target.utf8ByteSize then (false, target ++ addition)
  else
    (true, target ++ String.ofList
      ((upTo? addition.toList (floorBoundary addition (max - target.utf8ByteSize))).getD []))

theorem weigh_toList (s : String) : weigh Char.utf8Size s.toList = s.utf8ByteSize := by
  have key : ∀ cs : List Char, weigh Char.utf8Size cs = (String.ofList cs).utf8ByteSize := by
    intro cs
    induction cs with
    | nil => simp
    | cons c cs ih => rw [weigh_cons, ih, String.utf8ByteSize_ofList, String.utf8ByteSize_ofList,
        String.utf8Len_cons, Nat.add_comm]
  rw [key, String.ofList_toList]

theorem upTo?_zero (cs : List Char) : upTo? cs 0 = some [] := by
  cases cs <;> rfl

/-- Text that ends at a position within the room is within the text that fits it. -/
theorem weigh_upTo? {cs kept : List Char} {n : ℕ} (h : upTo? cs n = some kept) :
    weigh Char.utf8Size kept = n ∧ kept = fitting Char.utf8Size n cs := by
  induction cs generalizing n kept with
  | nil =>
    cases n with
    | zero => cases (upTo?_zero []).symm.trans h; simp
    | succ n => exact absurd h (by simp [upTo?])
  | cons c cs ih =>
    cases n with
    | zero =>
      cases (upTo?_zero (c :: cs)).symm.trans h
      exact ⟨rfl, (fitting_cons_of_lt c.utf8Size_pos).symm⟩
    | succ n =>
      rw [upTo?] at h
      split at h
      next hc =>
        obtain ⟨inner, hinner, rfl⟩ := Option.map_eq_some_iff.1 h
        obtain ⟨hweigh, hfit⟩ := ih hinner
        refine ⟨?_, ?_⟩
        · rw [weigh_cons, hweigh]
          omega
        · rw [fitting_cons_of_le hc, ← hfit]
      next => exact absurd h (by simp)

/-- The text that fits some room ends at a character boundary. -/
theorem upTo?_weigh_fitting (cs : List Char) (room : ℕ) :
    upTo? cs (weigh Char.utf8Size (fitting Char.utf8Size room cs)) =
      some (fitting Char.utf8Size room cs) := by
  induction cs generalizing room with
  | nil => exact upTo?_zero []
  | cons c cs ih =>
    rcases Nat.lt_or_ge room c.utf8Size with hc | hc
    · rw [fitting_cons_of_lt hc]
      exact upTo?_zero _
    · rw [fitting_cons_of_le hc, weigh_cons]
      obtain ⟨m, hm⟩ := Nat.exists_eq_add_of_lt c.utf8Size_pos
      have hsize : c.utf8Size + weigh Char.utf8Size (fitting Char.utf8Size (room - c.utf8Size) cs) =
          m + weigh Char.utf8Size (fitting Char.utf8Size (room - c.utf8Size) cs) + 1 := by omega
      rw [hsize, upTo?, if_pos (by omega), ← hsize, Nat.add_sub_cancel_left, ih, Option.map_some]

/-- No character boundary lies between the text that fits and the end of the room. -/
theorem floorBoundary_eq (addition : String) (room : ℕ) :
    floorBoundary addition room =
      weigh Char.utf8Size (fitting Char.utf8Size room addition.toList) := by
  have key : ∀ position, position ≤ room →
      weigh Char.utf8Size (fitting Char.utf8Size room addition.toList) ≤ position →
      floorBoundary addition position =
        weigh Char.utf8Size (fitting Char.utf8Size room addition.toList) := by
    intro position
    induction position with
    | zero =>
      intro _ hle
      exact (Nat.le_zero.1 hle).symm
    | succ position ih =>
      intro hroom hle
      rw [floorBoundary]
      split
      next hboundary =>
        obtain ⟨kept, hkept⟩ := Option.isSome_iff_exists.1 hboundary
        obtain ⟨hweigh, hfit⟩ := weigh_upTo? hkept
        have hmono := weigh_fitting_mono (w := Char.utf8Size) hroom addition.toList
        rw [← hfit, hweigh] at hmono
        exact hle.antisymm' hmono
      next hboundary =>
        refine ih (by omega) (Nat.le_of_lt_succ (Nat.lt_of_le_of_ne hle fun heq => hboundary ?_))
        rw [isCharBoundary, ← Nat.succ_eq_add_one, ← heq, upTo?_weigh_fitting, Option.isSome_some]
  exact key room le_rfl (weigh_fitting_le _ _)

/-- What is appended is what fits the room, and the rest is discarded. -/
theorem appendBounded_eq (target addition : String) (max : ℕ) :
    appendBounded target addition max =
      (decide (max - target.utf8ByteSize < addition.utf8ByteSize), target ++
        String.ofList (fitting Char.utf8Size (max - target.utf8ByteSize) addition.toList)) := by
  rw [appendBounded]
  split
  next hfull =>
    rw [Nat.sub_eq_zero_of_le hfull]
    have hnone : fitting Char.utf8Size 0 addition.toList = [] :=
      fitting_eq_nil_iff.2 fun c _ => c.utf8Size_pos
    rw [hnone, String.ofList_nil, String.append_empty, Prod.mk.injEq]
    refine ⟨?_, rfl⟩
    rw [String.isEmpty_eq_utf8ByteSize_beq_zero]
    cases addition.utf8ByteSize <;> simp
  next hroom =>
    split
    next hfits =>
      have hwhole := weigh_toList addition ▸ hfits
      rw [fitting_eq_self hwhole, String.ofList_toList, decide_eq_false (Nat.not_lt.2 hfits)]
    next hcut =>
      rw [floorBoundary_eq, upTo?_weigh_fitting, Option.getD_some,
        decide_eq_true (Nat.not_le.1 hcut)]

/-- What a channel holds of the fragments that arrive for it. -/
def collected (max : ℕ) (deltas : List String) : String :=
  String.ofList (poured Char.utf8Size max (deltas.map String.toList))

@[simp] theorem collected_nil (max : ℕ) : collected max [] = "" := rfl

theorem utf8ByteSize_collected (max : ℕ) (deltas : List String) :
    (collected max deltas).utf8ByteSize =
      weigh Char.utf8Size (poured Char.utf8Size max (deltas.map String.toList)) := by
  rw [← weigh_toList, collected, String.toList_ofList]

theorem utf8ByteSize_collected_le (max : ℕ) (deltas : List String) :
    (collected max deltas).utf8ByteSize ≤ max := by
  rw [utf8ByteSize_collected]
  exact weigh_poured_le _ _

/-- A channel that takes one more fragment appends it to what it holds. -/
theorem collected_concat (max : ℕ) (deltas : List String) (delta : String) :
    (appendBounded (collected max deltas) delta max).2 = collected max (deltas ++ [delta]) := by
  rw [appendBounded_eq, utf8ByteSize_collected, collected, collected, ← String.ofList_append,
    List.map_append, List.map_singleton, poured_concat]

theorem toList_join_eq (deltas : List String) :
    (String.join deltas).toList = (deltas.map String.toList).flatten := by
  rw [String.toList_join, List.flatMap_def]

theorem collected_prefix_iff {max : ℕ} {deltas : List String} :
    (collected max deltas).toList <+: (String.join deltas).toList ↔
      Unbroken Char.utf8Size max (deltas.map String.toList) := by
  rw [collected, String.toList_ofList, toList_join_eq, poured_prefix_iff]

theorem collected_eq_join {max : ℕ} {deltas : List String}
    (h : (String.join deltas).utf8ByteSize ≤ max) : collected max deltas = String.join deltas := by
  rw [← weigh_toList, toList_join_eq] at h
  rw [collected, poured_eq_flatten h, ← toList_join_eq, String.ofList_toList]

theorem join_concat (deltas : List String) (delta : String) :
    String.join (deltas ++ [delta]) = String.join deltas ++ delta := by
  rw [String.join_append, String.join_cons, String.join_nil, String.append_empty]

/-- A fragment that loses nothing keeps a whole channel whole. -/
theorem join_concat_le {max : ℕ} {deltas : List String} {delta : String}
    (hfits : (String.join deltas).utf8ByteSize ≤ max)
    (h : (appendBounded (collected max deltas) delta max).1 = false) :
    (String.join (deltas ++ [delta])).utf8ByteSize ≤ max := by
  rw [appendBounded_eq, collected_eq_join hfits, decide_eq_false_iff_not, Nat.not_lt] at h
  rw [join_concat, String.utf8ByteSize_append]
  omega

end HypeLlm.Pipeline
