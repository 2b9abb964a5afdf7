import Mathlib

/-!
# Stable sorting

`List.insertionSort` puts an element before the equal ones that followed it, so it is a stable
sort and stands for one.  A stable sort does three things that a program relies on without saying
so, and that hold for relations which do *not* separate all elements:

* **`filter_insertionSort`** — leaving elements out and sorting commute, in either order;
* **`insertionSort_perm_eq`** — where the relation does separate the elements at hand, the order
  they were written in is not felt;
* **`forall₂_insertionSort`** — two lists that correspond element by element, and compare alike,
  correspond element by element after sorting;
* **`mem_take_iff`** — an element of a list in strict order is among the first `k` exactly where fewer
  than `k` come before it.
-/

namespace HypeLlm.Sorting

open List

variable {α β : Type*}

section

variable (r : α → α → Prop) [DecidableRel r]

theorem filter_orderedInsert_neg {p : α → Bool} {a : α} (ha : p a = false) (l : List α) :
    (l.orderedInsert r a).filter p = l.filter p := by
  induction l with
  | nil => simp [ha]
  | cons b l ih =>
    rw [orderedInsert_cons]
    split
    · rw [filter_cons_of_neg (by simp [ha])]
    · simp only [filter_cons, ih]

variable [IsTrans α r]

/-- Inserting into the filtered list is filtering after the insertion: whatever is left out before
the place of `a` is before it, and whatever is left out after it is after it. -/
theorem filter_orderedInsert_pos {p : α → Bool} {a : α} (ha : p a = true) {l : List α}
    (hl : l.Pairwise r) : (l.orderedInsert r a).filter p = (l.filter p).orderedInsert r a := by
  induction l with
  | nil => simp [ha]
  | cons b l ih =>
    have hb : ∀ c ∈ l, r b c := fun c hc => rel_of_pairwise_cons hl hc
    rw [orderedInsert_cons]
    split
    · rename_i hab
      rw [filter_cons_of_pos ha]
      -- Everything that is kept comes after `b`, hence after `a`.
      have hall : ∀ c ∈ (b :: l).filter p, r a c := by
        intro c hc
        rcases mem_cons.1 (mem_filter.1 hc).1 with rfl | hcl
        · exact hab
        · exact IsTrans.trans _ _ _ hab (hb c hcl)
      cases hf : (b :: l).filter p with
      | nil => rfl
      | cons c m =>
        rw [orderedInsert_cons_of_le r m (hall c (by simp [hf]))]
    · rename_i hab
      cases hpb : p b with
      | true =>
        rw [filter_cons_of_pos hpb, filter_cons_of_pos hpb, orderedInsert_of_not_le r _ hab,
          ih hl.of_cons]
      | false =>
        rw [filter_cons_of_neg (by simp [hpb]), filter_cons_of_neg (by simp [hpb]), ih hl.of_cons]

variable [Std.Total r]

/-- **Leaving elements out and stable sorting commute.** -/
theorem filter_insertionSort (p : α → Bool) (l : List α) :
    (l.insertionSort r).filter p = (l.filter p).insertionSort r := by
  induction l with
  | nil => rfl
  | cons a l ih =>
    rw [insertionSort_cons]
    cases ha : p a with
    | true =>
      rw [filter_cons_of_pos ha, insertionSort_cons,
        filter_orderedInsert_pos r ha (pairwise_insertionSort r l), ih]
    | false =>
      rw [filter_cons_of_neg (by simp [ha]), filter_orderedInsert_neg r ha, ih]

/-- **The written order is not felt** where the relation separates the elements at hand. -/
theorem insertionSort_perm_eq {l l' : List α} (h : l.Perm l')
    (hanti : ∀ a ∈ l, ∀ b ∈ l, r a b → r b a → a = b) : l.insertionSort r = l'.insertionSort r := by
  refine Perm.eq_of_pairwise ?_ (pairwise_insertionSort r l) (pairwise_insertionSort r l') ?_
  · intro a b ha hb
    exact hanti a ((mem_insertionSort r).1 ha) b (h.mem_iff.2 ((mem_insertionSort r).1 hb))
  · exact ((perm_insertionSort r l).trans h).trans (perm_insertionSort r l').symm

end

section

variable {r : α → α → Prop} {r' : β → β → Prop} [DecidableRel r] [DecidableRel r']
variable {R : α → β → Prop}

theorem forall₂_orderedInsert (hr : ∀ a b a' b', R a b → R a' b' → (r a a' ↔ r' b b')) {a : α} {b : β}
    (hab : R a b) {l : List α} {m : List β} (h : Forall₂ R l m) :
    Forall₂ R (l.orderedInsert r a) (m.orderedInsert r' b) := by
  induction h with
  | nil => exact .cons hab .nil
  | @cons a' b' l m hab' h ih =>
    rw [orderedInsert_cons, orderedInsert_cons]
    by_cases hle : r a a'
    · rw [if_pos hle, if_pos ((hr a b a' b' hab hab').1 hle)]
      exact .cons hab (.cons hab' h)
    · rw [if_neg hle, if_neg (fun hle' => hle ((hr a b a' b' hab hab').2 hle'))]
      exact .cons hab' ih

/-- **Corresponding lists stay corresponding.** -/
theorem forall₂_insertionSort (hr : ∀ a b a' b', R a b → R a' b' → (r a a' ↔ r' b b')) {l : List α}
    {m : List β} (h : Forall₂ R l m) : Forall₂ R (l.insertionSort r) (m.insertionSort r') := by
  induction h with
  | nil => exact .nil
  | cons hab _ ih => exact forall₂_orderedInsert hr hab ih

end

/-- **The first `k` of a list in strict order.** -/
theorem mem_take_iff {le : α → α → Bool} {l : List α} (hl : l.Pairwise fun a b => le a b ∧ ¬ le b a) {x : α}
    (hx : x ∈ l) (hrefl : le x x) (k : ℕ) : x ∈ l.take k ↔ l.countP (fun y => !le x y) < k := by
  induction l generalizing k with
  | nil => cases hx
  | cons y l ih =>
    obtain ⟨hhead, htail⟩ := pairwise_cons.1 hl
    cases k with
    | zero => simp
    | succ k =>
      rw [take_succ_cons, mem_cons, countP_cons]
      obtain rfl | hmem := mem_cons.1 hx
      · have hzero : l.countP (fun y => !le x y) = 0 :=
          countP_eq_zero.2 fun z hz => by simp [(hhead z hz).1]
        simp [hzero, hrefl]
      · have hlt := (hhead x hmem).2
        have hne : x ≠ y := fun h => hlt (h ▸ hrefl)
        rw [ih htail hmem]
        simp only [hne, false_or, Bool.not_eq_true] at hlt ⊢
        simp [hlt]

end HypeLlm.Sorting
