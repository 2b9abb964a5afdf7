import Mathlib

/-!
# Heaps of shared objects

Objects that several owners hold by reference live in a heap and are addressed by the order of
their creation.  An address is never given out twice, so an owner that kept one still reaches the
object it was given, whatever the tables that lead to objects say by then.

A heap is total: addresses not yet given out hold a filler, and `next` is the first of them.

`Grows R New` says what a computation may do to a heap: the objects that were there move along `R`,
and the objects it creates satisfy `New`.
-/

namespace HypeLlm

structure Heap (α : Type*) where
  cell : ℕ → α
  next : ℕ

namespace Heap

variable {α : Type*}

/-- No object yet; `filler` stands at every address. -/
def empty (filler : α) : Heap α := ⟨fun _ => filler, 0⟩

/-- The heap with the object at `i` replaced. -/
def set (h : Heap α) (i : ℕ) (a : α) : Heap α := { h with cell := Function.update h.cell i a }

def modify (h : Heap α) (i : ℕ) (f : α → α) : Heap α := h.set i (f (h.cell i))

/-- A new object, at the address `h.next`. -/
def alloc (h : Heap α) (a : α) : Heap α := { h.set h.next a with next := h.next + 1 }

theorem set_cell (h : Heap α) (i j : ℕ) (a : α) :
    (h.set i a).cell j = if j = i then a else h.cell j := by
  simp only [set, Function.update_apply]

theorem modify_cell (h : Heap α) (i j : ℕ) (f : α → α) :
    (h.modify i f).cell j = if j = i then f (h.cell j) else h.cell j := by
  rw [modify, set_cell]
  split
  · rename_i hj
    rw [hj]
  · rfl

theorem alloc_cell (h : Heap α) (j : ℕ) (a : α) :
    (h.alloc a).cell j = if j = h.next then a else h.cell j := h.set_cell h.next j a

@[simp] theorem alloc_next (h : Heap α) (a : α) : (h.alloc a).next = h.next + 1 := rfl

/-! ### Growth -/

/-- Old objects move along `R`, created ones satisfy `New`. -/
structure Grows (R : α → α → Prop) (New : α → Prop) (h h' : Heap α) : Prop where
  next_le : h.next ≤ h'.next
  old : ∀ i, i < h.next → R (h.cell i) (h'.cell i)
  fresh : ∀ i, h.next ≤ i → i < h'.next → New (h'.cell i)

namespace Grows

variable {R : α → α → Prop} {New : α → Prop} {h h' h'' : Heap α}

theorem of_pointwise (hnext : h'.next = h.next) (hcell : ∀ i, R (h.cell i) (h'.cell i)) :
    Grows R New h h' where
  next_le := hnext.ge
  old i _ := hcell i
  fresh i hlo hhi := by omega

theorem refl (hrefl : ∀ a, R a a) (h : Heap α) : Grows R New h h :=
  of_pointwise rfl fun i => hrefl (h.cell i)

/-- Two computations in a row, where what one creates the other may move on. -/
theorem trans (htrans : ∀ a b c, R a b → R b c → R a c) (hnew : ∀ a b, New a → R a b → New b)
    (g : Grows R New h h') (g' : Grows R New h' h'') : Grows R New h h'' where
  next_le := g.next_le.trans g'.next_le
  old i hi := htrans _ _ _ (g.old i hi) (g'.old i (hi.trans_le g.next_le))
  fresh i hlo hhi := by
    rcases Nat.lt_or_ge i h'.next with hold | hfresh
    · exact hnew _ _ (g.fresh i hlo hold) (g'.old i hold)
    · exact g'.fresh i hfresh hhi

theorem set (hrefl : ∀ a, R a a) (h : Heap α) (i : ℕ) (a : α) (ha : R (h.cell i) a) :
    Grows R New h (h.set i a) := by
  refine of_pointwise rfl fun j => ?_
  rw [set_cell]
  split
  · rename_i hj
    rw [hj]
    exact ha
  · exact hrefl _

theorem modify (hrefl : ∀ a, R a a) (h : Heap α) (i : ℕ) (f : α → α)
    (hf : R (h.cell i) (f (h.cell i))) : Grows R New h (h.modify i f) := set hrefl h i _ hf

theorem alloc (hrefl : ∀ a, R a a) (h : Heap α) (a : α) (ha : New a) :
    Grows R New h (h.alloc a) where
  next_le := Nat.le_succ _
  old i hi := by
    rw [alloc_cell, if_neg hi.ne]
    exact hrefl _
  fresh i hlo hhi := by
    obtain rfl : i = h.next := by
      rw [alloc_next] at hhi
      omega
    rw [alloc_cell, if_pos rfl]
    exact ha

theorem mono {R' : α → α → Prop} {New' : α → Prop} (hR : ∀ a b, R a b → R' a b)
    (hNew : ∀ a, New a → New' a) (g : Grows R New h h') : Grows R' New' h h' where
  next_le := g.next_le
  old i hi := hR _ _ (g.old i hi)
  fresh i hlo hhi := hNew _ (g.fresh i hlo hhi)

end Grows

end Heap

end HypeLlm
