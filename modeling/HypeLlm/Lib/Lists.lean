import Mathlib

/-!
# Lists of slots, lists that correspond, and lists with keys

A list of slots, one of them rewritten in place: what the rewrite does to a sum and to a count over
the slots, stated with both sides shifted, so that it holds in `ℕ` without a subtraction.  And lists
that correspond element by element: a partial map that respects the correspondence keeps it.  In a
list whose elements have different keys an element is found, and taken out, by its key.  One more
element at the end of a list whose repetitions are struck out.  Lists that agree up to order.  And lists
that are compared element by element.
-/

namespace HypeLlm.Lists

variable {α : Type*}

/-- Rewriting slot `i` from `x` to `y` moves the sum by `f y - f x`. -/
theorem sum_map_set (f : α → ℕ) (xs : List α) (i : ℕ) (x y : α) (h : xs[i]? = some x) :
    ((xs.set i y).map f).sum + f x = (xs.map f).sum + f y := by
  induction xs generalizing i with
  | nil => simp at h
  | cons a as ih =>
    cases i with
    | zero =>
      obtain rfl : a = x := by simpa using h
      simp only [List.set_cons_zero, List.map_cons, List.sum_cons]
      omega
    | succ i =>
      have hi := ih i (by simpa using h)
      simp only [List.set_cons_succ, List.map_cons, List.sum_cons]
      omega

/-- Rewriting slot `i` from `x` to `y` moves a count by what `y` and `x` add to it. -/
theorem countP_set (p : α → Bool) (xs : List α) (i : ℕ) (x y : α) (h : xs[i]? = some x) :
    (xs.set i y).countP p + (if p x then 1 else 0) = xs.countP p + (if p y then 1 else 0) := by
  induction xs generalizing i with
  | nil => simp at h
  | cons a as ih =>
    cases i with
    | zero =>
      obtain rfl : a = x := by simpa using h
      simp only [List.set_cons_zero, List.countP_cons]
      omega
    | succ i =>
      have hi := ih i (by simpa using h)
      simp only [List.set_cons_succ, List.countP_cons]
      omega

/-- Corresponding lists stay corresponding under partial maps that are defined alike. -/
theorem forall₂_filterMap {α β γ δ : Type*} {R : α → β → Prop} {S : γ → δ → Prop}
    {f : α → Option γ} {g : β → Option δ} (h : ∀ a b, R a b → Option.Rel S (f a) (g b))
    {l : List α} {m : List β} (hlm : List.Forall₂ R l m) :
    List.Forall₂ S (l.filterMap f) (m.filterMap g) := by
  induction hlm with
  | nil => exact .nil
  | @cons a b l m hab _ ih =>
    have hfg := h a b hab
    cases hf : f a with
    | none =>
      cases hg : g b with
      | none => rwa [List.filterMap_cons_none hf, List.filterMap_cons_none hg]
      | some d =>
        rw [hf, hg] at hfg
        cases hfg
    | some c =>
      cases hg : g b with
      | none =>
        rw [hf, hg] at hfg
        cases hfg
      | some d =>
        rw [hf, hg] at hfg
        rw [List.filterMap_cons_some hf, List.filterMap_cons_some hg]
        cases hfg with
        | some hcd => exact .cons hcd ih

/-- A partial map takes all of a list where it takes each element. -/
theorem mapM_eq_some_iff {β : Type*} {f : α → Option β} {l : List α} {m : List β} :
    l.mapM f = some m ↔ List.Forall₂ (fun a b => f a = some b) l m := by
  induction l generalizing m with
  | nil =>
    rw [List.mapM_nil, List.forall₂_nil_left_iff]
    exact ⟨fun h => (Option.some.inj h).symm, fun h => congrArg some h.symm⟩
  | cons a l ih =>
    rw [List.mapM_cons, List.forall₂_cons_left_iff]
    constructor
    · intro h
      obtain ⟨b, hb, h⟩ := Option.bind_eq_some_iff.1 h
      obtain ⟨bs, hbs, h⟩ := Option.bind_eq_some_iff.1 h
      exact ⟨b, bs, hb, ih.1 hbs, (Option.some.inj h).symm⟩
    · rintro ⟨b, bs, hb, hbs, rfl⟩
      rw [hb, ih.2 hbs]
      rfl

/-- An element is found by a key that no other has. -/
theorem find?_key {κ : Type*} [DecidableEq κ] {key : α → κ} {l : List α} (hnodup : (l.map key).Nodup)
    {a : α} (ha : a ∈ l) : l.find? (fun b => key b = key a) = some a := by
  induction l with
  | nil => cases ha
  | cons b l ih =>
    rw [List.map_cons, List.nodup_cons] at hnodup
    rcases List.mem_cons.1 ha with rfl | ha
    · rw [List.find?_cons_of_pos (by simp)]
    · have hne : key b ≠ key a := fun hsame => hnodup.1 (hsame ▸ List.mem_map_of_mem ha)
      rw [List.find?_cons_of_neg (by simpa using hne)]
      exact ih hnodup.2 ha

/-- An element taken out by a key that no other has. -/
theorem perm_cons_filter_key {κ : Type*} [DecidableEq κ] (key : α → κ) {l : List α}
    (hnodup : (l.map key).Nodup) {a : α} (ha : a ∈ l) :
    l.Perm (a :: l.filter fun b => key b ≠ key a) := by
  induction l with
  | nil => cases ha
  | cons b l ih =>
    rw [List.map_cons, List.nodup_cons] at hnodup
    rcases List.mem_cons.1 ha with rfl | ha
    · have hothers : ∀ c ∈ l, decide (key c ≠ key a) = true := by
        intro c hc
        rw [decide_eq_true_eq]
        exact fun hsame => hnodup.1 (hsame ▸ List.mem_map_of_mem hc)
      rw [List.filter_cons_of_neg (by simp), List.filter_eq_self.2 hothers]
    · have hne : key b ≠ key a := fun hsame => hnodup.1 (hsame ▸ List.mem_map_of_mem ha)
      rw [List.filter_cons_of_pos (by simpa using hne)]
      exact ((ih hnodup.2 ha).cons b).trans (.swap a b _)

/-- Distinct elements in the order of their first occurrence, with one more element at the end. -/
theorem eraseDups_concat [DecidableEq α] (l : List α) (a : α) :
    (l ++ [a]).eraseDups = if a ∈ l then l.eraseDups else l.eraseDups ++ [a] := by
  rw [List.eraseDups_append]
  split
  next hmem =>
    have hnone : [a].removeAll l = [] := by simp [List.removeAll, hmem]
    rw [hnone, List.eraseDups_nil, List.append_nil]
  next hmem =>
    have hsome : [a].removeAll l = [a] := by simp [List.removeAll, hmem]
    rw [hsome, List.eraseDups_cons, List.filter_nil, List.eraseDups_nil]

theorem filterMap_concat {β : Type*} (f : α → Option β) (l : List α) (a : α) :
    (l ++ [a]).filterMap f = l.filterMap f ++ (f a).toList := by
  rw [List.filterMap_append, List.filterMap_cons, List.filterMap_nil]
  cases f a <;> rfl

/-- The first `n` of a list, with one more element at the end of it. -/
theorem take_concat (n : ℕ) (l : List α) (a : α) :
    (l ++ [a]).take n = if l.length < n then l.take n ++ [a] else l.take n := by
  split
  next h => rw [List.take_of_length_le (by simpa using h), List.take_of_length_le h.le]
  next h => rw [List.take_append_of_le_length (Nat.not_lt.1 h)]

/-- A list that takes elements up to a length holds the first of them. -/
theorem take_push (n : ℕ) (l : List α) (a : α) :
    (if n ≤ (l.take n).length then l.take n else l.take n ++ [a]) = (l ++ [a]).take n := by
  rw [take_concat, List.length_take]
  rcases Nat.lt_or_ge l.length n with h | h
  · rw [if_pos h, if_neg (by omega)]
  · rw [if_neg (Nat.not_lt.2 h), if_pos (by omega)]

/-- Rewriting an element keeps what a map sees of the list when it keeps what the map sees of it. -/
theorem map_set_of_eq {β : Type*} (f : α → β) {l : List α} {i : ℕ} {x y : α} (h : l[i]? = some x)
    (hf : f y = f x) : (l.set i y).map f = l.map f := by
  obtain ⟨hi, rfl⟩ := List.getElem?_eq_some_iff.1 h
  rw [List.map_set, hf, ← List.getElem_map f (h := by simpa using hi), List.set_getElem_self]

/-- Lists that agree in one respect, up to order, agree in any other that it decides. -/
theorem perm_map_of_perm_map {β γ : Type*} {f : α → β} {g : α → γ} {l m : List α}
    (h : (l.map f).Perm (m.map f)) (hfg : ∀ a ∈ l, ∀ b ∈ m, f a = f b → g a = g b) :
    (l.map g).Perm (m.map g) := by
  induction l generalizing m with
  | nil =>
    rw [List.map_nil, List.nil_perm, List.map_eq_nil_iff] at h
    rw [h]
  | cons a l ih =>
    have hmem : f a ∈ m.map f := h.subset (List.mem_cons_self)
    obtain ⟨b, hb, hsame⟩ := List.mem_map.mp hmem
    obtain ⟨before, after, rfl⟩ := List.append_of_mem hb
    have hmiddle : (before ++ b :: after).Perm (b :: (before ++ after)) := List.perm_middle
    have hrest : (l.map f).Perm ((before ++ after).map f) := by
      have h' := h.trans (hmiddle.map f)
      rw [List.map_cons, List.map_cons, hsame] at h'
      exact h'.cons_inv
    have hgab := hfg a List.mem_cons_self b hb hsame.symm
    have ih := ih hrest fun x hx y hy => hfg x (List.mem_cons_of_mem a hx) y (by
      rw [List.mem_append] at hy ⊢
      exact hy.imp_right (List.mem_cons_of_mem b))
    rw [List.map_cons, hgab]
    exact (ih.cons (g b)).trans (hmiddle.map g).symm

/-- An element is found in the image of a list where it is found in the list. -/
theorem findIdx?_map_of_forall {β : Type*} {f : α → β} {p : α → Bool} {q : β → Bool} {l : List α}
    (h : ∀ a ∈ l, q (f a) = p a) : (l.map f).findIdx? q = l.findIdx? p := by
  induction l with
  | nil => rfl
  | cons a l ih =>
    rw [List.map_cons, List.findIdx?_cons, List.findIdx?_cons, h a List.mem_cons_self,
      ih fun b hb => h b (List.mem_cons_of_mem a hb)]

/-! ### The order of lists -/

/-- Where the first parts are of one length they are compared first. -/
theorem append_lt_append [LT α] {l m r s : List α} (h : l.length = m.length) :
    l ++ r < m ++ s ↔ l < m ∨ l = m ∧ r < s := by
  induction l generalizing m with
  | nil =>
    obtain rfl := List.length_eq_zero_iff.1 h.symm
    simp only [List.nil_append, List.not_lt_nil, true_and, false_or]
  | cons a l ih =>
    cases m with
    | nil => cases h
    | cons b m =>
      have hrest := ih (Nat.succ.inj h)
      simp only [List.cons_append, List.cons_lt_cons_iff, hrest, List.cons.injEq]
      tauto

/-- A map that keeps the order of the elements keeps that of lists. -/
theorem map_lt_map {β : Type*} [LT α] [LT β] {f : α → β} {l m : List α} (h : l < m)
    (hf : ∀ a ∈ l, ∀ b ∈ m, a < b → f a < f b) : l.map f < m.map f := by
  induction l generalizing m with
  | nil =>
    cases m with
    | nil => exact absurd h (List.not_lt_nil [])
    | cons b m => exact List.nil_lt_cons (f b) (m.map f)
  | cons a l ih =>
    cases m with
    | nil => exact absurd h (List.not_lt_nil _)
    | cons b m =>
      rw [List.map_cons, List.map_cons, List.cons_lt_cons_iff]
      obtain hlt | ⟨rfl, hlt⟩ := List.cons_lt_cons_iff.1 h
      · exact .inl (hf a List.mem_cons_self b List.mem_cons_self hlt)
      · exact .inr ⟨rfl, ih hlt fun x hx y hy => hf x (List.mem_cons_of_mem a hx) y (List.mem_cons_of_mem a hy)⟩

end HypeLlm.Lists
