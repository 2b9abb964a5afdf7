import Mathlib

/-!
# Lookups in ordered maps

`Std.TreeMap` states its lookup lemmas with the comparison function.  Where the comparison
decides equality these are the forms a proof about keys wants, with `a = k` in place of
`compare k a = .eq`, and a fold that rewrites each entry of a map in place is described by its
lookups.  So is a map that is another with some entries left out (`toList_perm_filter`), and the
first entry of the list of a map is its least one.
-/

namespace HypeLlm.Maps

open Std

variable {α β : Type} {cmp : α → α → Ordering} [TransCmp cmp] [LawfulEqCmp cmp]

section

variable [DecidableEq α]

theorem getElem?_insert (t : TreeMap α β cmp) (k a : α) (v : β) :
    (t.insert k v)[a]? = if a = k then some v else t[a]? := by
  rw [TreeMap.getElem?_insert]
  by_cases h : a = k
  · subst h
    simp
  · have hne : cmp k a ≠ .eq := fun hc => h (LawfulEqCmp.eq_of_compare hc).symm
    simp [h, hne]

theorem getElem?_erase (t : TreeMap α β cmp) (k a : α) :
    (t.erase k)[a]? = if a = k then none else t[a]? := by
  rw [TreeMap.getElem?_erase]
  by_cases h : a = k
  · subst h
    simp
  · have hne : cmp k a ≠ .eq := fun hc => h (LawfulEqCmp.eq_of_compare hc).symm
    simp [h, hne]

/-- **A fold that rewrites the entry of each key of a list in place.**  The entry of a key that stands
in the list more than once is rewritten more than once. -/
theorem getElem?_foldl_insert (f : α → β → β) (d : β) (a : α) (l : List α) (t : TreeMap α β cmp) :
    (l.foldl (fun m k => m.insert k (f k (m[k]?.getD d))) t)[a]? =
      if a ∈ l then some ((f a)^[l.count a] (t[a]?.getD d)) else t[a]? := by
  induction l generalizing t with
  | nil => simp
  | cons k l ih =>
    rw [List.foldl_cons, ih, getElem?_insert]
    by_cases hk : a = k
    · subst hk
      rw [if_pos rfl, if_pos List.mem_cons_self, List.count_cons_self, Function.iterate_succ_apply]
      by_cases hl : a ∈ l
      · rw [if_pos hl, Option.getD_some]
      · rw [if_neg hl, List.count_eq_zero.mpr hl, Function.iterate_zero_apply]
    · rw [if_neg hk, List.count_cons_of_ne (Ne.symm hk)]
      simp [hk]

end

theorem getElem?_of_head?_toList {t : TreeMap α β cmp} {k : α} {v : β} (h : t.toList.head? = some (k, v)) :
    t[k]? = some v :=
  TreeMap.mem_toList_iff_getElem?_eq_some.1 (List.mem_of_mem_head? h)

/-- **The first entry of a map** has the least key. -/
theorem lt_of_head?_toList {t : TreeMap α β cmp} {first k : α} {v w : β}
    (h : t.toList.head? = some (first, v)) (hk : t[k]? = some w) (hne : k ≠ first) : cmp first k = .lt := by
  have hmem : (k, w) ∈ t.toList := TreeMap.mem_toList_iff_getElem?_eq_some.2 hk
  have hordered := TreeMap.ordered_keys_toList (t := t)
  obtain ⟨rest, hrest⟩ := List.head?_eq_some_iff.1 h
  rw [hrest] at hmem hordered
  rcases List.mem_cons.1 hmem with heq | hlater
  · exact absurd (congrArg Prod.fst heq) hne
  · exact (List.pairwise_cons.1 hordered).1 _ hlater

/-- A map that is empty has nothing under any key. -/
theorem getElem?_of_size_eq_zero {t : TreeMap α β cmp} (h : t.size = 0) (k : α) : t[k]? = none := by
  refine Option.eq_none_iff_forall_ne_some.2 fun v hv => ?_
  have hmem := TreeMap.mem_toList_iff_getElem?_eq_some.2 hv
  rw [← TreeMap.length_toList, List.length_eq_zero_iff] at h
  rw [h] at hmem
  exact absurd hmem List.not_mem_nil

omit [LawfulEqCmp cmp] in
theorem nodup_toList (t : TreeMap α β cmp) : t.toList.Nodup := by
  refine List.Nodup.of_map Prod.fst ?_
  rw [TreeMap.map_fst_toList_eq_keys]
  exact TreeMap.nodup_keys

variable {t t' : TreeMap α β cmp} {p : α → β → Bool}

/-- **A map with some entries left out** has the list of the other with those left out. -/
theorem toList_perm_filter (h : ∀ k, t'[k]? = t[k]?.filter (p k)) :
    t'.toList.Perm (t.toList.filter fun e => p e.1 e.2) := by
  refine (List.perm_ext_iff_of_nodup (nodup_toList t') ((nodup_toList t).filter _)).2 fun e => ?_
  rw [List.mem_filter, TreeMap.mem_toList_iff_getElem?_eq_some, TreeMap.mem_toList_iff_getElem?_eq_some, h,
    Option.filter_eq_some_iff]

theorem countP_toList_filter (h : ∀ k, t'[k]? = t[k]?.filter (p k)) (q : α × β → Bool) :
    t'.toList.countP q = t.toList.countP fun e => q e && p e.1 e.2 := by
  rw [(toList_perm_filter h).countP_eq, List.countP_filter]

end HypeLlm.Maps
