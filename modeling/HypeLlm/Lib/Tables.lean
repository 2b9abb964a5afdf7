import HypeLlm.Lib.Lists

/-!
# Lists whose elements have distinct keys

An ordered map holds one row a key; a queue of things with identifiers holds each once.  Both are lists
whose keys are distinct, and what an operation does to such a list is told by what it does to lookups.

* `find?_eq_some_iff` — a lookup finds what is there;
* `find?_filter`, `find?_eraseP`, `find?_mapAt` — lookups after rows are left out, one row is taken out,
  or one is rewritten;
* `Table` — the lists themselves, with the fact that their keys are distinct.
-/

namespace HypeLlm.Tables

variable {α κ : Type*} [DecidableEq κ] {key : α → κ}

/-! ### Lookups in a list -/

section

variable {l : List α}

theorem key_of_find? {k : κ} {a : α} (h : l.find? (fun b => key b = k) = some a) : key a = k :=
  of_decide_eq_true (p := key a = k) (List.find?_some (p := fun b => decide (key b = k)) h)

/-- A lookup finds what is there. -/
theorem find?_eq_some_iff (hnodup : (l.map key).Nodup) {k : κ} {a : α} :
    l.find? (fun b => key b = k) = some a ↔ a ∈ l ∧ key a = k := by
  constructor
  · exact fun h => ⟨List.mem_of_find?_eq_some h, key_of_find? h⟩
  · rintro ⟨ha, rfl⟩
    exact Lists.find?_key hnodup ha

omit [DecidableEq κ] in
theorem nodup_filter (hnodup : (l.map key).Nodup) (p : α → Bool) : ((l.filter p).map key).Nodup :=
  (List.filter_sublist.map key).nodup hnodup

omit [DecidableEq κ] in
theorem nodup_eraseP (hnodup : (l.map key).Nodup) (p : α → Bool) : ((l.eraseP p).map key).Nodup :=
  (List.eraseP_sublist.map key).nodup hnodup

theorem find?_filter (hnodup : (l.map key).Nodup) (p : α → Bool) (k : κ) :
    (l.filter p).find? (fun b => key b = k) = (l.find? fun b => key b = k).filter p := by
  ext a
  rw [Option.filter_eq_some_iff, find?_eq_some_iff (nodup_filter hnodup p), find?_eq_some_iff hnodup,
    List.mem_filter, and_right_comm]

omit [DecidableEq κ] in
/-- The first element that satisfies `p`, and the others. -/
theorem perm_cons_eraseP {p : α → Bool} {a : α} (hfirst : l.find? p = some a) : l.Perm (a :: l.eraseP p) := by
  obtain ⟨hp, before, after, rfl, hbefore⟩ := List.find?_eq_some_iff_append.1 hfirst
  have hnone : ∀ b ∈ before, ¬p b = true := fun b hb => by simpa using hbefore b hb
  rw [List.eraseP_append_right _ hnone, List.eraseP_cons_of_pos hp]
  exact List.perm_middle

omit [DecidableEq κ] in
/-- What is left of a list after one element is taken out. -/
theorem mem_eraseP_iff (hnodup : (l.map key).Nodup) {p : α → Bool} {a b : α} (hfirst : l.find? p = some a) :
    b ∈ l.eraseP p ↔ b ∈ l ∧ key b ≠ key a := by
  have hperm := perm_cons_eraseP hfirst
  have hnodup' : (key a :: (l.eraseP p).map key).Nodup := by
    rw [← List.map_cons, ← (hperm.map key).nodup_iff]
    exact hnodup
  constructor
  · intro hb
    refine ⟨List.mem_of_mem_eraseP hb, fun hsame => ?_⟩
    exact (List.nodup_cons.1 hnodup').1 (hsame ▸ List.mem_map_of_mem hb)
  · rintro ⟨hb, hne⟩
    rcases List.mem_cons.1 (hperm.mem_iff.1 hb) with rfl | hb
    · exact absurd rfl hne
    · exact hb

theorem find?_eraseP (hnodup : (l.map key).Nodup) {p : α → Bool} {a : α} (hfirst : l.find? p = some a)
    (k : κ) :
    (l.eraseP p).find? (fun b => key b = k) = if k = key a then none else l.find? fun b => key b = k := by
  ext b
  rw [find?_eq_some_iff (nodup_eraseP hnodup p), mem_eraseP_iff hnodup hfirst]
  split
  · simp only [reduceCtorEq, iff_false]
    rintro ⟨⟨-, hne⟩, rfl⟩
    contradiction
  · rw [find?_eq_some_iff hnodup]
    constructor
    · exact fun h => ⟨h.1.1, h.2⟩
    · rintro ⟨hb, rfl⟩
      exact ⟨⟨hb, by assumption⟩, rfl⟩

/-- The elements with a key are rewritten. -/
def mapAt (key : α → κ) (k : κ) (f : α → α) (l : List α) : List α :=
  l.map fun a => if key a = k then f a else a

theorem key_mapAt {k : κ} {f : α → α} (hf : ∀ a, key (f a) = key a) : (mapAt key k f l).map key = l.map key := by
  rw [mapAt, List.map_map]
  refine List.map_congr_left fun a _ => ?_
  rw [Function.comp_apply]
  split
  · exact hf a
  · rfl

theorem find?_mapAt {k : κ} {f : α → α} (hf : ∀ a, key (f a) = key a) (k' : κ) :
    (mapAt key k f l).find? (fun b => key b = k') =
      if k' = k then (l.find? fun b => key b = k).map f else l.find? fun b => key b = k' := by
  rw [mapAt, List.find?_map]
  have hsame : ((fun b => decide (key b = k')) ∘ fun a => if key a = k then f a else a) =
      fun b => decide (key b = k') := by
    funext a
    rw [Function.comp_apply]
    split
    · rw [hf]
    · rfl
  rw [hsame]
  split
  · subst k'
    cases h : l.find? fun b => key b = k with
    | none => rfl
    | some a => rw [Option.map_some, Option.map_some, if_pos (key_of_find? h)]
  · rename_i hne
    cases h : l.find? fun b => key b = k' with
    | none => rfl
    | some a => rw [Option.map_some, if_neg fun hk => hne ((key_of_find? h).symm.trans hk)]

theorem find?_concat {a : α} (k : κ) (hnew : key a ∉ l.map key) :
    (l ++ [a]).find? (fun b => key b = k) = if k = key a then some a else l.find? fun b => key b = k := by
  rw [List.find?_append]
  split
  · subst k
    have hnone : l.find? (fun b => key b = key a) = none := by
      rw [List.find?_eq_none]
      intro b hb hsame
      exact hnew (of_decide_eq_true hsame ▸ List.mem_map_of_mem hb)
    rw [hnone, Option.none_or, List.find?_cons_of_pos (by simp)]
  · rename_i hne
    rw [List.find?_cons_of_neg (by simpa using Ne.symm hne), List.find?_nil, Option.or_none]

end

/-! ### Tables -/

/-- Rows with distinct keys. -/
structure Table (key : α → κ) where
  rows : List α
  nodup : (rows.map key).Nodup

namespace Table

variable (t : Table key) (k : κ) (a : α) (p : α → Bool)

def empty : Table key := ⟨[], List.nodup_nil⟩

def find? : Option α := t.rows.find? fun b => key b = k

def filter : Table key := ⟨t.rows.filter p, nodup_filter t.nodup p⟩

def remove : Table key := t.filter fun b => key b ≠ k

/-- A row takes the place of the one with its key, if there is one. -/
def replace : Table key where
  rows := mapAt key (key a) (fun b => if key b = key a then a else b) t.rows
  nodup := by
    rw [key_mapAt]
    · exact t.nodup
    · intro b
      split
      · exact Eq.symm (by assumption)
      · rfl

/-- A row is put in, in the place of the one with its key if there is one. -/
def insert : Table key where
  rows := a :: (t.remove (key a)).rows
  nodup := by
    rw [List.map_cons, List.nodup_cons]
    refine ⟨fun hmem => ?_, (t.remove (key a)).nodup⟩
    obtain ⟨b, hb, hsame⟩ := List.mem_map.1 hmem
    exact absurd hsame (of_decide_eq_true (List.mem_filter.1 hb).2)

@[simp] theorem find?_empty : (empty : Table key).find? k = none := rfl

theorem find?_filter : (t.filter p).find? k = (t.find? k).filter p := Tables.find?_filter t.nodup p k

theorem find?_remove (k' : κ) : (t.remove k).find? k' = if k' = k then none else t.find? k' := by
  rw [remove, find?_filter]
  cases h : t.find? k' with
  | none => simp
  | some b =>
    have hkey : key b = k' := key_of_find? h
    by_cases hk : k' = k <;> simp [hkey, hk]

theorem find?_replace :
    (t.replace a).find? k = if k = key a then (t.find? k).map fun _ => a else t.find? k := by
  have hkey : ∀ b, key (if key b = key a then a else b) = key b := by
    intro b
    split
    · exact Eq.symm (by assumption)
    · rfl
  refine (find?_mapAt hkey k).trans ?_
  split
  · subst k
    rw [find?]
    cases h : t.rows.find? fun b => key b = key a with
    | none => rfl
    | some b => rw [Option.map_some, Option.map_some, if_pos (key_of_find? h)]
  · rfl

theorem find?_insert : (t.insert a).find? k = if k = key a then some a else t.find? k := by
  rw [find?, insert]
  split
  · rw [List.find?_cons_of_pos (by simpa using Eq.symm (by assumption))]
  · rename_i hne
    rw [List.find?_cons_of_neg (by simpa using Ne.symm hne)]
    exact (t.find?_remove (key a) k).trans (if_neg hne)

/-- No more rows satisfy `p` than before, and the new one. -/
theorem countP_insert_le : (t.insert a).rows.countP p ≤ t.rows.countP p + 1 := by
  refine (List.countP_cons ..).trans_le ?_
  have hless : (t.remove (key a)).rows.countP p ≤ t.rows.countP p := List.filter_sublist.countP_le
  split <;> omega

end Table

end HypeLlm.Tables
