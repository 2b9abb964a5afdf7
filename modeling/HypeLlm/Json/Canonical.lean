import HypeLlm.Json.RoundTrip

/-!
# The canonical text

Two values have one canonical text exactly when they differ in the order of members only, at any
depth.  One direction is that sorting forgets the order where keys are distinct; the other is that no
two values have one text, since the parser finds the value again.

* `sortKeys_eq_of_same` — the order of members is not felt;
* `write_injective` — the text tells the value;
* **`canonical_iff_same`** — the canonical text is a canonical form, and is its own.
-/

namespace HypeLlm.Json

open List

variable {F : Type}

/-- Equal up to the order of members: members may change places in an object, and what stands in an
array or under a key may be replaced by what is equal in this sense. -/
inductive Same : Value F → Value F → Prop
  | refl (v : Value F) : Same v v
  | symm {a b : Value F} : Same a b → Same b a
  | trans {a b c : Value F} : Same a b → Same b c → Same a c
  | reorder {entries entries' : List (List Char × Value F)} : entries.Perm entries' →
      Same (.object entries) (.object entries')
  | item {v w : Value F} (before after : List (Value F)) : Same v w →
      Same (.array (before ++ v :: after)) (.array (before ++ w :: after))
  | member {v w : Value F} (key : List Char) (before after : List (List Char × Value F)) : Same v w →
      Same (.object (before ++ (key, v) :: after)) (.object (before ++ (key, w) :: after))

/-- No object has a key twice. -/
def Value.DistinctKeys (v : Value F) : Prop :=
  ∀ entries, Inside (.object entries) v → (entries.map Prod.fst).Nodup

def Value.NoFloats (v : Value F) : Prop := ∀ f, ¬ Inside (.number (.float f)) v

theorem distinctKeys_array {items : List (Value F)} :
    (Value.array items).DistinctKeys ↔ ∀ v ∈ items, v.DistinctKeys := by
  constructor
  · intro h v hv entries hin
    exact h entries (.item hv hin)
  · intro h entries hin
    cases hin with
    | item hv hin => exact h _ hv entries hin

theorem distinctKeys_object {entries : List (List Char × Value F)} :
    (Value.object entries).DistinctKeys ↔
      (entries.map Prod.fst).Nodup ∧ ∀ e ∈ entries, e.2.DistinctKeys := by
  constructor
  · intro h
    exact ⟨h entries .self, fun e he inner hin => h inner (.member he hin)⟩
  · rintro ⟨hkeys, hentries⟩ inner hin
    cases hin with
    | self => exact hkeys
    | member he hin => exact hentries _ he inner hin

/-! ### The order of members is not felt -/

theorem keyLe_antisymm {a b : List Char} (hab : Value.keyLe a b) (hba : Value.keyLe b a) : a = b := by
  have hbytes : (Utf8.encode a).map UInt8.toNat = (Utf8.encode b).map UInt8.toNat := le_antisymm hab hba
  exact Utf8.encode_injective (map_injective_iff.2 (fun _ _ h => UInt8.toNat_inj.1 h) hbytes)

instance : IsTrans (List Char × Value F) Value.entryLe :=
  ⟨fun _ _ _ hab hbc => le_trans (α := List ℕ) hab hbc⟩

instance : Std.Total (Value.entryLe (F := F)) := ⟨fun _ _ => le_total (α := List ℕ) _ _⟩

/-- Where keys are distinct, members are told apart by their keys. -/
theorem eq_of_key_eq {entries : List (List Char × Value F)} (hkeys : (entries.map Prod.fst).Nodup)
    {a b : List Char × Value F} (ha : a ∈ entries) (hb : b ∈ entries) (h : a.1 = b.1) : a = b :=
  inj_on_of_nodup_map hkeys ha hb h

theorem sortEntries_perm_eq {entries entries' : List (List Char × Value F)}
    (h : entries.Perm entries') (hkeys : (entries.map Prod.fst).Nodup) :
    Value.sortEntries entries = Value.sortEntries entries' := by
  refine Sorting.insertionSort_perm_eq _ h ?_
  intro a ha b hb hab hba
  exact eq_of_key_eq hkeys ha hb (keyLe_antisymm hab hba)

theorem Same.distinctKeys {a b : Value F} (h : Same a b) : a.DistinctKeys ↔ b.DistinctKeys := by
  induction h with
  | refl v => exact Iff.rfl
  | symm _ ih => exact ih.symm
  | trans _ _ ih₁ ih₂ => exact ih₁.trans ih₂
  | reorder hperm =>
    rw [distinctKeys_object, distinctKeys_object, (hperm.map Prod.fst).nodup_iff]
    refine and_congr_right fun _ => forall_congr' fun e => ?_
    rw [hperm.mem_iff]
  | item before after _ ih =>
    rw [distinctKeys_array, distinctKeys_array]
    simp only [mem_append, mem_cons, or_imp, forall_and, forall_eq, ih]
  | member key before after _ ih =>
    rw [distinctKeys_object, distinctKeys_object]
    simp only [map_append, map_cons, mem_append, mem_cons, or_imp, forall_and, forall_eq, ih]

/-- **The order of members is not felt** by sorting, where keys are distinct. -/
theorem sortKeys_eq_of_same {a b : Value F} (h : Same a b) (hkeys : a.DistinctKeys) :
    a.sortKeys = b.sortKeys := by
  induction h with
  | refl v => rfl
  | symm hsame ih => exact (ih (hsame.distinctKeys.2 hkeys)).symm
  | trans hab _ ih₁ ih₂ => exact (ih₁ hkeys).trans (ih₂ (hab.distinctKeys.1 hkeys))
  | reorder hperm =>
    obtain ⟨hnodup, -⟩ := distinctKeys_object.1 hkeys
    rw [Value.sortKeys_object, Value.sortKeys_object, sortEntries_perm_eq hperm hnodup]
  | item before after _ ih =>
    rw [Value.sortKeys_array, Value.sortKeys_array, map_append, map_append, map_cons, map_cons, ih]
    exact distinctKeys_array.1 hkeys _ (by simp)
  | @member v w key before after _ ih =>
    have hv := (distinctKeys_object.1 hkeys).2 (key, v) (by simp)
    rw [Value.sortKeys, Value.sortKeys, Value.sortMembers_eq, Value.sortMembers_eq]
    simp only [map_append, map_cons, ih hv]

/-! ### Sorting stays equal up to order -/

theorem same_array {f : Value F → Value F} (items : List (Value F)) (h : ∀ v ∈ items, Same v (f v))
    (before : List (Value F)) :
    Same (.array (before ++ items)) (.array (before ++ items.map f)) := by
  induction items generalizing before with
  | nil => exact .refl _
  | cons v items ih =>
    have hrest := ih (fun w hw => h w (mem_cons_of_mem v hw)) (before ++ [f v])
    simp only [append_assoc, singleton_append] at hrest
    exact (Same.item before items (h v mem_cons_self)).trans hrest

theorem same_object {f : Value F → Value F} (entries : List (List Char × Value F))
    (h : ∀ e ∈ entries, Same e.2 (f e.2)) (before : List (List Char × Value F)) :
    Same (.object (before ++ entries)) (.object (before ++ entries.map fun e => (e.1, f e.2))) := by
  induction entries generalizing before with
  | nil => exact .refl _
  | cons e entries ih =>
    have hrest := ih (fun x hx => h x (mem_cons_of_mem e hx)) (before ++ [(e.1, f e.2)])
    simp only [append_assoc, singleton_append] at hrest
    exact (Same.member e.1 before entries (h e mem_cons_self)).trans hrest

theorem same_sortKeys (v : Value F) : Same v v.sortKeys := by
  induction v using Value.induct with
  | null => exact .refl _
  | bool b => exact .refl _
  | number n => exact .refl _
  | string s => exact .refl _
  | array items ih =>
    rw [Value.sortKeys_array]
    exact same_array items ih []
  | object entries ih =>
    rw [Value.sortKeys, Value.sortMembers_eq]
    refine (same_object entries ih []).trans (.reorder ?_)
    exact (Value.sortEntries_perm _).symm

/-! ### Sorting twice -/

theorem sortEntries_sorted (entries : List (List Char × Value F)) :
    (Value.sortEntries entries).Pairwise Value.entryLe := pairwise_insertionSort _ _

theorem sortKeys_sortKeys (v : Value F) : v.sortKeys.sortKeys = v.sortKeys := by
  induction v using Value.induct with
  | null => rfl
  | bool b => rfl
  | number n => rfl
  | string s => rfl
  | array items ih =>
    rw [Value.sortKeys_array, Value.sortKeys_array, map_map]
    exact congrArg Value.array (map_congr_left ih)
  | object entries ih =>
    have hsorted : (((Value.sortEntries entries).map fun e => (e.1, e.2.sortKeys))).Pairwise
        Value.entryLe := by
      rw [pairwise_map]
      exact sortEntries_sorted entries
    have hagain : Value.sortEntries ((Value.sortEntries entries).map fun e => (e.1, e.2.sortKeys)) =
        (Value.sortEntries entries).map fun e => (e.1, e.2.sortKeys) := hsorted.insertionSort_eq
    rw [Value.sortKeys_object, Value.sortKeys_object, hagain, map_map]
    refine congrArg Value.object (map_congr_left ?_)
    intro e he
    show (e.1, e.2.sortKeys.sortKeys) = (e.1, e.2.sortKeys)
    rw [ih e ((Value.sortEntries_perm entries).mem_iff.1 he)]

/-- Numbers stay where they are. -/
theorem inside_number_of_sortKeys {n : Number F} (v : Value F) (h : Inside (.number n) v.sortKeys) :
    Inside (.number n) v := by
  induction v using Value.induct with
  | null => exact h
  | bool b => exact h
  | number m => exact h
  | string s => exact h
  | array items ih =>
    rw [Value.sortKeys_array] at h
    cases h with
    | item hv hin =>
      obtain ⟨w, hw, rfl⟩ := mem_map.1 hv
      exact .item hw (ih w hw hin)
  | object entries ih =>
    rw [Value.sortKeys_object] at h
    cases h with
    | member he hin =>
      obtain ⟨e, hmem, rfl⟩ := mem_map.1 he
      have hentry := (Value.sortEntries_perm entries).mem_iff.1 hmem
      exact .member hentry (ih e hentry hin)

theorem Value.NoFloats.sortKeys {v : Value F} (h : v.NoFloats) : v.sortKeys.NoFloats :=
  fun f hin => h f (inside_number_of_sortKeys v hin)

theorem Value.NoFloats.printable {v : Value F} (h : v.NoFloats) (floats : FloatText F) :
    v.Printable floats := fun f hin => absurd hin (h f)

/-! ### The text tells the value -/

/-- Limits of `n` everywhere, and keys may repeat. -/
def Limits.generous (n : ℕ) : Limits := ⟨n, n, n, n, n, false⟩

/-- From some size on, limits let the value in. -/
def FitsFrom (floats : FloatText F) (n : ℕ) (v : Value F) : Prop :=
  ∀ m levels, n ≤ m → n ≤ levels → Fits floats (.generous m) (StringFits m) levels v

theorem FitsFrom.mono {floats : FloatText F} {n n' : ℕ} {v : Value F} (h : FitsFrom floats n v)
    (hle : n ≤ n') : FitsFrom floats n' v :=
  fun m levels hm hlevels => h m levels (hle.trans hm) (hle.trans hlevels)

theorem exists_bound {α : Type} {P : ℕ → α → Prop} (hmono : ∀ n n' a, P n a → n ≤ n' → P n' a)
    (xs : List α) (h : ∀ x ∈ xs, ∃ n, P n x) : ∃ n, ∀ x ∈ xs, P n x := by
  induction xs with
  | nil => exact ⟨0, fun x hx => by cases hx⟩
  | cons y xs ih =>
    obtain ⟨n, hn⟩ := ih fun x hx => h x (mem_cons_of_mem y hx)
    obtain ⟨m, hm⟩ := h y mem_cons_self
    refine ⟨max n m, ?_⟩
    intro x hx
    rcases mem_cons.1 hx with rfl | hx
    · exact hmono m _ _ hm (le_max_right n m)
    · exact hmono n _ _ (hn x hx) (le_max_left n m)

theorem stringFits_of_le {max : ℕ} {s : List Char}
    (h : (Utf8.encode s).length + (Utf8.encode (escape s)).length ≤ max) : StringFits max s :=
  ⟨by omega, writtenFits_of_length (by omega)⟩

theorem exists_fitsFrom {floats : FloatText F} (v : Value F) (hprint : v.Printable floats) :
    ∃ n, FitsFrom floats n v := by
  induction v using Value.induct with
  | null => exact ⟨0, fun m levels _ _ => .null⟩
  | bool b => exact ⟨0, fun m levels _ _ => .bool b⟩
  | number n =>
    cases n with
    | int i => exact ⟨0, fun m levels _ _ => .int i⟩
    | float f => exact ⟨0, fun m levels _ _ => .float (hprint f .self).finite⟩
  | string s =>
    refine ⟨(Utf8.encode s).length + (Utf8.encode (escape s)).length, ?_⟩
    intro m levels hm _
    exact .string (stringFits_of_le hm)
  | array items ih =>
    obtain ⟨n, hn⟩ := exists_bound (P := FitsFrom floats) (fun _ _ _ h hle => h.mono hle) items
      fun v hv => ih v hv fun f hin => hprint f (.item hv hin)
    refine ⟨n + items.length + 1, ?_⟩
    intro m levels hm hlevels
    obtain ⟨below, rfl⟩ : ∃ below, levels = below + 1 := ⟨levels - 1, by omega⟩
    refine .array ?_ ?_
    · show items.length ≤ m
      omega
    · intro v hv
      exact hn v hv m below (by omega) (by omega)
  | object entries ih =>
    obtain ⟨n, hn⟩ := exists_bound (P := fun n (e : List Char × Value F) => FitsFrom floats n e.2)
      (fun _ _ _ h hle => h.mono hle) entries
      fun e he => ih e he fun f hin => hprint f (.member he hin)
    obtain ⟨k, hk⟩ := exists_bound (P := fun n (e : List Char × Value F) =>
        (Utf8.encode e.1).length + (Utf8.encode (escape e.1)).length ≤ n)
      (fun _ _ _ h hle => h.trans hle) entries fun e _ => ⟨_, le_rfl⟩
    refine ⟨n + k + entries.length + 1, ?_⟩
    intro m levels hm hlevels
    obtain ⟨below, rfl⟩ : ∃ below, levels = below + 1 := ⟨levels - 1, by omega⟩
    refine .object ?_ ?_ ?_ ?_
    · show entries.length ≤ m
      omega
    · intro hreject
      cases hreject
    · intro e he
      refine stringFits_of_le ?_
      have := hk e he
      omega
    · intro e he
      exact hn e he m below (by omega) (by omega)

/-- There are limits under which the text of a value is accepted. -/
theorem exists_accepting {floats : FloatText F} {v : Value F} (hprint : v.Printable floats) :
    ∃ limits, parse floats limits (Utf8.encode (writeValue floats v)) = .ok v := by
  obtain ⟨n, hn⟩ := exists_fitsFrom v hprint
  refine ⟨.generous (n + (Utf8.encode (writeValue floats v)).length), ?_⟩
  refine (parse_gives hprint).eq_ok ⟨Nat.le_add_left _ _, ?_⟩
  exact hn _ _ (Nat.le_add_right _ _) (Nat.le_add_right _ _)

/-- **The text tells the value.** -/
theorem write_injective {floats : FloatText F} {a b : Value F} (ha : a.Printable floats)
    (hb : b.Printable floats) (h : writeValue floats a = writeValue floats b) : a = b := by
  obtain ⟨limits, hparse⟩ := exists_accepting ha
  rw [h] at hparse
  exact (parse_gives hb).eq hparse

/-- **The canonical text is a canonical form.**  Values without floats, one of them with distinct keys,
have one canonical text exactly when they are equal up to the order of members; the text is accepted
under some limits, and under whichever limits it is, its value has it as canonical text. -/
theorem canonical_iff_same (floats : FloatText F) (a b : Value F) (ha : a.DistinctKeys)
    (hfa : a.NoFloats) (hfb : b.NoFloats) :
    (toCanonicalString floats a = toCanonicalString floats b ↔ Same a b) ∧
      (∃ limits v, parse floats limits (Utf8.encode (toCanonicalString floats a)) = .ok v) ∧
      ∀ limits v, parse floats limits (Utf8.encode (toCanonicalString floats a)) = .ok v →
        toCanonicalString floats v = toCanonicalString floats a := by
  have hprintA := hfa.sortKeys.printable floats
  have hprintB := hfb.sortKeys.printable floats
  refine ⟨⟨?_, ?_⟩, ?_, ?_⟩
  · intro htext
    have hsorted : a.sortKeys = b.sortKeys := write_injective hprintA hprintB htext
    exact ((same_sortKeys a).trans (hsorted ▸ .refl _)).trans (same_sortKeys b).symm
  · intro hsame
    rw [toCanonicalString, toCanonicalString, sortKeys_eq_of_same hsame ha]
  · obtain ⟨limits, hparse⟩ := exists_accepting hprintA
    exact ⟨limits, _, hparse⟩
  · intro limits v hparse
    obtain rfl := (parse_gives hprintA).eq hparse
    rw [toCanonicalString, toCanonicalString, sortKeys_sortKeys]

/-- An object in an array, its members in one order or in the other. -/
def twoMembers (entries : List (List Char × Value Unit)) : Value Unit := .array [.object entries]

theorem reordered_members_one_text :
    toCanonicalString oneAndAHalf (twoMembers [(['z'], .null), (['a'], .bool true)]) =
      toCanonicalString oneAndAHalf (twoMembers [(['a'], .bool true), (['z'], .null)]) := by
  have hkeys : (twoMembers [(['z'], .null), (['a'], .bool true)]).DistinctKeys := by
    refine distinctKeys_array.2 fun v hv => ?_
    obtain rfl := mem_singleton.1 hv
    refine distinctKeys_object.2 ⟨by decide, fun e he => ?_⟩
    fin_cases he <;> exact fun _ hin => by cases hin
  have hfloats : ∀ entries : List (List Char × Value Unit),
      (∀ e ∈ entries, e.2 = .null ∨ e.2 = .bool true) → (twoMembers entries).NoFloats := by
    intro entries hentries f hin
    cases hin with
    | item hv hin =>
      obtain rfl := mem_singleton.1 hv
      cases hin with
      | member he hin => rcases hentries _ he with h | h <;> rw [h] at hin <;> cases hin
  refine (canonical_iff_same oneAndAHalf _ _ hkeys (hfloats _ ?_) (hfloats _ ?_)).1.2 ?_
  · simp
  · simp
  · exact .item [] [] (.reorder (.swap _ _ _))

end HypeLlm.Json
