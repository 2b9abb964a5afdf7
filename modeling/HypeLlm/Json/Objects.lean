import HypeLlm.Json.Canonical
import HypeLlm.Lib.Tables

/-!
# Objects built member by member

An object of few members with short strings is within any limits that are not tiny, so its canonical
text is read back, with its members sorted.  A lookup does not see the order.

* `get_push`, `get_pushOpt` — a lookup in an object that was built;
* `get_sortKeys` — a lookup after sorting;
* `length_escape_le` — an escape has six bytes at most;
* **`canonical_read_back`** — a flat object is read back.
-/

namespace HypeLlm.Json

open List

variable {F : Type}

/-! ### Building -/

namespace Object

def push (entries : List (List Char × Value F)) (key : List Char) (value : Value F) :
    List (List Char × Value F) := entries ++ [(key, value)]

/-- Only what is set is put in. -/
def pushOpt (entries : List (List Char × Value F)) (key : List Char) (value : Option (Value F)) :
    List (List Char × Value F) :=
  match value with
  | some value => push entries key value
  | none => entries

end Object

/-- An integer where it fits, and the nearest float above that. -/
def Value.ofU64 (toFloat : UInt64 → F) (v : UInt64) : Value F :=
  if v.toNat < 2 ^ 63 then .number (.int (Int64.ofNat v.toNat)) else .number (.float (toFloat v))

theorem Value.asU64_ofU64 (toFloat : UInt64 → F) (v : UInt64) :
    (Value.ofU64 toFloat v).asU64 = if v.toNat < 2 ^ 63 then some v.toNat else none := by
  rw [ofU64]
  split
  · rename_i hsmall
    have hint : (Int64.ofNat v.toNat).toInt = (v.toNat : ℤ) := Int64.toInt_ofNat_of_lt hsmall
    rw [asU64, hint, if_pos (Int.natCast_nonneg _), Int.toNat_natCast]
  · rfl

/-! ### Lookups -/

theorem get_push (entries : List (List Char × Value F)) (key : List Char) (value : Value F)
    (k : List Char) :
    (Value.object (Object.push entries key value)).get k =
      ((Value.object entries).get k).or (if key = k then some value else none) := by
  rw [Value.get, Value.get, Object.push, find?_append, Option.map_or, find?_singleton]
  by_cases hkey : key = k
  · simp [hkey]
  · simp [hkey]

theorem get_pushOpt (entries : List (List Char × Value F)) (key : List Char) (value : Option (Value F))
    (k : List Char) :
    (Value.object (Object.pushOpt entries key value)).get k =
      ((Value.object entries).get k).or (if key = k then value else none) := by
  cases value with
  | none => rw [Object.pushOpt, ite_self, Option.or_none]
  | some value => exact get_push entries key value k

theorem get_nil (k : List Char) : (Value.object ([] : List (List Char × Value F))).get k = none := rfl

/-- A lookup does not see the order of members that have different keys. -/
theorem get_sortKeys {entries : List (List Char × Value F)} (hnodup : (entries.map Prod.fst).Nodup)
    (k : List Char) :
    (Value.object entries).sortKeys.get k = ((Value.object entries).get k).map Value.sortKeys := by
  have hperm := Value.sortEntries_perm entries
  have hsorted : ((Value.sortEntries entries).map Prod.fst).Nodup :=
    (hperm.map Prod.fst).nodup_iff.2 hnodup
  have hfind : (Value.sortEntries entries).find? (fun e => e.1 = k) = entries.find? fun e => e.1 = k := by
    ext e
    rw [Tables.find?_eq_some_iff hsorted, Tables.find?_eq_some_iff hnodup, hperm.mem_iff]
  rw [Value.sortKeys_object, Value.get, Value.get, find?_map]
  show (((Value.sortEntries entries).find? fun e => e.1 = k).map _).map _ = _
  rw [hfind, Option.map_map, Option.map_map]
  rfl

/-! ### Keys -/

/-- The keys of an object that was built are among those that could have been put in. -/
theorem keys_pushOpt (entries : List (List Char × Value F)) (key : List Char)
    (value : Option (Value F)) :
    ((Object.pushOpt entries key value).map Prod.fst).Sublist (entries.map Prod.fst ++ [key]) := by
  cases value with
  | none => exact sublist_append_left _ _
  | some value => rw [Object.pushOpt, Object.push, map_append]; exact Sublist.refl _

theorem forall_push {p : List Char × Value F → Prop} {entries : List (List Char × Value F)}
    {key : List Char} {value : Value F} (h : ∀ e ∈ entries, p e) (hvalue : p (key, value)) :
    ∀ e ∈ Object.push entries key value, p e := by
  intro e he
  rcases mem_append.1 he with he | he
  · exact h e he
  · rw [mem_singleton.1 he]
    exact hvalue

theorem forall_pushOpt {p : List Char × Value F → Prop} {entries : List (List Char × Value F)}
    {key : List Char} {value : Option (Value F)} (h : ∀ e ∈ entries, p e)
    (hvalue : ∀ v, value = some v → p (key, v)) : ∀ e ∈ Object.pushOpt entries key value, p e := by
  cases value with
  | none => exact h
  | some v => exact forall_push h (hvalue v rfl)

/-! ### Sizes -/

theorem length_encode_escapeChar (c : Char) :
    (Utf8.encode (escapeChar c)).length ≤ 6 * (Utf8.encodeChar c).length := by
  have hpos := Utf8.length_encodeChar_pos c
  have hshort : ∀ cs : List Char, (Utf8.encode cs).length ≤ 6 →
      (Utf8.encode cs).length ≤ 6 * (Utf8.encodeChar c).length := fun cs h => h.trans (by omega)
  have hite (p : Prop) [Decidable p] {cs cs' : List Char} (h : (Utf8.encode cs).length ≤ 6 * (Utf8.encodeChar c).length)
      (h' : (Utf8.encode cs').length ≤ 6 * (Utf8.encodeChar c).length) :
      (Utf8.encode (if p then cs else cs')).length ≤ 6 * (Utf8.encodeChar c).length := by
    by_cases hp : p
    · rwa [if_pos hp]
    · rwa [if_neg hp]
  have hescape : (Utf8.encode ('\\' :: 'u' :: hex4 c.toNat)).length = 6 := by
    have hsplit : '\\' :: 'u' :: hex4 c.toNat = ['\\', 'u'] ++ hex4 c.toNat := rfl
    rw [hsplit, Utf8.encode_append, length_append, length_encode_hex4]
    rfl
  rw [escapeChar]
  refine hite _ (hshort _ (by decide)) ?_
  refine hite _ (hshort _ (by decide)) ?_
  refine hite _ (hshort _ (by decide)) ?_
  refine hite _ (hshort _ (by decide)) ?_
  refine hite _ (hshort _ (by decide)) ?_
  refine hite _ (hshort _ (by decide)) ?_
  refine hite _ (hshort _ (by decide)) ?_
  refine hite _ (hshort _ hescape.le) ?_
  refine hite _ (hshort _ (by decide)) ?_
  refine hite _ (hshort _ (by decide)) ?_
  rw [Utf8.encode_cons, Utf8.encode_nil, append_nil]
  omega

/-- **An escape has six bytes at most.** -/
theorem length_escape_le (s : List Char) :
    (Utf8.encode (escape s)).length ≤ 6 * (Utf8.encode s).length := by
  induction s with
  | nil => exact Nat.zero_le _
  | cons c s ih =>
    have hc := length_encode_escapeChar c
    rw [escape, flatMap_cons, Utf8.encode_append, length_append, Utf8.encode_cons, length_append]
    rw [escape] at ih
    omega

theorem length_writeString_le (s : List Char) :
    (Utf8.encode (writeString s)).length ≤ 6 * (Utf8.encode s).length + 2 := by
  have hescape := length_escape_le s
  have hquote : (Utf8.encode ['"']).length = 1 := rfl
  rw [writeString, Utf8.encode_append, Utf8.encode_append, length_append, length_append, hquote]
  omega

theorem stringFits_of_short {max : ℕ} {s : List Char} (h : 6 * (Utf8.encode s).length ≤ max) :
    StringFits max s :=
  ⟨by omega, writtenFits_of_length ((length_escape_le s).trans h)⟩

theorem length_itoa_le (i : Int64) : (Utf8.encode (itoa i)).length ≤ 21 := by
  have hascii : ∀ ds : List ℕ, (∀ d ∈ ds, d < 10) →
      (Utf8.encode (ds.map Decimal.digitChar)).length = ds.length := by
    intro ds hds
    induction ds with
    | nil => rfl
    | cons d ds ih =>
      have hd := Decimal.toNat_digitChar (hds d mem_cons_self)
      have hd10 := hds d mem_cons_self
      rw [map_cons, Utf8.encode_cons, length_append, Utf8.encodeChar_ascii (by omega),
        ih fun x hx => hds x (mem_cons_of_mem d hx), length_singleton, length_cons, Nat.add_comm]
  rw [itoa]
  split
  · decide
  · have hnat : i.toInt.natAbs < 10 ^ 20 := by
      have hlow := Int64.le_toInt i
      have hhigh := Int64.toInt_lt i
      omega
    have hsign : (Utf8.encode (if i.toInt < 0 then ['-'] else [])).length ≤ 1 := by
      split <;> decide
    rw [Utf8.encode_append, length_append, hascii _ fun d hd => Decimal.lt_of_mem_digits hd]
    have hdigits : (Decimal.digits 20 i.toInt.natAbs).length ≤ 20 := Decimal.length_digits_le hnat
    omega

/-- A member with a short key and a short value. -/
def SmallEntry (floats : FloatText F) (bound : ℕ) (e : List Char × Value F) : Prop :=
  6 * (Utf8.encode e.1).length ≤ bound ∧ (Utf8.encode (writeValue floats e.2)).length ≤ bound ∧
    ((∃ s, e.2 = .string s ∧ 6 * (Utf8.encode s).length ≤ bound) ∨ ∃ i, e.2 = .number (.int i))

/-- A list whose elements have sizes up to a bound. -/
theorem sum_map_le {α : Type} {size : α → ℕ} {bound : ℕ} {l : List α} (h : ∀ a ∈ l, size a ≤ bound) :
    (l.map size).sum ≤ l.length * bound := by
  have hle := sum_le_card_nsmul (l.map size) bound (by
    intro n hn
    obtain ⟨a, ha, rfl⟩ := mem_map.1 hn
    exact h a ha)
  rwa [length_map, smul_eq_mul] at hle

theorem length_array_le {floats : FloatText F} {bound : ℕ} {items : List (Value F)}
    (h : ∀ v ∈ items, (Utf8.encode (writeValue floats v)).length ≤ bound) :
    (Utf8.encode (writeValue floats (.array items))).length ≤ 2 + items.length * (bound + 1) := by
  have hsum := sum_map_le h
  have hquote : (Utf8.encode ['[']).length = 1 ∧ (Utf8.encode [']']).length = 1 := ⟨rfl, rfl⟩
  rw [writeValue, Utf8.encode_append, Utf8.encode_append, length_append, length_append, hquote.1,
    hquote.2, length_writeItems, if_neg (lt_irrefl 0), Nat.mul_succ]
  omega

theorem length_object_le {floats : FloatText F} {bound : ℕ} {entries : List (List Char × Value F)}
    (h : ∀ e ∈ entries, (entryText floats e).length ≤ bound) :
    (Utf8.encode (writeValue floats (.object entries))).length ≤ 2 + entries.length * (bound + 1) := by
  have hsum := sum_map_le h
  have hquote : (Utf8.encode ['\x7b']).length = 1 ∧ (Utf8.encode ['\x7d']).length = 1 := ⟨rfl, rfl⟩
  rw [writeValue, Utf8.encode_append, Utf8.encode_append, length_append, length_append, hquote.1,
    hquote.2, length_writeEntries, Nat.mul_succ]
  omega

/-- A member is its key, a colon and its value. -/
theorem length_entryText_le (floats : FloatText F) (e : List Char × Value F) :
    (entryText floats e).length ≤
      6 * (Utf8.encode e.1).length + 3 + (Utf8.encode (writeValue floats e.2)).length := by
  have hwritten := length_writeString_le e.1
  rw [entryText, length_append, length_cons]
  omega

/-- The text of the value is within the limits. -/
def Accepted (floats : FloatText F) (limits : Limits) (v : Value F) : Prop :=
  (Utf8.encode (writeValue floats v)).length ≤ limits.maxInputBytes ∧
    Fits floats limits (StringFits limits.maxStringBytes) limits.maxDepth v

/-! ### No floats -/

theorem noFloats_array {items : List (Value F)} (h : ∀ v ∈ items, v.NoFloats) :
    (Value.array items).NoFloats := by
  intro f hf
  cases hf with
  | item hv hin => exact h _ hv f hin

theorem noFloats_object {entries : List (List Char × Value F)} (h : ∀ e ∈ entries, e.2.NoFloats) :
    (Value.object entries).NoFloats := by
  intro f hf
  cases hf with
  | member he hin => exact h _ he f hin

theorem noFloats_null : (Value.null : Value F).NoFloats := fun _ hf => by cases hf

theorem noFloats_bool (b : Bool) : (Value.bool b : Value F).NoFloats := fun _ hf => by cases hf

theorem noFloats_string (s : List Char) : (Value.string s : Value F).NoFloats := fun _ hf => by cases hf

theorem noFloats_ofU64 (toFloat : UInt64 → F) {t : UInt64} (h : t.toNat < 2 ^ 63) :
    (Value.ofU64 toFloat t).NoFloats := by
  intro f hf
  rw [Value.ofU64, if_pos h] at hf
  cases hf

/-! ### Flat objects -/

/-- **A flat object of few small members is read back** from its canonical text. -/
theorem canonical_read_back {floats : FloatText F} {limits : Limits} {bound : ℕ}
    {entries : List (List Char × Value F)} (hsmall : ∀ e ∈ entries, SmallEntry floats bound e)
    (hkeys : (entries.map Prod.fst).Nodup) (hcount : entries.length ≤ limits.maxObjectEntries)
    (hdepth : 0 < limits.maxDepth) (hstring : bound ≤ limits.maxStringBytes)
    (hinput : 2 + entries.length * (2 * bound + 4) ≤ limits.maxInputBytes) :
    parse floats limits (Utf8.encode (toCanonicalString floats (.object entries))) =
      .ok (Value.object entries).sortKeys := by
  obtain ⟨levels, hlevels⟩ := Nat.exists_eq_succ_of_ne_zero hdepth.ne'
  have hfits : Fits floats limits (StringFits limits.maxStringBytes) limits.maxDepth
      (.object entries) := by
    rw [hlevels]
    refine .object hcount (fun _ => hkeys) ?_ ?_
    · intro e he
      exact stringFits_of_short ((hsmall e he).1.trans hstring)
    · intro e he
      obtain ⟨s, hs, hlen⟩ | ⟨i, hi⟩ := (hsmall e he).2.2
      · rw [hs]
        exact .string (stringFits_of_short (hlen.trans hstring))
      · rw [hi]
        exact .int i
  have hprint : (Value.object entries).sortKeys.Printable floats := by
    have hprintable : (Value.object entries).Printable floats := by
      intro f hf
      cases hf with
      | member he hin =>
        obtain ⟨s, hs, -⟩ | ⟨i, hi⟩ := (hsmall _ he).2.2
        · rw [hs] at hin
          cases hin
        · rw [hi] at hin
          cases hin
    intro f hf
    exact hprintable f (inside_number_of_sortKeys _ hf)
  refine (parse_gives hprint).eq_ok ⟨?_, hfits.sortKeys⟩
  have hentry : ∀ e ∈ entries, (entryText floats e).length ≤ 2 * bound + 3 := by
    intro e he
    obtain ⟨hkey, hvalue, -⟩ := hsmall e he
    have hlen := length_entryText_le floats e
    omega
  rw [length_write_sortKeys]
  exact (length_object_le hentry).trans hinput

end HypeLlm.Json
