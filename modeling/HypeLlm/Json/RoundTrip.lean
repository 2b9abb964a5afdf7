import HypeLlm.Json.ReadBack
import HypeLlm.Lib.Results

/-!
# Values survive the text

The text of a value is parsed to that value wherever the value fits the limits, and is never parsed
to another one.

* `parseValue_gives` — the text of a value, with a proper end after it, gives that value;
* `parseValue_fits` — what the parser accepts fits the limits;
* **`values_round_trip`** — both forms are read back, for values that fit and for values that were
  accepted.
-/

namespace HypeLlm.Json

open HypeLlm.Results List

variable {F : Type}

/-! ### What is inside a value -/

/-- `u` is `v` or stands somewhere in it. -/
inductive Inside (u : Value F) : Value F → Prop
  | self : Inside u u
  | item {items : List (Value F)} {v : Value F} : v ∈ items → Inside u v → Inside u (.array items)
  | member {entries : List (List Char × Value F)} {e : List Char × Value F} :
      e ∈ entries → Inside u e.2 → Inside u (.object entries)

/-- `s` is a string or a key somewhere in `v`. -/
def HasString (s : List Char) (v : Value F) : Prop :=
  Inside (.string s) v ∨ ∃ entries, Inside (.object entries) v ∧ s ∈ entries.map Prod.fst

/-- All floats are printed and read exactly. -/
def Value.Printable (floats : FloatText F) (v : Value F) : Prop :=
  ∀ f, Inside (.number (.float f)) v → floats.Exact f

/-- A value in which at most `levels` levels are open, which keeps the limits on counts, and of whose
strings and keys `P` holds. -/
inductive Fits (floats : FloatText F) (limits : Limits) (P : List Char → Prop) : ℕ → Value F → Prop
  | null {levels : ℕ} : Fits floats limits P levels .null
  | bool {levels : ℕ} (b : Bool) : Fits floats limits P levels (.bool b)
  | int {levels : ℕ} (i : Int64) : Fits floats limits P levels (.number (.int i))
  | float {levels : ℕ} {f : F} : floats.isFinite f = true →
      Fits floats limits P levels (.number (.float f))
  | string {levels : ℕ} {s : List Char} : P s → Fits floats limits P levels (.string s)
  | array {levels : ℕ} {items : List (Value F)} : items.length ≤ limits.maxArrayItems →
      (∀ v ∈ items, Fits floats limits P levels v) → Fits floats limits P (levels + 1) (.array items)
  | object {levels : ℕ} {entries : List (List Char × Value F)} :
      entries.length ≤ limits.maxObjectEntries →
      (limits.rejectDuplicateKeys = true → (entries.map Prod.fst).Nodup) →
      (∀ e ∈ entries, P e.1) → (∀ e ∈ entries, Fits floats limits P levels e.2) →
      Fits floats limits P (levels + 1) (.object entries)

section

variable {floats : FloatText F} {limits : Limits} {P Q : List Char → Prop} {levels : ℕ}

theorem fits_array {items : List (Value F)} (h : Fits floats limits P (levels + 1) (.array items)) :
    items.length ≤ limits.maxArrayItems ∧ ∀ v ∈ items, Fits floats limits P levels v := by
  cases h with
  | array hlen hitems => exact ⟨hlen, hitems⟩

theorem fits_object {entries : List (List Char × Value F)}
    (h : Fits floats limits P (levels + 1) (.object entries)) :
    entries.length ≤ limits.maxObjectEntries ∧
      (limits.rejectDuplicateKeys = true → (entries.map Prod.fst).Nodup) ∧
      ∀ e ∈ entries, P e.1 ∧ Fits floats limits P levels e.2 := by
  cases h with
  | object hlen hkeys hnames hentries =>
    exact ⟨hlen, hkeys, fun e he => ⟨hnames e he, hentries e he⟩⟩

/-- What holds of all strings and keys may be asked of them. -/
theorem Fits.and {v : Value F} (h : Fits floats limits P levels v) (hQ : ∀ s, HasString s v → Q s) :
    Fits floats limits (fun s => P s ∧ Q s) levels v := by
  induction h with
  | null => exact .null
  | bool b => exact .bool b
  | int i => exact .int i
  | float hf => exact .float hf
  | string hs => exact .string ⟨hs, hQ _ (.inl .self)⟩
  | @array levels items hlen hitems ih =>
    refine .array hlen fun v hv => ih v hv fun s hs => hQ s ?_
    rcases hs with hs | ⟨entries, hs, hkey⟩
    · exact .inl (.item hv hs)
    · exact .inr ⟨entries, .item hv hs, hkey⟩
  | @object levels entries hlen hkeys hnames hentries ih =>
    refine .object hlen hkeys (fun e he => ⟨hnames e he, hQ _ ?_⟩) fun e he => ?_
    · exact .inr ⟨entries, .self, mem_map_of_mem he⟩
    · refine ih e he fun s hs => hQ s ?_
      rcases hs with hs | ⟨entries, hs, hkey⟩
      · exact .inl (.member he hs)
      · exact .inr ⟨entries, .member he hs, hkey⟩

end

/-! ### First bytes -/

/-- A byte that a value may begin with. -/
def Starts (b : UInt8) : Prop :=
  b ∈ [0x6E, 0x74, 0x66, 0x22, 0x5B, 0x7B, 0x2D] ∨ isDigit b = true

theorem Starts.isWs {b : UInt8} (h : Starts b) : isWs b = false := by
  rcases h with h | h
  · fin_cases h <;> rfl
  · simp only [isDigit, decide_eq_true_eq] at h
    have hne : ∀ n : UInt8, n.toNat < 0x30 → b ≠ n := by
      rintro n hn rfl
      omega
    simp [Json.isWs, hne 0x20 (by decide), hne 0x09 (by decide), hne 0x0A (by decide),
      hne 0x0D (by decide)]

theorem Starts.ne {b : UInt8} (h : Starts b) : b ≠ 0x5D ∧ b ≠ 0x7D := by
  constructor <;> rintro rfl <;> rcases h with h | h <;> revert h <;> decide

section Values

variable {floats : FloatText F} {limits : Limits} {rest : List UInt8} {P : List Char → Prop}

theorem starts_parts {parts : Parts} (h : parts.Valid) :
    ∃ b bs, Utf8.encode parts.text = b :: bs ∧ (b = 0x2D ∨ isDigit b = true) := by
  have hne : parts.whole ≠ [] := by
    rcases h.whole with hw | ⟨d, ds, hw, -⟩ <;> rw [hw] <;> exact cons_ne_nil _ _
  obtain ⟨d, ds, hwhole⟩ := exists_cons_of_ne_nil hne
  have hd : d < 10 := h.wholeDigits d (hwhole ▸ mem_cons_self)
  have htext : Utf8.encode parts.text = (if parts.negative then [0x2D] else []) ++
      (parts.whole.map digitByte ++ Utf8.encode parts.fractionText ++
        Utf8.encode parts.exponentText) := by
    rw [Parts.text, Utf8.encode_append, Utf8.encode_append, Utf8.encode_append,
      encode_digitsText h.wholeDigits, append_assoc, append_assoc, append_assoc]
    cases parts.negative <;> rfl
  rw [htext, hwhole]
  cases parts.negative with
  | true => exact ⟨_, _, rfl, .inl rfl⟩
  | false => exact ⟨_, _, rfl, .inr (isDigit_digitByte hd)⟩

/-- The text of a value begins like one. -/
theorem starts_writeValue {v : Value F} (hprint : v.Printable floats) :
    ∃ b bs, Utf8.encode (writeValue floats v) = b :: bs ∧ Starts b := by
  cases v with
  | null => exact ⟨_, _, rfl, .inl (by decide)⟩
  | bool b => cases b <;> exact ⟨_, _, rfl, .inl (by decide)⟩
  | number n =>
    obtain ⟨parts, hvalid, htext, -⟩ := number_parts (n := n)
      fun f hf => hprint f (hf ▸ .self)
    obtain ⟨b, bs, hbytes, hb⟩ := starts_parts hvalid
    refine ⟨b, bs, ?_, ?_⟩
    · rw [writeValue, htext, hbytes]
    · rcases hb with rfl | hb
      · exact .inl (by decide)
      · exact .inr hb
  | string s =>
    rw [writeValue, writeString, Utf8.encode_append, Utf8.encode_append]
    exact ⟨_, _, rfl, .inl (by decide)⟩
  | array items =>
    rw [writeValue, Utf8.encode_append, Utf8.encode_append]
    exact ⟨_, _, rfl, .inl (by decide)⟩
  | object entries =>
    rw [writeValue, Utf8.encode_append, Utf8.encode_append]
    exact ⟨_, _, rfl, .inl (by decide)⟩

/-! ### Arrays -/

/-- `parse` reads the text of `v` back, where `fit` holds. -/
def Reads (floats : FloatText F) (parse : Cursor → Except JsonError (Value F × Cursor)) (fit : Prop)
    (v : Value F) : Prop :=
  ∀ pos rest, Ends rest → Gives fit (parse ⟨pos, Utf8.encode (writeValue floats v) ++ rest⟩)
    (v, ⟨pos + (Utf8.encode (writeValue floats v)).length, rest⟩)

/-- Before the text of a value there is no space to skip and no bracket to see. -/
theorem before_value {v : Value F} (hprint : v.Printable floats) (pos : ℕ)
    (tail : List UInt8) :
    (Cursor.mk pos (Utf8.encode (writeValue floats v) ++ tail)).skipWs =
        ⟨pos, Utf8.encode (writeValue floats v) ++ tail⟩ ∧
      ∃ b, (Cursor.mk pos (Utf8.encode (writeValue floats v) ++ tail)).peek = some b ∧
        b ≠ 0x5D ∧ b ≠ 0x7D := by
  obtain ⟨b, bs, hbytes, hb⟩ := starts_writeValue hprint
  rw [hbytes]
  refine ⟨Cursor.skipWs_eq ?_, b, rfl, hb.ne⟩
  intro x hx
  obtain rfl := Option.some.inj hx
  exact hb.isWs

theorem skipWs_cons {b : UInt8} (hb : isWs b = false) (pos : ℕ) (rest : List UInt8) :
    (Cursor.mk pos (b :: rest)).skipWs = ⟨pos, b :: rest⟩ := by
  refine Cursor.skipWs_eq ?_
  intro x hx
  obtain rfl := Option.some.inj hx
  exact hb

theorem ends_cons {b : UInt8} (hb : b ∈ [0x2C, 0x5D, 0x7D]) (rest : List UInt8) : Ends (b :: rest) := by
  intro x hx
  obtain rfl := Option.some.inj hx
  simpa using hb

/-- The text of items, the first without a comma. -/
def itemsText (floats : FloatText F) (v : Value F) (more : List (Value F)) : List UInt8 :=
  Utf8.encode (writeValue floats v) ++
    more.flatMap fun u => 0x2C :: Utf8.encode (writeValue floats u)

theorem itemsText_cons (v w : Value F) (more : List (Value F)) :
    itemsText floats v (w :: more) =
      Utf8.encode (writeValue floats v) ++ 0x2C :: itemsText floats w more := by
  rw [itemsText, itemsText, flatMap_cons, cons_append]

theorem separator_close {close : UInt8} (hclose : close ≠ 0x2C) (pos : ℕ) :
    separator close ⟨pos, close :: rest⟩ = .ok (false, ⟨pos + 1, rest⟩) := by
  rw [separator]
  simp only [Cursor.peek, head?_cons, if_neg hclose, if_true]
  rfl

theorem separator_comma {close : UInt8} {pos : ℕ} {bytes : List UInt8} {b : UInt8}
    (hskip : (Cursor.mk (pos + 1) bytes).skipWs = ⟨pos + 1, bytes⟩)
    (hpeek : (Cursor.mk (pos + 1) bytes).peek = some b) (hne : b ≠ close) :
    separator close ⟨pos, 0x2C :: bytes⟩ = .ok (true, ⟨pos + 1, bytes⟩) := by
  have hadvance : (Cursor.mk pos (0x2C :: bytes)).advance 1 = ⟨pos + 1, bytes⟩ := rfl
  have hfirst : (Cursor.mk pos (0x2C :: bytes)).peek = some 0x2C := rfl
  rw [separator, hfirst]
  dsimp only
  rw [if_pos rfl, hadvance, hskip, hpeek, if_neg fun heq => hne (Option.some.inj heq)]

/-- **Items are read back.** -/
theorem parseItems_gives
    {parse : Cursor → Except JsonError (Value F × Cursor)} {fit : Value F → Prop}
    (more : List (Value F)) {v : Value F} {acc : List (Value F)}
    (hprint : ∀ u ∈ v :: more, u.Printable floats) (hreads : ∀ u ∈ v :: more, Reads floats parse (fit u) u)
    {pos fuel : ℕ} (hfuel : (itemsText floats v more).length < fuel) :
    Gives ((acc ++ v :: more).length ≤ limits.maxArrayItems ∧ ∀ u ∈ v :: more, fit u)
      (parseItems limits parse fuel acc ⟨pos, itemsText floats v more ++ 0x5D :: rest⟩)
      (.array (acc ++ v :: more), ⟨pos + (itemsText floats v more).length + 1, rest⟩) := by
  induction more generalizing v acc pos fuel with
  | nil =>
    obtain ⟨fuel, rfl⟩ := Nat.exists_eq_succ_of_ne_zero (Nat.ne_of_gt (Nat.zero_lt_of_lt hfuel))
    obtain ⟨hskip, -⟩ := before_value (hprint v mem_cons_self) pos (0x5D :: rest)
    have hvalue := hreads v mem_cons_self pos (0x5D :: rest) (ends_cons (by decide) rest)
    rw [itemsText, flatMap_nil, append_nil, parseItems]
    simp only [hskip]
    refine Gives.check ((hvalue.bind (q := True) ?_).mono ?_) ?_ _
    · dsimp only
      rw [skipWs_cons (by decide), separator_close (by decide)]
      exact .inl rfl
    · exact fun h => ⟨h.2 v mem_cons_self, trivial⟩
    · rintro ⟨hlen, -⟩
      rw [length_append, length_singleton] at hlen
      omega
  | cons w more ih =>
    obtain ⟨fuel, rfl⟩ := Nat.exists_eq_succ_of_ne_zero (Nat.ne_of_gt (Nat.zero_lt_of_lt hfuel))
    have htext : itemsText floats v (w :: more) ++ 0x5D :: rest =
        Utf8.encode (writeValue floats v) ++ 0x2C :: (itemsText floats w more ++ 0x5D :: rest) := by
      rw [itemsText_cons, append_assoc, cons_append]
    have hlen : (itemsText floats v (w :: more)).length =
        (Utf8.encode (writeValue floats v)).length + 1 + (itemsText floats w more).length := by
      rw [itemsText_cons, length_append, length_cons]
      omega
    have hmove : acc ++ v :: w :: more = (acc ++ [v]) ++ w :: more := by simp
    obtain ⟨hskip, -⟩ := before_value (hprint v mem_cons_self) pos
      (0x2C :: (itemsText floats w more ++ 0x5D :: rest))
    have hvalue := hreads v mem_cons_self pos (0x2C :: (itemsText floats w more ++ 0x5D :: rest))
      (ends_cons (by decide) _)
    have hrest := @ih w (acc ++ [v]) (fun u hu => hprint u (mem_cons_of_mem v hu))
      (fun u hu => hreads u (mem_cons_of_mem v hu))
      (pos + (Utf8.encode (writeValue floats v)).length + 1) fuel (by omega)
    obtain ⟨hskip', b, hb, hne, -⟩ := before_value
      (hprint w (mem_cons_of_mem v mem_cons_self))
      (pos + (Utf8.encode (writeValue floats v)).length + 1)
      ((more.flatMap fun u => 0x2C :: Utf8.encode (writeValue floats u)) ++ 0x5D :: rest)
    rw [← append_assoc] at hskip' hb
    have hcomma : separator 0x5D ⟨pos + (Utf8.encode (writeValue floats v)).length,
        0x2C :: (itemsText floats w more ++ 0x5D :: rest)⟩ =
        .ok (true, ⟨pos + (Utf8.encode (writeValue floats v)).length + 1,
          itemsText floats w more ++ 0x5D :: rest⟩) := separator_comma hskip' hb hne
    have hpos : pos + (itemsText floats v (w :: more)).length + 1 =
        pos + (Utf8.encode (writeValue floats v)).length + 1 + (itemsText floats w more).length + 1 := by
      rw [hlen]
      omega
    rw [hpos, htext, hmove, parseItems]
    simp only [hskip]
    refine Gives.check ((hvalue.bind (q := ((acc ++ [v]) ++ w :: more).length ≤
      limits.maxArrayItems ∧ ∀ u ∈ w :: more, fit u) ?_).mono ?_) ?_ _
    · dsimp only
      rw [skipWs_cons (by decide), hcomma]
      exact hrest
    · exact fun h => ⟨h.2 v mem_cons_self, h.1, fun u hu => h.2 u (mem_cons_of_mem v hu)⟩
    · rintro ⟨hcount, -⟩
      simp only [length_append, length_cons] at hcount
      omega

/-! ### Objects -/

/-- The text of a member. -/
def entryText (floats : FloatText F) (e : List Char × Value F) : List UInt8 :=
  Utf8.encode (writeString e.1) ++ 0x3A :: Utf8.encode (writeValue floats e.2)

/-- The text of members, the first without a comma. -/
def entriesText (floats : FloatText F) (e : List Char × Value F)
    (more : List (List Char × Value F)) : List UInt8 :=
  entryText floats e ++ more.flatMap fun x => 0x2C :: entryText floats x

theorem entriesText_cons (e x : List Char × Value F) (more : List (List Char × Value F)) :
    entriesText floats e (x :: more) = entryText floats e ++ 0x2C :: entriesText floats x more := by
  rw [entriesText, entriesText, flatMap_cons, cons_append]

variable (floats) in
/-- A member begins with a quote. -/
theorem entryText_eq (e : List Char × Value F) (tail : List UInt8) :
    entryText floats e ++ tail = Utf8.encode (writeString e.1) ++
        0x3A :: (Utf8.encode (writeValue floats e.2) ++ tail) ∧
      ∃ bytes, entryText floats e ++ tail = 0x22 :: bytes := by
  constructor
  · rw [entryText, append_assoc, cons_append]
  · rw [entryText, writeString, Utf8.encode_append, Utf8.encode_append]
    exact ⟨_, rfl⟩

theorem containsKey_iff (entries : List (List Char × Value F)) (key : List Char) :
    containsKey entries key = true ↔ key ∈ entries.map Prod.fst := by
  rw [containsKey, any_eq_true, mem_map]
  constructor
  · rintro ⟨e, he, hkey⟩
    exact ⟨e, he, beq_iff_eq.1 hkey⟩
  · rintro ⟨e, he, rfl⟩
    exact ⟨e, he, beq_iff_eq.2 rfl⟩

/-- What the members of an object have to fulfil, `acc` being read before. -/
structure EntriesFit (limits : Limits) (P : List Char → Prop) (fit : Value F → Prop)
    (acc entries : List (List Char × Value F)) : Prop where
  count : (acc ++ entries).length ≤ limits.maxObjectEntries
  distinct : limits.rejectDuplicateKeys = true → ((acc ++ entries).map Prod.fst).Nodup
  keys : ∀ e ∈ entries, P e.1
  values : ∀ e ∈ entries, fit e.2

/-- One round of the loop over members, up to what follows the member. -/
theorem parseEntries_step
    {parse : Cursor → Except JsonError (Value F × Cursor)} {fit : Value F → Prop} {q : Prop}
    {e : List Char × Value F} {acc more : List (List Char × Value F)} (hprint : e.2.Printable floats)
    (hreads : Reads floats parse (fit e.2) e.2) {pos fuel : ℕ} {b : UInt8} {tail : List UInt8}
    (hb : b ∈ [0x2C, 0x7D]) {x : Value F × Cursor}
    (hnext : Gives q (do
      let (next, c) ← separator 0x7D ⟨pos + (entryText floats e).length, b :: tail⟩
      if next then parseEntries limits parse fuel (acc ++ [e]) c
      else .ok (.object (acc ++ [e]), c)) x)
    (himp : EntriesFit limits (StringFits limits.maxStringBytes) fit acc (e :: more) → q) :
    Gives (EntriesFit limits (StringFits limits.maxStringBytes) fit acc (e :: more))
      (parseEntries limits parse (fuel + 1) acc ⟨pos, entryText floats e ++ b :: tail⟩) x := by
  obtain ⟨key, v⟩ := e
  obtain ⟨hsplit, bytes, hquote⟩ := entryText_eq floats (key, v) (b :: tail)
  have hend : Ends (b :: tail) := ends_cons (by simp at hb ⊢; tauto) tail
  have hws : isWs b = false := by fin_cases hb <;> rfl
  have hkey := parseString_gives limits key pos
    (0x3A :: (Utf8.encode (writeValue floats v) ++ b :: tail))
  have hvalue := hreads (pos + (Utf8.encode (writeString key)).length + 1) (b :: tail) hend
  obtain ⟨hskip, -⟩ := before_value hprint
    (pos + (Utf8.encode (writeString key)).length + 1) (b :: tail)
  have hlen : pos + (entryText floats (key, v)).length = pos + (Utf8.encode (writeString key)).length + 1 +
      (Utf8.encode (writeValue floats v)).length := by
    rw [entryText, length_append, length_cons]
    dsimp only
    omega
  have hpeek : (Cursor.mk pos (entryText floats (key, v) ++ b :: tail)).peek = some 0x22 := by
    rw [hquote]
    rfl
  have hstart : (Cursor.mk pos (entryText floats (key, v) ++ b :: tail)).skipWs =
      ⟨pos, entryText floats (key, v) ++ b :: tail⟩ := by
    rw [hquote]
    exact skipWs_cons (by decide) pos bytes
  have hcolon : ∀ q (l : List UInt8), ((Cursor.mk q (0x3A :: l)).skipWs).expect 0x3A = .ok ⟨q + 1, l⟩ := by
    intro q l
    rw [skipWs_cons (by decide)]
    rfl
  rw [hlen] at hnext
  rw [parseEntries]
  simp only [hstart, hpeek]
  refine Gives.check ?_ ?_ _
  · rw [if_neg (by simp), hsplit]
    refine (hkey.bind (q := EntriesFit limits (StringFits limits.maxStringBytes) fit acc
      ((key, v) :: more)) ?_).mono fun h => ⟨h.keys _ mem_cons_self, h⟩
    refine Gives.check ?_ ?_ _
    · simp only [hcolon]
      show Gives _ (parse (Cursor.mk (pos + (Utf8.encode (writeString key)).length + 1) _).skipWs >>= _) _
      rw [hskip]
      refine (hvalue.bind (q := q) ?_).mono fun h => ⟨h.values _ mem_cons_self, himp h⟩
      dsimp only
      rw [skipWs_cons hws]
      exact hnext
    · intro h hdup
      obtain ⟨hreject, hcontains⟩ := Bool.and_eq_true_iff.1 hdup
      have hnodup := h.distinct hreject
      rw [map_append, map_cons, nodup_append] at hnodup
      exact hnodup.2.2 key ((containsKey_iff acc key).1 hcontains) key mem_cons_self rfl
  · intro h hlarge
    have hcount := h.count
    rw [length_append, length_cons] at hcount
    omega

/-- **Members are read back.** -/
theorem parseEntries_gives
    {parse : Cursor → Except JsonError (Value F × Cursor)} {fit : Value F → Prop}
    (more : List (List Char × Value F)) {e : List Char × Value F} {acc : List (List Char × Value F)}
    (hprint : ∀ x ∈ e :: more, x.2.Printable floats)
    (hreads : ∀ x ∈ e :: more, Reads floats parse (fit x.2) x.2) {pos fuel : ℕ}
    (hfuel : (entriesText floats e more).length < fuel) :
    Gives (EntriesFit limits (StringFits limits.maxStringBytes) fit acc (e :: more))
      (parseEntries limits parse fuel acc ⟨pos, entriesText floats e more ++ 0x7D :: rest⟩)
      (.object (acc ++ e :: more), ⟨pos + (entriesText floats e more).length + 1, rest⟩) := by
  induction more generalizing e acc pos fuel with
  | nil =>
    obtain ⟨fuel, rfl⟩ := Nat.exists_eq_succ_of_ne_zero (Nat.ne_of_gt (Nat.zero_lt_of_lt hfuel))
    rw [entriesText, flatMap_nil, append_nil]
    refine parseEntries_step (q := True) (hprint e mem_cons_self) (hreads e mem_cons_self)
      (by decide) ?_ fun _ => trivial
    rw [separator_close (by decide)]
    exact .inl rfl
  | cons y more ih =>
    obtain ⟨fuel, rfl⟩ := Nat.exists_eq_succ_of_ne_zero (Nat.ne_of_gt (Nat.zero_lt_of_lt hfuel))
    have htext : entriesText floats e (y :: more) ++ 0x7D :: rest =
        entryText floats e ++ 0x2C :: (entriesText floats y more ++ 0x7D :: rest) := by
      rw [entriesText_cons, append_assoc, cons_append]
    have hlen : (entriesText floats e (y :: more)).length =
        (entryText floats e).length + 1 + (entriesText floats y more).length := by
      rw [entriesText_cons, length_append, length_cons]
      omega
    have hmove : acc ++ e :: y :: more = (acc ++ [e]) ++ y :: more := by simp
    have hrest := @ih y (acc ++ [e]) (fun x hx => hprint x (mem_cons_of_mem e hx))
      (fun x hx => hreads x (mem_cons_of_mem e hx)) (pos + (entryText floats e).length + 1) fuel
      (by omega)
    obtain ⟨-, bytes, hquote⟩ := entryText_eq floats y
      ((more.flatMap fun x => 0x2C :: entryText floats x) ++ 0x7D :: rest)
    have hbytes : entriesText floats y more ++ 0x7D :: rest = 0x22 :: bytes := by
      rw [entriesText, append_assoc, hquote]
    have hcomma : separator 0x7D ⟨pos + (entryText floats e).length,
        0x2C :: (entriesText floats y more ++ 0x7D :: rest)⟩ =
        .ok (true, ⟨pos + (entryText floats e).length + 1, entriesText floats y more ++ 0x7D :: rest⟩) := by
      rw [hbytes]
      exact separator_comma (b := 0x22) (skipWs_cons (by decide) _ _) rfl (by decide)
    have hpos : pos + (entriesText floats e (y :: more)).length + 1 =
        pos + (entryText floats e).length + 1 + (entriesText floats y more).length + 1 := by
      rw [hlen]
      omega
    rw [hpos, htext, hmove]
    refine parseEntries_step (hprint e mem_cons_self) (hreads e mem_cons_self) (by decide)
      ?_ ?_ (q := EntriesFit limits (StringFits limits.maxStringBytes) fit (acc ++ [e]) (y :: more))
    · rw [hcomma]
      exact hrest
    · intro h
      refine ⟨?_, ?_, ?_, ?_⟩
      · rw [← hmove]
        exact h.count
      · rw [← hmove]
        exact h.distinct
      · exact fun x hx => h.keys x (mem_cons_of_mem e hx)
      · exact fun x hx => h.values x (mem_cons_of_mem e hx)

/-! ### Values -/

theorem writeEntries_pos {i : ℕ} (hi : 0 < i) (entries : List (List Char × Value F)) :
    Utf8.encode (writeEntries floats i entries) =
      entries.flatMap fun e => 0x2C :: entryText floats e := by
  induction entries generalizing i with
  | nil => rfl
  | cons e entries ih =>
    have hcomma : Utf8.encode [','] = [0x2C] := rfl
    have hcolon : Utf8.encode [':'] = [0x3A] := rfl
    rw [writeEntries, if_pos hi, flatMap_cons, ← ih (Nat.succ_pos i), entryText]
    simp only [Utf8.encode_append, hcomma, hcolon, append_assoc]
    simp only [cons_append, nil_append, append_assoc]

theorem encode_writeEntries (e : List Char × Value F) (entries : List (List Char × Value F)) :
    Utf8.encode (writeEntries floats 0 (e :: entries)) = entriesText floats e entries := by
  rw [writeEntries, Utf8.encode_append, writeEntries_pos (Nat.succ_pos 0), entriesText, entryText]
  simp only [Utf8.encode_append, append_assoc]
  rfl

theorem writeItems_pos {i : ℕ} (hi : 0 < i) (items : List (Value F)) :
    Utf8.encode (writeItems floats i items) =
      items.flatMap fun v => 0x2C :: Utf8.encode (writeValue floats v) := by
  induction items generalizing i with
  | nil => rfl
  | cons v items ih =>
    rw [writeItems, if_pos hi, flatMap_cons, ← ih (Nat.succ_pos i)]
    simp only [Utf8.encode_append, append_assoc]
    rfl

theorem encode_writeItems (v : Value F) (items : List (Value F)) :
    Utf8.encode (writeItems floats 0 (v :: items)) = itemsText floats v items := by
  rw [writeItems, Utf8.encode_append, writeItems_pos (Nat.succ_pos 0), itemsText]
  rfl

/-- How what is in a value is parsed. -/
def nested (floats : FloatText F) (limits : Limits) :
    ℕ → Option (Cursor → Except JsonError (Value F × Cursor))
  | 0 => none
  | levels + 1 => some (parseValue floats limits levels)

theorem parseValue_eq (levels : ℕ) (c : Cursor) :
    parseValue floats limits levels c = parseByFirst floats limits (nested floats limits levels) c := by
  cases levels <;> rfl

theorem parseArray_gives {items : List (Value F)} {levels : ℕ}
    (hprint : ∀ v ∈ items, v.Printable floats)
    (ih : ∀ v ∈ items, ∀ levels, Reads floats (parseValue floats limits levels)
      (Fits floats limits (StringFits limits.maxStringBytes) levels v) v) (pos : ℕ) :
    Gives (Fits floats limits (StringFits limits.maxStringBytes) levels (.array items))
      (parseArray limits (nested floats limits levels)
        ⟨pos, 0x5B :: (Utf8.encode (writeItems floats 0 items) ++ 0x5D :: rest)⟩)
      (.array items, ⟨pos + (1 + (Utf8.encode (writeItems floats 0 items)).length + 1), rest⟩) := by
  cases levels with
  | zero => exact .error (fun h => by cases h) _ _
  | succ levels =>
    have hexpect : ∀ l, (Cursor.mk pos (0x5B :: l)).expect 0x5B = .ok ⟨pos + 1, l⟩ := fun _ => rfl
    rw [nested, parseArray, hexpect]
    show Gives _ (if _ then _ else _) _
    cases items with
    | nil =>
      have hskip : (Cursor.mk (pos + 1) (Utf8.encode (writeItems floats 0 []) ++ 0x5D :: rest)).skipWs =
          ⟨pos + 1, 0x5D :: rest⟩ := skipWs_cons (by decide) (pos + 1) rest
      have hclose : (Cursor.mk (pos + 1) (0x5D :: rest)).peek = some 0x5D := rfl
      rw [hskip, if_pos hclose]
      exact .inl rfl
    | cons v more =>
      obtain ⟨hskip, b, hb, hne, -⟩ := before_value (hprint v mem_cons_self) (pos + 1)
        ((more.flatMap fun u => 0x2C :: Utf8.encode (writeValue floats u)) ++ 0x5D :: rest)
      rw [← append_assoc] at hskip hb
      rw [encode_writeItems]
      have hskip' : (Cursor.mk (pos + 1) (itemsText floats v more ++ 0x5D :: rest)).skipWs =
          ⟨pos + 1, itemsText floats v more ++ 0x5D :: rest⟩ := hskip
      have hitems : Gives _ (parseItems limits (parseValue floats limits levels)
          ((itemsText floats v more ++ 0x5D :: rest).length + 1) []
          ⟨pos + 1, itemsText floats v more ++ 0x5D :: rest⟩) _ :=
        parseItems_gives more hprint (fun u hu => ih u hu levels) (by rw [length_append]; omega)
      rw [hskip', if_neg]
      · have hpos : pos + (1 + (itemsText floats v more).length + 1) =
            pos + 1 + (itemsText floats v more).length + 1 := by omega
        rw [hpos]
        exact hitems.mono fits_array
      · intro heq
        exact hne (Option.some.inj (hb.symm.trans heq))

theorem parseObject_gives {entries : List (List Char × Value F)} {levels : ℕ}
    (hprint : ∀ e ∈ entries, e.2.Printable floats)
    (ih : ∀ e ∈ entries, ∀ levels, Reads floats (parseValue floats limits levels)
      (Fits floats limits (StringFits limits.maxStringBytes) levels e.2) e.2) (pos : ℕ) :
    Gives (Fits floats limits (StringFits limits.maxStringBytes) levels (.object entries))
      (parseObject limits (nested floats limits levels)
        ⟨pos, 0x7B :: (Utf8.encode (writeEntries floats 0 entries) ++ 0x7D :: rest)⟩)
      (.object entries, ⟨pos + (1 + (Utf8.encode (writeEntries floats 0 entries)).length + 1), rest⟩) := by
  cases levels with
  | zero => exact .error (fun h => by cases h) _ _
  | succ levels =>
    have hexpect : ∀ l, (Cursor.mk pos (0x7B :: l)).expect 0x7B = .ok ⟨pos + 1, l⟩ := fun _ => rfl
    rw [nested, parseObject, hexpect]
    show Gives _ (if _ then _ else _) _
    cases entries with
    | nil =>
      have hskip : (Cursor.mk (pos + 1) (Utf8.encode (writeEntries floats 0 []) ++ 0x7D :: rest)).skipWs =
          ⟨pos + 1, 0x7D :: rest⟩ := skipWs_cons (by decide) (pos + 1) rest
      have hclose : (Cursor.mk (pos + 1) (0x7D :: rest)).peek = some 0x7D := rfl
      rw [hskip, if_pos hclose]
      exact .inl rfl
    | cons e more =>
      obtain ⟨-, bytes, hquote⟩ := entryText_eq floats e
        ((more.flatMap fun x => 0x2C :: entryText floats x) ++ 0x7D :: rest)
      have hbytes : entriesText floats e more ++ 0x7D :: rest = 0x22 :: bytes := by
        rw [entriesText, append_assoc, hquote]
      have hskip : (Cursor.mk (pos + 1) (entriesText floats e more ++ 0x7D :: rest)).skipWs =
          ⟨pos + 1, entriesText floats e more ++ 0x7D :: rest⟩ := by
        rw [hbytes]
        exact skipWs_cons (by decide) (pos + 1) bytes
      have hentries : Gives _ (parseEntries limits (parseValue floats limits levels)
          ((entriesText floats e more ++ 0x7D :: rest).length + 1) []
          ⟨pos + 1, entriesText floats e more ++ 0x7D :: rest⟩) _ :=
        parseEntries_gives more hprint (fun x hx => ih x hx levels) (by rw [length_append]; omega)
      rw [encode_writeEntries, hskip, if_neg]
      · have hpos : pos + (1 + (entriesText floats e more).length + 1) =
            pos + 1 + (entriesText floats e more).length + 1 := by omega
        rw [hpos]
        refine hentries.mono fun h => ?_
        obtain ⟨hcount, hdistinct, hall⟩ := fits_object h
        exact ⟨hcount, hdistinct, fun x hx => (hall x hx).1, fun x hx => (hall x hx).2⟩
      · rw [hbytes]
        intro heq
        exact absurd (Option.some.inj heq) (by decide)

variable (limits) in
/-- **The text of a value gives that value**, whatever proper end follows it, or is refused because
the value does not fit. -/
theorem parseValue_gives (v : Value F) (hprint : v.Printable floats)
    (levels : ℕ) : Reads floats (parseValue floats limits levels)
      (Fits floats limits (StringFits limits.maxStringBytes) levels v) v := by
  induction v using Value.induct generalizing levels with
  | null =>
    intro pos rest _
    rw [parseValue_eq]
    exact .inl (parseLiteral_eq (Utf8.encode nullText) .null pos)
  | bool b =>
    intro pos rest _
    rw [parseValue_eq]
    cases b with
    | true => exact .inl (parseLiteral_eq (Utf8.encode trueText) (.bool true) pos)
    | false => exact .inl (parseLiteral_eq (Utf8.encode falseText) (.bool false) pos)
  | number n =>
    intro pos rest hrest
    have hn : ∀ f, n = .float f → floats.Exact f := fun f hf => hprint f (hf ▸ .self)
    obtain ⟨parts, hvalid, htext, -⟩ := number_parts hn
    obtain ⟨b, bs, hbytes, hb⟩ := starts_parts hvalid
    have hnumber := parseNumber_eq hn hrest pos
    have hpeek : (Cursor.mk pos (Utf8.encode (writeNumber floats n) ++ rest)).peek = some b := by
      rw [htext, hbytes]
      rfl
    have hother : ∀ x ∈ [0x6E, 0x74, 0x66, 0x22, 0x5B, 0x7B], b ≠ x := by
      rintro x hx rfl
      rcases hb with rfl | hb
      · revert hx
        decide
      · fin_cases hx <;> cases hb
    rw [parseValue_eq, writeValue, parseByFirst, hpeek]
    dsimp only
    rw [if_neg (hother _ (by decide)), if_neg (hother _ (by decide)), if_neg (hother _ (by decide)),
      if_neg (hother _ (by decide)), if_neg (hother _ (by decide)), if_neg (hother _ (by decide)),
      if_pos hb]
    exact .inl hnumber
  | string s =>
    intro pos rest _
    have hstring := parseString_gives limits s pos rest
    have hquote : (Cursor.mk pos (Utf8.encode (writeString s) ++ rest)).peek = some 0x22 := by
      rw [writeString, Utf8.encode_append, Utf8.encode_append]
      rfl
    rw [parseValue_eq, writeValue, parseByFirst, hquote]
    dsimp only
    rw [if_neg (by decide), if_neg (by decide), if_neg (by decide), if_pos rfl]
    refine Gives.mono (hstring.bind (q := True) ?_) ?_
    · exact .inl rfl
    intro h
    cases h with
    | string hs => exact ⟨hs, trivial⟩
  | array items ih =>
    intro pos rest _
    have hitems : ∀ v ∈ items, v.Printable floats := fun v hv f hf => hprint f (.item hv hf)
    have hbytes : Utf8.encode (writeValue floats (.array items)) =
        0x5B :: (Utf8.encode (writeItems floats 0 items) ++ [0x5D]) := by
      rw [writeValue, Utf8.encode_append, Utf8.encode_append]
      rfl
    have hlen : (Utf8.encode (writeValue floats (.array items))).length =
        1 + (Utf8.encode (writeItems floats 0 items)).length + 1 := by
      rw [hbytes, length_cons, length_append, length_singleton]
      omega
    rw [parseValue_eq, hlen, hbytes, cons_append, append_assoc, singleton_append]
    exact parseArray_gives hitems (fun v hv => ih v hv (hitems v hv)) pos
  | object entries ih =>
    intro pos rest _
    have hentries : ∀ e ∈ entries, e.2.Printable floats := fun e he f hf => hprint f (.member he hf)
    have hbytes : Utf8.encode (writeValue floats (.object entries)) =
        0x7B :: (Utf8.encode (writeEntries floats 0 entries) ++ [0x7D]) := by
      rw [writeValue, Utf8.encode_append, Utf8.encode_append]
      rfl
    have hlen : (Utf8.encode (writeValue floats (.object entries))).length =
        1 + (Utf8.encode (writeEntries floats 0 entries)).length + 1 := by
      rw [hbytes, length_cons, length_append, length_singleton]
      omega
    rw [parseValue_eq, hlen, hbytes, cons_append, append_assoc, singleton_append]
    exact parseObject_gives hentries (fun e he => ih e he (hentries e he)) pos

/-- **The text of a value is parsed to it** or is refused. -/
theorem parse_gives {v : Value F} (hprint : v.Printable floats) :
    Gives ((Utf8.encode (writeValue floats v)).length ≤ limits.maxInputBytes ∧
        Fits floats limits (StringFits limits.maxStringBytes) limits.maxDepth v)
      (parse floats limits (Utf8.encode (writeValue floats v))) v := by
  obtain ⟨b, bs, hbytes, hb⟩ := starts_writeValue hprint
  obtain ⟨hskip, -⟩ := before_value hprint 0 []
  have hvalue := parseValue_gives limits v hprint limits.maxDepth 0 []
    (fun b hb => by cases hb)
  have hmark : ([0xEF, 0xBB, 0xBF] : List UInt8).isPrefixOf (Utf8.encode (writeValue floats v)) = false := by
    have hne : (0xEF : UInt8) ≠ b := by
      rintro rfl
      rcases hb with hb | hb <;> revert hb <;> decide
    rw [hbytes, isPrefixOf, beq_eq_false_iff_ne.2 hne, Bool.false_and]
  have hne : Utf8.encode (writeValue floats v) ≠ [] := by
    rw [hbytes]
    exact cons_ne_nil _ _
  rw [append_nil] at hskip hvalue
  rw [parse, hmark, Utf8.decode_encode]
  refine Gives.check ?_ (fun h => not_lt.2 h.1) _
  simp only [hskip, Bool.false_eq_true, if_false, Option.isNone_some, if_neg hne]
  refine Gives.mono (hvalue.bind (q := True) ?_) fun h => ⟨h.2, trivial⟩
  exact .inl rfl

end Values

/-! ### What is accepted fits -/

section Accepted

variable {floats : FloatText F} {limits : Limits}

theorem stringLoop_fits {start c c' : Cursor} {fuel : ℕ} {out : Option (List Char)} {s : List Char}
    (h : stringLoop limits start fuel out c = .ok (s, c')) :
    (Utf8.encode s).length ≤ limits.maxStringBytes := by
  induction fuel generalizing out c with
  | zero => cases h
  | succ fuel ih =>
    rw [stringLoop] at h
    split at h
    · cases h
    · split at h
      · obtain ⟨t, -, h⟩ := bind_eq_ok h
        split at h
        · cases h
        · rename_i hlen
          obtain ⟨rfl, -⟩ := Prod.mk.inj (Except.ok.inj h)
          exact not_lt.1 hlen
      · split at h
        · cases h
        · split at h
          · obtain ⟨buf, -, h⟩ := bind_eq_ok h
            split at h
            · cases h
            · obtain ⟨⟨ch, c⟩, -, h⟩ := bind_eq_ok h
              exact ih h
          · split at h
            · split at h
              · cases h
              · split at h
                · cases h
                · dsimp only at h
                  split at h
                  · cases h
                  · exact ih h
            · dsimp only at h
              split at h
              · cases h
              · exact ih h

theorem parseString_fits {c c' : Cursor} {s : List Char} (h : parseString limits c = .ok (s, c')) :
    (Utf8.encode s).length ≤ limits.maxStringBytes := by
  obtain ⟨start, -, h⟩ := bind_eq_ok h
  exact stringLoop_fits h

/-- What the parser of the next level gives, fits there. -/
def Checks (floats : FloatText F) (limits : Limits) (levels : ℕ)
    (parse : Cursor → Except JsonError (Value F × Cursor)) : Prop :=
  ∀ c v c', parse c = .ok (v, c') →
    Fits floats limits (fun s => (Utf8.encode s).length ≤ limits.maxStringBytes) levels v

theorem parseItems_fits {parse : Cursor → Except JsonError (Value F × Cursor)} {levels fuel : ℕ}
    (hparse : Checks floats limits levels parse) {acc : List (Value F)} {c c' : Cursor} {v : Value F}
    (hacc : ∀ u ∈ acc, Fits floats limits (fun s => (Utf8.encode s).length ≤ limits.maxStringBytes)
      levels u) (h : parseItems limits parse fuel acc c = .ok (v, c')) :
    Fits floats limits (fun s => (Utf8.encode s).length ≤ limits.maxStringBytes) (levels + 1) v := by
  induction fuel generalizing acc c with
  | zero => cases h
  | succ fuel ih =>
    rw [parseItems] at h
    dsimp only at h
    split at h
    · cases h
    · rename_i hcount
      obtain ⟨⟨u, c₁⟩, hu, h⟩ := bind_eq_ok h
      obtain ⟨⟨more, c₂⟩, -, h⟩ := bind_eq_ok h
      have hnext : ∀ x ∈ acc ++ [u], Fits floats limits
          (fun s => (Utf8.encode s).length ≤ limits.maxStringBytes) levels x := by
        intro x hx
        rcases mem_append.1 hx with hx | hx
        · exact hacc x hx
        · obtain rfl := mem_singleton.1 hx
          exact hparse _ _ _ hu
      dsimp only at h
      split at h
      · exact ih hnext h
      · obtain ⟨rfl, -⟩ := Prod.mk.inj (Except.ok.inj h)
        refine .array ?_ hnext
        rw [length_append, length_singleton]
        omega

theorem parseEntries_fits {parse : Cursor → Except JsonError (Value F × Cursor)} {levels fuel : ℕ}
    (hparse : Checks floats limits levels parse) {acc : List (List Char × Value F)} {c c' : Cursor}
    {v : Value F}
    (hkeys : limits.rejectDuplicateKeys = true → (acc.map Prod.fst).Nodup)
    (hnames : ∀ e ∈ acc, (Utf8.encode e.1).length ≤ limits.maxStringBytes)
    (hacc : ∀ e ∈ acc, Fits floats limits (fun s => (Utf8.encode s).length ≤ limits.maxStringBytes)
      levels e.2) (h : parseEntries limits parse fuel acc c = .ok (v, c')) :
    Fits floats limits (fun s => (Utf8.encode s).length ≤ limits.maxStringBytes) (levels + 1) v := by
  induction fuel generalizing acc c with
  | zero => cases h
  | succ fuel ih =>
    rw [parseEntries] at h
    dsimp only at h
    split at h
    · cases h
    · rename_i hcount
      split at h
      · cases h
      · split at h
        · cases h
        · obtain ⟨⟨key, after⟩, hkey, h⟩ := bind_eq_ok h
          dsimp only at h
          split at h
          · cases h
          · rename_i hdup
            obtain ⟨colon, -, h⟩ := bind_eq_ok h
            obtain ⟨⟨u, c₁⟩, hu, h⟩ := bind_eq_ok h
            obtain ⟨⟨more, c₂⟩, -, h⟩ := bind_eq_ok h
            have hkeys' : limits.rejectDuplicateKeys = true → ((acc ++ [(key, u)]).map Prod.fst).Nodup := by
              intro hreject
              have hnew : key ∉ acc.map Prod.fst := by
                intro hmem
                rw [hreject, (containsKey_iff acc key).2 hmem] at hdup
                exact hdup rfl
              rw [map_append, nodup_append]
              refine ⟨hkeys hreject, nodup_singleton _, ?_⟩
              rintro a ha b hb rfl
              obtain rfl := mem_singleton.1 hb
              exact hnew ha
            have hnames' : ∀ e ∈ acc ++ [(key, u)], (Utf8.encode e.1).length ≤ limits.maxStringBytes := by
              intro e he
              rcases mem_append.1 he with he | he
              · exact hnames e he
              · obtain rfl := mem_singleton.1 he
                exact parseString_fits hkey
            have hnext : ∀ e ∈ acc ++ [(key, u)], Fits floats limits
                (fun s => (Utf8.encode s).length ≤ limits.maxStringBytes) levels e.2 := by
              intro e he
              rcases mem_append.1 he with he | he
              · exact hacc e he
              · obtain rfl := mem_singleton.1 he
                exact hparse _ _ _ hu
            dsimp only at h
            split at h
            · exact ih hkeys' hnames' hnext h
            · obtain ⟨rfl, -⟩ := Prod.mk.inj (Except.ok.inj h)
              refine .object ?_ hkeys' hnames' hnext
              rw [length_append, length_singleton]
              omega

theorem parseNumber_fits {P : List Char → Prop} {levels : ℕ} {c c' : Cursor} {v : Value F}
    (h : parseNumber floats c = .ok (v, c')) : Fits floats limits P levels v := by
  rw [parseNumber] at h
  split at h
  · cases h
  · split at h
    · cases h
    · split at h
      · obtain ⟨rfl, -⟩ := Prod.mk.inj (Except.ok.inj h)
        exact .int _
      · split at h
        · split at h
          · rename_i hfinite
            obtain ⟨rfl, -⟩ := Prod.mk.inj (Except.ok.inj h)
            exact .float hfinite
          · cases h
        · cases h

theorem parseLiteral_ok {word : List UInt8} {value v : Value F} {c c' : Cursor}
    (h : parseLiteral word value c = .ok (v, c')) : v = value := by
  rw [parseLiteral] at h
  split at h
  · cases h
  · split at h
    · cases h
    · exact (Prod.mk.inj (Except.ok.inj h)).1.symm

/-- What is parsed by its first byte fits, if what is in it does. -/
theorem parseByFirst_fits {levels : ℕ} {nest : Option (Cursor → Except JsonError (Value F × Cursor))}
    (hnest : ∀ parse, nest = some parse →
      ∃ below, levels = below + 1 ∧ Checks floats limits below parse) :
    Checks floats limits levels (parseByFirst floats limits nest) := by
  intro c v c' h
  rw [parseByFirst] at h
  split at h
  · cases h
  · rename_i b hb
    by_cases hnull : b = 0x6E
    · rw [if_pos hnull] at h
      rw [parseLiteral_ok h]
      exact .null
    rw [if_neg hnull] at h
    by_cases htrue : b = 0x74
    · rw [if_pos htrue] at h
      rw [parseLiteral_ok h]
      exact .bool true
    rw [if_neg htrue] at h
    by_cases hfalse : b = 0x66
    · rw [if_pos hfalse] at h
      rw [parseLiteral_ok h]
      exact .bool false
    rw [if_neg hfalse] at h
    by_cases hquote : b = 0x22
    · rw [if_pos hquote] at h
      obtain ⟨⟨s, c₁⟩, hs, h⟩ := bind_eq_ok h
      obtain ⟨rfl, -⟩ := Prod.mk.inj (Except.ok.inj h)
      exact .string (parseString_fits hs)
    rw [if_neg hquote] at h
    by_cases harray : b = 0x5B
    · rw [if_pos harray] at h
      cases nest with
      | none => cases h
      | some parse =>
        obtain ⟨below, rfl, hparse⟩ := hnest parse rfl
        obtain ⟨c₁, -, h⟩ := bind_eq_ok h
        dsimp only at h
        split at h
        · obtain ⟨rfl, -⟩ := Prod.mk.inj (Except.ok.inj h)
          exact .array (Nat.zero_le _) fun u hu => by cases hu
        · exact parseItems_fits hparse (fun u hu => by cases hu) h
    rw [if_neg harray] at h
    by_cases hobject : b = 0x7B
    · rw [if_pos hobject] at h
      cases nest with
      | none => cases h
      | some parse =>
        obtain ⟨below, rfl, hparse⟩ := hnest parse rfl
        obtain ⟨c₁, -, h⟩ := bind_eq_ok h
        dsimp only at h
        split at h
        · obtain ⟨rfl, -⟩ := Prod.mk.inj (Except.ok.inj h)
          exact .object (Nat.zero_le _) (fun _ => nodup_nil) (fun e he => by cases he)
            fun e he => by cases he
        · refine parseEntries_fits hparse ?_ ?_ ?_ h
          · exact fun _ => nodup_nil
          · exact fun e he => by cases he
          · exact fun e he => by cases he
    rw [if_neg hobject] at h
    split at h
    · exact parseNumber_fits h
    · cases h

/-- **What the parser accepts fits the limits.** -/
theorem parseValue_fits (levels : ℕ) : Checks floats limits levels (parseValue floats limits levels) := by
  induction levels with
  | zero =>
    refine parseByFirst_fits ?_
    intro parse hparse
    cases hparse
  | succ levels ih =>
    refine parseByFirst_fits ?_
    intro parse hparse
    obtain rfl := Option.some.inj hparse
    exact ⟨levels, rfl, ih⟩

theorem parse_fits {input : List UInt8} {v : Value F} (h : parse floats limits input = .ok v) :
    Fits floats limits (fun s => (Utf8.encode s).length ≤ limits.maxStringBytes) limits.maxDepth v := by
  rw [parse] at h
  split at h
  · cases h
  · split at h
    · cases h
    · split at h
      · cases h
      · dsimp only at h
        split at h
        · cases h
        · obtain ⟨⟨u, c⟩, hu, h⟩ := bind_eq_ok h
          dsimp only at h
          split at h
          · obtain rfl := Except.ok.inj h
            exact parseValue_fits _ _ _ _ hu
          · cases h

end Accepted

/-! ### Both forms -/

section Forms

variable {floats : FloatText F} {limits : Limits} {P : List Char → Prop} {levels : ℕ}

theorem Fits.printable (hfloats : ∀ f, floats.isFinite f = true → floats.Exact f) {v : Value F}
    (h : Fits floats limits P levels v) : v.Printable floats := by
  induction h with
  | null => exact fun f hf => by cases hf
  | bool b => exact fun f hf => by cases hf
  | int i => exact fun f hf => by cases hf
  | float hfinite =>
    intro f hf
    cases hf
    exact hfloats _ hfinite
  | string hs => exact fun f hf => by cases hf
  | array hlen hitems ih =>
    intro f hf
    cases hf with
    | item hv hin => exact ih _ hv f hin
  | object hlen hkeys hnames hentries ih =>
    intro f hf
    cases hf with
    | member he hin => exact ih _ he f hin

/-- Sorting keys changes nothing that is limited. -/
theorem Fits.sortKeys {v : Value F} (h : Fits floats limits P levels v) :
    Fits floats limits P levels v.sortKeys := by
  induction h with
  | null => exact .null
  | bool b => exact .bool b
  | int i => exact .int i
  | float hfinite => exact .float hfinite
  | string hs => exact .string hs
  | array hlen hitems ih =>
    rw [Value.sortKeys_array]
    refine .array (by rwa [length_map]) ?_
    intro u hu
    obtain ⟨v, hv, rfl⟩ := mem_map.1 hu
    exact ih v hv
  | @object levels entries hlen hkeys hnames hentries ih =>
    have hperm := Value.sortEntries_perm entries
    have hfst : (((Value.sortEntries entries).map fun e => (e.1, e.2.sortKeys)).map Prod.fst) =
        (Value.sortEntries entries).map Prod.fst := by
      rw [map_map]
      rfl
    rw [Value.sortKeys_object]
    refine .object ?_ ?_ ?_ ?_
    · rw [length_map, hperm.length_eq]
      exact hlen
    · intro hreject
      rw [hfst]
      exact (hperm.map Prod.fst).nodup_iff.2 (hkeys hreject)
    · intro e he
      obtain ⟨x, hx, rfl⟩ := mem_map.1 he
      exact hnames x (hperm.mem_iff.1 hx)
    · intro e he
      obtain ⟨x, hx, rfl⟩ := mem_map.1 he
      exact ih x (hperm.mem_iff.1 hx)

/-- How long the items are, a comma before each but the first. -/
theorem length_writeItems (i : ℕ) (items : List (Value F)) :
    (Utf8.encode (writeItems floats i items)).length =
      (items.map fun v => (Utf8.encode (writeValue floats v)).length).sum +
        (if 0 < i then items.length else items.length - 1) := by
  cases items with
  | nil => cases i <;> rfl
  | cons v items =>
    have hrest : (items.flatMap fun v => 0x2C :: Utf8.encode (writeValue floats v)).length =
        (items.map fun v => (Utf8.encode (writeValue floats v)).length).sum + items.length := by
      induction items with
      | nil => rfl
      | cons w items ih =>
        rw [flatMap_cons, length_append, ih, map_cons, sum_cons, length_cons, length_cons]
        omega
    rw [writeItems, Utf8.encode_append, Utf8.encode_append, writeItems_pos (Nat.succ_pos i),
      length_append, length_append, hrest, map_cons, sum_cons, length_cons]
    by_cases hi : 0 < i
    · rw [if_pos hi, if_pos hi]
      show 1 + _ + _ = _
      omega
    · rw [if_neg hi, if_neg hi]
      show 0 + _ + _ = _
      omega

/-- How long the members are, a comma before each but the first. -/
theorem length_writeEntries (entries : List (List Char × Value F)) :
    (Utf8.encode (writeEntries floats 0 entries)).length =
      (entries.map fun e => (entryText floats e).length).sum + (entries.length - 1) := by
  cases entries with
  | nil => rfl
  | cons e entries =>
    have hrest : (entries.flatMap fun e => 0x2C :: entryText floats e).length =
        (entries.map fun e => (entryText floats e).length).sum + entries.length := by
      induction entries with
      | nil => rfl
      | cons x entries ih =>
        rw [flatMap_cons, length_append, ih, map_cons, sum_cons, length_cons, length_cons]
        omega
    rw [encode_writeEntries, entriesText, length_append, hrest, map_cons, sum_cons, length_cons]
    omega

/-- **The canonical text is as long as the other one.** -/
theorem length_write_sortKeys (v : Value F) :
    (Utf8.encode (writeValue floats v.sortKeys)).length = (Utf8.encode (writeValue floats v)).length := by
  induction v using Value.induct with
  | null => rfl
  | bool b => rfl
  | number n => rfl
  | string s => rfl
  | array items ih =>
    have hsum : ((items.map Value.sortKeys).map fun v => (Utf8.encode (writeValue floats v)).length) =
        items.map fun v => (Utf8.encode (writeValue floats v)).length := by
      rw [map_map]
      exact map_congr_left ih
    rw [Value.sortKeys_array, writeValue, writeValue]
    simp only [Utf8.encode_append, length_append, length_writeItems, hsum, length_map]
  | object entries ih =>
    have hperm := Value.sortEntries_perm entries
    have hsum : ((((Value.sortEntries entries).map fun e => (e.1, e.2.sortKeys)).map fun e =>
        (entryText floats e).length)).sum = (entries.map fun e => (entryText floats e).length).sum := by
      rw [← (hperm.map fun e => (entryText floats e).length).sum_eq, map_map]
      refine congrArg List.sum (map_congr_left ?_)
      intro e he
      show (entryText floats (e.1, e.2.sortKeys)).length = _
      rw [entryText, entryText, length_append, length_append, length_cons, length_cons,
        ih e (hperm.mem_iff.1 he)]
    rw [Value.sortKeys_object, writeValue, writeValue]
    simp only [Utf8.encode_append, length_append, length_writeEntries, hsum, length_map,
      hperm.length_eq]

/-- A value that fits is read back from both forms. -/
theorem forms_read_back (hfloats : ∀ f, floats.isFinite f = true → floats.Exact f) {v : Value F}
    (hfits : Fits floats limits (StringFits limits.maxStringBytes) limits.maxDepth v)
    (htext : (Utf8.encode (toString floats v)).length ≤ limits.maxInputBytes) :
    parse floats limits (Utf8.encode (toString floats v)) = .ok v ∧
      parse floats limits (Utf8.encode (toCanonicalString floats v)) = .ok v.sortKeys := by
  refine ⟨(parse_gives (hfits.printable hfloats)).eq_ok ⟨htext, hfits⟩, ?_⟩
  refine (parse_gives (hfits.sortKeys.printable hfloats)).eq_ok ⟨?_, hfits.sortKeys⟩
  rw [length_write_sortKeys]
  exact htext

end Forms

/-- A string whose whole escaped form fits. -/
theorem writtenFits_of_length {max : ℕ} {s : List Char} (h : (Utf8.encode (escape s)).length ≤ max) :
    WrittenFits max s := by
  rintro p ch t rfl -
  have hsplit : p ++ ch :: t = (p ++ [ch]) ++ t := by simp
  rw [hsplit, escape, flatMap_append, Utf8.encode_append, length_append] at h
  exact le_trans (Nat.le_add_right _ _) h

/-- **Values survive the text.**  A value within the limits is read back from its text and, with its
keys sorted, from its canonical text; and so is a value that was accepted.  The text has to be within
the limit on input, and the strings within the limit as they are written. -/
theorem values_round_trip (floats : FloatText F)
    (hfloats : ∀ f, floats.isFinite f = true → floats.Exact f) (limits : Limits) :
    (∀ v : Value F,
      Fits floats limits (fun s => (Utf8.encode s).length ≤ limits.maxStringBytes) limits.maxDepth v →
      (∀ s, HasString s v → WrittenFits limits.maxStringBytes s) →
      (Utf8.encode (toString floats v)).length ≤ limits.maxInputBytes →
      parse floats limits (Utf8.encode (toString floats v)) = .ok v ∧
        parse floats limits (Utf8.encode (toCanonicalString floats v)) = .ok v.sortKeys) ∧
    ∀ (input : List UInt8) (v : Value F), parse floats limits input = .ok v →
      (∀ s, HasString s v → WrittenFits limits.maxStringBytes s) →
      (Utf8.encode (toString floats v)).length ≤ limits.maxInputBytes →
      parse floats limits (Utf8.encode (toString floats v)) = .ok v ∧
        parse floats limits (Utf8.encode (toCanonicalString floats v)) = .ok v.sortKeys := by
  constructor
  · intro v hfits hwritten htext
    exact forms_read_back hfloats (hfits.and hwritten) htext
  · intro input v hparse hwritten htext
    exact forms_read_back hfloats ((parse_fits hparse).and hwritten) htext

/-- One float, which is printed and read as the standard library does. -/
def oneAndAHalf : FloatText Unit :=
  ⟨fun _ => ['1', '.', '5'], fun text => if text = ['1', '.', '5'] then some () else none, fun _ => true⟩

theorem oneAndAHalf_exact (f : Unit) : oneAndAHalf.Exact f := by
  refine ⟨rfl, ⟨⟨false, [1], [5], none⟩, ⟨?_, ?_, ?_, ?_⟩, rfl, rfl⟩, rfl⟩
  · exact .inr ⟨1, [], rfl, by decide⟩
  · simp
  · simp
  · simp

/-- Members out of order, an escaped string and a float. -/
def sampleValue : Value Unit :=
  .object [(['b'], .array [.string ['a', '\n', Char.ofNat 0x2028], .number (.int (-7))]),
    (['a'], .number (.float ()))]

theorem sample_value_round_trips :
    parse oneAndAHalf .default (Utf8.encode (toString oneAndAHalf sampleValue)) = .ok sampleValue ∧
      parse oneAndAHalf .default (Utf8.encode (toCanonicalString oneAndAHalf sampleValue)) =
        .ok sampleValue.sortKeys := by
  have hstrings : ∀ s, HasString s sampleValue →
      s ∈ [['a', '\n', Char.ofNat 0x2028], ['b'], ['a']] := by
    rintro s (hs | ⟨entries, hs, hkey⟩)
    · cases hs with
      | member he hin =>
        fin_cases he
        · cases hin with
          | item hv hin =>
            fin_cases hv <;> cases hin
            simp
        · cases hin
    · cases hs with
      | self =>
        fin_cases hkey <;> simp
      | member he hin =>
        fin_cases he
        · cases hin with
          | item hv hin => fin_cases hv <;> cases hin
        · cases hin
  refine (values_round_trip oneAndAHalf (fun f _ => oneAndAHalf_exact f) .default).1 sampleValue ?_ ?_ ?_
  · refine .object (by decide) (by decide) (by decide +kernel) ?_
    intro e he
    fin_cases he
    · refine .array (by decide) ?_
      intro v hv
      fin_cases hv
      · exact .string (by decide +kernel)
      · exact .int _
    · exact .float rfl
  · intro s hs
    refine writtenFits_of_length ?_
    have hmem := hstrings s hs
    fin_cases hmem <;> decide +kernel
  · decide +kernel

/-- A text that is accepted may be written back longer than it was, for a line separator is written
as an escape; where it was as long as the limit allows, it is then refused. -/
theorem rewritten_text_refused :
    ∃ (limits : Limits) (input : List UInt8) (v : Value Unit),
      parse oneAndAHalf limits input = .ok v ∧
        parse oneAndAHalf limits (Utf8.encode (toString oneAndAHalf v)) = .error ⟨.inputTooLarge, 0⟩ :=
  ⟨{ Limits.default with maxInputBytes := 5 }, Utf8.encode ['"', Char.ofNat 0x2028, '"'],
    .string [Char.ofNat 0x2028], rfl, rfl⟩

end HypeLlm.Json
