import HypeLlm.Json.ReadBack

/-!
# String literals

A string literal by its grammar: characters that stand for themselves and escapes, in any mixture.
Which literals the parser accepts is decided by two lengths, that of the text and that of the
spelling up to the last character that stands for itself.

* `parseString_decides` — the literals that are accepted, with the text and the place after;
* `decoded_limit_iff` — where the limit is one on the text alone, as it is documented.
-/

namespace HypeLlm.Json

open List

/-! ### The grammar -/

/-- The characters with an escape of one byte. -/
def shortEscapes : List (UInt8 × Char) :=
  [(0x22, '"'), (0x5C, '\\'), (0x2F, '/'), (0x62, Char.ofNat 0x08), (0x66, Char.ofNat 0x0C),
    (0x6E, '\n'), (0x72, '\r'), (0x74, '\t')]

/-- Four hexadecimal digits and the number they write. -/
inductive Hex4 : List UInt8 → ℕ → Prop
  | digits {a b c d : UInt8} {i j k l : ℕ} (ha : hexDigit a = some i) (hb : hexDigit b = some j)
      (hc : hexDigit c = some k) (hd : hexDigit d = some l) :
      Hex4 [a, b, c, d] (((i * 16 + j) * 16 + k) * 16 + l)

/-- What may follow a backslash, and the character it stands for. -/
inductive Spells : List UInt8 → Char → Prop
  | short {b : UInt8} {ch : Char} (h : (b, ch) ∈ shortEscapes) : Spells [b] ch
  | unicode {digits : List UInt8} {ch : Char} (h : Hex4 digits ch.toNat) : Spells (0x75 :: digits) ch
  /-- A character in two halves. -/
  | pair {high low : List UInt8} {v w : ℕ} {ch : Char} (hhigh : Hex4 high v) (hlow : Hex4 low w)
      (hv : 0xD800 ≤ v ∧ v < 0xDC00) (hw : 0xDC00 ≤ w ∧ w < 0xE000)
      (hch : ch.toNat = 0x10000 + (v - 0xD800) * 0x400 + (w - 0xDC00)) :
      Spells (0x75 :: (high ++ 0x5C :: 0x75 :: low)) ch

inductive Piece where
  | raw (ch : Char)
  | escape (spelling : List UInt8) (ch : Char)

namespace Piece

def char : Piece → Char
  | .raw ch => ch
  | .escape _ ch => ch

def source : Piece → List UInt8
  | .raw ch => Utf8.encodeChar ch
  | .escape spelling _ => 0x5C :: spelling

def WellFormed : Piece → Prop
  | .raw ch => ch ≠ '"' ∧ ch ≠ '\\' ∧ 0x20 ≤ ch.toNat
  | .escape spelling ch => Spells spelling ch

end Piece

/-- What is between the quotes. -/
def spelling (pieces : List Piece) : List UInt8 := pieces.flatMap Piece.source

/-- The text a literal stands for. -/
def textOf (pieces : List Piece) : List Char := pieces.map Piece.char

@[simp] theorem spelling_append (p q : List Piece) : spelling (p ++ q) = spelling p ++ spelling q :=
  flatMap_append

@[simp] theorem textOf_append (p q : List Piece) : textOf (p ++ q) = textOf p ++ textOf q :=
  map_append

/-- The bytes of the text. -/
def decodedLength (pieces : List Piece) : ℕ := (Utf8.encode (textOf pieces)).length

/-- Every character that stands for itself ends within `max` bytes of the opening quote, as the
literal is spelt. -/
def RawWithin (max : ℕ) (pieces : List Piece) : Prop :=
  ∀ p ch t, pieces = p ++ .raw ch :: t → (spelling (p ++ [Piece.raw ch])).length ≤ max

/-! ### Escapes are read -/

theorem parseHex4_of_hex4 {digits : List UInt8} {v : ℕ} (h : Hex4 digits v) (pos : ℕ)
    (rest : List UInt8) :
    parseHex4 ⟨pos, digits ++ rest⟩ = .ok (v, ⟨pos + digits.length, rest⟩) := by
  obtain ⟨ha, hb, hc, hd⟩ := h
  simp [parseHex4, parseHex, Cursor.peek, Cursor.advance, ha, hb, hc, hd]
  omega

theorem charFromU32_toNat (ch : Char) : charFromU32 ch.toNat = some ch := by
  have hvalid : ch.toNat.isValidChar := ch.valid
  rw [charFromU32, if_pos hvalid, Char.ofNat_toNat]

/-- No character is a half of one. -/
theorem toNat_not_surrogate (ch : Char) : ch.toNat < 0xD800 ∨ 0xE000 ≤ ch.toNat := by
  rcases ch.valid with h | h
  · exact .inl h
  · exact .inr (Nat.le_of_lt_succ (Nat.succ_lt_succ h.1))

/-- The four digits after `\u`. -/
theorem parseUnicodeEscape_char {c after : Cursor} {v : ℕ} {ch : Char}
    (hread : parseHex4 c = .ok (v, after)) (hv : v < 0xD800 ∨ 0xE000 ≤ v)
    (hch : charFromU32 v = some ch) : parseUnicodeEscape c = .ok (ch, after) := by
  have hhigh : ¬(0xD800 ≤ v ∧ v < 0xDC00) := by omega
  have hlow : ¬(0xDC00 ≤ v ∧ v < 0xE000) := by omega
  rw [parseUnicodeEscape, hread]
  show (if _ then _ else _) = _
  rw [if_neg hhigh, if_neg hlow, hch]

/-- Two halves of a character. -/
theorem parseUnicodeEscape_pair {high low : List UInt8} {v w : ℕ} {ch : Char} (hhigh : Hex4 high v)
    (hlow : Hex4 low w) (hv : 0xD800 ≤ v ∧ v < 0xDC00) (hw : 0xDC00 ≤ w ∧ w < 0xE000)
    (hch : ch.toNat = 0x10000 + (v - 0xD800) * 0x400 + (w - 0xDC00)) (pos : ℕ)
    (rest : List UInt8) :
    parseUnicodeEscape ⟨pos, high ++ 0x5C :: 0x75 :: (low ++ rest)⟩ =
      .ok (ch, ⟨pos + high.length + 1 + 1 + low.length, rest⟩) := by
  have hlow' := parseHex4_of_hex4 hlow (pos + high.length + 1 + 1) rest
  unfold parseUnicodeEscape
  simp only [parseHex4_of_hex4 hhigh, bind, Except.bind, if_pos hv, Cursor.peek, head?_cons, ne_eq,
    not_true_eq_false, if_false, Cursor.advance, drop_succ_cons, drop_zero, hlow',
    if_neg (not_not.2 hw), ← hch, charFromU32_toNat]

theorem parseEscape_spells {bytes : List UInt8} {ch : Char} (h : Spells bytes ch) (pos : ℕ)
    (rest : List UInt8) :
    parseEscape ⟨pos, bytes ++ rest⟩ = .ok (ch, ⟨pos + bytes.length, rest⟩) := by
  have hu : ∀ bytes, parseEscape ⟨pos, 0x75 :: bytes⟩ = parseUnicodeEscape ⟨pos + 1, bytes⟩ :=
    fun bytes => rfl
  cases h with
  | @short b _ h =>
    have hshort : ∀ e ∈ shortEscapes, e.1 ≠ 0x75 ∧ shortEscape e.1 = some e.2 := by decide
    obtain ⟨hne, hescape⟩ := hshort _ h
    simp only [parseEscape, Cursor.peek, singleton_append, head?_cons, if_neg hne, hescape]
    rfl
  | @unicode digits _ h =>
    have hlen : pos + (digits.length + 1) = pos + 1 + digits.length := by omega
    rw [cons_append, hu, length_cons, hlen]
    exact parseUnicodeEscape_char (parseHex4_of_hex4 h _ _) (toNat_not_surrogate ch)
      (charFromU32_toNat ch)
  | @pair high low v w _ hhigh hlow hv hw hch =>
    have hlen : pos + (0x75 :: (high ++ 0x5C :: 0x75 :: low)).length =
        pos + 1 + high.length + 1 + 1 + low.length := by
      simp only [length_cons, length_append]
      omega
    rw [hlen, cons_append, append_assoc, cons_append, cons_append, hu,
      parseUnicodeEscape_pair hhigh hlow hv hw hch]

/-! ### The loop over a literal -/

section Decides

variable {ε α : Type} {fits q bad : Prop} {r : Except ε α} {x : α}

/-- The result is `x` where `fits` holds, and an error where it does not. -/
def Decides (fits : Prop) (r : Except ε α) (x : α) : Prop :=
  (fits ∧ r = .ok x) ∨ (¬fits ∧ ∃ e, r = .error e)

/-- A check, and then what decides the rest. -/
theorem Decides.check [Decidable bad] (h : Decides q r x) (hfits : fits ↔ ¬bad ∧ q) (e : ε) :
    Decides fits (if bad then .error e else r) x := by
  by_cases hbad : bad
  · rw [if_pos hbad]
    exact .inr ⟨fun hf => (hfits.1 hf).1 hbad, e, rfl⟩
  · rw [if_neg hbad]
    rcases h with ⟨hq, h⟩ | ⟨hq, h⟩
    · exact .inl ⟨hfits.2 ⟨hbad, hq⟩, h⟩
    · exact .inr ⟨fun hf => hq (hfits.1 hf).2, h⟩

theorem Decides.ok_iff (h : Decides fits r x) : (∃ y, r = .ok y) ↔ fits := by
  rcases h with ⟨hf, rfl⟩ | ⟨hf, e, rfl⟩
  · exact ⟨fun _ => hf, fun _ => ⟨x, rfl⟩⟩
  · constructor
    · rintro ⟨y, h⟩
      cases h
    · intro h
      exact absurd h hf

end Decides

section Loop

variable {limits : Limits} {start : Cursor} {fits q : Prop} {x : List Char × Cursor}

/-- From `c` on the loop over a string is decided by `fits`. -/
def LoopDecides (limits : Limits) (start : Cursor) (fits : Prop) (out : Option (List Char))
    (c : Cursor) (x : List Char × Cursor) : Prop :=
  ∀ fuel, c.rest.length < fuel → Decides fits (stringLoop limits start fuel out c) x

/-- Bytes that stand for themselves, before an escape was seen: it is the last of them that
counts. -/
theorem LoopDecides.bytes {b : UInt8} {bs : List UInt8} (hbs : ∀ y ∈ b :: bs, PlainByte y) {pos : ℕ}
    {rest : List UInt8} (h : LoopDecides limits start q none ⟨pos + (b :: bs).length, rest⟩ x)
    (hfits : fits ↔ pos + (b :: bs).length - start.pos ≤ limits.maxStringBytes ∧ q) :
    LoopDecides limits start fits none ⟨pos, b :: bs ++ rest⟩ x := by
  induction bs generalizing b pos fits with
  | nil =>
    intro fuel hfuel
    obtain ⟨fuel, rfl⟩ := Nat.exists_eq_succ_of_ne_zero (Nat.ne_of_gt (Nat.zero_lt_of_lt hfuel))
    rw [singleton_append, stringLoop_byte (hbs b mem_cons_self)]
    exact (h fuel (Nat.lt_of_succ_lt_succ hfuel)).check (hfits.trans (by rw [not_lt]; rfl)) _
  | cons next bs ih =>
    intro fuel hfuel
    obtain ⟨fuel, rfl⟩ := Nat.exists_eq_succ_of_ne_zero (Nat.ne_of_gt (Nat.zero_lt_of_lt hfuel))
    rw [cons_append, stringLoop_byte (hbs b mem_cons_self)]
    have hlen : pos + (b :: next :: bs).length = pos + 1 + (next :: bs).length := by
      simp only [length_cons]
      omega
    rw [hlen] at h hfits
    have hrest := ih (fun y hy => hbs y (mem_cons_of_mem b hy)) h Iff.rfl
    refine (hrest fuel (Nat.lt_of_succ_lt_succ hfuel)).check (hfits.trans ?_) _
    rw [not_lt]
    exact ⟨fun hf => ⟨by omega, hf⟩, fun hf => hf.2⟩

/-- A character that stands for itself, after an escape was seen. -/
theorem LoopDecides.char {ch : Char} (hplain : ∀ b ∈ Utf8.encodeChar ch, PlainByte b)
    {s : List Char} {pos : ℕ} {rest : List UInt8}
    (h : LoopDecides limits start q (some (s ++ [ch])) ⟨pos + (Utf8.encodeChar ch).length, rest⟩ x)
    (hfits : fits ↔ pos + (Utf8.encodeChar ch).length - start.pos ≤ limits.maxStringBytes ∧ q) :
    LoopDecides limits start fits (some s) ⟨pos, Utf8.encodeChar ch ++ rest⟩ x := by
  intro fuel hfuel
  obtain ⟨fuel, rfl⟩ := Nat.exists_eq_succ_of_ne_zero (Nat.ne_of_gt (Nat.zero_lt_of_lt hfuel))
  rw [stringLoop_char hplain]
  refine (h fuel ?_).check (hfits.trans (by rw [not_lt])) _
  have hpos := Utf8.length_encodeChar_pos ch
  simp only [length_append] at hfuel ⊢
  omega

/-- An escape: what was read before it has to fit. -/
theorem LoopDecides.escape {out : Option (List Char)} {buf : List Char} {ch : Char} {pos : ℕ}
    {bytes rest : List UInt8}
    (htext : textSince start ⟨pos, 0x5C :: (bytes ++ rest)⟩ out = .ok buf)
    (hesc : parseEscape ⟨pos + 1, bytes ++ rest⟩ = .ok (ch, ⟨pos + 1 + bytes.length, rest⟩))
    (h : LoopDecides limits start q (some (buf ++ [ch])) ⟨pos + 1 + bytes.length, rest⟩ x)
    (hfits : fits ↔ (Utf8.encode buf).length ≤ limits.maxStringBytes ∧ q) :
    LoopDecides limits start fits out ⟨pos, 0x5C :: (bytes ++ rest)⟩ x := by
  intro fuel hfuel
  obtain ⟨fuel, rfl⟩ := Nat.exists_eq_succ_of_ne_zero (Nat.ne_of_gt (Nat.zero_lt_of_lt hfuel))
  have hrest : rest.length < fuel := by
    simp only [length_cons, length_append] at hfuel
    omega
  rw [stringLoop_escape htext hesc]
  exact (h fuel hrest).check (hfits.trans (by rw [not_lt])) _

theorem LoopDecides.close {out : Option (List Char)} {s : List Char} {pos : ℕ} {rest : List UInt8}
    (htext : textSince start ⟨pos, 0x22 :: rest⟩ out = .ok s)
    (hfits : fits ↔ (Utf8.encode s).length ≤ limits.maxStringBytes) :
    LoopDecides limits start fits out ⟨pos, 0x22 :: rest⟩ (s, ⟨pos + 1, rest⟩) := by
  intro fuel hfuel
  obtain ⟨fuel, rfl⟩ := Nat.exists_eq_succ_of_ne_zero (Nat.ne_of_gt (Nat.zero_lt_of_lt hfuel))
  rw [stringLoop_close htext]
  exact Decides.check (q := True) (.inl ⟨trivial, rfl⟩) (by rw [hfits, not_lt, and_true]) _

/-- The loop has read the pieces `p` when it is at `c`: with an escape among them, or as the bytes
since `start`. -/
structure Spelt (start : Cursor) (p : List Piece) (out : Option (List Char)) (c : Cursor) : Prop where
  pos : c.pos = start.pos + (spelling p).length
  text : out = some (textOf p) ∨
    out = none ∧ spelling p = Utf8.encode (textOf p) ∧ start.rest = spelling p ++ c.rest

theorem Spelt.textSince_eq {p : List Piece} {out : Option (List Char)} {c : Cursor}
    (h : Spelt start p out c) : textSince start c out = .ok (textOf p) := by
  rcases h.text with rfl | ⟨rfl, hraw, hrest⟩
  · rfl
  · have hspan : start.span c = Utf8.encode (textOf p) := by
      rw [Cursor.span, h.pos, Nat.add_sub_cancel_left, hrest, take_left, hraw]
    rw [textSince, hspan, Utf8.decode_encode]

/-- What is still to be read fits after `p`. -/
def FitsAfter (max : ℕ) (p t : List Piece) : Prop :=
  decodedLength (p ++ t) ≤ max ∧
    ∀ t₁ ch t₂, t = t₁ ++ .raw ch :: t₂ → (spelling (p ++ t₁ ++ [Piece.raw ch])).length ≤ max

theorem fitsAfter_nil {max : ℕ} {p : List Piece} : FitsAfter max p [] ↔ decodedLength p ≤ max := by
  simp [FitsAfter]

/-- A piece read is a piece before. -/
theorem fitsAfter_move {max : ℕ} {p t : List Piece} {piece : Piece} :
    FitsAfter max p (piece :: t) ↔
      (∀ ch, piece = .raw ch → (spelling (p ++ [piece])).length ≤ max) ∧
        FitsAfter max (p ++ [piece]) t := by
  have hmove : p ++ piece :: t = (p ++ [piece]) ++ t := by simp
  unfold FitsAfter
  rw [hmove]
  constructor
  · rintro ⟨hlen, hraw⟩
    refine ⟨fun ch hch => ?_, hlen, fun t₁ ch t₂ ht => ?_⟩
    · have hfirst := hraw [] ch t (by rw [hch]; rfl)
      rwa [append_nil, ← hch] at hfirst
    · have hlater := hraw (piece :: t₁) ch t₂ (by rw [ht]; rfl)
      rwa [show p ++ [piece] ++ t₁ = p ++ piece :: t₁ by simp]
  · rintro ⟨hfirst, hlen, hraw⟩
    refine ⟨hlen, fun t₁ ch t₂ ht => ?_⟩
    cases t₁ with
    | nil =>
      obtain ⟨hpiece, -⟩ := cons.inj ht
      rw [append_nil, ← hpiece]
      exact hfirst ch hpiece
    | cons piece' t₁ =>
      obtain ⟨rfl, hrest⟩ := cons.inj ht
      rw [show p ++ piece :: t₁ = p ++ [piece] ++ t₁ by simp]
      exact hraw t₁ ch t₂ hrest

/-- What fits as a whole fits as far as it was read. -/
theorem FitsAfter.read {max : ℕ} {p t : List Piece} (h : FitsAfter max p t) :
    decodedLength p ≤ max := by
  have hlen := h.1
  rw [decodedLength, textOf_append, Utf8.encode_append, length_append] at hlen
  exact le_trans (Nat.le_add_right _ _) hlen

theorem spelling_concat (p : List Piece) (piece : Piece) :
    spelling (p ++ [piece]) = spelling p ++ piece.source := by
  rw [spelling_append, spelling, spelling, flatMap_singleton]

/-- **The loop over a literal**, from wherever it is. -/
theorem loop_decides (t : List Piece) (ht : ∀ piece ∈ t, piece.WellFormed) {p : List Piece}
    {out : Option (List Char)} {pos : ℕ} {rest : List UInt8}
    (h : Spelt start p out ⟨pos, spelling t ++ 0x22 :: rest⟩) :
    LoopDecides limits start (FitsAfter limits.maxStringBytes p t) out
      ⟨pos, spelling t ++ 0x22 :: rest⟩
      (textOf (p ++ t), ⟨pos + (spelling t).length + 1, rest⟩) := by
  induction t generalizing p out pos with
  | nil =>
    rw [append_nil]
    exact LoopDecides.close h.textSince_eq fitsAfter_nil
  | cons piece t ih =>
    have hpos : pos = start.pos + (spelling p).length := h.pos
    have hsplit : spelling (piece :: t) = piece.source ++ spelling t := flatMap_cons
    have hmove : p ++ piece :: t = (p ++ [piece]) ++ t := by simp
    have hnext : start.pos + (spelling (p ++ [piece])).length = pos + piece.source.length := by
      rw [spelling_concat, length_append]
      omega
    have hlen : pos + (spelling (piece :: t)).length + 1 =
        pos + piece.source.length + (spelling t).length + 1 := by
      rw [hsplit, length_append]
      omega
    have hrest := @ih fun y hy => ht y (mem_cons_of_mem piece hy)
    have htext := h.text
    have hread := h.textSince_eq
    rw [hlen, hmove]
    rw [hsplit, append_assoc] at htext hread ⊢
    cases piece with
    | raw ch =>
      obtain ⟨hquote, hslash, hlow⟩ := ht (.raw ch) mem_cons_self
      have hplain : ∀ b ∈ Utf8.encodeChar ch, PlainByte b :=
        fun b hb => plainByte_of_mem hquote hslash hlow hb
      have hfits : FitsAfter limits.maxStringBytes p (.raw ch :: t) ↔
          pos + (Utf8.encodeChar ch).length - start.pos ≤ limits.maxStringBytes ∧
            FitsAfter limits.maxStringBytes (p ++ [Piece.raw ch]) t := by
        rw [fitsAfter_move]
        refine and_congr_left fun _ => ?_
        have hspan : (spelling (p ++ [Piece.raw ch])).length =
            pos + (Utf8.encodeChar ch).length - start.pos := by
          rw [Piece.source] at hnext
          omega
        rw [← hspan]
        exact ⟨fun hf => hf ch rfl, fun hf _ _ => hf⟩
      rcases htext with rfl | ⟨rfl, hraw, hbytes⟩
      · refine LoopDecides.char hplain (hrest ⟨hnext.symm, .inl ?_⟩) hfits
        rw [textOf_append]
        rfl
      · obtain ⟨b, bs, hencode⟩ := exists_cons_of_ne_nil (Utf8.encodeChar_ne_nil ch)
        have hspelt : Spelt start (p ++ [Piece.raw ch]) none
            ⟨pos + (Utf8.encodeChar ch).length, spelling t ++ 0x22 :: rest⟩ := by
          refine ⟨hnext.symm, .inr ⟨rfl, ?_, ?_⟩⟩
          · rw [spelling_concat, hraw, textOf_append, Utf8.encode_append]
            simp [textOf, Piece.source, Piece.char]
          · rw [hbytes, spelling_concat, append_assoc]
        rw [hencode] at hplain hfits hspelt
        rw [Piece.source, hencode]
        exact LoopDecides.bytes hplain (hrest hspelt) hfits
    | escape bytes ch =>
      have hspells : Spells bytes ch := ht (.escape bytes ch) mem_cons_self
      have hplace : pos + (Piece.escape bytes ch).source.length = pos + 1 + bytes.length := by
        rw [Piece.source, length_cons]
        omega
      rw [hplace] at hnext ⊢
      refine LoopDecides.escape hread (parseEscape_spells hspells _ _)
        (hrest ⟨hnext.symm, .inl ?_⟩) ?_
      · rw [textOf_append]
        rfl
      · rw [fitsAfter_move]
        constructor
        · rintro ⟨-, hf⟩
          have hread := hf.read
          refine ⟨?_, hf⟩
          rw [decodedLength, textOf_append, Utf8.encode_append, length_append] at hread
          exact le_trans (Nat.le_add_right _ _) hread
        · rintro ⟨-, hf⟩
          exact ⟨(fun _ hch => nomatch hch), hf⟩

end Loop

/-! ### The limit -/

/-- A literal with its quotes. -/
def literal (pieces : List Piece) : List UInt8 := 0x22 :: (spelling pieces ++ [0x22])

/-- **Which literals are accepted**, as a value or as a key: those whose text fits, and whose spelling
fits up to its last character that stands for itself. -/
theorem parseString_decides (limits : Limits) {pieces : List Piece}
    (hwell : ∀ piece ∈ pieces, piece.WellFormed) (pos : ℕ) (rest : List UInt8) :
    Decides (decodedLength pieces ≤ limits.maxStringBytes ∧ RawWithin limits.maxStringBytes pieces)
      (parseString limits ⟨pos, literal pieces ++ rest⟩)
      (textOf pieces, ⟨pos + (literal pieces).length, rest⟩) := by
  have hbytes : literal pieces ++ rest = 0x22 :: (spelling pieces ++ 0x22 :: rest) := by
    simp [literal]
  have hlen : pos + (literal pieces).length = pos + 1 + (spelling pieces).length + 1 := by
    simp only [literal, length_cons, length_append, length_nil]
    omega
  have hspelt : Spelt ⟨pos + 1, spelling pieces ++ 0x22 :: rest⟩ [] none
      ⟨pos + 1, spelling pieces ++ 0x22 :: rest⟩ := ⟨rfl, .inr ⟨rfl, rfl, rfl⟩⟩
  rw [hbytes, hlen]
  exact loop_decides pieces hwell hspelt _ (Nat.lt_succ_self _)

/-- **Exactly where the limit is one on the decoded length.**  A literal that is otherwise well formed
is accepted if and only if its text fits, when its text does not fit or every character that stands
for itself ends within the limit as the literal is spelt; and not otherwise. -/
theorem decoded_limit_iff (limits : Limits) {pieces : List Piece}
    (hwell : ∀ piece ∈ pieces, piece.WellFormed) (pos : ℕ) (rest : List UInt8) :
    ((∃ read, parseString limits ⟨pos, literal pieces ++ rest⟩ = .ok read) ↔
        decodedLength pieces ≤ limits.maxStringBytes) ↔
      (decodedLength pieces ≤ limits.maxStringBytes → RawWithin limits.maxStringBytes pieces) := by
  rw [(parseString_decides limits hwell pos rest).ok_iff, and_iff_left_iff_imp]

namespace Sample

def twoBytes : Limits := { Limits.default with maxStringBytes := 2 }

/-- `"\u0061b"`. -/
def escapedFirst : List Piece := [.escape [0x75, 0x30, 0x30, 0x36, 0x31] 'a', .raw 'b']

/-- `"a\u0062"`. -/
def escapedLast : List Piece := [.raw 'a', .escape [0x75, 0x30, 0x30, 0x36, 0x32] 'b']

theorem escapedFirst_wellFormed : ∀ piece ∈ escapedFirst, piece.WellFormed := by
  have hdigits : Hex4 [0x30, 0x30, 0x36, 0x31] 'a'.toNat :=
    .digits (i := 0) (j := 0) (k := 6) (l := 1) rfl rfl rfl rfl
  have hescape : Spells [0x75, 0x30, 0x30, 0x36, 0x31] 'a' := .unicode hdigits
  simp only [escapedFirst, mem_cons, not_mem_nil, or_false, forall_eq_or_imp, forall_eq]
  exact ⟨hescape, by simp only [Piece.WellFormed]; decide⟩

/-- The limit is one on the spelling of this literal, which is refused. -/
theorem escapedFirst_limit :
    ((∃ read, parseString twoBytes ⟨0, literal escapedFirst ++ []⟩ = .ok read) ↔
        decodedLength escapedFirst ≤ twoBytes.maxStringBytes) ↔
      (decodedLength escapedFirst ≤ twoBytes.maxStringBytes →
        RawWithin twoBytes.maxStringBytes escapedFirst) :=
  decoded_limit_iff twoBytes escapedFirst_wellFormed 0 []

/-- **Two spellings of one text of two bytes: at a limit of two bytes the one is accepted, and the
other is too long.** -/
theorem limit_not_on_decoded_length :
    textOf escapedFirst = textOf escapedLast ∧
      decodedLength escapedFirst ≤ twoBytes.maxStringBytes ∧
      parseString twoBytes ⟨0, literal escapedLast⟩ = .ok (['a', 'b'], ⟨9, []⟩) ∧
      parseString twoBytes ⟨0, literal escapedFirst⟩ = .error ⟨.stringTooLong, 8⟩ := by
  decide +kernel

end Sample

end HypeLlm.Json
