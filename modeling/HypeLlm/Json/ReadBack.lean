import HypeLlm.Json.Parse

/-!
# What is written is read back

The text of a value, with anything a value may be followed by after it, is parsed to that value and
leaves what followed; or it is refused, and then only because the value does not fit the limits.  One
lemma says so for each function of the parser.
-/

namespace HypeLlm.Json

open List

/-! ### Results that are right or refused -/

section Gives

variable {ε α β : Type} {fits q : Prop} {r : Except ε α} {x y : α}

/-- The result is `x`, or an error where `fits` does not hold. -/
def Gives (fits : Prop) (r : Except ε α) (x : α) : Prop :=
  r = .ok x ∨ ¬ fits ∧ ∃ e, r = .error e

theorem Gives.ok (x : α) : Gives fits (.ok x : Except ε α) x := .inl rfl

theorem Gives.error (h : ¬ fits) (e : ε) (x : α) : Gives fits (.error e) x := .inr ⟨h, e, rfl⟩

theorem Gives.mono (h : Gives fits r x) (himp : q → fits) : Gives q r x := by
  rcases h with h | ⟨hnot, herror⟩
  · exact .inl h
  · exact .inr ⟨mt himp hnot, herror⟩

theorem Gives.bind {f : α → Except ε β} {z : β} (h : Gives fits r x) (hf : Gives q (f x) z) :
    Gives (fits ∧ q) (r >>= f) z := by
  rcases h with rfl | ⟨hnot, e, rfl⟩
  · exact hf.mono And.right
  · exact .inr ⟨fun hboth => hnot hboth.1, e, rfl⟩

/-- A check that fails only where `fits` does not hold. -/
theorem Gives.check {bad : Prop} [Decidable bad] (h : Gives fits r x) (hbad : fits → ¬ bad) (e : ε) :
    Gives fits (if bad then .error e else r) x := by
  by_cases hb : bad
  · rw [if_pos hb]
    exact .error (fun hfits => hbad hfits hb) e x
  · rw [if_neg hb]
    exact h

theorem Gives.eq_ok (h : Gives fits r x) (hfits : fits) : r = .ok x := by
  rcases h with h | ⟨hnot, -⟩
  · exact h
  · exact absurd hfits hnot

theorem Gives.eq (h : Gives fits r x) (hr : r = .ok y) : y = x := by
  rcases h with h | ⟨-, e, h⟩
  · rw [h] at hr
    exact (Except.ok.inj hr).symm
  · rw [h] at hr
    cases hr

end Gives

/-! ### Going forward -/

namespace Cursor

theorem advance_append (pos : ℕ) (bytes rest : List UInt8) :
    (Cursor.mk pos (bytes ++ rest)).advance bytes.length = ⟨pos + bytes.length, rest⟩ := by
  rw [advance, drop_left]

theorem skipWs_eq {c : Cursor} (h : ∀ b, c.rest.head? = some b → isWs b = false) : c.skipWs = c := by
  have hnone : c.rest.takeWhile isWs = [] := by
    cases hrest : c.rest with
    | nil => rfl
    | cons b bytes =>
      have hb := h b (by rw [hrest]; rfl)
      rw [takeWhile_cons_of_neg (by simp [hb])]
  rw [skipWs, hnone]
  rfl

end Cursor

/-! ### Escapes -/

theorem hexDigit_hexChar {d : ℕ} (h : d < 16) :
    ∃ b, Utf8.encode [hexChar d] = [b] ∧ hexDigit b = some d := by
  interval_cases d <;> exact ⟨_, rfl, rfl⟩

theorem parseHex_cons {n v d pos : ℕ} (hd : d < 16) (rest : List UInt8) :
    parseHex (n + 1) v ⟨pos, Utf8.encode [hexChar d] ++ rest⟩ =
      parseHex n (16 * v + d) ⟨pos + 1, rest⟩ := by
  obtain ⟨b, hb, hdigit⟩ := hexDigit_hexChar hd
  rw [hb, singleton_append, parseHex]
  simp only [Cursor.peek, head?_cons, hdigit]
  rfl

/-- Four digits are read back. -/
theorem parseHex4_hex4 {v : ℕ} (h : v < 65536) (pos : ℕ) (rest : List UInt8) :
    parseHex4 ⟨pos, Utf8.encode (hex4 v) ++ rest⟩ = .ok (v, ⟨pos + 4, rest⟩) := by
  have hsplit : Utf8.encode (hex4 v) ++ rest =
      Utf8.encode [hexChar (v / 4096 % 16)] ++ (Utf8.encode [hexChar (v / 256 % 16)] ++
        (Utf8.encode [hexChar (v / 16 % 16)] ++ (Utf8.encode [hexChar (v / 1 % 16)] ++ rest))) := by
    simp [hex4]
  rw [hsplit, parseHex4, parseHex_cons (by omega), parseHex_cons (by omega),
    parseHex_cons (by omega), parseHex_cons (by omega), parseHex]
  have hv : 16 * (16 * (16 * (16 * 0 + v / 4096 % 16) + v / 256 % 16) + v / 16 % 16) + v / 1 % 16 = v := by
    omega
  rw [hv]

theorem length_encode_hex4 (v : ℕ) : (Utf8.encode (hex4 v)).length = 4 := by
  obtain ⟨a, ha, -⟩ := hexDigit_hexChar (d := v / 2 ^ 12 % 16) (by omega)
  obtain ⟨b, hb, -⟩ := hexDigit_hexChar (d := v / 2 ^ 8 % 16) (by omega)
  obtain ⟨c, hc, -⟩ := hexDigit_hexChar (d := v / 2 ^ 4 % 16) (by omega)
  obtain ⟨d, hd, -⟩ := hexDigit_hexChar (d := v / 2 ^ 0 % 16) (by omega)
  have hsplit : Utf8.encode (hex4 v) =
      Utf8.encode [hexChar (v / 2 ^ 12 % 16)] ++ Utf8.encode [hexChar (v / 2 ^ 8 % 16)] ++
        Utf8.encode [hexChar (v / 2 ^ 4 % 16)] ++ Utf8.encode [hexChar (v / 2 ^ 0 % 16)] := by
    simp [hex4]
  rw [hsplit, ha, hb, hc, hd]
  rfl

/-- A code point that is no half of a character. -/
theorem parseUnicodeEscape_hex4 {ch : Char} (h : ch.toNat < 0xD800) (pos : ℕ) (rest : List UInt8) :
    parseUnicodeEscape ⟨pos, Utf8.encode (hex4 ch.toNat) ++ rest⟩ = .ok (ch, ⟨pos + 4, rest⟩) := by
  have hchar : charFromU32 ch.toNat = some ch := by
    have hvalid : ch.toNat.isValidChar := ch.valid
    rw [charFromU32, if_pos hvalid, Char.ofNat_toNat]
  rw [parseUnicodeEscape, parseHex4_hex4 (by omega)]
  show (if _ then _ else _) = _
  rw [if_neg (by omega), if_neg (by omega), hchar]

theorem parseEscape_unicode {ch : Char} (h : ch.toNat < 0xD800) (pos : ℕ) (rest : List UInt8) :
    parseEscape ⟨pos, Utf8.encode ('u' :: hex4 ch.toNat) ++ rest⟩ =
      .ok (ch, ⟨pos + (Utf8.encode ('u' :: hex4 ch.toNat)).length, rest⟩) := by
  have hu : Utf8.encodeChar 'u' = [0x75] := rfl
  have hlen : (Utf8.encode ('u' :: hex4 ch.toNat)).length = 1 + 4 := by
    rw [Utf8.encode_cons, length_append, length_encode_hex4, hu]
    rfl
  rw [hlen, Utf8.encode_cons, hu, singleton_append, cons_append, ← Nat.add_assoc,
    ← parseUnicodeEscape_hex4 h]
  rfl

/-- An escape of one byte. -/
theorem parseEscape_short {esc ch : Char} {b : UInt8} (hb : Utf8.encode [esc] = [b])
    (hescape : shortEscape b = some ch) (hne : b ≠ 0x75) (pos : ℕ) (rest : List UInt8) :
    parseEscape ⟨pos, Utf8.encode [esc] ++ rest⟩ =
      .ok (ch, ⟨pos + (Utf8.encode [esc]).length, rest⟩) := by
  rw [hb, singleton_append, parseEscape]
  simp only [Cursor.peek, head?_cons, if_neg hne, hescape]
  rfl

/-- How a character stands inside quotes: as itself, or as an escape that is read back. -/
theorem escapeChar_cases (ch : Char) :
    (escapeChar ch = [ch] ∧ ch ≠ '"' ∧ ch ≠ '\\' ∧ 0x20 ≤ ch.toNat) ∨
      ∃ esc, escapeChar ch = '\\' :: esc ∧ ∀ pos rest,
        parseEscape ⟨pos, Utf8.encode esc ++ rest⟩ =
          .ok (ch, ⟨pos + (Utf8.encode esc).length, rest⟩) := by
  rw [escapeChar]
  by_cases h1 : ch = '"'
  · rw [if_pos h1]
    exact .inr ⟨_, rfl, parseEscape_short rfl (by rw [h1]; rfl) (by decide)⟩
  rw [if_neg h1]
  by_cases h2 : ch = '\\'
  · rw [if_pos h2]
    exact .inr ⟨_, rfl, parseEscape_short rfl (by rw [h2]; rfl) (by decide)⟩
  rw [if_neg h2]
  by_cases h3 : ch = '\n'
  · rw [if_pos h3]
    exact .inr ⟨_, rfl, parseEscape_short rfl (by rw [h3]; rfl) (by decide)⟩
  rw [if_neg h3]
  by_cases h4 : ch = '\r'
  · rw [if_pos h4]
    exact .inr ⟨_, rfl, parseEscape_short rfl (by rw [h4]; rfl) (by decide)⟩
  rw [if_neg h4]
  by_cases h5 : ch = '\t'
  · rw [if_pos h5]
    exact .inr ⟨_, rfl, parseEscape_short rfl (by rw [h5]; rfl) (by decide)⟩
  rw [if_neg h5]
  by_cases h6 : ch = Char.ofNat 0x08
  · rw [if_pos h6]
    exact .inr ⟨_, rfl, parseEscape_short rfl (by rw [h6]; rfl) (by decide)⟩
  rw [if_neg h6]
  by_cases h7 : ch = Char.ofNat 0x0C
  · rw [if_pos h7]
    exact .inr ⟨_, rfl, parseEscape_short rfl (by rw [h7]; rfl) (by decide)⟩
  rw [if_neg h7]
  by_cases h8 : ch.toNat < 0x20
  · rw [if_pos h8]
    exact .inr ⟨_, rfl, parseEscape_unicode (by omega)⟩
  rw [if_neg h8]
  by_cases h9 : ch = Char.ofNat 0x2028
  · have hnat : ch.toNat = 0x2028 := by
      rw [h9]
      rfl
    have hhex : ['2', '0', '2', '8'] = hex4 ch.toNat := by
      rw [hnat]
      rfl
    rw [if_pos h9]
    exact .inr ⟨'u' :: ['2', '0', '2', '8'], rfl, hhex ▸ parseEscape_unicode (by omega)⟩
  rw [if_neg h9]
  by_cases h10 : ch = Char.ofNat 0x2029
  · have hnat : ch.toNat = 0x2029 := by
      rw [h10]
      rfl
    have hhex : ['2', '0', '2', '9'] = hex4 ch.toNat := by
      rw [hnat]
      rfl
    rw [if_pos h10]
    exact .inr ⟨'u' :: ['2', '0', '2', '9'], rfl, hhex ▸ parseEscape_unicode (by omega)⟩
  rw [if_neg h10]
  exact .inl ⟨rfl, h1, h2, not_lt.1 h8⟩

/-! ### Strings -/

/-- Every character that stands for itself ends within `max` bytes of the opening quote.  The parser
counts the bytes as they are written, escapes included. -/
def WrittenFits (max : ℕ) (s : List Char) : Prop :=
  ∀ p ch t, s = p ++ ch :: t → escapeChar ch = [ch] → (Utf8.encode (escape (p ++ [ch]))).length ≤ max

/-- A string fits, as it is and as it is written. -/
def StringFits (max : ℕ) (s : List Char) : Prop :=
  (Utf8.encode s).length ≤ max ∧ WrittenFits max s

/-- A byte that stands for itself between quotes. -/
structure PlainByte (b : UInt8) : Prop where
  quote : b ≠ 0x22
  backslash : b ≠ 0x5C
  low : 0x20 ≤ b.toNat

theorem plainByte_of_mem {ch : Char} (hquote : ch ≠ '"') (hslash : ch ≠ '\\') (hlow : 0x20 ≤ ch.toNat)
    {b : UInt8} (hb : b ∈ Utf8.encodeChar ch) : PlainByte b := by
  by_cases hascii : ch.toNat < 128
  · rw [Utf8.encodeChar_ascii hascii, mem_singleton] at hb
    have hnat : b.toNat = ch.toNat := by
      rw [hb, UInt8.toNat_ofNat', Nat.mod_eq_of_lt (by omega)]
    have hne : ∀ c : Char, ch ≠ c → b.toNat ≠ c.toNat := by
      intro c hc heq
      exact hc (Char.toNat_inj.1 (hnat.symm.trans heq))
    refine ⟨?_, ?_, by omega⟩
    · rintro rfl
      exact hne '"' hquote rfl
    · rintro rfl
      exact hne '\\' hslash rfl
  · have hle := Utf8.le_of_mem_encodeChar (not_lt.1 hascii) hb
    refine ⟨?_, ?_, by omega⟩
    · rintro rfl
      exact absurd hle (by decide)
    · rintro rfl
      exact absurd hle (by decide)

theorem utf8Len_encodeChar {ch : Char} {b : UInt8} {bs : List UInt8}
    (h : Utf8.encodeChar ch = b :: bs) : utf8Len b = (Utf8.encodeChar ch).length := by
  by_cases hascii : ch.toNat < 128
  · have hbytes := Utf8.encodeChar_ascii hascii
    rw [h] at hbytes
    obtain ⟨rfl, rfl⟩ := cons.inj hbytes
    rw [h, utf8Len, if_pos]
    · rfl
    · rw [UInt8.toNat_ofNat', Nat.mod_eq_of_lt (by omega)]
      omega
  · obtain ⟨first, rest, hbytes, hlow, hhigh, hlen, -⟩ := Utf8.encodeChar_wide (not_lt.1 hascii)
    rw [h] at hbytes
    obtain ⟨rfl, rfl⟩ := cons.inj hbytes
    rw [h, length_cons, hlen, utf8Len, Utf8.leadLength, if_neg (by omega)]
    split_ifs <;> omega

section StringLoop

variable {limits : Limits} {start : Cursor} {fits : Prop} {x : List Char × Cursor}

/-! One round of the loop, for each kind of round. -/

theorem stringLoop_byte {b : UInt8} (hb : PlainByte b) {fuel pos : ℕ} {rest : List UInt8} :
    stringLoop limits start (fuel + 1) none ⟨pos, b :: rest⟩ =
      if limits.maxStringBytes < pos + 1 - start.pos then
        .error ⟨.stringTooLong, pos + 1⟩
      else stringLoop limits start fuel none ⟨pos + 1, rest⟩ := by
  rw [stringLoop]
  simp only [Cursor.peek, head?_cons, if_neg hb.quote, if_neg hb.backslash, if_neg (not_lt.2 hb.low)]
  rfl

theorem stringLoop_char {ch : Char} (hplain : ∀ b ∈ Utf8.encodeChar ch, PlainByte b) {s : List Char}
    {fuel pos : ℕ} {rest : List UInt8} :
    stringLoop limits start (fuel + 1) (some s) ⟨pos, Utf8.encodeChar ch ++ rest⟩ =
      if limits.maxStringBytes < pos + (Utf8.encodeChar ch).length - start.pos then
        .error ⟨.stringTooLong, pos + (Utf8.encodeChar ch).length⟩
      else
        stringLoop limits start fuel (some (s ++ [ch])) ⟨pos + (Utf8.encodeChar ch).length, rest⟩ := by
  obtain ⟨b, bs, hbytes⟩ := exists_cons_of_ne_nil (Utf8.encodeChar_ne_nil ch)
  have hb : PlainByte b := hplain b (hbytes ▸ mem_cons_self)
  have hlen := utf8Len_encodeChar hbytes
  have hpeek : (Cursor.mk pos (Utf8.encodeChar ch ++ rest)).peek = some b := by
    rw [hbytes]
    rfl
  have hdecode : Utf8.decode (Utf8.encodeChar ch) = some [ch] := by
    have := Utf8.decode_encode [ch]
    rwa [Utf8.encode_cons, Utf8.encode_nil, append_nil] at this
  rw [stringLoop]
  simp only [hpeek, if_neg hb.quote, if_neg hb.backslash, if_neg (not_lt.2 hb.low), hlen]
  rw [if_neg (by simp), take_left, hdecode]
  simp only [Cursor.advance_append]
  rfl

theorem stringLoop_escape {out : Option (List Char)} {buf : List Char} {ch : Char} {fuel pos : ℕ}
    {bytes rest : List UInt8}
    (htext : textSince start ⟨pos, 0x5C :: (bytes ++ rest)⟩ out = .ok buf)
    (hesc : parseEscape ⟨pos + 1, bytes ++ rest⟩ = .ok (ch, ⟨pos + 1 + bytes.length, rest⟩)) :
    stringLoop limits start (fuel + 1) out ⟨pos, 0x5C :: (bytes ++ rest)⟩ =
      if limits.maxStringBytes < (Utf8.encode buf).length then .error ⟨.stringTooLong, pos⟩
      else stringLoop limits start fuel (some (buf ++ [ch])) ⟨pos + 1 + bytes.length, rest⟩ := by
  have hnext : (Cursor.mk pos (0x5C :: (bytes ++ rest))).advance 1 = ⟨pos + 1, bytes ++ rest⟩ := rfl
  rw [stringLoop]
  simp only [Cursor.peek, head?_cons, htext, hnext, hesc]
  rw [if_neg (by decide), if_neg (by decide), if_pos trivial]
  rfl

theorem stringLoop_close {out : Option (List Char)} {s : List Char} {fuel pos : ℕ}
    {rest : List UInt8} (htext : textSince start ⟨pos, 0x22 :: rest⟩ out = .ok s) :
    stringLoop limits start (fuel + 1) out ⟨pos, 0x22 :: rest⟩ =
      if limits.maxStringBytes < (Utf8.encode s).length then .error ⟨.stringTooLong, pos⟩
      else .ok (s, ⟨pos + 1, rest⟩) := by
  rw [stringLoop]
  simp only [Cursor.peek, head?_cons, htext]
  rw [if_pos trivial]
  rfl

/-- From `c` on the loop over a string ends with `x`. -/
def LoopGives (limits : Limits) (start : Cursor) (fits : Prop) (out : Option (List Char)) (c : Cursor)
    (x : List Char × Cursor) : Prop :=
  ∀ fuel, c.rest.length < fuel → Gives fits (stringLoop limits start fuel out c) x

theorem LoopGives.byte {b : UInt8} (hb : PlainByte b) {pos : ℕ} {rest : List UInt8}
    (h : LoopGives limits start fits none ⟨pos + 1, rest⟩ x)
    (hfits : fits → pos + 1 - start.pos ≤ limits.maxStringBytes) :
    LoopGives limits start fits none ⟨pos, b :: rest⟩ x := by
  intro fuel hfuel
  obtain ⟨fuel, rfl⟩ := Nat.exists_eq_succ_of_ne_zero (Nat.ne_of_gt (Nat.zero_lt_of_lt hfuel))
  rw [stringLoop_byte hb]
  exact (h fuel (Nat.lt_of_succ_lt_succ hfuel)).check (fun hf => not_lt.2 (hfits hf)) _

/-- Bytes that stand for themselves, before an escape was seen. -/
theorem LoopGives.bytes {bs : List UInt8} (hbs : ∀ b ∈ bs, PlainByte b) {pos : ℕ} {rest : List UInt8}
    (h : LoopGives limits start fits none ⟨pos + bs.length, rest⟩ x)
    (hfits : fits → pos + bs.length - start.pos ≤ limits.maxStringBytes) :
    LoopGives limits start fits none ⟨pos, bs ++ rest⟩ x := by
  induction bs generalizing pos with
  | nil => exact h
  | cons b bs ih =>
    rw [length_cons] at h hfits
    refine LoopGives.byte (hbs b mem_cons_self) (ih ?_ ?_ ?_) ?_
    · exact fun y hy => hbs y (mem_cons_of_mem b hy)
    · rw [show pos + 1 + bs.length = pos + (bs.length + 1) by omega]
      exact h
    · intro hf
      have := hfits hf
      omega
    · intro hf
      have := hfits hf
      omega

/-- A character that stands for itself, after an escape was seen. -/
theorem LoopGives.char {ch : Char} (hplain : ∀ b ∈ Utf8.encodeChar ch, PlainByte b) {s : List Char}
    {pos : ℕ} {rest : List UInt8}
    (h : LoopGives limits start fits (some (s ++ [ch])) ⟨pos + (Utf8.encodeChar ch).length, rest⟩ x)
    (hfits : fits → pos + (Utf8.encodeChar ch).length - start.pos ≤ limits.maxStringBytes) :
    LoopGives limits start fits (some s) ⟨pos, Utf8.encodeChar ch ++ rest⟩ x := by
  intro fuel hfuel
  obtain ⟨fuel, rfl⟩ := Nat.exists_eq_succ_of_ne_zero (Nat.ne_of_gt (Nat.zero_lt_of_lt hfuel))
  rw [stringLoop_char hplain]
  refine (h fuel ?_).check (fun hf => not_lt.2 (hfits hf)) _
  have hpos := Utf8.length_encodeChar_pos ch
  simp only [length_append] at hfuel ⊢
  omega

/-- An escape. -/
theorem LoopGives.escape {out : Option (List Char)} {buf : List Char} {ch : Char} {pos : ℕ}
    {bytes rest : List UInt8}
    (htext : textSince start ⟨pos, 0x5C :: (bytes ++ rest)⟩ out = .ok buf)
    (hesc : parseEscape ⟨pos + 1, bytes ++ rest⟩ = .ok (ch, ⟨pos + 1 + bytes.length, rest⟩))
    (h : LoopGives limits start fits (some (buf ++ [ch])) ⟨pos + 1 + bytes.length, rest⟩ x)
    (hfits : fits → (Utf8.encode buf).length ≤ limits.maxStringBytes) :
    LoopGives limits start fits out ⟨pos, 0x5C :: (bytes ++ rest)⟩ x := by
  intro fuel hfuel
  obtain ⟨fuel, rfl⟩ := Nat.exists_eq_succ_of_ne_zero (Nat.ne_of_gt (Nat.zero_lt_of_lt hfuel))
  have hrest : rest.length < fuel := by
    simp only [length_cons, length_append] at hfuel
    omega
  rw [stringLoop_escape htext hesc]
  exact (h fuel hrest).check (fun hf => not_lt.2 (hfits hf)) _

/-- The closing quote. -/
theorem LoopGives.close {out : Option (List Char)} {s : List Char} {pos : ℕ} {rest : List UInt8}
    (htext : textSince start ⟨pos, 0x22 :: rest⟩ out = .ok s)
    (hfits : fits → (Utf8.encode s).length ≤ limits.maxStringBytes) :
    LoopGives limits start fits out ⟨pos, 0x22 :: rest⟩ (s, ⟨pos + 1, rest⟩) := by
  intro fuel hfuel
  obtain ⟨fuel, rfl⟩ := Nat.exists_eq_succ_of_ne_zero (Nat.ne_of_gt (Nat.zero_lt_of_lt hfuel))
  rw [stringLoop_close htext]
  exact (Gives.ok _).check (fun hf => not_lt.2 (hfits hf)) _

/-- The loop has read `p` when it is at `c`: with an escape, or as the bytes since `start`. -/
structure Reading (start : Cursor) (p : List Char) (out : Option (List Char)) (c : Cursor) : Prop where
  pos : c.pos = start.pos + (Utf8.encode (escape p)).length
  text : out = some p ∨ out = none ∧ escape p = p ∧ start.rest = Utf8.encode p ++ c.rest

theorem Reading.textSince_eq {p : List Char} {out : Option (List Char)} {c : Cursor}
    (h : Reading start p out c) : textSince start c out = .ok p := by
  rcases h.text with rfl | ⟨rfl, hescape, hrest⟩
  · rfl
  · have hspan : start.span c = Utf8.encode p := by
      rw [Cursor.span, h.pos, Nat.add_sub_cancel_left, hescape, hrest, take_left]
    rw [textSince, hspan, Utf8.decode_encode]

theorem escape_snoc (p : List Char) (ch : Char) : escape (p ++ [ch]) = escape p ++ escapeChar ch := by
  rw [escape, escape, flatMap_append, flatMap_singleton]

theorem StringFits.read {max : ℕ} {p t : List Char} (h : StringFits max (p ++ t)) :
    (Utf8.encode p).length ≤ max := by
  have hlen := h.1
  rw [Utf8.encode_append, length_append] at hlen
  omega

/-- **The characters of a string are read back**, from wherever the loop is. -/
theorem loop_reads (t : List Char) {p : List Char} {out : Option (List Char)} {pos : ℕ}
    {rest : List UInt8} (h : Reading start p out ⟨pos, Utf8.encode (escape t) ++ 0x22 :: rest⟩) :
    LoopGives limits start (StringFits limits.maxStringBytes (p ++ t)) out
      ⟨pos, Utf8.encode (escape t) ++ 0x22 :: rest⟩
      (p ++ t, ⟨pos + (Utf8.encode (escape t)).length + 1, rest⟩) := by
  induction t generalizing p out pos with
  | nil =>
    rw [append_nil]
    exact LoopGives.close h.textSince_eq fun hf => hf.1
  | cons ch t ih =>
    have hpos : pos = start.pos + (Utf8.encode (escape p)).length := h.pos
    have hsplit : escape (ch :: t) = escapeChar ch ++ escape t := flatMap_cons
    have hmove : p ++ ch :: t = (p ++ [ch]) ++ t := by simp
    rcases escapeChar_cases ch with ⟨hself, hquote, hslash, hlow⟩ | ⟨esc, hesc, hread⟩
    · -- A character that stands for itself.
      have hone : Utf8.encode (escape (ch :: t)) = Utf8.encodeChar ch ++ Utf8.encode (escape t) := by
        rw [hsplit, hself, singleton_append, Utf8.encode_cons]
      have hbytes : ∀ b ∈ Utf8.encodeChar ch, PlainByte b :=
        fun b hb => plainByte_of_mem hquote hslash hlow hb
      have hafter : Utf8.encode (escape (p ++ [ch])) =
          Utf8.encode (escape p) ++ Utf8.encodeChar ch := by
        rw [escape_snoc, hself, Utf8.encode_append, Utf8.encode_cons, Utf8.encode_nil, append_nil]
      have hwithin : StringFits limits.maxStringBytes (p ++ ch :: t) →
          pos + (Utf8.encodeChar ch).length - start.pos ≤ limits.maxStringBytes := by
        intro hf
        have hwritten := hf.2 p ch t rfl hself
        rw [hafter, length_append] at hwritten
        omega
      have hnext : pos + (Utf8.encodeChar ch).length =
          start.pos + (Utf8.encode (escape (p ++ [ch]))).length := by
        rw [hafter, length_append]
        omega
      have htext := h.text
      rw [hone, append_assoc] at htext ⊢
      rw [length_append, ← Nat.add_assoc]
      rw [hmove] at hwithin ⊢
      rcases htext with rfl | ⟨rfl, hplain, hrest⟩
      · exact LoopGives.char hbytes (ih ⟨hnext, .inl rfl⟩) hwithin
      · refine LoopGives.bytes hbytes (ih ⟨hnext, .inr ⟨rfl, ?_, ?_⟩⟩) hwithin
        · rw [escape_snoc, hplain, hself]
        · rw [hrest, Utf8.encode_append, Utf8.encode_cons, Utf8.encode_nil, append_nil, append_assoc]
    · -- An escape, after which the loop holds what it has read.
      have hone : Utf8.encode (escape (ch :: t)) =
          0x5C :: (Utf8.encode esc ++ Utf8.encode (escape t)) := by
        rw [hsplit, hesc, cons_append, Utf8.encode_cons, Utf8.encode_append]
        rfl
      have hlen : (Utf8.encode (escape (p ++ [ch]))).length =
          (Utf8.encode (escape p)).length + 1 + (Utf8.encode esc).length := by
        rw [escape_snoc, hesc, Utf8.encode_append, Utf8.encode_cons, length_append, length_append]
        exact (Nat.add_assoc _ _ _).symm
      have htext := h.textSince_eq
      rw [hone, cons_append, append_assoc] at htext ⊢
      rw [hmove]
      have hnext : Reading start (p ++ [ch]) (some (p ++ [ch]))
          ⟨pos + 1 + (Utf8.encode esc).length, Utf8.encode (escape t) ++ 0x22 :: rest⟩ :=
        ⟨by rw [hlen]; dsimp only; omega, .inl rfl⟩
      have hrest := ih hnext
      have hsame : pos + (0x5C :: (Utf8.encode esc ++ Utf8.encode (escape t))).length + 1 =
          pos + 1 + (Utf8.encode esc).length + (Utf8.encode (escape t)).length + 1 := by
        rw [length_cons, length_append]
        omega
      rw [hsame]
      exact LoopGives.escape htext (hread _ _) hrest fun hf => (hmove ▸ hf).read

variable (limits) in
/-- **A string is read back.** -/
theorem parseString_gives (s : List Char) (pos : ℕ) (rest : List UInt8) :
    Gives (StringFits limits.maxStringBytes s)
      (parseString limits ⟨pos, Utf8.encode (writeString s) ++ rest⟩)
      (s, ⟨pos + (Utf8.encode (writeString s)).length, rest⟩) := by
  have hbytes : Utf8.encode (writeString s) ++ rest = 0x22 :: (Utf8.encode (escape s) ++ 0x22 :: rest) := by
    simp only [writeString, Utf8.encode_append, append_assoc]
    rfl
  have hlen : pos + (Utf8.encode (writeString s)).length =
      pos + 1 + (Utf8.encode (escape s)).length + 1 := by
    simp only [writeString, Utf8.encode_append, length_append]
    show pos + (1 + _ + 1) = _
    omega
  rw [hbytes, hlen]
  have hreading : Reading ⟨pos + 1, Utf8.encode (escape s) ++ 0x22 :: rest⟩ [] none
      ⟨pos + 1, Utf8.encode (escape s) ++ 0x22 :: rest⟩ :=
    ⟨rfl, .inr ⟨rfl, rfl, rfl⟩⟩
  exact loop_reads s hreading _ (Nat.lt_succ_self _)

end StringLoop

/-! ### Numbers -/

/-- The parts of a number in decimal. -/
structure Parts where
  negative : Bool
  whole : List ℕ
  /-- The digits after the point, and no point without them. -/
  fraction : List ℕ
  /-- The sign and the digits after the `e`. -/
  exponent : Option (Bool × List ℕ)

namespace Parts

def digitsText (ds : List ℕ) : List Char := ds.map Decimal.digitChar

def fractionText (parts : Parts) : List Char :=
  if parts.fraction = [] then [] else '.' :: digitsText parts.fraction

def exponentText (parts : Parts) : List Char :=
  match parts.exponent with
  | none => []
  | some (negative, ds) => 'e' :: (if negative then ['-'] else []) ++ digitsText ds

def text (parts : Parts) : List Char :=
  (if parts.negative then ['-'] else []) ++ digitsText parts.whole ++ parts.fractionText ++
    parts.exponentText

def isFloat (parts : Parts) : Bool := parts.fraction ≠ [] || parts.exponent.isSome

/-- Digits are digits, a zero leads nothing, and an `e` has digits. -/
structure Valid (parts : Parts) : Prop where
  whole : parts.whole = [0] ∨ ∃ d ds, parts.whole = d :: ds ∧ d ≠ 0
  wholeDigits : ∀ d ∈ parts.whole, d < 10
  fractionDigits : ∀ d ∈ parts.fraction, d < 10
  exponentDigits : ∀ negative ds, parts.exponent = some (negative, ds) → ds ≠ [] ∧ ∀ d ∈ ds, d < 10

end Parts

/-- What the standard library promises of a finite float: it is printed as a number with a fraction or
an exponent, and is read back. -/
structure FloatText.Exact {F : Type} (floats : FloatText F) (f : F) : Prop where
  finite : floats.isFinite f = true
  decimal : ∃ parts : Parts, parts.Valid ∧ parts.isFloat = true ∧ floats.debug f = parts.text
  exact : floats.parse (floats.debug f) = some f

/-- A value is followed by nothing, by a comma, or by the end of an array or an object. -/
def Ends (rest : List UInt8) : Prop := ∀ b, rest.head? = some b → b = 0x2C ∨ b = 0x5D ∨ b = 0x7D

/-- No digit comes next. -/
def NoDigit (rest : List UInt8) : Prop := ∀ b, rest.head? = some b → isDigit b = false

theorem Ends.noDigit {rest : List UInt8} (h : Ends rest) : NoDigit rest := by
  intro b hb
  rcases h b hb with rfl | rfl | rfl <;> rfl

def digitByte (d : ℕ) : UInt8 := UInt8.ofNat (48 + d)

theorem encode_digitChar {d : ℕ} (h : d < 10) : Utf8.encodeChar (Decimal.digitChar d) = [digitByte d] := by
  have hnat := Decimal.toNat_digitChar h
  rw [Utf8.encodeChar_ascii (by omega), hnat]
  rfl

theorem encode_digitsText {ds : List ℕ} (h : ∀ d ∈ ds, d < 10) :
    Utf8.encode (Parts.digitsText ds) = ds.map digitByte := by
  induction ds with
  | nil => rfl
  | cons d ds ih =>
    have hrest := ih fun x hx => h x (mem_cons_of_mem d hx)
    rw [Parts.digitsText] at hrest ⊢
    rw [map_cons, Utf8.encode_cons, encode_digitChar (h d mem_cons_self), hrest]
    rfl

theorem isDigit_digitByte {d : ℕ} (h : d < 10) : isDigit (digitByte d) = true := by
  interval_cases d <;> rfl

theorem digitByte_ne_zero {d : ℕ} (h : d < 10) (hne : d ≠ 0) : digitByte d ≠ 0x30 := by
  interval_cases d
  · exact absurd rfl hne
  all_goals decide

/-- Digits are skipped up to what is none. -/
theorem skipDigits_eq {ds : List ℕ} (h : ∀ d ∈ ds, d < 10) {rest : List UInt8} (hrest : NoDigit rest)
    (pos : ℕ) :
    (Cursor.mk pos (ds.map digitByte ++ rest)).skipDigits = ⟨pos + ds.length, rest⟩ := by
  have hdigits : ∀ b ∈ ds.map digitByte, isDigit b = true := by
    intro b hb
    obtain ⟨d, hd, rfl⟩ := mem_map.1 hb
    exact isDigit_digitByte (h d hd)
  have hnone : rest.takeWhile isDigit = [] := by
    cases rest with
    | nil => rfl
    | cons b rest => rw [takeWhile_cons_of_neg (by simp [hrest b rfl])]
  rw [Cursor.skipDigits, takeWhile_append_of_pos hdigits, hnone, append_nil, Cursor.advance_append,
    length_map]

theorem scanWhole_eq {ds : List ℕ} (hds : ∀ d ∈ ds, d < 10)
    (hfirst : ds = [0] ∨ ∃ d ds', ds = d :: ds' ∧ d ≠ 0) {rest : List UInt8} (hrest : NoDigit rest)
    (pos : ℕ) : scanWhole ⟨pos, ds.map digitByte ++ rest⟩ = some ⟨pos + ds.length, rest⟩ := by
  rcases hfirst with rfl | ⟨d, ds, rfl, hd⟩
  · have hany : rest.head?.any isDigit = false := by
      cases rest with
      | nil => rfl
      | cons b rest => exact hrest b rfl
    show (if rest.head?.any isDigit = true then none else some _) = _
    rw [hany]
    rfl
  · have hb := digitByte_ne_zero (hds d mem_cons_self) hd
    rw [scanWhole]
    have hpeek : (Cursor.mk pos (map digitByte (d :: ds) ++ rest)).peek = some (digitByte d) := rfl
    rw [hpeek]
    split
    · rename_i heq
      exact absurd (Option.some.inj heq) hb
    · rename_i b hne heq
      obtain rfl := Option.some.inj heq
      rw [if_pos (isDigit_digitByte (hds d mem_cons_self)), skipDigits_eq hds hrest]
    · rename_i heq
      cases heq

/-- After a sign or a point come digits. -/
theorem peek_digits {ds : List ℕ} (hne : ds ≠ []) (hds : ∀ d ∈ ds, d < 10) (rest : List UInt8) (pos : ℕ) :
    ∃ b, (Cursor.mk pos (ds.map digitByte ++ rest)).peek = some b ∧ isDigit b = true := by
  obtain ⟨d, ds, rfl⟩ := exists_cons_of_ne_nil hne
  exact ⟨digitByte d, rfl, isDigit_digitByte (hds d mem_cons_self)⟩

/-- Bytes behind a minus sign, or without one. -/
def signed (negative : Bool) (bytes : List UInt8) : List UInt8 :=
  (if negative then [0x2D] else []) ++ bytes

/-- Digits with a sign or without: where the sign is skipped, it is what comes next, and where it is
not, a digit is. -/
theorem signed_cases {negative : Bool} {ds : List ℕ} (hne : ds ≠ []) (hds : ∀ d ∈ ds, d < 10)
    {rest : List UInt8} {pos : ℕ} {c : Cursor → Cursor}
    (hsigned : (Cursor.mk pos (signed negative (ds.map digitByte ++ rest))).peek = some 0x2D →
      c ⟨pos, signed negative (ds.map digitByte ++ rest)⟩ =
        (Cursor.mk pos (signed negative (ds.map digitByte ++ rest))).advance 1)
    (hplain : ∀ b, (Cursor.mk pos (signed negative (ds.map digitByte ++ rest))).peek = some b →
      isDigit b = true → c ⟨pos, signed negative (ds.map digitByte ++ rest)⟩ =
        ⟨pos, signed negative (ds.map digitByte ++ rest)⟩) :
    c ⟨pos, signed negative (ds.map digitByte ++ rest)⟩ =
      ⟨pos + (if negative then 1 else 0), ds.map digitByte ++ rest⟩ := by
  cases negative with
  | true => exact hsigned rfl
  | false =>
    obtain ⟨b, hb, hdigit⟩ := peek_digits hne hds rest pos
    exact hplain b hb hdigit

namespace Parts

variable {parts : Parts} {rest : List UInt8}

theorem exponent_head (hrest : Ends rest) {b : UInt8}
    (hb : (Utf8.encode parts.exponentText ++ rest).head? = some b) :
    b = 0x65 ∨ b = 0x2C ∨ b = 0x5D ∨ b = 0x7D := by
  rw [exponentText] at hb
  split at hb
  · exact .inr (hrest b hb)
  · exact .inl (Option.some.inj hb).symm

theorem fraction_head (hrest : Ends rest) {b : UInt8}
    (hb : (Utf8.encode parts.fractionText ++ (Utf8.encode parts.exponentText ++ rest)).head? = some b) :
    b = 0x2E ∨ b = 0x65 ∨ b = 0x2C ∨ b = 0x5D ∨ b = 0x7D := by
  rw [fractionText] at hb
  split at hb
  · exact .inr (exponent_head hrest hb)
  · exact .inl (Option.some.inj hb).symm

theorem scanExponent_eq (h : parts.Valid) (hrest : Ends rest) (pos : ℕ) :
    scanExponent ⟨pos, Utf8.encode parts.exponentText ++ rest⟩ =
      some (parts.exponent.isSome, ⟨pos + (Utf8.encode parts.exponentText).length, rest⟩) := by
  rw [exponentText]
  cases hexp : parts.exponent with
  | none =>
    have hpeek : ¬ ((Cursor.mk pos rest).peek = some 0x65 ∨ (Cursor.mk pos rest).peek = some 0x45) := by
      rintro (hb | hb) <;> rcases hrest _ hb with h | h | h <;> exact absurd h (by decide)
    show scanExponent ⟨pos, rest⟩ = _
    rw [scanExponent, if_neg hpeek]
    rfl
  | some e =>
    obtain ⟨negative, ds⟩ := e
    obtain ⟨hne, hds⟩ := h.exponentDigits negative ds hexp
    have hbytes : Utf8.encode ('e' :: (if negative then ['-'] else []) ++ digitsText ds) ++ rest =
        0x65 :: signed negative (ds.map digitByte ++ rest) := by
      rw [cons_append, Utf8.encode_cons, Utf8.encode_append, encode_digitsText hds]
      cases negative <;> rfl
    have hlen : (Utf8.encode ('e' :: (if negative then ['-'] else []) ++ digitsText ds)).length =
        1 + (if negative then 1 else 0) + ds.length := by
      rw [cons_append, Utf8.encode_cons, Utf8.encode_append, encode_digitsText hds, length_append,
        length_append, length_map, ← Nat.add_assoc]
      cases negative <;> rfl
    have hsign : (if (Cursor.mk (pos + 1) (signed negative (ds.map digitByte ++ rest))).peek = some 0x2B ∨
          (Cursor.mk (pos + 1) (signed negative (ds.map digitByte ++ rest))).peek = some 0x2D then
        (Cursor.mk (pos + 1) (signed negative (ds.map digitByte ++ rest))).advance 1
        else Cursor.mk (pos + 1) (signed negative (ds.map digitByte ++ rest))) =
        ⟨pos + 1 + (if negative then 1 else 0), ds.map digitByte ++ rest⟩ := by
      refine signed_cases hne hds ?_ ?_
      · intro hsigned
        rw [if_pos (.inr hsigned)]
      · intro b hb hdigit
        rw [if_neg]
        rintro (heq | heq) <;> rw [hb] at heq <;> rw [Option.some.inj heq] at hdigit <;> cases hdigit
    obtain ⟨b, hb, hdigit⟩ := peek_digits hne hds rest (pos + 1 + if negative then 1 else 0)
    have hadvance : (Cursor.mk pos (0x65 :: signed negative (ds.map digitByte ++ rest))).advance 1 =
        ⟨pos + 1, signed negative (ds.map digitByte ++ rest)⟩ := rfl
    dsimp only
    rw [hbytes, hlen, scanExponent, if_pos (.inl rfl)]
    simp only [hadvance, hsign]
    rw [hb, Option.any_some, if_pos hdigit, skipDigits_eq hds hrest.noDigit]
    simp only [Option.isSome_some, Option.some.injEq, Prod.mk.injEq, Cursor.mk.injEq, true_and,
      and_true]
    omega

theorem scanFraction_eq (h : parts.Valid) (hrest : Ends rest) (pos : ℕ) :
    scanFraction ⟨pos, Utf8.encode parts.fractionText ++ (Utf8.encode parts.exponentText ++ rest)⟩ =
      some (decide (parts.fraction ≠ []),
        ⟨pos + (Utf8.encode parts.fractionText).length, Utf8.encode parts.exponentText ++ rest⟩) := by
  have hnoDigit : NoDigit (Utf8.encode parts.exponentText ++ rest) := by
    intro b hb
    rcases exponent_head hrest hb with rfl | rfl | rfl | rfl <;> rfl
  by_cases hnone : parts.fraction = []
  · have hpeek : ¬ (Cursor.mk pos (Utf8.encode parts.exponentText ++ rest)).peek = some 0x2E := by
      intro hb
      rcases exponent_head hrest hb with h | h | h | h <;> exact absurd h (by decide)
    rw [fractionText, if_pos hnone]
    show scanFraction ⟨pos, Utf8.encode parts.exponentText ++ rest⟩ = _
    rw [scanFraction, if_neg hpeek, hnone]
    rfl
  · have hbytes : ∀ tail, Utf8.encode ('.' :: digitsText parts.fraction) ++ tail =
        0x2E :: (parts.fraction.map digitByte ++ tail) := by
      intro tail
      rw [Utf8.encode_cons, encode_digitsText h.fractionDigits]
      rfl
    have hlen : (Utf8.encode ('.' :: digitsText parts.fraction)).length = 1 + parts.fraction.length := by
      rw [Utf8.encode_cons, encode_digitsText h.fractionDigits, length_append, length_map]
      rfl
    obtain ⟨b, hb, hdigit⟩ := peek_digits hnone h.fractionDigits
      (Utf8.encode parts.exponentText ++ rest) (pos + 1)
    have hpoint : ∀ tail, (Cursor.mk pos (0x2E :: tail)).peek = some 0x2E := fun _ => rfl
    have hadvance : ∀ tail, (Cursor.mk pos (0x2E :: tail)).advance 1 = ⟨pos + 1, tail⟩ := fun _ => rfl
    rw [fractionText, if_neg hnone, hbytes, hlen, scanFraction, if_pos (hpoint _)]
    simp only [hadvance]
    rw [hb, Option.any_some, if_pos hdigit, skipDigits_eq h.fractionDigits hnoDigit, Nat.add_assoc,
      decide_eq_true hnone]

/-- **A number ends where it was written to end.** -/
theorem scanNumber_eq (h : parts.Valid) (hrest : Ends rest) (pos : ℕ) :
    scanNumber ⟨pos, Utf8.encode parts.text ++ rest⟩ =
      some (parts.isFloat, ⟨pos + (Utf8.encode parts.text).length, rest⟩) := by
  obtain ⟨hwhole, hwholeDigits⟩ := And.intro h.whole h.wholeDigits
  have hnoDigit : NoDigit
      (Utf8.encode parts.fractionText ++ (Utf8.encode parts.exponentText ++ rest)) := by
    intro b hb
    rcases fraction_head hrest hb with rfl | rfl | rfl | rfl | rfl <;> rfl
  have hne : parts.whole ≠ [] := by
    rcases hwhole with hw | ⟨d, ds, hw, -⟩ <;> rw [hw] <;> exact cons_ne_nil _ _
  have hbytes : Utf8.encode parts.text ++ rest = signed parts.negative
      (parts.whole.map digitByte ++
        (Utf8.encode parts.fractionText ++ (Utf8.encode parts.exponentText ++ rest))) := by
    rw [text, Utf8.encode_append, Utf8.encode_append, Utf8.encode_append,
      encode_digitsText hwholeDigits]
    cases parts.negative <;> simp only [append_assoc] <;> rfl
  have hlen : (Utf8.encode parts.text).length = (if parts.negative then 1 else 0) +
      parts.whole.length + (Utf8.encode parts.fractionText).length +
      (Utf8.encode parts.exponentText).length := by
    rw [text, Utf8.encode_append, Utf8.encode_append, Utf8.encode_append,
      encode_digitsText hwholeDigits, length_append, length_append, length_append, length_map]
    cases parts.negative <;> rfl
  have hsign : (if (Cursor.mk pos (Utf8.encode parts.text ++ rest)).peek = some 0x2D then
        (Cursor.mk pos (Utf8.encode parts.text ++ rest)).advance 1
      else Cursor.mk pos (Utf8.encode parts.text ++ rest)) =
      ⟨pos + (if parts.negative then 1 else 0), parts.whole.map digitByte ++
        (Utf8.encode parts.fractionText ++ (Utf8.encode parts.exponentText ++ rest))⟩ := by
    rw [hbytes]
    refine signed_cases hne hwholeDigits ?_ ?_
    · intro hsigned
      rw [if_pos hsigned]
    · intro b hb hdigit
      rw [if_neg]
      intro heq
      rw [hb] at heq
      rw [Option.some.inj heq] at hdigit
      cases hdigit
  rw [scanNumber, hsign, scanWhole_eq hwholeDigits hwhole hnoDigit]
  simp only [Option.bind_eq_bind, Option.bind_some, scanFraction_eq h hrest, scanExponent_eq h hrest]
  rw [hlen]
  simp only [isFloat, Nat.add_assoc]
  rfl

end Parts

theorem itoa_eq (i : Int64) :
    itoa i = (if i.toInt < 0 then ['-'] else []) ++ Decimal.text 20 i.toInt.natAbs := by
  rw [itoa, Decimal.text]
  by_cases hzero : i.toInt = 0
  · rw [if_pos hzero, if_pos (Int.natAbs_eq_zero.2 hzero), if_neg (by omega)]
    rfl
  · rw [if_neg hzero, if_neg (mt Int.natAbs_eq_zero.1 hzero)]

theorem natAbs_toInt_lt (i : Int64) : i.toInt.natAbs < 10 ^ 20 := by
  have hlow := i.le_toInt
  have hhigh := i.toInt_lt
  omega

/-- **An integer is read back.** -/
theorem parseI64_itoa (i : Int64) : parseI64 (itoa i) = some i := by
  have hlow := i.le_toInt
  have hhigh := i.toInt_lt
  have hne : Decimal.text 20 i.toInt.natAbs ≠ [] := Decimal.text_ne_nil (by decide)
  have hdigits : Decimal.parseDigits (Decimal.text 20 i.toInt.natAbs) = some i.toInt.natAbs :=
    Decimal.parseDigits_text (natAbs_toInt_lt i)
  have hhead : ∀ c ∈ ['-', '+'], (Decimal.text 20 i.toInt.natAbs).head? ≠ some c := by
    intro c hc hhead
    obtain ⟨d, hd, rfl⟩ := Decimal.digit_of_mem_text (mem_of_head? hhead)
    interval_cases d <;> revert hc <;> decide
  rw [itoa_eq]
  by_cases hneg : i.toInt < 0
  · have hvalue : -(i.toInt.natAbs : ℤ) = i.toInt := by omega
    rw [if_pos hneg, singleton_append, parseI64]
    simp only [head?_cons, true_or, if_true, tail_cons]
    rw [if_neg hne, hdigits]
    simp only [hvalue]
    rw [if_pos ⟨hlow, hhigh⟩, Int64.ofInt_toInt]
  · have hvalue : (i.toInt.natAbs : ℤ) = i.toInt := by omega
    have hminus := hhead '-' (by decide)
    have hplus := hhead '+' (by decide)
    rw [if_neg hneg, nil_append, parseI64, if_neg (not_or.2 ⟨hminus, hplus⟩), if_neg hne, hdigits]
    simp only [if_neg hminus, hvalue]
    rw [if_pos ⟨hlow, hhigh⟩, Int64.ofInt_toInt]

/-- The parts of an integer. -/
def intParts (i : Int64) : Parts :=
  ⟨i.toInt < 0, if i.toInt = 0 then [0] else Decimal.digits 20 i.toInt.natAbs, [], none⟩

theorem intParts_text (i : Int64) : (intParts i).text = itoa i := by
  rw [intParts, itoa, Parts.text]
  by_cases hzero : i.toInt = 0
  · simp only [hzero]
    rfl
  · simp only [if_neg hzero, Parts.fractionText, Parts.exponentText, Parts.digitsText, if_true,
      append_nil, decide_eq_true_eq]

theorem intParts_valid (i : Int64) : (intParts i).Valid := by
  by_cases hzero : i.toInt = 0
  · rw [intParts, if_pos hzero]
    exact ⟨.inl rfl, by simp, by simp, by simp⟩
  · rw [intParts, if_neg hzero]
    have hlt := natAbs_toInt_lt i
    refine ⟨.inr ?_, fun d hd => Decimal.lt_of_mem_digits hd, by simp, by simp⟩
    obtain ⟨d, ds, hds⟩ := exists_cons_of_ne_nil
      (Decimal.digits_ne_nil (by decide : 0 < 20) (mt Int.natAbs_eq_zero.1 hzero))
    exact ⟨d, ds, hds, (Decimal.head_digits hlt hds).ne'⟩

def Number.isFloat {F : Type} : Number F → Bool
  | .int _ => false
  | .float _ => true

section Values

variable {F : Type} {floats : FloatText F} {limits : Limits} {rest : List UInt8}

/-- The text of a number is that of parts, and what it has of a float it has from one. -/
theorem number_parts {n : Number F} (hexact : ∀ f, n = .float f → floats.Exact f) :
    ∃ parts : Parts, parts.Valid ∧ writeNumber floats n = parts.text ∧
      parts.isFloat = n.isFloat := by
  cases n with
  | int i => exact ⟨intParts i, intParts_valid i, (intParts_text i).symm, rfl⟩
  | float f =>
    obtain ⟨parts, hvalid, hfloat, htext⟩ := (hexact f rfl).decimal
    refine ⟨parts, hvalid, ?_, hfloat⟩
    rw [writeNumber, if_pos (hexact f rfl).finite, htext]

/-- **A number is read back.** -/
theorem parseNumber_eq {n : Number F} (hexact : ∀ f, n = .float f → floats.Exact f)
    (hrest : Ends rest) (pos : ℕ) :
    parseNumber floats ⟨pos, Utf8.encode (writeNumber floats n) ++ rest⟩ =
      .ok (.number n, ⟨pos + (Utf8.encode (writeNumber floats n)).length, rest⟩) := by
  obtain ⟨parts, hvalid, htext, hfloat⟩ := number_parts hexact
  have hspan : (Cursor.mk pos (Utf8.encode (writeNumber floats n) ++ rest)).span
      ⟨pos + (Utf8.encode (writeNumber floats n)).length, rest⟩ =
        Utf8.encode (writeNumber floats n) := by
    rw [Cursor.span, Nat.add_sub_cancel_left, take_left]
  have hscan := Parts.scanNumber_eq hvalid hrest pos
  rw [← htext] at hscan
  rw [parseNumber, hscan]
  dsimp only
  rw [hspan, Utf8.decode_encode]
  cases n with
  | int i =>
    have hint : (if parts.isFloat = true then none else parseI64 (writeNumber floats (.int i))) =
        some i := by
      rw [hfloat, ← parseI64_itoa i]
      rfl
    dsimp only
    rw [hint]
  | float f =>
    have hnone : (if parts.isFloat = true then none else parseI64 (writeNumber floats (.float f))) =
        none := if_pos hfloat
    have hread : floats.parse (writeNumber floats (.float f)) = some f := by
      rw [writeNumber, if_pos (hexact f rfl).finite, (hexact f rfl).exact]
    dsimp only
    rw [hnone, hread]
    dsimp only
    rw [if_pos (hexact f rfl).finite]

/-- A word is read back. -/
theorem parseLiteral_eq (word : List UInt8) (v : Value F) (pos : ℕ) :
    parseLiteral word v ⟨pos, word ++ rest⟩ = .ok (v, ⟨pos + word.length, rest⟩) := by
  have hword : word.isPrefixOf (word ++ rest) = true :=
    isPrefixOf_iff_prefix.2 (prefix_append word rest)
  rw [parseLiteral, if_neg (by simp), hword, Cursor.advance_append]
  rfl

end Values

end HypeLlm.Json
