import Mathlib

/-!
# Text as bytes

Text is a list of characters, and its bytes are the UTF-8 encodings of the characters one after the
other.  `decode` reads bytes as text, or finds that they are none.

* `decode_eq_some_iff` — bytes decode to a text exactly when they encode it;
* `encodeChar_ascii`, `encodeChar_wide` — a character below 128 is its one byte, and every byte of any
  other character is 128 or more, so a byte below 128 is never inside a character.
-/

namespace HypeLlm.Utf8

open List

/-- The bytes of one character. -/
def encodeChar (c : Char) : List UInt8 := String.utf8EncodeChar c

/-- The bytes of a text. -/
def encode (text : List Char) : List UInt8 := text.flatMap encodeChar

@[simp] theorem encode_nil : encode [] = [] := rfl

@[simp] theorem encode_cons (c : Char) (text : List Char) :
    encode (c :: text) = encodeChar c ++ encode text := rfl

@[simp] theorem encode_append (a b : List Char) : encode (a ++ b) = encode a ++ encode b :=
  flatMap_append

/-- The bytes a string is kept as. -/
theorem encode_toList (s : String) : encode s.toList = s.toByteArray.data.toList := by
  have hbytes : s.toByteArray = s.toList.utf8Encode := String.utf8Encode_toList.symm
  rw [hbytes, encode, utf8Encode, List.data_toByteArray]
  rfl

theorem byteArray_toList_loop (bytes : ByteArray) (i : ℕ) (read : List UInt8) :
    ByteArray.toList.loop bytes i read = read.reverse ++ bytes.data.toList.drop i := by
  induction i, read using ByteArray.toList.loop.induct bytes with
  | case1 i read hlt ih =>
    have hlength : i < bytes.data.toList.length := hlt
    have hget : bytes.get! i = bytes.data.toList[i] := getElem!_pos bytes.data i hlt
    rw [ByteArray.toList.loop, if_pos hlt, ih, hget, reverse_cons, append_assoc, singleton_append,
      ← drop_eq_getElem_cons hlength]
  | case2 i read hlt =>
    rw [ByteArray.toList.loop, if_neg hlt, drop_eq_nil_of_le (Nat.le_of_not_lt hlt), append_nil]

/-- The bytes of a string that is given by its characters. -/
theorem toUTF8_toList_ofList (text : List Char) :
    (String.ofList text).toUTF8.toList = encode text := by
  have hread := byteArray_toList_loop (String.ofList text).toUTF8 0 []
  rw [reverse_nil, nil_append, drop_zero, String.toUTF8, ← encode_toList, String.toList_ofList] at hread
  exact hread

theorem length_encodeChar (c : Char) : (encodeChar c).length = c.utf8Size :=
  String.length_utf8EncodeChar c

theorem length_encodeChar_pos (c : Char) : 0 < (encodeChar c).length := by
  rw [length_encodeChar]
  exact c.utf8Size_pos

theorem encodeChar_ne_nil (c : Char) : encodeChar c ≠ [] :=
  length_pos_iff.1 (length_encodeChar_pos c)

theorem encode_eq_nil {text : List Char} (h : encode text = []) : text = [] := by
  cases text with
  | nil => rfl
  | cons c text =>
    rw [encode_cons, append_eq_nil_iff] at h
    exact absurd h.1 (encodeChar_ne_nil c)

/-! ### Decoding -/

/-- The first character of some bytes. -/
def decodeChar (bytes : List UInt8) : Option Char := bytes.toByteArray.utf8DecodeChar? 0

theorem decodeChar_encodeChar (c : Char) (rest : List UInt8) :
    decodeChar (encodeChar c ++ rest) = some c := by
  rw [decodeChar, encodeChar, toByteArray_append]
  exact ByteArray.utf8DecodeChar?_utf8EncodeChar_append

theorem eq_of_decodeChar {bytes : List UInt8} {c : Char} (h : decodeChar bytes = some c) :
    bytes = encodeChar c ++ bytes.drop (encodeChar c).length := by
  obtain ⟨rest, hrest⟩ := ByteArray.exists_of_utf8DecodeChar?_eq_some h
  have hbytes : bytes = encodeChar c ++ rest.data.toList := by
    have hlist := congrArg (fun b => b.data.toList) hrest
    simpa [encodeChar] using hlist
  rw [hbytes, drop_left]

/-- Read text, at most `fuel` characters of it. -/
def decodeUpTo : ℕ → List UInt8 → Option (List Char)
  | _, [] => some []
  | 0, _ :: _ => none
  | fuel + 1, b :: bs =>
    match decodeChar (b :: bs) with
    | none => none
    | some c => (decodeUpTo fuel ((b :: bs).drop (encodeChar c).length)).map (c :: ·)

/-- Read text. -/
def decode (bytes : List UInt8) : Option (List Char) := decodeUpTo bytes.length bytes

theorem decodeUpTo_encode {text : List Char} {fuel : ℕ} (h : (encode text).length ≤ fuel) :
    decodeUpTo fuel (encode text) = some text := by
  induction text generalizing fuel with
  | nil => cases fuel <;> rfl
  | cons c text ih =>
    have hpos := length_encodeChar_pos c
    rw [encode_cons, length_append] at h
    obtain ⟨fuel, rfl⟩ : ∃ n, fuel = n + 1 := ⟨fuel - 1, by omega⟩
    obtain ⟨b, bs, hcons⟩ : ∃ b bs, encode (c :: text) = b :: bs :=
      exists_cons_of_ne_nil (mt encode_eq_nil (cons_ne_nil c text))
    rw [hcons, decodeUpTo, ← hcons, encode_cons, decodeChar_encodeChar]
    dsimp only
    rw [drop_left, ih (by omega), Option.map_some]

theorem encode_of_decodeUpTo {fuel : ℕ} {bytes : List UInt8} {text : List Char}
    (h : decodeUpTo fuel bytes = some text) : encode text = bytes := by
  induction fuel generalizing bytes text with
  | zero =>
    cases bytes with
    | nil =>
      obtain rfl := Option.some.inj h
      rfl
    | cons b bs => cases h
  | succ fuel ih =>
    cases bytes with
    | nil =>
      obtain rfl := Option.some.inj h
      rfl
    | cons b bs =>
      rw [decodeUpTo] at h
      cases hchar : decodeChar (b :: bs) with
      | none =>
        rw [hchar] at h
        cases h
      | some c =>
        rw [hchar] at h
        obtain ⟨rest, hrest, rfl⟩ := Option.map_eq_some_iff.1 h
        rw [encode_cons, ih hrest]
        exact (eq_of_decodeChar hchar).symm

/-- **Bytes decode to a text exactly when they encode it.** -/
theorem decode_eq_some_iff {bytes : List UInt8} {text : List Char} :
    decode bytes = some text ↔ encode text = bytes := by
  constructor
  · exact encode_of_decodeUpTo
  · rintro rfl
    exact decodeUpTo_encode le_rfl

@[simp] theorem decode_encode (text : List Char) : decode (encode text) = some text :=
  decode_eq_some_iff.2 rfl

theorem encode_injective : Function.Injective encode := by
  intro a b h
  exact Option.some.inj (by rw [← decode_encode a, ← decode_encode b, h])

/-! ### Decoding what may be no text -/

/-- A byte that may follow the first of a character of three or four bytes. -/
def followsLead (first second : UInt8) : Bool :=
  if first.toNat = 0xE0 then decide (0xA0 ≤ second.toNat ∧ second.toNat ≤ 0xBF)
  else if first.toNat = 0xED then decide (0x80 ≤ second.toNat ∧ second.toNat ≤ 0x9F)
  else if first.toNat = 0xF0 then decide (0x90 ≤ second.toNat ∧ second.toNat ≤ 0xBF)
  else if first.toNat = 0xF4 then decide (0x80 ≤ second.toNat ∧ second.toNat ≤ 0x8F)
  else decide (0x80 ≤ second.toNat ∧ second.toNat ≤ 0xBF)

/-- Where no character is complete: the bytes that begin one, and one byte at least. -/
def brokenLength (bytes : List UInt8) : ℕ :=
  match bytes with
  | first :: second :: rest =>
    if 0xE0 ≤ first.toNat ∧ first.toNat ≤ 0xF4 ∧ followsLead first second then
      match rest with
      | third :: _ =>
        if 0xF0 ≤ first.toNat ∧ 0x80 ≤ third.toNat ∧ third.toNat ≤ 0xBF then 3 else 2
      | [] => 2
    else 1
  | _ => 1

def replacement : Char := '\uFFFD'

/-- Read text, a replacement standing for each stretch that is none; at most `fuel` characters. -/
def decodeLossyUpTo : ℕ → List UInt8 → List Char
  | _, [] => []
  | 0, _ :: _ => []
  | fuel + 1, b :: bs =>
    match decodeChar (b :: bs) with
    | some c => c :: decodeLossyUpTo fuel ((b :: bs).drop (encodeChar c).length)
    | none => replacement :: decodeLossyUpTo fuel ((b :: bs).drop (brokenLength (b :: bs)))

def decodeLossy (bytes : List UInt8) : List Char := decodeLossyUpTo bytes.length bytes

theorem decodeLossyUpTo_of_decodeUpTo {fuel : ℕ} {bytes : List UInt8} {text : List Char}
    (h : decodeUpTo fuel bytes = some text) : decodeLossyUpTo fuel bytes = text := by
  induction fuel generalizing bytes text with
  | zero =>
    cases bytes with
    | nil => exact Option.some.inj h
    | cons b bs => cases h
  | succ fuel ih =>
    cases bytes with
    | nil => exact Option.some.inj h
    | cons b bs =>
      rw [decodeUpTo] at h
      rw [decodeLossyUpTo]
      cases hchar : decodeChar (b :: bs) with
      | none =>
        rw [hchar] at h
        cases h
      | some c =>
        rw [hchar] at h
        obtain ⟨rest, hrest, rfl⟩ := Option.map_eq_some_iff.1 h
        simp only [ih hrest]

/-- What is text is read as it is. -/
@[simp] theorem decodeLossy_encode (text : List Char) : decodeLossy (encode text) = text :=
  decodeLossyUpTo_of_decodeUpTo (decode_encode text)

/-! ### Bytes below 128 -/

/-- A character below 128 is its one byte. -/
theorem encodeChar_ascii {c : Char} (h : c.toNat < 128) : encodeChar c = [UInt8.ofNat c.toNat] := by
  have hle : c.val ≤ 127 := by
    rw [UInt32.le_iff_toNat_le]
    exact Nat.le_of_lt_succ h
  exact String.utf8EncodeChar_eq_singleton (Char.utf8Size_eq_one_iff.2 hle)

/-- The number of bytes of a character of two or more, by its first. -/
def leadLength (first : UInt8) : ℕ := if first.toNat < 0xE0 then 2 else if first.toNat < 0xF0 then 3 else 4

theorem toNat_byte {n base : ℕ} (h : n + base < 256) : (UInt8.ofNat (n + base)).toNat = n + base := by
  rw [UInt8.toNat_ofNat', Nat.mod_eq_of_lt h]

/-- The bytes of a character from 128 on: the first tells their number, and the others go from 128
to 191. -/
theorem encodeChar_wide {c : Char} (h : 128 ≤ c.toNat) :
    ∃ first rest, encodeChar c = first :: rest ∧ 0xC0 ≤ first.toNat ∧ first.toNat < 0xF8 ∧
      rest.length + 1 = leadLength first ∧ ∀ b ∈ rest, 128 ≤ b.toNat ∧ b.toNat < 192 := by
  have hval : ¬ c.val.toNat ≤ 0x7f := not_le.2 h
  have hrest : ∀ n, 128 ≤ (UInt8.ofNat (n % 0x40 + 0x80)).toNat ∧
      (UInt8.ofNat (n % 0x40 + 0x80)).toNat < 192 := by
    intro n
    rw [toNat_byte (by omega)]
    omega
  unfold encodeChar String.utf8EncodeChar
  rw [if_neg hval]
  split
  · have hfirst := toNat_byte (show c.val.toNat / 64 % 0x20 + 0xc0 < 256 by omega)
    refine ⟨_, _, rfl, by omega, by omega, ?_, ?_⟩
    · rw [leadLength, hfirst, if_pos (by omega)]
      rfl
    · intro b hb
      obtain rfl := mem_singleton.1 hb
      exact hrest _
  · split
    · have hfirst := toNat_byte (show c.val.toNat / 4096 % 0x10 + 0xe0 < 256 by omega)
      refine ⟨_, _, rfl, by omega, by omega, ?_, ?_⟩
      · rw [leadLength, hfirst, if_neg (by omega), if_pos (by omega)]
        rfl
      · intro b hb
        simp only [mem_cons, not_mem_nil, or_false] at hb
        rcases hb with rfl | rfl <;> exact hrest _
    · have hfirst := toNat_byte (show c.val.toNat / 262144 % 0x08 + 0xf0 < 256 by omega)
      refine ⟨_, _, rfl, by omega, by omega, ?_, ?_⟩
      · rw [leadLength, hfirst, if_neg (by omega), if_neg (by omega)]
        rfl
      · intro b hb
        simp only [mem_cons, not_mem_nil, or_false] at hb
        rcases hb with rfl | rfl | rfl <;> exact hrest _

theorem le_of_mem_encodeChar {c : Char} (h : 128 ≤ c.toNat) {b : UInt8} (hb : b ∈ encodeChar c) :
    128 ≤ b.toNat := by
  obtain ⟨first, rest, hbytes, hfirst, -, -, hrest⟩ := encodeChar_wide h
  rw [hbytes] at hb
  rcases mem_cons.1 hb with rfl | hb
  · omega
  · exact (hrest b hb).1

/-- Where all bytes of a text are of an ASCII class, so are its characters. -/
theorem forall_ascii {text : List Char} {p : UInt8 → Prop} (h : ∀ b ∈ encode text, p b)
    (hp : ∀ b, p b → b.toNat < 128) {c : Char} (hc : c ∈ text) : c.toNat < 128 ∧ p (UInt8.ofNat c.toNat) := by
  have hbytes : ∀ b ∈ encodeChar c, p b := fun b hb => h b (List.mem_flatMap.2 ⟨c, hc, hb⟩)
  have hascii : c.toNat < 128 := by
    by_contra hwide
    obtain ⟨b, rest, hcons⟩ := List.exists_cons_of_ne_nil (encodeChar_ne_nil c)
    have hmem : b ∈ encodeChar c := by
      rw [hcons]
      exact List.mem_cons_self
    have hlow := hp b (hbytes b hmem)
    have hhigh := le_of_mem_encodeChar (Nat.le_of_not_lt hwide) hmem
    omega
  refine ⟨hascii, hbytes _ ?_⟩
  rw [encodeChar_ascii hascii]
  exact List.mem_cons_self

/-- A byte below 128 in a text is a character of it. -/
theorem mem_of_mem_encode {text : List Char} {b : UInt8} (hb : b ∈ encode text) (hlow : b.toNat < 128) :
    Char.ofNat b.toNat ∈ text := by
  obtain ⟨c, hc, hbyte⟩ := mem_flatMap.1 hb
  by_cases hascii : c.toNat < 128
  · rw [encodeChar_ascii hascii, mem_singleton] at hbyte
    have hsame : b.toNat = c.toNat := by
      rw [hbyte, UInt8.toNat_ofNat', Nat.mod_eq_of_lt (by omega)]
    rw [hsame, Char.ofNat_toNat]
    exact hc
  · have hle := le_of_mem_encodeChar (not_lt.1 hascii) hbyte
    omega

end HypeLlm.Utf8
