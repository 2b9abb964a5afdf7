import HypeLlm.Lib.Utf8

/-!
# Base64

Encoding and strict decoding, in either alphabet, with padding that is required or forbidden.  Bits are
counted in numbers here: a group of three bytes is four numbers below 64.

* `symbolValue_symbolChar` — a symbol stands for its value;
* `encode_symbols` — what is written besides padding is symbols;
* **`decode_encode`** — what was encoded is decoded.
-/

namespace HypeLlm.Crypto.Base64

open List

inductive Alphabet where
  /-- `A-Za-z0-9+/` -/
  | standard
  /-- `A-Za-z0-9-_` -/
  | urlSafe
  deriving Repr, DecidableEq

inductive Padding where
  | required
  | forbidden
  deriving Repr, DecidableEq

inductive Base64Error where
  | invalidCharacter
  | invalidLength
  | invalidPadding
  | nonCanonical
  | tooLong
  deriving Repr, DecidableEq

/-- The symbol of a number of six bits. -/
def symbolChar (v : ℕ) (a : Alphabet) : Char :=
  if v < 26 then Char.ofNat (65 + v)
  else if v < 52 then Char.ofNat (97 + (v - 26))
  else if v < 62 then Char.ofNat (48 + (v - 52))
  else if v = 62 then
    match a with
    | .standard => '+'
    | .urlSafe => '-'
  else
    match a with
    | .standard => '/'
    | .urlSafe => '_'

def symbolValue (c : UInt8) (a : Alphabet) : Option ℕ :=
  if 65 ≤ c ∧ c ≤ 90 then some (c.toNat - 65)
  else if 97 ≤ c ∧ c ≤ 122 then some (c.toNat - 97 + 26)
  else if 48 ≤ c ∧ c ≤ 57 then some (c.toNat - 48 + 52)
  else if c = 43 ∧ a = .standard then some 62
  else if c = 47 ∧ a = .standard then some 63
  else if c = 45 ∧ a = .urlSafe then some 62
  else if c = 95 ∧ a = .urlSafe then some 63
  else none

/-- What stands for a symbol that is not there. -/
def pad : Padding → List Char
  | .required => ['=']
  | .forbidden => []

def encode (a : Alphabet) (p : Padding) : List UInt8 → List Char
  | [] => []
  | [b0] => [symbolChar (b0.toNat / 4) a, symbolChar (b0.toNat % 4 * 16) a] ++ pad p ++ pad p
  | [b0, b1] =>
    [symbolChar (b0.toNat / 4) a, symbolChar (b0.toNat % 4 * 16 + b1.toNat / 16) a,
      symbolChar (b1.toNat % 16 * 4) a] ++ pad p
  | b0 :: b1 :: b2 :: rest =>
    symbolChar (b0.toNat / 4) a :: symbolChar (b0.toNat % 4 * 16 + b1.toNat / 16) a ::
      symbolChar (b1.toNat % 16 * 4 + b2.toNat / 64) a :: symbolChar (b2.toNat % 64) a :: encode a p rest

def encodeStd (data : List UInt8) : List Char := encode .standard .required data

/-- The input without its padding. -/
def unpadded (p : Padding) (input : List UInt8) : Except Base64Error (List UInt8) :=
  match p with
  | .forbidden => if 61 ∈ input then .error .invalidPadding else .ok input
  | .required =>
    if input.length % 4 ≠ 0 then .error .invalidPadding
    else
      let count := (input.reverse.takeWhile (· = 61)).length
      if 2 < count then .error .invalidPadding
      else
        let body := input.take (input.length - count)
        if 61 ∈ body then .error .invalidPadding else .ok body

def value (c : UInt8) (a : Alphabet) : Except Base64Error ℕ :=
  match symbolValue c a with
  | some v => .ok v
  | none => .error .invalidCharacter

/-- The bytes of groups of four symbols, the last group of two or three perhaps. -/
def decodeGroups (a : Alphabet) : List UInt8 → Except Base64Error (List UInt8)
  | [] => .ok []
  | [c0, c1] => do
    let v0 ← value c0 a
    let v1 ← value c1 a
    if v1 % 16 ≠ 0 then .error .nonCanonical else .ok [UInt8.ofNat (v0 * 4 + v1 / 16)]
  | [c0, c1, c2] => do
    let v0 ← value c0 a
    let v1 ← value c1 a
    let v2 ← value c2 a
    if v2 % 4 ≠ 0 then .error .nonCanonical
    else .ok [UInt8.ofNat (v0 * 4 + v1 / 16), UInt8.ofNat (v1 * 16 + v2 / 4)]
  | c0 :: c1 :: c2 :: c3 :: rest => do
    let v0 ← value c0 a
    let v1 ← value c1 a
    let v2 ← value c2 a
    let v3 ← value c3 a
    let bytes ← decodeGroups a rest
    .ok (UInt8.ofNat (v0 * 4 + v1 / 16) :: UInt8.ofNat (v1 * 16 + v2 / 4) :: UInt8.ofNat (v2 * 64 + v3) :: bytes)
  | [_] => .error .invalidLength

/-- The bytes that a body of some length holds. -/
def decodedLength (n : ℕ) : ℕ := n / 4 * 3 + (if n % 4 = 2 then 1 else if n % 4 = 3 then 2 else 0)

def decode (input : List UInt8) (a : Alphabet) (p : Padding) (maxOutput : ℕ) : Except Base64Error (List UInt8) := do
  let body ← unpadded p input
  if body.length % 4 = 1 then .error .invalidLength
  else if maxOutput < decodedLength body.length then .error .tooLong
  else decodeGroups a body

/-! ### Symbols -/

/-- A symbol is written in one byte, which stands for its value and is no padding. -/
theorem symbolValue_symbolChar : ∀ v < 64, ∀ a : Alphabet,
    Utf8.encode [symbolChar v a] = [UInt8.ofNat (symbolChar v a).toNat] ∧
      symbolValue (UInt8.ofNat (symbolChar v a).toNat) a = some v ∧ UInt8.ofNat (symbolChar v a).toNat ≠ 61 := by
  intro v hv a
  cases a <;> revert v <;> decide

/-- The byte of a symbol. -/
def symbolByte (v : ℕ) (a : Alphabet) : UInt8 := UInt8.ofNat (symbolChar v a).toNat

variable {a : Alphabet} {p : Padding}

theorem encode_symbols {values : List ℕ} (h : ∀ v ∈ values, v < 64) (chars : List Char) :
    Utf8.encode (values.map (symbolChar · a) ++ chars) = values.map (symbolByte · a) ++ Utf8.encode chars := by
  rw [Utf8.encode_append]
  congr 1
  induction values with
  | nil => rfl
  | cons v values ih =>
    have hsymbol := (symbolValue_symbolChar v (h v mem_cons_self) a).1
    have hsplit : (v :: values).map (symbolChar · a) = [symbolChar v a] ++ values.map (symbolChar · a) := rfl
    rw [hsplit, Utf8.encode_append, hsymbol, ih fun w hw => h w (mem_cons_of_mem v hw)]
    rfl

theorem value_symbolByte {v : ℕ} (hv : v < 64) : value (symbolByte v a) a = .ok v := by
  rw [value, symbolByte, (symbolValue_symbolChar v hv a).2.1]

theorem padding_notMem {values : List ℕ} (h : ∀ v ∈ values, v < 64) : 61 ∉ values.map (symbolByte · a) := by
  intro hmem
  obtain ⟨v, hv, heq⟩ := mem_map.1 hmem
  exact (symbolValue_symbolChar v (h v hv) a).2.2 heq

/-! ### What was encoded is decoded -/

/-- What is written: symbols that are decoded to the data, and padding to groups of four. -/
structure Written (a : Alphabet) (p : Padding) (data : List UInt8) (values : List ℕ) (n : ℕ) : Prop where
  text : encode a p data = values.map (symbolChar · a) ++ replicate n '='
  small : ∀ v ∈ values, v < 64
  groups : decodeGroups a (values.map (symbolByte · a)) = .ok data
  few : n ≤ 2
  forbidden : p = .forbidden → n = 0
  required : p = .required → (values.length + n) % 4 = 0
  notSingle : values.length % 4 ≠ 1
  length : decodedLength values.length = data.length

/-- The values of the symbols that a group of bytes is written in. -/
def groupValues : List UInt8 → List ℕ
  | [] => []
  | [b0] => [b0.toNat / 4, b0.toNat % 4 * 16]
  | [b0, b1] => [b0.toNat / 4, b0.toNat % 4 * 16 + b1.toNat / 16, b1.toNat % 16 * 4]
  | b0 :: b1 :: b2 :: _ =>
    [b0.toNat / 4, b0.toNat % 4 * 16 + b1.toNat / 16, b1.toNat % 16 * 4 + b2.toNat / 64, b2.toNat % 64]

theorem groupValues_lt (data : List UInt8) : ∀ v ∈ groupValues data, v < 64 := by
  unfold groupValues
  split
  · exact nofun
  · rename_i b0
    have h0 := b0.toNat_lt
    simp only [forall_mem_cons]
    exact ⟨by omega, by omega, nofun⟩
  · rename_i b0 b1
    have h0 := b0.toNat_lt
    have h1 := b1.toNat_lt
    simp only [forall_mem_cons]
    exact ⟨by omega, by omega, by omega, nofun⟩
  · rename_i b0 b1 b2 _
    have h0 := b0.toNat_lt
    have h1 := b1.toNat_lt
    have h2 := b2.toNat_lt
    simp only [forall_mem_cons]
    exact ⟨by omega, by omega, by omega, by omega, nofun⟩

/-- A byte from the bits of it in two symbols. -/
theorem ofNat_bits {b : UInt8} {n : ℕ} (h : n % 256 = b.toNat) : UInt8.ofNat n = b := by
  rw [← UInt8.toNat_inj, UInt8.toNat_ofNat', h]

theorem decodedLength_four_add (n : ℕ) : decodedLength (4 + n) = decodedLength n + 3 := by
  unfold decodedLength
  split_ifs <;> omega

theorem written_encode (a : Alphabet) (p : Padding) (data : List UInt8) : ∃ values n, Written a p data values n := by
  induction data using encode.induct with
  | case1 => exact ⟨[], 0, rfl, nofun, rfl, by decide, fun _ => rfl, fun _ => rfl, by decide, rfl⟩
  | case2 b0 =>
    have h0 := b0.toNat_lt
    have hsmall := groupValues_lt [b0]
    have hlength : decodedLength 2 = 1 := by decide
    have hfour : (2 + 2) % 4 = 0 := by decide
    have hsingle : 2 % 4 ≠ 1 := by decide
    have hgroups : decodeGroups a ((groupValues [b0]).map (symbolByte · a)) = .ok [b0] := by
      simp only [groupValues, forall_mem_cons] at hsmall
      show (value _ a >>= fun v0 => value _ a >>= fun v1 => _) = _
      rw [value_symbolByte hsmall.1, value_symbolByte hsmall.2.1]
      show (if _ then _ else _) = _
      rw [if_neg (by omega), ofNat_bits (b := b0) (by omega)]
    cases p with
    | required => exact ⟨_, 2, rfl, hsmall, hgroups, le_rfl, nofun, fun _ => hfour, hsingle, hlength⟩
    | forbidden => exact ⟨_, 0, rfl, hsmall, hgroups, by decide, fun _ => rfl, nofun, hsingle, hlength⟩
  | case3 b0 b1 =>
    have h0 := b0.toNat_lt
    have h1 := b1.toNat_lt
    have hsmall := groupValues_lt [b0, b1]
    have hlength : decodedLength 3 = 2 := by decide
    have hfour : (3 + 1) % 4 = 0 := by decide
    have hsingle : 3 % 4 ≠ 1 := by decide
    have hgroups : decodeGroups a ((groupValues [b0, b1]).map (symbolByte · a)) = .ok [b0, b1] := by
      simp only [groupValues, forall_mem_cons] at hsmall
      show (value _ a >>= fun v0 => value _ a >>= fun v1 => value _ a >>= fun v2 => _) = _
      rw [value_symbolByte hsmall.1, value_symbolByte hsmall.2.1, value_symbolByte hsmall.2.2.1]
      show (if _ then _ else _) = _
      rw [if_neg (by omega), ofNat_bits (b := b0) (by omega), ofNat_bits (b := b1) (by omega)]
    cases p with
    | required => exact ⟨_, 1, rfl, hsmall, hgroups, by decide, nofun, fun _ => hfour, hsingle, hlength⟩
    | forbidden => exact ⟨_, 0, rfl, hsmall, hgroups, by decide, fun _ => rfl, nofun, hsingle, hlength⟩
  | case4 b0 b1 b2 rest ih =>
    have h0 := b0.toNat_lt
    have h1 := b1.toNat_lt
    have h2 := b2.toNat_lt
    obtain ⟨values, n, htext, hsmall, hgroups, hfew, hforbidden, hrequired, hsingle, hlength⟩ := ih
    have hgroup := groupValues_lt (b0 :: b1 :: b2 :: rest)
    refine ⟨groupValues (b0 :: b1 :: b2 :: rest) ++ values, n, ?_, ?_, ?_, hfew, hforbidden, ?_, ?_, ?_⟩
    · rw [encode, htext]
      rfl
    · exact fun v hv => (mem_append.1 hv).elim (hgroup v) (hsmall v)
    · simp only [groupValues, forall_mem_cons] at hgroup
      show (value _ a >>= fun v0 => value _ a >>= fun v1 => value _ a >>= fun v2 => value _ a >>= fun v3 =>
        decodeGroups a (values.map (symbolByte · a)) >>= fun bytes => _) = _
      rw [value_symbolByte hgroup.1, value_symbolByte hgroup.2.1, value_symbolByte hgroup.2.2.1,
        value_symbolByte hgroup.2.2.2.1, hgroups]
      show Except.ok (_ :: _ :: _ :: rest) = _
      rw [ofNat_bits (b := b0) (by omega), ofNat_bits (b := b1) (by omega), ofNat_bits (b := b2) (by omega)]
    · intro hp
      have hrequired := hrequired hp
      rw [length_append, groupValues]
      simp only [length_cons, length_nil]
      omega
    · rw [length_append, groupValues]
      simp only [length_cons, length_nil]
      omega
    · have hfour : (groupValues (b0 :: b1 :: b2 :: rest)).length = 4 := rfl
      rw [length_append, hfour, decodedLength_four_add, hlength]
      rfl

theorem unpadded_body {body : List UInt8} {n : ℕ} (hbody : 61 ∉ body) (hfew : n ≤ 2)
    (hforbidden : p = .forbidden → n = 0) (hrequired : p = .required → (body.length + n) % 4 = 0) :
    unpadded p (body ++ replicate n 61) = .ok body := by
  cases p with
  | forbidden =>
    rw [hforbidden rfl, replicate_zero, append_nil, unpadded, if_neg hbody]
  | required =>
    have hcount : ((body ++ replicate n 61).reverse.takeWhile (· = 61)).length = n := by
      have hpad : ∀ c ∈ replicate n (61 : UInt8), decide (c = 61) = true :=
        fun c hc => decide_eq_true (eq_of_mem_replicate hc)
      have hnone : body.reverse.takeWhile (· = 61) = [] := by
        cases hrev : body.reverse with
        | nil => rfl
        | cons c rest =>
          have hc : c ≠ 61 := fun heq => hbody (mem_reverse.1 (hrev ▸ heq ▸ mem_cons_self))
          rw [takeWhile_cons_of_neg (by simpa using hc)]
      rw [reverse_append, reverse_replicate, takeWhile_append_of_pos hpad, hnone, append_nil, length_replicate]
    have hlen : (body ++ replicate n (61 : UInt8)).length - n = body.length := by
      rw [length_append, length_replicate, Nat.add_sub_cancel]
    have hfour : (body ++ replicate n (61 : UInt8)).length % 4 = 0 := by
      rw [length_append, length_replicate]
      exact hrequired rfl
    simp only [unpadded]
    rw [if_neg (not_not.2 hfour), hcount, if_neg (Nat.not_lt.2 hfew), hlen, take_left' rfl, if_neg hbody]

/-- **What was encoded is decoded**, where there is room for it. -/
theorem decode_encode (a : Alphabet) (p : Padding) {data : List UInt8} {maxOutput : ℕ}
    (h : data.length ≤ maxOutput) : decode (Utf8.encode (encode a p data)) a p maxOutput = .ok data := by
  obtain ⟨values, n, htext, hsmall, hgroups, hfew, hforbidden, hrequired, hsingle, hlength⟩ :=
    written_encode a p data
  have hpad : Utf8.encode (replicate n '=') = replicate n 61 := by
    rw [Utf8.encode, flatMap_replicate]
    exact flatten_replicate_singleton
  have hbody : unpadded p (values.map (symbolByte · a) ++ replicate n 61) = .ok (values.map (symbolByte · a)) :=
    unpadded_body (padding_notMem hsmall) hfew hforbidden (by rwa [length_map])
  rw [htext, encode_symbols hsmall, hpad, decode, hbody]
  show (if _ then _ else _) = _
  rw [length_map, if_neg hsingle, hlength, if_neg (Nat.not_lt.2 h), hgroups]

/-! ### What it is written in -/

theorem mem_encode {a : Alphabet} {p : Padding} {data : List UInt8} {c : Char} (h : c ∈ encode a p data) :
    (∃ v < 64, c = symbolChar v a) ∨ c = '=' := by
  obtain ⟨values, n, hwritten⟩ := written_encode a p data
  rw [hwritten.text] at h
  obtain h | h := mem_append.1 h
  · obtain ⟨v, hv, rfl⟩ := mem_map.1 h
    exact .inl ⟨v, hwritten.small v hv, rfl⟩
  · exact .inr (eq_of_mem_replicate h)

/-- What can be said of each symbol and of the padding can be said of the text. -/
theorem forall_mem_encodeStd {q : Char → Bool} (hsymbols : ∀ v < 64, q (symbolChar v .standard) = true)
    (hpad : q '=' = true) {data : List UInt8} {c : Char} (h : c ∈ encodeStd data) : q c = true := by
  obtain ⟨v, hv, rfl⟩ | rfl := mem_encode h
  · exact hsymbols v hv
  · exact hpad

theorem length_encode_le (a : Alphabet) (p : Padding) (data : List UInt8) :
    (Utf8.encode (encode a p data)).length ≤ 4 * data.length := by
  obtain ⟨values, n, hwritten⟩ := written_encode a p data
  have hpad : (Utf8.encode (replicate n '=')).length = n := by
    rw [Utf8.encode, flatMap_replicate, show Utf8.encodeChar '=' = [61] from rfl, flatten_replicate_singleton,
      length_replicate]
  have hlength := hwritten.length
  have hfew := hwritten.few
  have hforbidden := hwritten.forbidden
  have hrequired := hwritten.required
  rw [hwritten.text, encode_symbols hwritten.small, length_append, length_map, hpad]
  unfold decodedLength at hlength
  cases p with
  | required =>
    have hrequired := hrequired rfl
    split_ifs at hlength <;> omega
  | forbidden =>
    have hforbidden := hforbidden rfl
    have hsingle := hwritten.notSingle
    split_ifs at hlength <;> omega

end HypeLlm.Crypto.Base64
