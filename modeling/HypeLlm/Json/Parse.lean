import HypeLlm.Json.Value

/-!
# Parsing JSON

A strict parser over bytes that were checked to be UTF-8 before.  It looks one byte ahead, counts
levels of nesting, and reports what is wrong with the offset where it was seen.

The depth of a value is given by the levels that may still be opened in it.  The loops over the
characters of a string, the items of an array and the members of an object read a byte in every
round, so the number of bytes left bounds their rounds.
-/

namespace HypeLlm.Json

open List

inductive ErrorKind where
  | invalidUtf8
  | inputTooLarge
  | empty
  | unexpectedEnd
  | unexpectedByte
  | trailingContent
  | depthExceeded
  | stringTooLong
  | arrayTooLong
  | objectTooLarge
  | duplicateKey
  | controlCharacterInString
  | invalidEscape
  | invalidUnicodeEscape
  | invalidNumber
  | numberOutOfRange
  | byteOrderMark
  deriving Repr, DecidableEq

def ErrorKind.code : ErrorKind → String
  | invalidUtf8 => "invalid_utf8"
  | inputTooLarge => "input_too_large"
  | empty => "empty_input"
  | unexpectedEnd => "unexpected_end"
  | unexpectedByte => "unexpected_byte"
  | trailingContent => "trailing_content"
  | depthExceeded => "depth_exceeded"
  | stringTooLong => "string_too_long"
  | arrayTooLong => "array_too_long"
  | objectTooLarge => "object_too_large"
  | duplicateKey => "duplicate_key"
  | controlCharacterInString => "control_character_in_string"
  | invalidEscape => "invalid_escape"
  | invalidUnicodeEscape => "invalid_unicode_escape"
  | invalidNumber => "invalid_number"
  | numberOutOfRange => "number_out_of_range"
  | byteOrderMark => "byte_order_mark"

/-- A category and a byte offset, nothing else. -/
structure JsonError where
  kind : ErrorKind
  offset : ℕ
  deriving Repr, DecidableEq

structure Limits where
  /-- How deep arrays and objects may nest. -/
  maxDepth : ℕ
  maxStringBytes : ℕ
  maxInputBytes : ℕ
  maxArrayItems : ℕ
  maxObjectEntries : ℕ
  /-- Refuse an object with a key twice. -/
  rejectDuplicateKeys : Bool
  deriving Repr, DecidableEq

/-- The limits of the data plane. -/
def Limits.default : Limits :=
  ⟨64, 8 * 1024 * 1024, 16 * 1024 * 1024, 100000, 10000, true⟩

/-- The limits for small documents. -/
def Limits.small : Limits := ⟨32, 64 * 1024, 1024 * 1024, 10000, 2000, true⟩

/-! ### The place in the input -/

/-- A position and the bytes from there on. -/
structure Cursor where
  pos : ℕ
  rest : List UInt8
  deriving Repr, DecidableEq

namespace Cursor

def err (c : Cursor) (kind : ErrorKind) : JsonError := ⟨kind, c.pos⟩

def peek (c : Cursor) : Option UInt8 := c.rest.head?

/-- Go forward by `n` bytes. -/
def advance (c : Cursor) (n : ℕ) : Cursor := ⟨c.pos + n, c.rest.drop n⟩

/-- The bytes between two places. -/
def span (start c : Cursor) : List UInt8 := start.rest.take (c.pos - start.pos)

end Cursor

/-- Space, tab, line feed and carriage return, and no other space. -/
def isWs (b : UInt8) : Bool := b == 0x20 || b == 0x09 || b == 0x0A || b == 0x0D

def isDigit (b : UInt8) : Bool := decide (0x30 ≤ b.toNat ∧ b.toNat ≤ 0x39)

namespace Cursor

def skipWs (c : Cursor) : Cursor := c.advance (c.rest.takeWhile isWs).length

def skipDigits (c : Cursor) : Cursor := c.advance (c.rest.takeWhile isDigit).length

def expect (c : Cursor) (byte : UInt8) : Except JsonError Cursor :=
  match c.peek with
  | some b => if b = byte then .ok (c.advance 1) else .error (c.err .unexpectedByte)
  | none => .error (c.err .unexpectedEnd)

end Cursor

variable {F : Type}

def parseLiteral (word : List UInt8) (value : Value F) (c : Cursor) :
    Except JsonError (Value F × Cursor) :=
  if c.rest.length < word.length then .error (c.err .unexpectedEnd)
  else if !word.isPrefixOf c.rest then .error (c.err .unexpectedByte)
  else .ok (value, c.advance word.length)

/-! ### Strings -/

/-- How many bytes a character has, by its first one. -/
def utf8Len (first : UInt8) : ℕ :=
  if first.toNat ≤ 0x7F then 1
  else if 0xC0 ≤ first.toNat ∧ first.toNat ≤ 0xDF then 2
  else if 0xE0 ≤ first.toNat ∧ first.toNat ≤ 0xEF then 3
  else if 0xF0 ≤ first.toNat ∧ first.toNat ≤ 0xF7 then 4
  else 1

def hexDigit (b : UInt8) : Option ℕ :=
  if 0x30 ≤ b.toNat ∧ b.toNat ≤ 0x39 then some (b.toNat - 0x30)
  else if 0x61 ≤ b.toNat ∧ b.toNat ≤ 0x66 then some (b.toNat - 0x61 + 10)
  else if 0x41 ≤ b.toNat ∧ b.toNat ≤ 0x46 then some (b.toNat - 0x41 + 10)
  else none

/-- Read `n` hexadecimal digits after those that gave `v`. -/
def parseHex : ℕ → ℕ → Cursor → Except JsonError (ℕ × Cursor)
  | 0, v, c => .ok (v, c)
  | n + 1, v, c =>
    match c.peek with
    | none => .error (c.err .unexpectedEnd)
    | some b =>
      match hexDigit b with
      | none => .error (c.err .invalidUnicodeEscape)
      | some d => parseHex n (16 * v + d) (c.advance 1)

def parseHex4 (c : Cursor) : Except JsonError (ℕ × Cursor) := parseHex 4 0 c

/-- The character of a code point, if it has one. -/
def charFromU32 (cp : ℕ) : Option Char := if cp.isValidChar then some (Char.ofNat cp) else none

/-- What follows `\u`: a character, or the two halves of one. -/
def parseUnicodeEscape (c : Cursor) : Except JsonError (Char × Cursor) := do
  let (first, c) ← parseHex4 c
  if 0xD800 ≤ first ∧ first < 0xDC00 then
    if c.peek ≠ some 0x5C then .error (c.err .invalidUnicodeEscape)
    else
      let c := c.advance 1
      if c.peek ≠ some 0x75 then .error (c.err .invalidUnicodeEscape)
      else
        let (second, c) ← parseHex4 (c.advance 1)
        if ¬ (0xDC00 ≤ second ∧ second < 0xE000) then .error (c.err .invalidUnicodeEscape)
        else
          match charFromU32 (0x10000 + (first - 0xD800) * 1024 + (second - 0xDC00)) with
          | some ch => .ok (ch, c)
          | none => .error (c.err .invalidUnicodeEscape)
  else if 0xDC00 ≤ first ∧ first < 0xE000 then .error (c.err .invalidUnicodeEscape)
  else
    match charFromU32 first with
    | some ch => .ok (ch, c)
    | none => .error (c.err .invalidUnicodeEscape)

/-- What one byte after a backslash stands for. -/
def shortEscape (esc : UInt8) : Option Char :=
  if esc = 0x22 then some '"'
  else if esc = 0x5C then some '\\'
  else if esc = 0x2F then some '/'
  else if esc = 0x62 then some (Char.ofNat 0x08)
  else if esc = 0x66 then some (Char.ofNat 0x0C)
  else if esc = 0x6E then some '\n'
  else if esc = 0x72 then some '\r'
  else if esc = 0x74 then some '\t'
  else none

/-- What follows a backslash. -/
def parseEscape (c : Cursor) : Except JsonError (Char × Cursor) :=
  match c.peek with
  | none => .error (c.err .unexpectedEnd)
  | some esc =>
    if esc = 0x75 then parseUnicodeEscape (c.advance 1)
    else
      match shortEscape esc with
      | some ch => .ok (ch, c.advance 1)
      | none => .error (c.err .invalidEscape)

/-- What was read since `start`: the bytes themselves as long as no escape was seen. -/
def textSince (start c : Cursor) (out : Option (List Char)) : Except JsonError (List Char) :=
  match out with
  | some s => .ok s
  | none =>
    match Utf8.decode (start.span c) with
    | some s => .ok s
    | none => .error (c.err .invalidUtf8)

/-- The characters of a string from `c` on, `out` being those before when an escape was seen. -/
def stringLoop (limits : Limits) (start : Cursor) :
    ℕ → Option (List Char) → Cursor → Except JsonError (List Char × Cursor)
  | 0, _, c => .error (c.err .unexpectedEnd)
  | fuel + 1, out, c =>
    match c.peek with
    | none => .error (c.err .unexpectedEnd)
    | some b =>
      if b = 0x22 then do
        let s ← textSince start c out
        if limits.maxStringBytes < (Utf8.encode s).length then .error (c.err .stringTooLong)
        else .ok (s, c.advance 1)
      else if b.toNat < 0x20 then .error (c.err .controlCharacterInString)
      else if b = 0x5C then do
        let buf ← textSince start c out
        if limits.maxStringBytes < (Utf8.encode buf).length then .error (c.err .stringTooLong)
        else
          let (ch, c) ← parseEscape (c.advance 1)
          stringLoop limits start fuel (some (buf ++ [ch])) c
      else
        match out with
        | some s =>
          -- After an escape a character is copied as a whole.
          if c.rest.length < utf8Len b then .error (c.err .invalidUtf8)
          else
            match Utf8.decode (c.rest.take (utf8Len b)) with
            | none => .error (c.err .invalidUtf8)
            | some valid =>
              let c := c.advance (utf8Len b)
              if limits.maxStringBytes < c.pos - start.pos then .error (c.err .stringTooLong)
              else stringLoop limits start fuel (some (s ++ valid)) c
        | none =>
          let c := c.advance 1
          if limits.maxStringBytes < c.pos - start.pos then .error (c.err .stringTooLong)
          else stringLoop limits start fuel none c

def parseString (limits : Limits) (c : Cursor) : Except JsonError (List Char × Cursor) := do
  let start ← c.expect 0x22
  stringLoop limits start (start.rest.length + 1) none start

/-! ### Numbers -/

/-- An integer of 64 bits, with a sign or without. -/
def parseI64 (text : List Char) : Option Int64 :=
  let negative := text.head? = some '-'
  let digits := if negative ∨ text.head? = some '+' then text.tail else text
  if digits = [] then none
  else
    match Decimal.parseDigits digits with
    | none => none
    | some n =>
      let i : ℤ := if negative then -n else n
      if -2 ^ 63 ≤ i ∧ i < 2 ^ 63 then some (Int64.ofInt i) else none

/-- The whole part: a zero alone, or digits of which the first is not zero. -/
def scanWhole (c : Cursor) : Option Cursor :=
  match c.peek with
  | some 0x30 =>
    let c := c.advance 1
    if c.peek.any isDigit then none else some c
  | some b => if isDigit b then some c.skipDigits else none
  | none => none

/-- The fraction, if there is one, and whether there is. -/
def scanFraction (c : Cursor) : Option (Bool × Cursor) :=
  if c.peek = some 0x2E then
    let c := c.advance 1
    if c.peek.any isDigit then some (true, c.skipDigits) else none
  else some (false, c)

/-- The exponent, if there is one, and whether there is. -/
def scanExponent (c : Cursor) : Option (Bool × Cursor) :=
  if c.peek = some 0x65 ∨ c.peek = some 0x45 then
    let c := c.advance 1
    let c := if c.peek = some 0x2B ∨ c.peek = some 0x2D then c.advance 1 else c
    if c.peek.any isDigit then some (true, c.skipDigits) else none
  else some (false, c)

/-- Where a number ends, and whether it has a fraction or an exponent. -/
def scanNumber (start : Cursor) : Option (Bool × Cursor) := do
  let c ← scanWhole (if start.peek = some 0x2D then start.advance 1 else start)
  let (fraction, c) ← scanFraction c
  let (exponent, c) ← scanExponent c
  return (fraction || exponent, c)

def parseNumber (floats : FloatText F) (start : Cursor) : Except JsonError (Value F × Cursor) :=
  match scanNumber start with
  | none => .error (start.err .invalidNumber)
  | some (isFloat, c) =>
    match Utf8.decode (start.span c) with
    | none => .error (start.err .invalidUtf8)
    | some text =>
      match if isFloat then none else parseI64 text with
      | some i => .ok (.number (.int i), c)
      | none =>
        match floats.parse text with
        | some f =>
          if floats.isFinite f then .ok (.number (.float f), c)
          else .error (start.err .numberOutOfRange)
        | none => .error (start.err .invalidNumber)

/-! ### Arrays and objects -/

/-- What follows an item or a member: a comma, after which another one comes, or the end. -/
def separator (close : UInt8) (c : Cursor) : Except JsonError (Bool × Cursor) :=
  match c.peek with
  | none => .error (c.err .unexpectedEnd)
  | some b =>
    if b = 0x2C then
      let c := (c.advance 1).skipWs
      if c.peek = some close then .error (c.err .unexpectedByte) else .ok (true, c)
    else if b = close then .ok (false, c.advance 1)
    else .error (c.err .unexpectedByte)

/-- Items of an array, after those already read. -/
def parseItems (limits : Limits) (parse : Cursor → Except JsonError (Value F × Cursor)) :
    ℕ → List (Value F) → Cursor → Except JsonError (Value F × Cursor)
  | 0, _, c => .error (c.err .unexpectedEnd)
  | fuel + 1, items, c =>
    let c := c.skipWs
    if limits.maxArrayItems ≤ items.length then .error (c.err .arrayTooLong)
    else do
      let (v, c) ← parse c
      let (more, c) ← separator 0x5D c.skipWs
      if more then parseItems limits parse fuel (items ++ [v]) c
      else .ok (.array (items ++ [v]), c)

/-- An array, `nested` reading what is in it unless the levels are used up. -/
def parseArray (limits : Limits) (nested : Option (Cursor → Except JsonError (Value F × Cursor)))
    (c : Cursor) : Except JsonError (Value F × Cursor) :=
  match nested with
  | none => .error (c.err .depthExceeded)
  | some parse => do
    let c ← c.expect 0x5B
    let c := c.skipWs
    if c.peek = some 0x5D then .ok (.array [], c.advance 1)
    else parseItems limits parse (c.rest.length + 1) [] c

def containsKey (entries : List (List Char × Value F)) (key : List Char) : Bool :=
  entries.any fun e => e.1 == key

/-- Members of an object, after those already read. -/
def parseEntries (limits : Limits) (parse : Cursor → Except JsonError (Value F × Cursor)) :
    ℕ → List (List Char × Value F) → Cursor → Except JsonError (Value F × Cursor)
  | 0, _, c => .error (c.err .unexpectedEnd)
  | fuel + 1, entries, c =>
    let c := c.skipWs
    if limits.maxObjectEntries ≤ entries.length then .error (c.err .objectTooLarge)
    else
      match c.peek with
      | none => .error (c.err .unexpectedEnd)
      | some q =>
        if q ≠ 0x22 then .error (c.err .unexpectedByte)
        else do
          let (key, after) ← parseString limits c
          if limits.rejectDuplicateKeys && containsKey entries key then
            .error (c.err .duplicateKey)
          else
            let colon ← after.skipWs.expect 0x3A
            let (v, c) ← parse colon.skipWs
            let (more, c) ← separator 0x7D c.skipWs
            if more then parseEntries limits parse fuel (entries ++ [(key, v)]) c
            else .ok (.object (entries ++ [(key, v)]), c)

def parseObject (limits : Limits) (nested : Option (Cursor → Except JsonError (Value F × Cursor)))
    (c : Cursor) : Except JsonError (Value F × Cursor) :=
  match nested with
  | none => .error (c.err .depthExceeded)
  | some parse => do
    let c ← c.expect 0x7B
    let c := c.skipWs
    if c.peek = some 0x7D then .ok (.object [], c.advance 1)
    else parseEntries limits parse (c.rest.length + 1) [] c

/-! ### Values -/

/-- A value, by its first byte. -/
def parseByFirst (floats : FloatText F) (limits : Limits)
    (nested : Option (Cursor → Except JsonError (Value F × Cursor))) (c : Cursor) :
    Except JsonError (Value F × Cursor) :=
  match c.peek with
  | none => .error (c.err .unexpectedEnd)
  | some b =>
    if b = 0x6E then parseLiteral (Utf8.encode nullText) .null c
    else if b = 0x74 then parseLiteral (Utf8.encode trueText) (.bool true) c
    else if b = 0x66 then parseLiteral (Utf8.encode falseText) (.bool false) c
    else if b = 0x22 then do
      let (s, c) ← parseString limits c
      .ok (.string s, c)
    else if b = 0x5B then parseArray limits nested c
    else if b = 0x7B then parseObject limits nested c
    else if b = 0x2D ∨ isDigit b then parseNumber floats c
    else .error (c.err .unexpectedByte)

/-- A value in which `levels` more levels may be opened. -/
def parseValue (floats : FloatText F) (limits : Limits) :
    ℕ → Cursor → Except JsonError (Value F × Cursor)
  | 0 => parseByFirst floats limits none
  | levels + 1 => parseByFirst floats limits (some (parseValue floats limits levels))

/-- A complete document. -/
def parse (floats : FloatText F) (limits : Limits) (input : List UInt8) :
    Except JsonError (Value F) :=
  if limits.maxInputBytes < input.length then .error ⟨.inputTooLarge, 0⟩
  else if [0xEF, 0xBB, 0xBF].isPrefixOf input then .error ⟨.byteOrderMark, 0⟩
  else if (Utf8.decode input).isNone then .error ⟨.invalidUtf8, 0⟩
  else
    let c := (Cursor.mk 0 input).skipWs
    if c.rest = [] then .error (c.err .empty)
    else do
      let (v, c) ← parseValue floats limits limits.maxDepth c
      let c := c.skipWs
      if c.rest = [] then .ok v else .error (c.err .trailingContent)

end HypeLlm.Json
