import HypeLlm.Json.Parse
import HypeLlm.Lib.Utf8
import HypeLlm.Lib.Words

/-!
# The configuration grammar

A configuration is text in records of one line, `type key=value …`, with quoted values, comments and
lines that are continued.  Lines are looked at twice.  The physical lines are joined first, which takes a
view of quoting and of comments of its own: a backslash at the end of a line continues it, unless it is
part of a comment.  The joined line is then cut into tokens.

Text is a list of characters, and sizes are in bytes.
-/

namespace HypeLlm.Config

open HypeLlm.Words
open HypeLlm.Json (charFromU32)

structure Position where
  line : ℕ
  column : ℕ
  deriving Repr, DecidableEq

/-- What may be too large. -/
inductive SizeLimit where
  | document
  | logicalLine
  | recordCount
  | fieldCount
  | value
  deriving Repr, DecidableEq

inductive ParseErrorKind where
  | emptyRecord
  | invalidRecordType
  | missingAssignment
  | invalidKey
  | duplicateKey (key : String)
  | unterminatedString
  | invalidEscape
  | invalidUnicodeEscape
  | controlCharacter
  | tooLarge (what : SizeLimit)
  | danglingContinuation
  deriving Repr, DecidableEq

structure ParseError where
  kind : ParseErrorKind
  position : Position
  deriving Repr, DecidableEq

structure ParseLimits where
  maxBytes : ℕ
  maxRecords : ℕ
  maxFieldsPerRecord : ℕ
  maxValueBytes : ℕ
  maxContinuations : ℕ
  deriving Repr, DecidableEq

namespace ParseLimits

/-- Sized for a large deployment that is maintained by hand. -/
def default : ParseLimits := ⟨4 * 1024 * 1024, 20000, 64, 8 * 1024, 32⟩

end ParseLimits

structure Record where
  kind : String
  /-- In source order. -/
  fields : List (String × String)
  /-- Where the record started. -/
  position : Position
  deriving Repr, DecidableEq

def Record.get (r : Record) (key : String) : Option String :=
  (r.fields.find? fun field => field.1 = key).map (·.2)

structure Document where
  /-- In source order. -/
  records : List Record
  deriving Repr, DecidableEq

/-- The bytes of a text. -/
def byteLen (text : List Char) : ℕ := (Utf8.encode text).length

/-- Positions count from one, in 32 bits. -/
def pos (lineNo col : ℕ) : Position := ⟨lineNo, min (col + 1) u32Max⟩

/-! ### Characters -/

def isBlank (c : Char) : Bool := c = ' ' || c = '\t'

def isControl (c : Char) : Bool := c.toNat < 0x20

def lowercase (b : UInt8) : Bool := 97 ≤ b ∧ b ≤ 122

/-- A record type or a key. -/
def isIdentifier (s : String) : Bool :=
  let bytes := Utf8.encode s.toList
  !bytes.isEmpty && bytes.length ≤ 64 &&
    bytes.all (fun b => lowercase b || (48 ≤ b && b ≤ 57) || b = 95) && bytes.head?.any lowercase

def toDigit16 (c : Char) : Option ℕ :=
  if 48 ≤ c.toNat ∧ c.toNat ≤ 57 then some (c.toNat - 48)
  else if 97 ≤ c.toNat ∧ c.toNat ≤ 102 then some (c.toNat - 87)
  else if 65 ≤ c.toNat ∧ c.toNat ≤ 70 then some (c.toNat - 55)
  else none

/-- The escapes of one character. -/
def shortEscape : Char → Option Char
  | '"' => some '"'
  | '\\' => some '\\'
  | '/' => some '/'
  | 'b' => some (Char.ofNat 0x08)
  | 'f' => some (Char.ofNat 0x0C)
  | 'n' => some '\n'
  | 'r' => some '\r'
  | 't' => some '\t'
  | _ => none

/-! ### Quoted strings -/

/-- The digits left to read of four, with the place where they are. -/
def hexLoop (lineNo quoteStart : ℕ) : ℕ → ℕ → List Char → ℕ → Except ParseError (ℕ × List Char × ℕ)
  | 0, v, rest, col => .ok (v, rest, col)
  | _ + 1, _, [], _ => .error ⟨.unterminatedString, pos lineNo quoteStart⟩
  | left + 1, v, c :: rest, col =>
    match toDigit16 c with
    | none => .error ⟨.invalidUnicodeEscape, pos lineNo col⟩
    | some d => hexLoop lineNo quoteStart left (v * 16 + d) rest (col + 1)

def parseHex4 (lineNo quoteStart : ℕ) (rest : List Char) (col : ℕ) :
    Except ParseError (ℕ × List Char × ℕ) :=
  hexLoop lineNo quoteStart 4 0 rest col

/-- What follows `\u`. -/
def parseUnicodeEscape (lineNo start : ℕ) (rest : List Char) (col : ℕ) :
    Except ParseError (Char × List Char × ℕ) := do
  let (cp, rest, col) ← parseHex4 lineNo start rest col
  let invalid := ⟨.invalidUnicodeEscape, pos lineNo (col - 1)⟩
  if 0xD800 ≤ cp ∧ cp < 0xDC00 then
    match rest with
    | '\\' :: 'u' :: rest =>
      let (low, rest, after) ← parseHex4 lineNo start rest (col + 2)
      if ¬(0xDC00 ≤ low ∧ low < 0xE000) then .error invalid
      else
        match charFromU32 (0x10000 + (cp - 0xD800) * 1024 + (low - 0xDC00)) with
        | some c => .ok (c, rest, after)
        | none => .error ⟨.invalidUnicodeEscape, pos lineNo (after - 1)⟩
    | _ => .error invalid
  else if 0xDC00 ≤ cp ∧ cp < 0xE000 then .error invalid
  else
    match charFromU32 cp with
    | some c => .ok (c, rest, col)
    | none => .error invalid

/-- What follows a backslash. -/
def parseEscape (lineNo start : ℕ) (rest : List Char) (col : ℕ) :
    Except ParseError (Char × List Char × ℕ) :=
  match rest with
  | [] => .error ⟨.unterminatedString, pos lineNo start⟩
  | esc :: rest =>
    match shortEscape esc with
    | some c => .ok (c, rest, col + 1)
    | none =>
      if esc = 'u' then parseUnicodeEscape lineNo start rest (col + 1)
      else .error ⟨.invalidEscape, pos lineNo col⟩

/-- A string from inside its quotes to the end of it: the text, and the place after. -/
def quotedLoop (lineNo start : ℕ) :
    ℕ → List Char → ℕ → List Char → Except ParseError (List Char × List Char × ℕ)
  | fuel + 1, c :: rest, col, out =>
    if c = '"' then .ok (out, rest, col + 1)
    else if c = '\\' then do
      let (c, rest, col) ← parseEscape lineNo start rest (col + 1)
      quotedLoop lineNo start fuel rest col (out ++ [c])
    else if isControl c then .error ⟨.controlCharacter, pos lineNo col⟩
    else quotedLoop lineNo start fuel rest (col + 1) (out ++ [c])
  | _, _, _, _ => .error ⟨.unterminatedString, pos lineNo start⟩

/-- A string after its opening quote, which is at `start`. -/
def parseQuoted (lineNo : ℕ) (rest : List Char) (start : ℕ) :
    Except ParseError (List Char × List Char × ℕ) :=
  quotedLoop lineNo start rest.length rest (start + 1) []

/-! ### Tokens -/

/-- A token up to a blank, a comment or the end: its text, and the place after. -/
def tokenLoop (limits : ParseLimits) (lineNo tokenStart : ℕ) :
    ℕ → List Char → ℕ → List Char → Except ParseError (List Char × List Char × ℕ)
  | fuel + 1, c :: rest, col, token =>
    if isBlank c || c = '#' then .ok (token, c :: rest, col)
    else if c = '"' then do
      let (text, rest, next) ← parseQuoted lineNo rest col
      if limits.maxValueBytes < byteLen text then .error ⟨.tooLarge .value, pos lineNo tokenStart⟩
      else tokenLoop limits lineNo tokenStart fuel rest next (token ++ text)
    else if isControl c then .error ⟨.controlCharacter, pos lineNo col⟩
    else tokenLoop limits lineNo tokenStart fuel rest (col + 1) (token ++ [c])
  | _, rest, col, token => .ok (token, rest, col)

def skipBlanks : List Char → ℕ → List Char × ℕ
  | c :: rest, col => if isBlank c then skipBlanks rest (col + 1) else (c :: rest, col)
  | [], col => ([], col)

/-- The tokens of a line, with the columns where they start. -/
def tokensLoop (limits : ParseLimits) (lineNo : ℕ) :
    ℕ → List Char → ℕ → List (List Char × ℕ) → Except ParseError (List (List Char × ℕ))
  | 0, _, _, tokens => .ok tokens
  | fuel + 1, rest, col, tokens =>
    match skipBlanks rest col with
    | ([], _) => .ok tokens
    | (c :: rest, start) =>
      if c = '#' then .ok tokens
      else do
        let (token, rest, col) ← tokenLoop limits lineNo start (c :: rest).length (c :: rest) start []
        if limits.maxValueBytes < byteLen token then .error ⟨.tooLarge .value, pos lineNo start⟩
        else tokensLoop limits lineNo fuel rest col (tokens ++ [(token, start)])

/-! ### Records -/

/-- The fields that some tokens assign, after those already read. -/
def fieldsLoop (lineNo : ℕ) :
    List (List Char × ℕ) → List (String × String) → Except ParseError (List (String × String))
  | [], fields => .ok fields
  | (token, col) :: tokens, fields =>
    if '=' ∉ token then .error ⟨.missingAssignment, pos lineNo col⟩
    else
      let key := String.ofList (token.takeWhile (· ≠ '='))
      let value := String.ofList ((token.dropWhile (· ≠ '=')).drop 1)
      if ¬isIdentifier key then .error ⟨.invalidKey, pos lineNo col⟩
      else if fields.any (·.1 = key) then .error ⟨.duplicateKey key, pos lineNo col⟩
      else fieldsLoop lineNo tokens (fields ++ [(key, value)])

/-- The record that some tokens make, if there are any. -/
def recordOf (limits : ParseLimits) (lineNo : ℕ) :
    List (List Char × ℕ) → Except ParseError (Option Record)
  | [] => .ok none
  | (kind, col) :: tokens =>
    if kind = [] then .error ⟨.emptyRecord, pos lineNo col⟩
    else if ¬isIdentifier (String.ofList kind) then .error ⟨.invalidRecordType, pos lineNo col⟩
    else if limits.maxFieldsPerRecord < tokens.length then
      .error ⟨.tooLarge .fieldCount, pos lineNo col⟩
    else do
      let fields ← fieldsLoop lineNo tokens []
      .ok (some ⟨String.ofList kind, fields, ⟨lineNo, 1⟩⟩)

def parseLogicalLine (limits : ParseLimits) (line : List Char) (lineNo : ℕ) :
    Except ParseError (Option Record) := do
  let tokens ← tokensLoop limits lineNo line.length line 0 []
  recordOf limits lineNo tokens

/-! ### Lines -/

/-- Whether a physical line enters a comment, and whether it ends inside a string. -/
def commentStarts : List Char → Bool → Bool × Bool
  | [], inQuote => (false, inQuote)
  | c :: rest, true =>
    if c = '\\' then
      match rest with
      | [] => (false, true)
      | _ :: rest => commentStarts rest true
    else commentStarts rest (c ≠ '"')
  | c :: rest, false => if c = '#' then (true, false) else commentStarts rest (c = '"')

/-- What is before a last character, if it is that one. -/
def stripSuffix (c : Char) (line : List Char) : Option (List Char) :=
  if line.getLast? = some c then some line.dropLast else none

/-- A logical line as far as it is joined. -/
structure Pending where
  logical : List Char
  /-- The physical line that it starts on. -/
  start : ℕ
  continuations : ℕ
  inQuote : Bool
  deriving Repr, DecidableEq

/-- The physical lines that are left, from the one at `index`, after the records already read. -/
def linesLoop (limits : ParseLimits) :
    List (List Char) → ℕ → Pending → List Record → Except ParseError (List Record)
  | [], _, pending, records =>
    if pending.logical = [] then .ok records
    else .error ⟨.danglingContinuation, ⟨pending.start, 1⟩⟩
  | rawLine :: lines, index, pending, records =>
    let lineNo := min (index + 1) u32Max
    let line := (stripSuffix '\r' rawLine).getD rawLine
    let entered := commentStarts line pending.inQuote
    let start := if pending.logical = [] then lineNo else pending.start
    match (stripSuffix '\\' line).filter fun _ => !entered.1 with
    | some head =>
      if limits.maxContinuations < pending.continuations + 1 then
        .error ⟨.tooLarge .logicalLine, ⟨lineNo, 1⟩⟩
      else
        linesLoop limits lines (index + 1)
          ⟨pending.logical ++ head ++ [' '], start, pending.continuations + 1, entered.2⟩ records
    | none =>
      match parseLogicalLine limits (pending.logical ++ line) start with
      | .error e => .error e
      | .ok none => linesLoop limits lines (index + 1) ⟨[], start, 0, false⟩ records
      | .ok (some record) =>
        if limits.maxRecords ≤ records.length then .error ⟨.tooLarge .recordCount, ⟨lineNo, 1⟩⟩
        else linesLoop limits lines (index + 1) ⟨[], start, 0, false⟩ (records ++ [record])

def parse (limits : ParseLimits) (text : List Char) : Except ParseError Document :=
  if limits.maxBytes < byteLen text then .error ⟨.tooLarge .document, ⟨1, 1⟩⟩
  else (linesLoop limits (text.splitOn '\n') 0 ⟨[], 0, 0, false⟩ []).map Document.mk

end HypeLlm.Config
