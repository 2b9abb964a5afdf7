import HypeLlm.Lib.Decimal
import HypeLlm.Lib.Utf8
import HypeLlm.Lib.Words

/-!
# HTTP messages

Header names are kept in lower case and values without the optional space around them, in the order
they came.  Some names carry a decision (framing, host, credentials) and may not repeat in a message
that is parsed; a builder does not check that.
-/

namespace HypeLlm.Http

open List

inductive HttpErrorKind where
  | malformedRequestLine
  | malformedStatusLine
  | unsupportedVersion
  | invalidMethod
  | invalidTarget
  | nonOriginFormTarget
  | invalidHeaderName
  | invalidHeaderValue
  | whitespaceBeforeColon
  | obsoleteLineFolding
  | duplicateHeader
  | headTooLarge
  | tooManyHeaders
  | invalidContentLength
  | conflictingFraming
  | unsupportedTransferEncoding
  | missingHost
  | invalidHost
  | invalidChunkSize
  | invalidChunkTerminator
  | bodyTooLarge
  | invalidTrailer
  | nulInHead
  | unexpectedEof
  | invalidStatusCode
  | requestTimeout
  deriving Repr, DecidableEq

structure Limits where
  maxHeadBytes : ℕ
  maxHeaderCount : ℕ
  maxTargetBytes : ℕ
  maxMethodBytes : ℕ
  maxBodyBytes : ℕ
  maxChunkLineBytes : ℕ
  maxTrailerBytes : ℕ
  deriving Repr, DecidableEq

namespace Limits

def hardMaxHeadBytes : ℕ := 64 * 1024

/-- Default limits for what comes in. -/
def default : Limits := ⟨32 * 1024, 100, 8 * 1024, 32, 16 * 1024 * 1024, 256, 4 * 1024⟩

/-- No configuration raises the bound on heads above the hard one. -/
def clamped (limits : Limits) : Limits :=
  { limits with maxHeadBytes := min limits.maxHeadBytes hardMaxHeadBytes }

end Limits

/-! ### Fields -/

def isAsciiDigit (b : UInt8) : Bool := decide (0x30 ≤ b.toNat ∧ b.toNat ≤ 0x39)

def isAsciiAlphanumeric (b : UInt8) : Bool :=
  isAsciiDigit b || decide (0x41 ≤ b.toNat ∧ b.toNat ≤ 0x5A) || decide (0x61 ≤ b.toNat ∧ b.toNat ≤ 0x7A)

/-- The bytes of names: letters, digits and some marks. -/
def isTokenByte (b : UInt8) : Bool :=
  isAsciiAlphanumeric b ||
    [0x21, 0x23, 0x24, 0x25, 0x26, 0x27, 0x2A, 0x2B, 0x2D, 0x2E, 0x5E, 0x5F, 0x60, 0x7C, 0x7E].contains b

def isToken (s : List UInt8) : Bool := !s.isEmpty && s.all isTokenByte

/-- Visible bytes, space, tab and bytes from 128 on; no control character. -/
def isFieldValueByte (b : UInt8) : Bool :=
  b == 0x09 || decide (0x20 ≤ b.toNat ∧ b.toNat ≤ 0x7E) || decide (0x80 ≤ b.toNat)

def isFieldValue (s : List UInt8) : Bool := s.all isFieldValueByte

/-- What is before the first `sep` and what is after it. -/
def splitField (line : List UInt8) (sep : UInt8) : Option (List UInt8 × List UInt8) :=
  match line.dropWhile (· ≠ sep) with
  | [] => none
  | _ :: value => some (line.takeWhile (· ≠ sep), value)

def isOws (c : Char) : Bool := c == ' ' || c == '\t'

/-- A value without the optional space around it. -/
def trimOws (s : List Char) : List Char := (s.dropWhile isOws).rdropWhile isOws

def toAsciiLowercase (s : List Char) : List Char :=
  s.map fun c => if 0x41 ≤ c.toNat ∧ c.toNat ≤ 0x5A then Char.ofNat (c.toNat + 32) else c

def eqIgnoreAsciiCase (a b : List Char) : Bool := toAsciiLowercase a == toAsciiLowercase b

/-- What trimming a string takes for space. -/
def isWhiteSpace (c : Char) : Bool :=
  decide (0x09 ≤ c.toNat ∧ c.toNat ≤ 0x0D) ||
    [0x20, 0x85, 0xA0, 0x1680, 0x2028, 0x2029, 0x202F, 0x205F, 0x3000].contains c.toNat ||
    decide (0x2000 ≤ c.toNat ∧ c.toNat ≤ 0x200A)

def trim (s : List Char) : List Char := (s.dropWhile isWhiteSpace).rdropWhile isWhiteSpace

/-! ### Names -/

def hostName : List Char := ['h', 'o', 's', 't']

def contentLengthName : List Char :=
  ['c', 'o', 'n', 't', 'e', 'n', 't', '-', 'l', 'e', 'n', 'g', 't', 'h']

def transferEncodingName : List Char :=
  ['t', 'r', 'a', 'n', 's', 'f', 'e', 'r', '-', 'e', 'n', 'c', 'o', 'd', 'i', 'n', 'g']

def expectName : List Char := ['e', 'x', 'p', 'e', 'c', 't']

def connectionName : List Char := ['c', 'o', 'n', 'n', 'e', 'c', 't', 'i', 'o', 'n']

def authorizationName : List Char :=
  ['a', 'u', 't', 'h', 'o', 'r', 'i', 'z', 'a', 't', 'i', 'o', 'n']

def proxyAuthorizationName : List Char := ['p', 'r', 'o', 'x', 'y', '-'] ++ authorizationName

def cookieName : List Char := ['c', 'o', 'o', 'k', 'i', 'e']

def contentEncodingName : List Char :=
  ['c', 'o', 'n', 't', 'e', 'n', 't', '-', 'e', 'n', 'c', 'o', 'd', 'i', 'n', 'g']

/-- Names that a parsed message has at most once. -/
def singleValued : List (List Char) :=
  [hostName, contentLengthName, transferEncodingName,
    ['c', 'o', 'n', 't', 'e', 'n', 't', '-', 't', 'y', 'p', 'e'], authorizationName,
    proxyAuthorizationName, expectName, ['u', 'p', 'g', 'r', 'a', 'd', 'e'], cookieName,
    ['o', 'r', 'i', 'g', 'i', 'n'], ['r', 'e', 'f', 'e', 'r', 'e', 'r'],
    ['x', '-', 'a', 'p', 'i', '-', 'k', 'e', 'y'],
    ['a', 'n', 't', 'h', 'r', 'o', 'p', 'i', 'c', '-', 'v', 'e', 'r', 's', 'i', 'o', 'n'],
    contentEncodingName, ['l', 'o', 'c', 'a', 't', 'i', 'o', 'n']]

/-- Names that no trailer may have. -/
def forbiddenTrailers : List (List Char) :=
  [transferEncodingName, contentLengthName, hostName, authorizationName, proxyAuthorizationName,
    ['t', 'r', 'a', 'i', 'l', 'e', 'r'], ['t', 'e'], expectName, cookieName,
    ['s', 'e', 't', '-'] ++ cookieName, contentEncodingName]

def chunkedValue : List Char := ['c', 'h', 'u', 'n', 'k', 'e', 'd']

/-! ### Headers -/

/-- Names in lower case with their values, in the order they came. -/
structure Headers where
  entries : List (List Char × List Char)
  deriving Repr, DecidableEq

namespace Headers

def empty : Headers := ⟨[]⟩

def get (h : Headers) (name : List Char) : Option (List Char) :=
  (h.entries.find? fun e => e.1 == name).map Prod.snd

def contains (h : Headers) (name : List Char) : Bool := h.entries.any fun e => e.1 == name

def appendUnchecked (h : Headers) (name value : List Char) : Except HttpErrorKind Headers :=
  if !isToken (Utf8.encode name) then .error .invalidHeaderName
  else if !isFieldValue (Utf8.encode value) then .error .invalidHeaderValue
  else .ok ⟨h.entries ++ [(toAsciiLowercase name, value)]⟩

def append (h : Headers) (name value : List Char) : Except HttpErrorKind Headers :=
  if !isToken (Utf8.encode name) then .error .invalidHeaderName
  else if !isFieldValue (Utf8.encode value) then .error .invalidHeaderValue
  else if singleValued.contains (toAsciiLowercase name) && h.contains (toAsciiLowercase name) then
    .error .duplicateHeader
  else .ok ⟨h.entries ++ [(toAsciiLowercase name, value)]⟩

def remove (h : Headers) (name : List Char) : Headers :=
  ⟨h.entries.filter fun e => e.1 != name⟩

/-- One entry in place of all with this name. -/
def set (h : Headers) (name value : List Char) : Except HttpErrorKind Headers :=
  (h.remove (toAsciiLowercase name)).appendUnchecked (toAsciiLowercase name) value

/-- A list in some value of this name has the token. -/
def listContains (h : Headers) (name token : List Char) : Bool :=
  h.entries.any fun e =>
    e.1 == name && (e.2.splitOnP (· == ',')).any fun part => eqIgnoreAsciiCase (trim part) token

end Headers

/-! ### Heads -/

inductive Version where
  | http10
  | http11
  deriving Repr, DecidableEq

def Version.asStr : Version → List Char
  | .http10 => ['H', 'T', 'T', 'P', '/', '1', '.', '0']
  | .http11 => ['H', 'T', 'T', 'P', '/', '1', '.', '1']

def Version.parse (bytes : List UInt8) : Except HttpErrorKind Version :=
  if bytes = Utf8.encode (Version.asStr .http11) then .ok .http11
  else if bytes = Utf8.encode (Version.asStr .http10) then .ok .http10
  else .error .unsupportedVersion

inductive Method where
  | get
  | head
  | post
  | put
  | patch
  | delete
  | options
  | other (token : List Char)
  deriving Repr, DecidableEq

def Method.asStr : Method → List Char
  | .get => ['G', 'E', 'T']
  | .head => ['H', 'E', 'A', 'D']
  | .post => ['P', 'O', 'S', 'T']
  | .put => ['P', 'U', 'T']
  | .patch => ['P', 'A', 'T', 'C', 'H']
  | .delete => ['D', 'E', 'L', 'E', 'T', 'E']
  | .options => ['O', 'P', 'T', 'I', 'O', 'N', 'S']
  | .other token => token

/-- The method of a token, and no other one with that token. -/
def Method.fromToken (token : List Char) : Method :=
  match [Method.get, .head, .post, .put, .patch, .delete, .options].find? fun m => m.asStr == token with
  | some m => m
  | none => .other token

def Method.responseHasBody : Method → Bool
  | .head => false
  | _ => true

inductive BodyFraming where
  | none
  | fixed (n : ℕ)
  | chunked
  | untilClose
  deriving Repr, DecidableEq

structure RequestHead where
  method : Method
  target : List Char
  path : List Char
  query : Option (List Char)
  version : Version
  headers : Headers
  body : BodyFraming
  expectContinue : Bool
  connectionClose : Bool
  /-- The bytes of the head, the empty line included. -/
  headLen : ℕ
  deriving Repr, DecidableEq

structure ResponseHead where
  version : Version
  status : ℕ
  reason : List Char
  headers : Headers
  body : BodyFraming
  connectionClose : Bool
  headLen : ℕ
  deriving Repr, DecidableEq

/-- A status whose response has no body, whatever its headers say. -/
def ResponseHead.statusForbidsBody (status : ℕ) : Bool :=
  decide (100 ≤ status ∧ status ≤ 199) || status == 204 || status == 304

inductive ParseStatus (α : Type) where
  | complete (value : α)
  | incomplete
  deriving Repr, DecidableEq

end HypeLlm.Http
