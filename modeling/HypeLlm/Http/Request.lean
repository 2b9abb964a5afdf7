import HypeLlm.Http.Message

/-!
# Parsing the head of a request

The head ends at the first empty line.  What is ambiguous is refused: a line ended by anything but a
carriage return with a line feed, more than one space in the request line, both ways to frame a body,
a deciding header twice.
-/

namespace HypeLlm.Http

open HypeLlm.Words List

/-- A carriage return, a line feed. -/
def crlf : List UInt8 := [0x0D, 0x0A]

/-- Just past the first empty line. -/
def findHeadEnd : List UInt8 → Option ℕ
  | [] => none
  | b :: rest =>
    if (crlf ++ crlf).isPrefixOf (b :: rest) then some 4 else (findHeadEnd rest).map (· + 1)

/-- A line feed or a carriage return on its own.  A carriage return at the very end may be one half. -/
def scanForBareTerminators : List UInt8 → Option HttpErrorKind
  | [] => none
  | [b] => if b = 0x0A then some .malformedRequestLine else none
  | b :: c :: rest =>
    if b = 0x0A then some .malformedRequestLine
    else if b = 0x0D then
      if c = 0x0A then scanForBareTerminators rest else some .malformedRequestLine
    else scanForBareTerminators (c :: rest)

/-- The lines of a head, `line` being what was read of the first. -/
def splitCrlf (bad : HttpErrorKind) (line : List UInt8) :
    List UInt8 → Except HttpErrorKind (List (List UInt8))
  | [] => .ok (if line = [] then [] else [line])
  | [b] => if b = 0x0D ∨ b = 0x0A then .error bad else .ok [line ++ [b]]
  | b :: c :: rest =>
    if b = 0x0D ∧ c = 0x0A then (splitCrlf bad [] rest).map (line :: ·)
    else if b = 0x0D ∨ b = 0x0A then .error bad
    else splitCrlf bad (line ++ [b]) (c :: rest)

/-- A byte that a target may have: visible and below 128. -/
def isTargetByte (b : UInt8) : Bool := decide (0x21 ≤ b.toNat ∧ b.toNat ≤ 0x7E)

def parseTarget (bytes : List UInt8) (method : Method) (limits : Limits) :
    Except HttpErrorKind (List Char) :=
  if bytes = [] then .error .invalidTarget
  else if limits.maxTargetBytes < bytes.length then .error .invalidTarget
  else if !bytes.all isTargetByte then .error .invalidTarget
  else
    match Utf8.decode bytes with
    | none => .error .invalidTarget
    | some text =>
      if text = ['*'] then
        if method = .options then .ok text else .error .invalidTarget
      else if text.head? ≠ some '/' then .error .nonOriginFormTarget
      else if ['/', '/'].isPrefixOf text then .error .nonOriginFormTarget
      else .ok text

def parseRequestLine (line : List UInt8) (limits : Limits) :
    Except HttpErrorKind (Method × List Char × Version) :=
  match line.splitOnP (· == 0x20) with
  | [methodBytes, targetBytes, versionBytes] =>
    if limits.maxMethodBytes < methodBytes.length then .error .invalidMethod
    else if !isToken methodBytes then .error .invalidMethod
    else
      match Utf8.decode methodBytes with
      | none => .error .invalidMethod
      | some token => do
        let method := Method.fromToken token
        let target ← parseTarget targetBytes method limits
        let version ← Version.parse versionBytes
        return (method, target, version)
  | _ => .error .malformedRequestLine

/-- The path and what follows the first question mark. -/
def splitTarget (target : List Char) : List Char × Option (List Char) :=
  match target.dropWhile (· ≠ '?') with
  | [] => (target, none)
  | _ :: query => (target.takeWhile (· ≠ '?'), some query)

def parseHeaderLine (line : List UInt8) (headers : Headers) : Except HttpErrorKind Headers :=
  if line = [] then .error .invalidHeaderName
  else if line.head? = some 0x20 ∨ line.head? = some 0x09 then .error .obsoleteLineFolding
  else
    match splitField line 0x3A with
    | none => .error .invalidHeaderName
    | some (name, value) =>
      if name.getLast? = some 0x20 ∨ name.getLast? = some 0x09 then .error .whitespaceBeforeColon
      else if !isToken name then .error .invalidHeaderName
      else if !isFieldValue value then .error .invalidHeaderValue
      else
        match Utf8.decode name, Utf8.decode value with
        | none, _ => .error .invalidHeaderName
        | some _, none => .error .invalidHeaderValue
        | some name, some value => headers.append name (trimOws value)

def parseHeaderLines (lines : List (List UInt8)) : Except HttpErrorKind Headers :=
  lines.foldlM (fun headers line => parseHeaderLine line headers) Headers.empty

/-- Digits only, and at most nineteen. -/
def parseContentLength (value : List Char) : Except HttpErrorKind ℕ :=
  if value = [] ∨ 19 < (Utf8.encode value).length then .error .invalidContentLength
  else if !(Utf8.encode value).all isAsciiDigit then .error .invalidContentLength
  else
    match Decimal.parse u64Max value with
    | some n => .ok n
    | none => .error .invalidContentLength

/-- How many bytes are announced, within the bound. -/
def fixedFraming (limits : Limits) (value : List Char) : Except HttpErrorKind BodyFraming := do
  let n ← parseContentLength value
  if limits.maxBodyBytes < n then .error .bodyTooLarge
  else if n = 0 then .ok .none
  else .ok (.fixed n)

def requestBodyFraming (headers : Headers) (version : Version) (limits : Limits) :
    Except HttpErrorKind BodyFraming :=
  match headers.get transferEncodingName, headers.get contentLengthName with
  | some _, some _ => .error .conflictingFraming
  | some te, none =>
    if version = .http10 then .error .unsupportedTransferEncoding
    else if !eqIgnoreAsciiCase te chunkedValue then .error .unsupportedTransferEncoding
    else .ok .chunked
  | none, some cl => fixedFraming limits cl
  | none, none => .ok .none

def isHostByte (b : UInt8) : Bool :=
  isAsciiAlphanumeric b || [0x2E, 0x2D, 0x3A, 0x5B, 0x5D, 0x5F].contains b

def validateHost (headers : Headers) (version : Version) : Except HttpErrorKind Unit :=
  match headers.get hostName with
  | none => if version = .http11 then .error .missingHost else .ok ()
  | some host =>
    if host = [] ∨ 255 < (Utf8.encode host).length then .error .invalidHost
    else if !(Utf8.encode host).all isHostByte then .error .invalidHost
    else .ok ()

def closeToken : List Char := ['c', 'l', 'o', 's', 'e']

def keepAliveToken : List Char := ['k', 'e', 'e', 'p', '-', 'a', 'l', 'i', 'v', 'e']

def continueToken : List Char := ['1', '0', '0', '-', 'c', 'o', 'n', 't', 'i', 'n', 'u', 'e']

/-- The head whose bytes, without the empty line, are `head`. -/
def parseHead (head : List UInt8) (headEnd : ℕ) (limits : Limits) : Except HttpErrorKind RequestHead :=
  if head.contains 0x00 then .error .nulInHead
  else do
    let lines ← splitCrlf .malformedRequestLine [] head
    match lines with
    | [] => .error .malformedRequestLine
    | requestLine :: lines =>
      let (method, target, version) ← parseRequestLine requestLine limits
      if limits.maxHeaderCount < lines.length then .error .tooManyHeaders
      else
        let headers ← parseHeaderLines lines
        let body ← requestBodyFraming headers version limits
        validateHost headers version
        let (path, query) := splitTarget target
        return {
          method := method
          target := target
          path := path
          query := query
          version := version
          headers := headers
          body := body
          expectContinue := headers.listContains expectName continueToken
          connectionClose := headers.listContains connectionName closeToken ||
            (version == .http10 && !headers.listContains connectionName keepAliveToken)
          headLen := headEnd }

def parseRequestHead (buf : List UInt8) (limits : Limits) :
    Except HttpErrorKind (ParseStatus RequestHead) :=
  let limits := limits.clamped
  match findHeadEnd buf with
  | none =>
    if limits.maxHeadBytes < buf.length then .error .headTooLarge
    else
      match scanForBareTerminators buf with
      | some e => .error e
      | none => .ok .incomplete
  | some headEnd =>
    if limits.maxHeadBytes < headEnd then .error .headTooLarge
    else (parseHead (buf.take (headEnd - 4)) headEnd limits).map .complete

end HypeLlm.Http
