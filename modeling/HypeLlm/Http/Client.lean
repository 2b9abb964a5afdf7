import HypeLlm.Http.Request

/-!
# Requests to a provider

A request is built from the method, the target, the host and headers, and sent with a body of known
length or in chunks.  The head of a response is parsed as strictly as the head of a request: a
provider is not trusted either.
-/

namespace HypeLlm.Http

open List

/-- The lines of headers, each with its line end. -/
def fieldLines (headers : Headers) : List UInt8 :=
  headers.entries.flatMap fun e => Utf8.encode e.1 ++ [0x3A, 0x20] ++ Utf8.encode e.2 ++ crlf

structure RequestBuilder where
  method : Method
  target : List Char
  host : List Char
  headers : Headers
  deriving Repr, DecidableEq

namespace RequestBuilder

def new (method : Method) (target host : List Char) : Except HttpErrorKind RequestBuilder :=
  if target.head? ≠ some '/' ∨ ['/', '/'].isPrefixOf target then .error .nonOriginFormTarget
  else if !(Utf8.encode target).all isTargetByte then .error .invalidTarget
  else if host = [] ∨ !(Utf8.encode host).all isHostByte then .error .invalidHost
  else .ok ⟨method, target, host, .empty⟩

def header (b : RequestBuilder) (name value : List Char) : Except HttpErrorKind RequestBuilder := do
  let headers ← b.headers.appendUnchecked name value
  return { b with headers := headers }

def serializeHead (b : RequestBuilder) : List UInt8 :=
  Utf8.encode b.method.asStr ++ [0x20] ++ Utf8.encode b.target ++ [0x20] ++
    Utf8.encode (Version.asStr .http11) ++ crlf ++ fieldLines b.headers ++ crlf

/-- The methods that announce a body even when it is empty. -/
def announcesBody : Method → Bool
  | .post | .put | .patch => true
  | _ => false

def finishWithBody (b : RequestBuilder) (body : List UInt8) : Except HttpErrorKind (List UInt8) := do
  let headers ← b.headers.set hostName b.host
  let headers ←
    if body ≠ [] ∨ announcesBody b.method then
      headers.set contentLengthName (Decimal.text 20 body.length)
    else .ok headers
  return { b with headers := headers }.serializeHead ++ body

def finishChunked (b : RequestBuilder) : Except HttpErrorKind (List UInt8) := do
  let headers ← b.headers.set hostName b.host
  let headers ← headers.set transferEncodingName chunkedValue
  return { b with headers := headers.remove contentLengthName }.serializeHead

end RequestBuilder

/-! ### The head of a response -/

def parseReason (tail : List UInt8) : Except HttpErrorKind (List Char) :=
  match tail with
  | [] => .ok []
  | b :: phrase =>
    if b = 0x20 then
      if !isFieldValue phrase then .error .malformedStatusLine else .ok (Utf8.decodeLossy phrase)
    else .error .malformedStatusLine

def parseStatusLine (line : List UInt8) : Except HttpErrorKind (Version × ℕ × List Char) :=
  match splitField line 0x20 with
  | none => .error .malformedStatusLine
  | some (versionBytes, rest) => do
    let version ← Version.parse versionBytes
    match rest with
    | d0 :: d1 :: d2 :: tail =>
      if !isAsciiDigit d0 || !isAsciiDigit d1 || !isAsciiDigit d2 then .error .invalidStatusCode
      else
        let status := (d0.toNat - 0x30) * 100 + (d1.toNat - 0x30) * 10 + (d2.toNat - 0x30)
        if ¬(100 ≤ status ∧ status ≤ 599) then .error .invalidStatusCode
        else
          let reason ← parseReason tail
          return (version, status, reason)
    | _ => .error .invalidStatusCode

def responseBodyFraming (headers : Headers) (status : ℕ) (requestMethod : Method) (limits : Limits) :
    Except HttpErrorKind BodyFraming :=
  if ResponseHead.statusForbidsBody status || !requestMethod.responseHasBody then .ok .none
  else
    match headers.get transferEncodingName, headers.get contentLengthName with
    | some _, some _ => .error .conflictingFraming
    | some te, none =>
      if !eqIgnoreAsciiCase te chunkedValue then .error .unsupportedTransferEncoding
      else .ok .chunked
    | none, some cl => fixedFraming limits cl
    | none, none => .ok .untilClose

/-- The head whose bytes, without the empty line, are `head`. -/
def parseResponse (head : List UInt8) (headEnd : ℕ) (requestMethod : Method) (limits : Limits) :
    Except HttpErrorKind ResponseHead :=
  if head.contains 0x00 then .error .nulInHead
  else do
    let lines ← splitCrlf .malformedStatusLine [] head
    match lines with
    | [] => .error .malformedStatusLine
    | statusLine :: lines =>
      let (version, status, reason) ← parseStatusLine statusLine
      if limits.maxHeaderCount < lines.length then .error .tooManyHeaders
      else
        let headers ← parseHeaderLines lines
        let body ← responseBodyFraming headers status requestMethod limits
        return {
          version := version
          status := status
          reason := reason
          headers := headers
          body := body
          connectionClose := headers.listContains connectionName closeToken ||
            (version == .http10 && !headers.listContains connectionName keepAliveToken) ||
            body == .untilClose
          headLen := headEnd }

def parseResponseHead (buf : List UInt8) (requestMethod : Method) (limits : Limits) :
    Except HttpErrorKind (ParseStatus ResponseHead) :=
  let limits := limits.clamped
  match findHeadEnd buf with
  | none => if limits.maxHeadBytes < buf.length then .error .headTooLarge else .ok .incomplete
  | some headEnd =>
    if limits.maxHeadBytes < headEnd then .error .headTooLarge
    else (parseResponse (buf.take (headEnd - 4)) headEnd requestMethod limits).map .complete

end HypeLlm.Http
