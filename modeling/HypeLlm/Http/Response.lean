import HypeLlm.Http.Client

/-!
# Responses to a client

A response head is built from a status and headers, and finished for a body of known length, in chunks,
up to the close of the connection, or without a body.
-/

namespace HypeLlm.Http

open List

def reasonPhrase (status : ℕ) : String :=
  match status with
  | 100 => "Continue"
  | 200 => "OK"
  | 201 => "Created"
  | 202 => "Accepted"
  | 204 => "No Content"
  | 304 => "Not Modified"
  | 400 => "Bad Request"
  | 402 => "Payment Required"
  | 401 => "Unauthorized"
  | 403 => "Forbidden"
  | 404 => "Not Found"
  | 405 => "Method Not Allowed"
  | 406 => "Not Acceptable"
  | 408 => "Request Timeout"
  | 409 => "Conflict"
  | 411 => "Length Required"
  | 412 => "Precondition Failed"
  | 413 => "Content Too Large"
  | 414 => "URI Too Long"
  | 415 => "Unsupported Media Type"
  | 417 => "Expectation Failed"
  | 422 => "Unprocessable Content"
  | 428 => "Precondition Required"
  | 429 => "Too Many Requests"
  | 431 => "Request Header Fields Too Large"
  | 499 => "Client Closed Request"
  | 500 => "Internal Server Error"
  | 501 => "Not Implemented"
  | 502 => "Bad Gateway"
  | 503 => "Service Unavailable"
  | 504 => "Gateway Timeout"
  | 505 => "HTTP Version Not Supported"
  | _ => "Unknown"

structure ResponseBuilder where
  version : Version
  status : ℕ
  headers : Headers
  /-- The connection closes after this response. -/
  close : Bool
  deriving Repr, DecidableEq

namespace ResponseBuilder

def header (b : ResponseBuilder) (name value : List Char) : Except HttpErrorKind ResponseBuilder := do
  let headers ← b.headers.appendUnchecked name value
  return { b with headers := headers }

def serialize (b : ResponseBuilder) : Except HttpErrorKind (List UInt8) := do
  let headers ← if b.close then b.headers.set connectionName closeToken else .ok b.headers
  return Utf8.encode b.version.asStr ++ [0x20] ++ Utf8.encode (Decimal.text 5 b.status) ++ [0x20] ++
    Utf8.encode (reasonPhrase b.status).toList ++ crlf ++ fieldLines headers ++ crlf

/-- Announce a length, unless the status has no body. -/
def announce (b : ResponseBuilder) (length : List Char) : Except HttpErrorKind ResponseBuilder :=
  if ResponseHead.statusForbidsBody b.status then .ok b
  else do
    let headers ← b.headers.set contentLengthName length
    return { b with headers := headers }

def finishWithLength (b : ResponseBuilder) (len : ℕ) : Except HttpErrorKind (List UInt8) := do
  let b ← b.announce (Decimal.text 20 len)
  b.serialize

def finishChunked (b : ResponseBuilder) : Except HttpErrorKind (List UInt8) := do
  let headers ← b.headers.set transferEncodingName chunkedValue
  { b with headers := headers.remove contentLengthName }.serialize

def finishStreaming (b : ResponseBuilder) : Except HttpErrorKind (List UInt8) :=
  { b with
    headers := (b.headers.remove contentLengthName).remove transferEncodingName
    close := true }.serialize

def finishNoBody (b : ResponseBuilder) : Except HttpErrorKind (List UInt8) := do
  let b ← b.announce ['0']
  b.serialize

end ResponseBuilder

end HypeLlm.Http
