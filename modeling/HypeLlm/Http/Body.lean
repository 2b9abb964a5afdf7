import HypeLlm.Http.Message

/-!
# Decoding a body

The decoder is fed what was read and takes as much of it as belongs to the body.  It keeps at most a
part of a line between two reads: a chunk size, the end of a chunk or a trailer.
-/

namespace HypeLlm.Http

open HypeLlm.Words List

inductive State where
  /-- This many bytes are still expected. -/
  | fixed (remaining : ℕ)
  | chunkSize
  | chunkData (remaining : ℕ)
  /-- The line end after the data of a chunk. -/
  | chunkDataCrlf
  | trailer
  | untilClose
  | done
  deriving Repr, DecidableEq

structure BodyDecoder where
  state : State
  limits : Limits
  /-- What was read of a line. -/
  lineBuf : List UInt8
  /-- The bytes of payload so far. -/
  decoded : ℕ
  trailerBytes : ℕ
  trailers : Headers
  deriving Repr, DecidableEq

/-- The value of a hexadecimal digit. -/
def hexValue (b : UInt8) : Option ℕ :=
  if 0x30 ≤ b.toNat ∧ b.toNat ≤ 0x39 then some (b.toNat - 0x30)
  else if 0x61 ≤ b.toNat ∧ b.toNat ≤ 0x66 then some (b.toNat - 0x61 + 10)
  else if 0x41 ≤ b.toNat ∧ b.toNat ≤ 0x46 then some (b.toNat - 0x41 + 10)
  else none

/-- One more digit of a chunk size. -/
def chunkDigit (value : ℕ) (b : UInt8) : Except HttpErrorKind ℕ :=
  match hexValue b with
  | none => .error .invalidChunkSize
  | some d =>
    match (checkedMul16 value).bind fun v => checkedAdd u64Max v d with
    | some v => .ok v
    | none => .error .invalidChunkSize
where
  checkedMul16 (value : ℕ) : Option ℕ := if value * 16 ≤ u64Max then some (value * 16) else none

/-- Digits up to a semicolon; what follows it is only checked. -/
def parseChunkSize (line : List UInt8) : Except HttpErrorKind ℕ :=
  let digits := line.takeWhile (· ≠ 0x3B)
  let extensions := line.dropWhile (· ≠ 0x3B)
  if digits = [] ∨ 16 < digits.length then .error .invalidChunkSize
  else do
    let value ← digits.foldlM chunkDigit 0
    if extensions ≠ [] ∧ !isFieldValue extensions then .error .invalidChunkSize else .ok value

namespace BodyDecoder

def new (framing : BodyFraming) (limits : Limits) : BodyDecoder :=
  let state := match framing with
    | .none => State.done
    | .fixed n => .fixed n
    | .chunked => .chunkSize
    | .untilClose => .untilClose
  ⟨state, limits, [], 0, 0, .empty⟩

def isComplete (d : BodyDecoder) : Bool := d.state == .done

/-- Payload, within the bound. -/
def emit (d : BodyDecoder) (data out : List UInt8) :
    Except HttpErrorKind (BodyDecoder × List UInt8) :=
  let next := satAdd u64Max d.decoded data.length
  if d.limits.maxBodyBytes < next then .error .bodyTooLarge
  else .ok ({ d with decoded := next }, out ++ data)

def lineError (d : BodyDecoder) (maxLen : ℕ) : HttpErrorKind :=
  if maxLen ≤ 2 then .invalidChunkTerminator
  else if d.state = .trailer then .invalidTrailer
  else .invalidChunkSize

/-- One byte of a line; the line that it ends, if it ends one. -/
def lineByte (d : BodyDecoder) (maxLen : ℕ) (b : UInt8) :
    Except HttpErrorKind (Option (List UInt8) × BodyDecoder) :=
  if b = 0x0A then
    if d.lineBuf.getLast? = some 0x0D then .ok (some d.lineBuf.dropLast, { d with lineBuf := [] })
    else .error (d.lineError maxLen)
  else if max maxLen 2 + 2 ≤ d.lineBuf.length then .error (d.lineError maxLen)
  else .ok (none, { d with lineBuf := d.lineBuf ++ [b] })

/-- Read a line, as far as it came, and what is unread then. -/
def takeLine (d : BodyDecoder) (maxLen : ℕ) :
    List UInt8 → Except HttpErrorKind (Option (List UInt8) × BodyDecoder × List UInt8)
  | [] => .ok (none, d, [])
  | b :: unread =>
    match d.lineByte maxLen b with
    | .error e => .error e
    | .ok (some line, d) => .ok (some line, d, unread)
    | .ok (none, d) => d.takeLine maxLen unread

def pushTrailer (d : BodyDecoder) (line : List UInt8) : Except HttpErrorKind BodyDecoder :=
  match splitField line 0x3A with
  | none => .error .invalidTrailer
  | some (name, value) =>
    if !isToken name || !isFieldValue value then .error .invalidTrailer
    else
      match Utf8.decode name, Utf8.decode value with
      | some name, some value =>
        if forbiddenTrailers.contains (toAsciiLowercase name) then .error .invalidTrailer
        else
          match d.trailers.appendUnchecked (toAsciiLowercase name) (trimOws value) with
          | .ok trailers => .ok { d with trailers := trailers }
          | .error _ => .error .invalidTrailer
      | _, _ => .error .invalidTrailer

def chunkSizeLine (d : BodyDecoder) (line : List UInt8) : Except HttpErrorKind BodyDecoder := do
  let size ← parseChunkSize line
  return { d with state := if size = 0 then .trailer else .chunkData size }

/-- The data of a chunk ends where its size said. -/
def chunkEndLine (d : BodyDecoder) (line : List UInt8) : Except HttpErrorKind BodyDecoder :=
  if line ≠ [] then .error .invalidChunkTerminator else .ok { d with state := .chunkSize }

def trailerLine (d : BodyDecoder) (line : List UInt8) : Except HttpErrorKind BodyDecoder :=
  let d := { d with trailerBytes := d.trailerBytes + line.length + 2 }
  if d.limits.maxTrailerBytes < d.trailerBytes then .error .invalidTrailer
  else if line = [] then .ok { d with state := .done }
  else d.pushTrailer line

/-- Up to `remaining` bytes of payload, and the state once none remain. -/
def takeData (d : BodyDecoder) (remaining : ℕ) (more : ℕ → State) (last : State)
    (unread out : List UInt8) : Except HttpErrorKind (BodyDecoder × List UInt8 × List UInt8) := do
  let chunk := unread.take remaining
  let (d, out) ← d.emit chunk out
  let left := remaining - chunk.length
  return ({ d with state := if left = 0 then last else more left }, unread.drop chunk.length, out)

/-- Decode what is unread, at most `fuel` rounds of it. -/
def decodeLoop : ℕ → BodyDecoder → List UInt8 → List UInt8 →
    Except HttpErrorKind (BodyDecoder × List UInt8 × List UInt8)
  | 0, d, unread, out => .ok (d, unread, out)
  | fuel + 1, d, unread, out =>
    match d.state with
    | .done => .ok (d, unread, out)
    | .fixed remaining =>
      if remaining = 0 then decodeLoop fuel { d with state := .done } unread out
      else if unread = [] then .ok (d, unread, out)
      else do
        let (d, unread, out) ← d.takeData remaining .fixed .done unread out
        decodeLoop fuel d unread out
    | .untilClose =>
      if unread = [] then .ok (d, unread, out)
      else do
        let (d, out) ← d.emit unread out
        return (d, [], out)
    | .chunkSize => do
      match ← d.takeLine d.limits.maxChunkLineBytes unread with
      | (none, d, unread) => .ok (d, unread, out)
      | (some line, d, unread) => decodeLoop fuel (← d.chunkSizeLine line) unread out
    | .chunkData remaining =>
      if unread = [] then .ok (d, unread, out)
      else do
        let (d, unread, out) ← d.takeData remaining .chunkData .chunkDataCrlf unread out
        decodeLoop fuel d unread out
    | .chunkDataCrlf => do
      match ← d.takeLine 2 unread with
      | (none, d, unread) => .ok (d, unread, out)
      | (some line, d, unread) => decodeLoop fuel (← d.chunkEndLine line) unread out
    | .trailer => do
      match ← d.takeLine d.limits.maxTrailerBytes unread with
      | (none, d, unread) => .ok (d, unread, out)
      | (some line, d, unread) => decodeLoop fuel (← d.trailerLine line) unread out

/-- Decode from `input`, appending payload to `out`; how many bytes were taken.  Every round but the
last takes a byte, and so does every round of an empty body but the first. -/
def decode (d : BodyDecoder) (input out : List UInt8) :
    Except HttpErrorKind (BodyDecoder × ℕ × List UInt8) := do
  let (d, unread, out) ← decodeLoop (input.length + 2) d input out
  return (d, input.length - unread.length, out)

end BodyDecoder

end HypeLlm.Http
