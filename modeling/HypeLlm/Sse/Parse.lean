import HypeLlm.Lib.Utf8
import HypeLlm.Lib.Words
import HypeLlm.Sse.Encode

/-!
# Parsing server-sent events

The parser is fed bytes.  A line feed, a carriage return or both end a line; a complete line is read
as text and waits.  Taking the next event consumes waiting lines up to the empty line that ends an
event with a payload.

A failure is final: the parser keeps it, and every later call reports it.
-/

namespace HypeLlm.Sse

open HypeLlm.Words List

/-- Bounds on the state of one stream's parser. -/
structure SseLimits where
  maxBufferBytes : ℕ
  maxEventBytes : ℕ
  maxFieldNameBytes : ℕ
  deriving Repr, DecidableEq

/-- The limits a parser has by default. -/
def SseLimits.default : SseLimits := ⟨256 * 1024, 1024 * 1024, 64⟩

structure SseEvent where
  event : Option (List Char)
  data : List Char
  id : Option (List Char)
  retry : Option UInt64
  deriving Repr, DecidableEq

/-- An event of which nothing was read. -/
def SseEvent.blank : SseEvent := ⟨none, [], none, none⟩

inductive SseError where
  | lineTooLong
  | eventTooLarge
  | fieldNameTooLong
  | invalidUtf8
  deriving Repr, DecidableEq

inductive Line where
  | blank
  | comment
  | field (name value : List Char)
  deriving Repr, DecidableEq

structure SseParser where
  limits : SseLimits
  /-- Bytes received but not yet formed into a line. -/
  lineBuf : List UInt8
  /-- Completed lines that no event consumed yet. -/
  pending : List Line
  /-- The event being assembled. -/
  current : SseEvent
  /-- A `data` field has been seen for it. -/
  sawData : Bool
  /-- The last byte was a carriage return that ended a line. -/
  pendingCr : Bool
  /-- The first line may still begin with a byte-order mark. -/
  bomPending : Bool
  failed : Option SseError
  deriving Repr, DecidableEq

/-- The bytes of a byte-order mark. -/
def utf8Bom : List UInt8 := [0xEF, 0xBB, 0xBF]

/-- The name and the value of a line, and no value for a line without a colon. -/
def splitField (text : List Char) : List Char × List Char :=
  match text.dropWhile (· ≠ ':') with
  | [] => (text, [])
  | _ :: value =>
    (text.takeWhile (· ≠ ':'), if value.head? = some ' ' then value.tail else value)

namespace SseParser

def new (limits : SseLimits) : SseParser :=
  ⟨limits, [], [], .blank, false, false, true, none⟩

def fail (p : SseParser) (e : SseError) : SseParser := { p with failed := some e }

/-- What is in the buffer is a line. -/
def finishLine (p : SseParser) : SseParser :=
  let raw := p.lineBuf
  let p := { p with bomPending := false, lineBuf := [] }
  match Utf8.decode raw with
  | none => p.fail .invalidUtf8
  | some text =>
    if text = [] then { p with pending := p.pending ++ [Line.blank] }
    else if text.head? = some ':' then { p with pending := p.pending ++ [Line.comment] }
    else
      let (name, value) := splitField text
      if p.limits.maxFieldNameBytes < (Utf8.encode name).length then p.fail .fieldNameTooLong
      else { p with pending := p.pending ++ [Line.field name value] }

/-- A byte that ends no line.  A byte-order mark at the very beginning is dropped. -/
def bufferByte (p : SseParser) (byte : UInt8) : SseParser :=
  if p.limits.maxBufferBytes ≤ p.lineBuf.length then p.fail .lineTooLong
  else
    let p := { p with lineBuf := p.lineBuf ++ [byte] }
    if p.bomPending then
      if p.lineBuf = utf8Bom then { p with lineBuf := [], bomPending := false }
      else if !p.lineBuf.isPrefixOf utf8Bom then { p with bomPending := false }
      else p
    else p

def pushByte (p : SseParser) (byte : UInt8) : SseParser :=
  if p.pendingCr && byte == 0x0A then { p with pendingCr := false }
  else
    let p := { p with pendingCr := false }
    if byte == 0x0A then p.finishLine
    else if byte == 0x0D then
      let p := p.finishLine
      if p.failed.isSome then p else { p with pendingCr := true }
    else p.bufferByte byte

/-- Feed received bytes.  The call fails with what the parser then has as its failure. -/
def push (p : SseParser) : List UInt8 → SseParser
  | [] => p
  | byte :: bytes => if p.failed.isSome then p else (p.pushByte byte).push bytes

/-- Consume one line; the event that it ends, if it ends one. -/
def takeLine (p : SseParser) : Line → Option SseEvent × SseParser
  | .comment => (none, p)
  | .blank =>
    if p.sawData then (some p.current, { p with current := .blank, sawData := false })
    else (none, { p with current := .blank })
  | .field name value =>
    if name = dataName then
      let addition :=
        if p.sawData then (Utf8.encode value).length + 1 else (Utf8.encode value).length
      if p.limits.maxEventBytes < (Utf8.encode p.current.data).length + addition then
        (none, p.fail .eventTooLarge)
      else
        let data := if p.sawData then p.current.data ++ ['\n'] else p.current.data
        (none, { p with current := { p.current with data := data ++ value }, sawData := true })
    else if name = eventName then
      (none, { p with current := { p.current with event := some value } })
    else if name = idName ∧ Char.ofNat 0 ∉ value then
      (none, { p with current := { p.current with id := some value } })
    else if name = retryName then
      match Decimal.parse u64Max value with
      | some millis =>
        (none, { p with current := { p.current with retry := some (UInt64.ofNat millis) } })
      | none => (none, p)
    else (none, p)

/-- Consume lines up to the end of an event. -/
def takeLines (p : SseParser) : List Line → Option SseEvent × SseParser
  | [] => (none, { p with pending := [] })
  | line :: lines =>
    match { p with pending := lines }.takeLine line with
    | (some e, p) => (some e, p)
    | (none, p) => if p.failed.isSome then (none, p) else p.takeLines lines

/-- Take the next complete event, if there is one. -/
def nextEvent (p : SseParser) : Except SseError (Option SseEvent) × SseParser :=
  match p.failed with
  | some e => (.error e, p)
  | none =>
    let (event, p) := p.takeLines p.pending
    match p.failed with
    | some e => (.error e, p)
    | none => (.ok event, p)

/-- Take events until there is none, at most `fuel` times. -/
def drainUpTo : ℕ → SseParser → Except SseError (List SseEvent) × SseParser
  | 0, p => (.ok [], p)
  | fuel + 1, p =>
    match p.nextEvent with
    | (.error e, p) => (.error e, p)
    | (.ok none, p) => (.ok [], p)
    | (.ok (some event), p) =>
      match drainUpTo fuel p with
      | (.error e, p) => (.error e, p)
      | (.ok events, p) => (.ok (event :: events), p)

/-- Take every event that is complete.  An event consumes a line. -/
def drain (p : SseParser) : Except SseError (List SseEvent) × SseParser :=
  drainUpTo (p.pending.length + 1) p

end SseParser

end HypeLlm.Sse
