import HypeLlm.Lib.Decimal

/-!
# Encoding server-sent events

An event is a run of lines `field: value` that an empty line ends.  A payload is written as one
`data` line for each of its lines; a name or a comment is put on one line by writing its line
terminators as spaces.  Comments are lines that begin with a colon.

An encoder appends to what was written before, so each is the text that it appends.
-/

namespace HypeLlm.Sse

open HypeLlm.Decimal List

/-- The terminal marker of a stream. -/
def doneMarker : List Char := ['[', 'D', 'O', 'N', 'E', ']']

def dataName : List Char := ['d', 'a', 't', 'a']

def eventName : List Char := ['e', 'v', 'e', 'n', 't']

def idName : List Char := ['i', 'd']

def retryName : List Char := ['r', 'e', 't', 'r', 'y']

/-- A field: its name, a colon, a space and its value. -/
def field (name value : List Char) : List Char := name ++ ':' :: ' ' :: value

/-- A line feed or a carriage return. -/
def isTerminator (c : Char) : Bool := c == '\n' || c == '\r'

/-- Every pair of a carriage return and a line feed becomes a line feed. -/
def replaceCrlf : List Char → List Char
  | [] => []
  | '\r' :: '\n' :: cs => '\n' :: replaceCrlf cs
  | c :: cs => c :: replaceCrlf cs

/-- One `data` line. -/
def dataLine (line : List Char) : List Char := field dataName line ++ ['\n']

def writeDataLines (data : List Char) : List Char :=
  if data = [] then dataLine []
  else ((replaceCrlf data).splitOnP isTerminator).flatMap dataLine

/-- A text on one line. -/
def singleLine (text : List Char) : List Char :=
  text.map fun c => if isTerminator c then ' ' else c

/-- An event with only a payload. -/
def encodeData (data : List Char) : List Char := writeDataLines data ++ ['\n']

/-- A named event with a payload. -/
def encodeEvent (event data : List Char) : List Char :=
  field eventName (singleLine event) ++ ['\n'] ++ writeDataLines data ++ ['\n']

/-- The terminal marker as an event. -/
def encodeDone : List Char := field dataName doneMarker ++ ['\n', '\n']

/-- A comment line. -/
def encodeComment (text : List Char) : List Char := [':'] ++ singleLine text ++ ['\n']

def encodeKeepalive : List Char := [':', ' ', 'k', 'e', 'e', 'p', 'a', 'l', 'i', 'v', 'e', '\n']

/-- How long a client is to wait before it connects again. -/
def encodeRetry (millis : UInt64) : List Char :=
  field retryName (Decimal.text 20 millis.toNat) ++ ['\n']

/-! ### Calls -/

inductive Call where
  | data (data : List Char)
  | event (event data : List Char)
  | comment (text : List Char)
  | keepalive
  | retry (millis : UInt64)
  | done
  deriving Repr, DecidableEq

/-- What a call appends. -/
def Call.encode : Call → List Char
  | .data payload => encodeData payload
  | .event name payload => encodeEvent name payload
  | .comment text => encodeComment text
  | .keepalive => encodeKeepalive
  | .retry millis => encodeRetry millis
  | .done => encodeDone

end HypeLlm.Sse
