import HypeLlm.Lib.Words
import HypeLlm.Ids

/-!
# The canonical request, as far as routing reads it

Routing reads a request's operation and requested alias, what its content needs of a target
(modalities, tools, a response format, a reasoning tier, streaming), its limits, and two of its
hints.  It never reads the content itself: only how long it is, for a conservative estimate of the
input tokens.
-/

namespace HypeLlm.Routing

open HypeLlm.Words

/-- An input modality. -/
inductive Modality where
  | text
  | image
  | audio
  | document
  deriving Repr, DecidableEq

/-- The position in the derived order. -/
def Modality.rank : Modality → ℕ
  | .text => 0
  | .image => 1
  | .audio => 2
  | .document => 3

/-- How much reasoning the caller asked for. -/
inductive ReasoningEffort where
  | unset
  | minimal
  | low
  | medium
  | high
  deriving Repr, DecidableEq

inductive ImageSource where
  | inline (mediaType base64Data : String)
  | url (u : String)
  deriving Repr, DecidableEq

inductive DocumentSource where
  | inline (base64Data : String)
  | url (u : String)
  deriving Repr, DecidableEq

/-- One part of a message's content. -/
inductive ContentPart where
  | text (t : String)
  | image (source : ImageSource)
  | document (mediaType : String) (source : DocumentSource)
  | audio (format base64Data : String)
  | toolResult (toolCallId content : String) (isError : Bool)
  deriving Repr, DecidableEq

namespace ContentPart

def byteLen : ContentPart → ℕ
  | .text t => t.utf8ByteSize
  | .image (.inline _ base64Data) => base64Data.utf8ByteSize
  | .image (.url u) => u.utf8ByteSize
  | .audio _ base64Data => base64Data.utf8ByteSize
  | .toolResult _ content _ => content.utf8ByteSize
  | .document _ (.inline base64Data) => base64Data.utf8ByteSize
  | .document _ (.url u) => u.utf8ByteSize

def modality : ContentPart → Modality
  | .text _ | .toolResult .. => .text
  | .image _ => .image
  | .audio .. => .audio
  | .document .. => .document

def isDocument : ContentPart → Bool
  | .document .. => true
  | _ => false

end ContentPart

structure ToolCall where
  name : String
  arguments : String
  deriving Repr, DecidableEq

structure Message where
  content : List ContentPart
  toolCalls : List ToolCall
  deriving Repr, DecidableEq

def Message.byteLen (m : Message) : ℕ :=
  (m.content.map ContentPart.byteLen).sum +
    (m.toolCalls.map fun c => c.arguments.utf8ByteSize + c.name.utf8ByteSize).sum

structure ToolDef where
  name : String
  parametersJson : String
  deriving Repr, DecidableEq

inductive ResponseFormat where
  | text
  | jsonObject
  | jsonSchema (name schemaJson : String) (strict : Bool)
  deriving Repr, DecidableEq

structure RequestLimits where
  maxOutputTokens : Option ℕ
  /-- The instant, in milliseconds, by which the request must be served. -/
  deadline : ℕ
  maxCostClass : Option ℕ
  minQualityClass : Option ℕ
  residency : Option String
  deriving Repr, DecidableEq

structure RoutingHints where
  preferTarget : Option TargetId
  requireLocal : Bool
  deriving Repr, DecidableEq

structure CanonicalRequest where
  requestId : RequestId
  operation : Operation
  requestedModel : AliasId
  messages : List Message
  inputs : List String
  tools : List ToolDef
  responseFormat : Option ResponseFormat
  reasoningEffort : ReasoningEffort
  limits : RequestLimits
  /-- Whether the client asked for a stream. -/
  stream : Bool
  hints : RoutingHints
  deriving Repr, DecidableEq

/-- The target-declared inputs to a token estimate. -/
structure TokenEstimate where
  documentTokenEstimate : ℕ
  outputMultiplier : ℕ
  /-- Input bytes assumed to make one token, in hundredths of a byte. -/
  bytesPerTokenHundredths : ℕ
  deriving Repr, DecidableEq

def defaultBytesPerTokenHundredths : ℕ := 200

def minBytesPerTokenHundredths : ℕ := 100

def maxBytesPerTokenHundredths : ℕ := 800

namespace CanonicalRequest

variable (req : CanonicalRequest)

def inputByteLen : ℕ :=
  (req.messages.map Message.byteLen).sum + (req.inputs.map String.utf8ByteSize).sum +
    (req.tools.map fun t => t.parametersJson.utf8ByteSize + t.name.utf8ByteSize).sum

/-- The modalities the request requires of a target, sorted and without repetition. -/
def requiredModalities : List Modality :=
  let set := req.messages.flatMap fun m => m.content.map ContentPart.modality
  let set := if set.isEmpty then [.text] else set
  (set.insertionSort fun a b => a.rank ≤ b.rank).destutter (· ≠ ·)

def requiresTools : Bool :=
  !req.tools.isEmpty || req.messages.any fun m => !m.toolCalls.isEmpty

/-- The document parts of all messages. -/
def documents : List ContentPart :=
  (req.messages.flatMap Message.content).filter ContentPart.isDocument

def nonDocumentInputByteLen : ℕ :=
  req.inputByteLen - (req.documents.map ContentPart.byteLen).sum

def documentParts : ℕ := req.documents.length

/-- A conservative upper bound on the input tokens, given a target's declaration.  A job's cost is
accelerator time, not tokens. -/
def estimatedInputTokensFor (estimate : TokenEstimate) : ℕ :=
  if req.operation = .job then 0
  else
    let bytes := min req.nonDocumentInputByteLen u64Max
    let perTokenHundredths := max minBytesPerTokenHundredths
      (min estimate.bytesPerTokenHundredths maxBytesPerTokenHundredths)
    let framing := satMul u64Max (min req.messages.length u64Max) 8
    let documents := satMul u64Max (min req.documentParts u64Max) estimate.documentTokenEstimate
    -- The division rounds up.
    let tokens := (satMul u64Max bytes 100 + perTokenHundredths - 1) / perTokenHundredths
    satAdd u64Max (satAdd u64Max tokens framing) documents

end CanonicalRequest

end HypeLlm.Routing
