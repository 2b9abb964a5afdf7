import HypeLlm.Routing.Request

/-!
# Providers, targets and aliases

A target is a model at a provider's endpoint.  What it can do is declared and never inferred: a
capability that is not listed is a capability it does not have.  Identifiers of credentials are
handles; whether one is present is all that routing asks.
-/

namespace HypeLlm.Routing

/-- The kind of work a model does. -/
inductive Capability where
  | chat
  | vision
  | document
  | embeddings
  | rerank
  | textToSpeech
  | textToMusic
  | textToSfx
  | textToImage
  | textToVideo
  | imageToVideo
  | audioToVideo
  | lipsync
  | imageTo3d
  | textToMotion
  deriving Repr, DecidableEq

/-- The provider family an adapter is compiled for. -/
inductive ProviderFamily where
  | llamaCpp
  | openAi
  | anthropic
  | deepSeek
  | moonshot
  | genericOpenAi
  | job
  | semIf
  deriving Repr, DecidableEq

structure Provider where
  id : ProviderId
  family : ProviderFamily
  credentialRef : Option CredentialRef
  enabled : Bool
  deriving Repr, DecidableEq

/-- Per-tier multipliers applied to reserved output tokens. -/
structure EffortMultipliers where
  minimal : ℕ
  low : ℕ
  medium : ℕ
  high : ℕ
  deriving Repr, DecidableEq

def EffortMultipliers.default : EffortMultipliers := ⟨1, 2, 4, 8⟩

def EffortMultipliers.forEffort (m : EffortMultipliers) : ReasoningEffort → ℕ
  | .unset => 1
  | .minimal => m.minimal
  | .low => m.low
  | .medium => m.medium
  | .high => m.high

structure Capabilities where
  operations : List Operation
  verbs : List Capability
  modalities : List Modality
  reasoningEfforts : List ReasoningEffort
  effortMultipliers : EffortMultipliers
  streaming : Bool
  tools : Bool
  jsonMode : Bool
  structuredOutput : Bool
  maxContextTokens : ℕ
  maxOutputTokens : ℕ
  deriving Repr, DecidableEq

namespace Capabilities

variable (caps : Capabilities)

/-- The most restrictive declaration. -/
def default : Capabilities where
  operations := []
  verbs := []
  modalities := [.text]
  reasoningEfforts := []
  effortMultipliers := EffortMultipliers.default
  streaming := false
  tools := false
  jsonMode := false
  structuredOutput := false
  maxContextTokens := 0
  maxOutputTokens := 0

def supportsOperation (op : Operation) : Bool := caps.operations.contains op

def supportsModalities (required : List Modality) : Bool :=
  required.all caps.modalities.contains

def supportsCapability (verb : Capability) : Bool := caps.verbs.contains verb

def supportsEffort (effort : ReasoningEffort) : Bool :=
  effort == .unset || caps.reasoningEfforts.contains effort

end Capabilities

/-- Operational state an administrator can set on a target. -/
inductive AdminState where
  | enabled
  | draining
  | maintenance
  | quarantined
  | disabled
  deriving Repr, DecidableEq

structure Target where
  id : TargetId
  providerId : ProviderId
  capabilities : Capabilities
  costClass : ℕ
  qualityClass : ℕ
  documentTokenEstimate : Option ℕ
  bytesPerTokenHundredths : Option ℕ
  residency : Option String
  isLocal : Bool
  adminState : AdminState
  deriving Repr, DecidableEq

namespace Target

variable (t : Target)

/-- An undeclared region is unknown, not universal. -/
def satisfiesResidency : Option String → Bool
  | none => true
  | some required => t.residency == some required

def withinCostCeiling : Option ℕ → Bool
  | none => true
  | some ceiling => decide (t.costClass ≤ ceiling)

def meetsQualityFloor : Option ℕ → Bool
  | none => true
  | some floor => decide (floor ≤ t.qualityClass)

def tokenEstimate (effort : ReasoningEffort) (defaultDocument : ℕ) : TokenEstimate where
  documentTokenEstimate := t.documentTokenEstimate.getD defaultDocument
  outputMultiplier := t.capabilities.effortMultipliers.forEffort effort
  bytesPerTokenHundredths := t.bytesPerTokenHundredths.getD defaultBytesPerTokenHundredths

end Target

/-- A client-visible alias and the targets it may resolve to. -/
structure Alias where
  id : AliasId
  capability : Option Capability
  permittedTargets : List TargetId
  allowFamilyFailover : Bool
  deriving Repr, DecidableEq

end HypeLlm.Routing
