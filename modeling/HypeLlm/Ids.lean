import Mathlib

/-!
# Identifiers and classes

The identifier newtypes of the domain model.  Each wraps a validated string; the operations
modelled here only compare identifiers, order them as map keys and print them into scope names,
so a plain string stands for each of them.  The operations of the canonical request and the
priority classes of the admission queue are closed enumerations.
-/

namespace HypeLlm

abbrev TenantId := String
abbrev PrincipalId := String
abbrev TargetId := String
abbrev AliasId := String
abbrev KeyId := String
abbrev GroupId := String
abbrev ProviderId := String
abbrev BindingId := String
abbrev HostId := String
abbrev CredentialRef := String

/-- A 128-bit request identifier. -/
abbrev RequestId := BitVec 128

/-- What a request asks a model to do. -/
inductive Operation where
  | chat
  | responses
  | embeddings
  | tokenize
  | rerank
  | job
  deriving Repr, DecidableEq

def Operation.asStr : Operation → String
  | .chat => "chat"
  | .responses => "responses"
  | .embeddings => "embeddings"
  | .tokenize => "tokenize"
  | .rerank => "rerank"
  | .job => "job"

/-- The position in the derived order. -/
def Operation.rank : Operation → ℕ
  | .chat => 0
  | .responses => 1
  | .embeddings => 2
  | .tokenize => 3
  | .rerank => 4
  | .job => 5

theorem Operation.rank_injective : Function.Injective Operation.rank := by
  intro op op' h
  cases op <;> cases op' <;> first | rfl | cases h

/-- A request's priority class, in the order they are served. -/
inductive PriorityClass where
  | interactive
  | standard
  | batch
  deriving Repr, DecidableEq

/-- The position in the derived order: lower is served first. -/
def PriorityClass.rank : PriorityClass → ℕ
  | .interactive => 0
  | .standard => 1
  | .batch => 2

end HypeLlm
