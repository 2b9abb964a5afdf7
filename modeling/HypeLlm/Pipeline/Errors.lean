import Mathlib

/-!
# What a request fails with

A router error is a stable code with a bounded, safe detail, and for some codes a parameter at
fault or a time to wait.  Details and parameters are cut to a number of bytes, never inside a
character.
-/

namespace HypeLlm.Pipeline

inductive ErrorCode where
  | invalidRequest
  | unauthenticated
  | tokenBudgetExhausted
  | forbidden
  | modelNotFound
  | idempotencyConflict
  | rateLimited
  | capacityExhausted
  | upstreamInvalidResponse
  | noEligibleTarget
  | deadlineExceeded
  | jobNotFound
  | jobNotReady
  | internalFault
  deriving Repr, DecidableEq

/-- A text cut to a number of bytes. -/
structure Capped where
  text : List Char
  truncated : Bool
  deriving Repr, DecidableEq

namespace Capped

/-- The characters that fit into `max` bytes. -/
def cut : ℕ → List Char → List Char
  | _, [] => []
  | max, c :: cs => if c.utf8Size ≤ max then c :: cut (max - c.utf8Size) cs else []

def byteLength (text : List Char) : ℕ := (text.map Char.utf8Size).sum

def new (text : List Char) (max : ℕ) : Capped :=
  if byteLength text ≤ max then ⟨text, false⟩ else ⟨cut max text, true⟩

def logField (text : String) : Capped := new text.toList 256

end Capped

structure RouterError where
  code : ErrorCode
  detail : Capped
  retryAfterSecs : Option ℕ
  param : Option Capped
  deriving Repr, DecidableEq

namespace RouterError

def new (code : ErrorCode) (detail : String) : RouterError := ⟨code, Capped.logField detail, none, none⟩

def withParam (e : RouterError) (param : String) : RouterError :=
  { e with param := some (Capped.new param.toList 64) }

end RouterError

end HypeLlm.Pipeline
