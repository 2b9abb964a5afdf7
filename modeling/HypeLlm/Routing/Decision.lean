import HypeLlm.Lib.Sorting
import HypeLlm.Routing.Target

/-!
# Decision traces: candidates, exclusions and scores

A routing decision lists the targets that survived the eligibility filters, best first, and the
targets that did not, each with the filter that stopped it.  Candidates are ordered by their
standing under a pin, then by score, then by identifier; exclusions by identifier, then by reason.
Both orders are total on what a decision can hold.
-/

namespace HypeLlm.Routing

open HypeLlm.Words

/-- Why a target was excluded, in the order of the source. -/
inductive ExclusionReason where
  | notAuthorizedForAlias
  | operationUnsupported
  | notPermittedForAlias
  | providerDisabled
  | targetDisabled
  | targetDraining
  | targetMaintenance
  | targetQuarantined
  | circuitOpen
  | probeUnreachable
  | unhealthy
  | modalityUnsupported
  | toolsUnsupported
  | structuredOutputUnsupported
  | streamingUnsupported
  | contextWindowTooSmall
  | outputLimitTooSmall
  | residencyMismatch
  | endpointNotAllowlisted
  | credentialScopeMismatch
  | costCeilingExceeded
  | budgetExceeded
  | capacityExhausted
  | deniedByPolicy
  | fleetAccessDenied
  | keyRestricted
  | notPinnedTarget
  | localRequired
  | familyFailoverNotAllowed
  | alreadyAttempted
  | notSelectedByAnyBinding
  | capabilityUnsupported
  | reasoningEffortUnsupported
  | qualityFloorNotMet
  | activationExceedsDeadline
  | activationBudgetExhausted
  | activationQueued
  | activationNotPermitted
  | artifactUnavailable
  | hostCapacityInsufficient
  | fleetStateStale
  | fleetAgentUnavailable
  | fleetConfigurationMismatch
  | deploymentInDwell
  | evictionValueInsufficient
  deriving Repr, DecidableEq

/-- The position in the derived order. -/
def ExclusionReason.rank (reason : ExclusionReason) : ℕ := reason.ctorIdx

theorem ExclusionReason.rank_injective : Function.Injective ExclusionReason.rank :=
  Function.LeftInverse.injective ExclusionReason.ofNat_ctorIdx

/-- Where a target stands in relation to the fleet. -/
inductive ResidencyClass where
  | unmanaged
  | resident
  | residentBusy
  | activating
  | coldFits
  | coldRequiresEviction
  | coldRequiresFetch
  | infeasible (reason : ExclusionReason)
  deriving Repr, DecidableEq

/-- The gap between adjacent rungs of the warmth ladder. -/
def warmthLadderStep : ℤ := 8000

namespace ResidencyClass

/-- The reason this class excludes the target, if it does. -/
def exclusion : ResidencyClass → Option ExclusionReason
  | .infeasible reason => some reason
  | _ => none

/-- Whether serving the target requires starting something first. -/
def requiresActivation : ResidencyClass → Bool
  | .coldFits | .coldRequiresEviction | .coldRequiresFetch => true
  | _ => false

def warmthBonus (r : ResidencyClass) : ℤ :=
  let rung : ℤ := match r with
    | .unmanaged | .resident => 5
    | .residentBusy => 4
    | .activating => 3
    | .coldFits => 2
    | .coldRequiresEviction => 1
    | .coldRequiresFetch | .infeasible _ => 0
  warmthLadderStep * rung

end ResidencyClass

/-- The integer terms of a score. -/
structure ScoreTerms where
  priorityRank : ℤ
  policyWeight : ℤ
  health : ℤ
  latency : ℤ
  queue : ℤ
  cost : ℤ
  locality : ℤ
  affinity : ℤ
  jitter : ℤ
  deriving Repr, DecidableEq

namespace ScoreTerms

def rankUnit : ℤ := 1000000

def maxRank : ℤ := 64

/-- The slice of the affinity term a permitted client hint may occupy. -/
def hintSlice : ℤ := 6000

/-- The slice conversation affinity may occupy. -/
def conversationSlice : ℤ := 4000

def rankTerm (rank : ℕ) : ℤ := (maxRank - min (rank : ℤ) maxRank) * rankUnit

def clamp (v lo hi : ℤ) : ℤ := max lo (min v hi)

/-- Every term in its documented range. -/
def clamped (t : ScoreTerms) : ScoreTerms where
  policyWeight := clamp t.policyWeight (-100000) 100000
  health := clamp t.health (-50000) 0
  latency := clamp t.latency (-50000) 0
  queue := clamp t.queue (-50000) 0
  cost := clamp t.cost (-50000) 0
  locality := clamp t.locality 0 50000
  affinity := clamp t.affinity 0 50000
  jitter := clamp t.jitter 0 999
  priorityRank := clamp t.priorityRank 0 (maxRank * rankUnit)

def total (t : ScoreTerms) : ℤ :=
  [t.policyWeight, t.health, t.latency, t.queue, t.cost, t.locality, t.affinity, t.jitter].foldl
    satAddInt t.priorityRank

end ScoreTerms

/-- A target that survived eligibility filtering, with its score. -/
structure Candidate where
  target : TargetId
  terms : ScoreTerms
  bindingPrecedence : ℕ
  rank : ℕ
  /-- Standing under an active pin: zero for the pinned target, and for everyone without a pin. -/
  pinRank : ℕ
  residency : ResidencyClass
  deriving Repr, DecidableEq

namespace Candidate

def pinTarget : ℕ := 0

def pinFallback : ℕ := 1

def score (c : Candidate) : ℤ := c.terms.total

/-- Pin standing first, then the higher score, then the identifier. -/
def orderingKey (c : Candidate) : ℕ ×ₗ ℤᵒᵈ ×ₗ TargetId :=
  toLex (c.pinRank, toLex (OrderDual.toDual c.score, c.target))

/-- Best first. -/
def Before (a b : Candidate) : Prop := a.orderingKey ≤ b.orderingKey

instance : DecidableRel Before := fun a b => inferInstanceAs (Decidable (a.orderingKey ≤ b.orderingKey))

instance : IsTrans Candidate Before := ⟨fun _ _ _ => le_trans⟩

instance : Std.Total Before := ⟨fun a b => le_total a.orderingKey b.orderingKey⟩

theorem Before.target_eq {a b : Candidate} (h : Before a b) (h' : Before b a) :
    a.target = b.target := by
  have hkey : a.orderingKey = b.orderingKey := le_antisymm h h'
  simp only [orderingKey, EmbeddingLike.apply_eq_iff_eq, Prod.mk.injEq] at hkey
  exact hkey.2.2

end Candidate

/-- A target that was excluded, and why. -/
structure Exclusion where
  target : TargetId
  reason : ExclusionReason
  deriving Repr, DecidableEq

namespace Exclusion

def orderingKey (e : Exclusion) : TargetId ×ₗ ℕ := toLex (e.target, e.reason.rank)

def Before (a b : Exclusion) : Prop := a.orderingKey ≤ b.orderingKey

instance : DecidableRel Before := fun a b => inferInstanceAs (Decidable (a.orderingKey ≤ b.orderingKey))

instance : IsTrans Exclusion Before := ⟨fun _ _ _ => le_trans⟩

instance : Std.Total Before := ⟨fun a b => le_total a.orderingKey b.orderingKey⟩

theorem Before.antisymm {a b : Exclusion} (h : Before a b) (h' : Before b a) : a = b := by
  have hkey : a.orderingKey = b.orderingKey := le_antisymm h h'
  simp only [orderingKey, EmbeddingLike.apply_eq_iff_eq, Prod.mk.injEq] at hkey
  obtain ⟨htarget, hrank⟩ := hkey
  have hreason : a.reason = b.reason := ExclusionReason.rank_injective hrank
  cases a
  cases b
  simp_all

end Exclusion

/-- The result of routing. -/
structure RouteOutcome where
  /-- Eligible targets, best first. -/
  candidates : List Candidate
  exclusions : List Exclusion
  /-- Whether a hard pin governed the selection. -/
  pinned : Bool
  deriving Repr, DecidableEq

end HypeLlm.Routing
