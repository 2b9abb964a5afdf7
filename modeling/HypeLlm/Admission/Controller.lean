import HypeLlm.Lib.Heap
import HypeLlm.Machine.Ledger
import HypeLlm.Admission.Scope

/-!
# The admission controller

A request passes through a chain of scopes, widest to narrowest: global, tenant, principal, alias
and target, and last the memory of the machine its target runs on.  Admission is all or nothing:
the first refusal undoes what the wider scopes had given.

Scopes and machine ledgers are shared objects.  They live in two heaps, the controller's maps lead
to addresses in them, and a reservation keeps the addresses it was admitted at.  A publication
reconfigures the objects its plan still names, drops the target, alias and machine entries it no
longer names from the maps, and creates the rest; an object that is dropped from a map stays in the
heap for those who hold it.

A call takes its clock readings as an argument (`Readings`): the one made at its start, and those
made where a tenant's or a principal's scope is created on demand.  A reading is any number; nothing
here needs the clock to go forward.
-/

namespace HypeLlm.Admission

open HypeLlm.Words HypeLlm.Machine Std

/-- A shared scope: its address in the heap of scopes. -/
abbrev ScopeRef := ℕ

/-- A shared machine ledger: its address in the heap of ledgers. -/
abbrev LedgerRef := ℕ

/-- An alias and an optional operation qualifier. -/
abbrev AliasKey := AliasId × Option Operation

namespace AliasKey

/-- The position in the derived order: the alias-wide entry, then the operations. -/
def qualifierRank : Option Operation → ℕ
  | none => 0
  | some operation => operation.rank + 1

/-- The derived order of the keys. -/
def order : AliasKey → AliasKey → Ordering :=
  compareLex (compareOn Prod.fst) (compareOn fun key => qualifierRank key.2)

theorem qualifierRank_injective : Function.Injective qualifierRank := by
  intro q q' h
  rcases q with _ | op <;> rcases q' with _ | op'
  · rfl
  · simp [qualifierRank] at h
  · simp [qualifierRank] at h
  · exact congrArg some (Operation.rank_injective (Nat.succ.inj h))

instance : TransCmp order := inferInstanceAs (TransCmp (compareLex _ _))

instance : LawfulEqCmp order where
  eq_of_compare {key key'} h := by
    have hboth : compare key.1 key'.1 = .eq ∧
        compare (qualifierRank key.2) (qualifierRank key'.2) = .eq := by
      simpa [order, compareLex, compareOn, Ordering.then_eq_eq] using h
    have hrank := qualifierRank_injective (LawfulEqCmp.eq_of_compare hboth.2)
    exact Prod.ext (LawfulEqCmp.eq_of_compare hboth.1) hrank

end AliasKey

def globalName : String := "global"

def tenantName (tenant : TenantId) : String := "tenant:" ++ tenant

def principalName (principal : PrincipalId) : String := "principal:" ++ principal

def targetName (target : TargetId) : String := "target:" ++ target

def aliasName : AliasKey → String
  | (aliasId, none) => "alias:" ++ aliasId
  | (aliasId, some operation) => "alias:" ++ aliasId ++ ":" ++ operation.asStr

/-- Global byte rates; zero means unlimited in that direction. -/
structure ByteRateLimits where
  inputPerSecond : ℕ
  inputBurst : ℕ
  outputPerSecond : ℕ
  outputBurst : ℕ
  deriving Repr, DecidableEq

/-- What one request or job to a target holds while it runs, and where. -/
structure TargetMemory where
  machine : String
  bytes : ℕ
  /-- The class its work waits in; the caller's when absent. -/
  priority : Option PriorityClass
  deriving Repr, DecidableEq

/-- Every limit and class a configuration gives the controller. -/
structure AdmissionPlan where
  global : ScopeLimits
  byteRates : ByteRateLimits
  tenants : TreeMap TenantId ScopeLimits compare
  principals : TreeMap PrincipalId ScopeLimits compare
  aliases : TreeMap AliasKey ScopeLimits AliasKey.order
  targets : TreeMap TargetId ScopeLimits compare
  classes : TreeMap String PriorityClass compare
  machines : TreeMap String ℕ compare
  targetMemory : TreeMap TargetId TargetMemory compare

/-- A plan with the given global limits and nothing else. -/
def AdmissionPlan.new (global : ScopeLimits) : AdmissionPlan :=
  ⟨global, ⟨0, 0, 0, 0⟩, ∅, ∅, ∅, ∅, ∅, ∅, ∅⟩

/-- The layers of one request. -/
structure Route where
  tenant : TenantId
  principal : PrincipalId
  /-- The alias asked for and the operation, where the alias layer takes part. -/
  aliased : Option (AliasId × Operation)
  target : TargetId
  deriving Repr, DecidableEq

/-- The clock readings of one call. -/
structure Readings where
  now : ℕ
  /-- Where the tenant's scope is created. -/
  tenant : ℕ
  /-- Where the principal's scope is created. -/
  principal : ℕ
  deriving Repr, DecidableEq

structure Controller where
  scopes : Heap Scope
  ledgers : Heap MachineLedger
  global : ScopeRef
  tenants : TreeMap TenantId ScopeRef compare
  principals : TreeMap PrincipalId ScopeRef compare
  targets : TreeMap TargetId ScopeRef compare
  aliases : TreeMap AliasKey ScopeRef AliasKey.order
  inboundBytes : Option TokenBucket
  outboundBytes : Option TokenBucket
  defaultTenantLimits : ScopeLimits
  defaultPrincipalLimits : ScopeLimits
  classes : TreeMap String PriorityClass compare
  machines : TreeMap String LedgerRef compare
  targetMemory : TreeMap TargetId TargetMemory compare
  /-- Names the machine waits of requests without a key of their own. -/
  nextWait : ℕ

/-- A held reservation across the whole scope hierarchy. -/
structure Reservation where
  /-- In the order of acquisition. -/
  scopes : List ScopeRef
  reservedTokens : ℕ
  released : Bool
  target : TargetId
  machine : Option (LedgerRef × MachineHold)
  deriving Repr, DecidableEq

/-- How a reservation takes its target's machine memory. -/
inductive MemoryAsk where
  /-- Try now, as the holder of claim `key` if any. -/
  | take (priority : PriorityClass) (key : Option String)
  /-- Already held, by a request that waited on the machine for it. -/
  | held (ledger : LedgerRef) (hold : MachineHold)
  deriving Repr, DecidableEq

/-! ### Publications -/

section ApplyLayer

variable {κ : Type} {cmp : κ → κ → Ordering}

/-- One planned entry: reconfigure its scope, or create it. -/
def applyEntry (name : κ → String) (nowMs : ℕ) (layer : TreeMap κ ScopeRef cmp × Heap Scope)
    (entry : κ × ScopeLimits) : TreeMap κ ScopeRef cmp × Heap Scope :=
  match layer.1[entry.1]? with
  | some i => (layer.1, layer.2.modify i (·.reconfigure entry.2 nowMs))
  | none =>
    (layer.1.insert entry.1 layer.2.next, layer.2.alloc (.new (name entry.1) entry.2 nowMs))

/-- The entries the plan no longer names: reconfigured to `fallback`, or dropped. -/
def retainPlanned (planned : TreeMap κ ScopeLimits cmp) (fallback : Option ScopeLimits) (nowMs : ℕ)
    (layer : TreeMap κ ScopeRef cmp × Heap Scope) : TreeMap κ ScopeRef cmp × Heap Scope :=
  match fallback with
  | some limits =>
    (layer.1, layer.1.toList.foldl (fun scopes entry =>
      if planned.contains entry.1 then scopes
      else scopes.modify entry.2 (·.reconfigure limits nowMs)) layer.2)
  | none => (layer.1.filter fun key _ => planned.contains key, layer.2)

/-- Bring one layer's scopes in line with `planned`. -/
def applyLayer (planned : TreeMap κ ScopeLimits cmp) (fallback : Option ScopeLimits)
    (name : κ → String) (nowMs : ℕ) (layer : TreeMap κ ScopeRef cmp × Heap Scope) :
    TreeMap κ ScopeRef cmp × Heap Scope :=
  planned.toList.foldl (applyEntry name nowMs) (retainPlanned planned fallback nowMs layer)

end ApplyLayer

namespace Controller

/-- The filler of the heap of scopes. -/
def noScope : Scope := .new "" .unlimited 0

/-- A controller with the given global limits. -/
def new (global : ScopeLimits) (nowMs : ℕ) : Controller where
  scopes := (Heap.empty noScope).alloc (.new globalName global nowMs)
  ledgers := .empty (.new "" 0)
  global := 0
  tenants := ∅
  principals := ∅
  targets := ∅
  aliases := ∅
  inboundBytes := none
  outboundBytes := none
  defaultTenantLimits := .unlimited
  defaultPrincipalLimits := .unlimited
  classes := ∅
  machines := ∅
  targetMemory := ∅
  nextWait := 0

def reconfigureGlobal (c : Controller) (limits : ScopeLimits) (nowMs : ℕ) : Controller :=
  { c with scopes := c.scopes.modify c.global (·.reconfigure limits nowMs) }

/-- The byte-rate bucket shape a rate asks for, if any. -/
def byteShape (rate burst : ℕ) : Option BucketShape :=
  if 0 < rate then some (.perSecond rate burst) else none

def reshapeBytes (c : Controller) (rates : ByteRateLimits) (nowMs : ℕ) : Controller :=
  { c with
    inboundBytes :=
      reshape c.inboundBytes (byteShape rates.inputPerSecond rates.inputBurst) nowMs
    outboundBytes :=
      reshape c.outboundBytes (byteShape rates.outputPerSecond rates.outputBurst) nowMs }

def applyTenants (c : Controller) (planned : TreeMap TenantId ScopeLimits compare) (nowMs : ℕ) :
    Controller :=
  let layer := applyLayer planned (some c.defaultTenantLimits) tenantName nowMs (c.tenants, c.scopes)
  { c with tenants := layer.1, scopes := layer.2 }

def applyPrincipals (c : Controller) (planned : TreeMap PrincipalId ScopeLimits compare)
    (nowMs : ℕ) : Controller :=
  let layer := applyLayer planned (some c.defaultPrincipalLimits) principalName nowMs
    (c.principals, c.scopes)
  { c with principals := layer.1, scopes := layer.2 }

def applyTargets (c : Controller) (planned : TreeMap TargetId ScopeLimits compare) (nowMs : ℕ) :
    Controller :=
  let layer := applyLayer planned none targetName nowMs (c.targets, c.scopes)
  { c with targets := layer.1, scopes := layer.2 }

def applyAliases (c : Controller) (planned : TreeMap AliasKey ScopeLimits AliasKey.order)
    (nowMs : ℕ) : Controller :=
  let layer := applyLayer planned none aliasName nowMs (c.aliases, c.scopes)
  { c with aliases := layer.1, scopes := layer.2 }

def replaceClasses (c : Controller) (classes : TreeMap String PriorityClass compare) : Controller :=
  { c with classes := classes }

/-- One planned machine: reconfigure its ledger, or create it. -/
def configureMachine (machines : TreeMap String LedgerRef compare × Heap MachineLedger)
    (entry : String × ℕ) : TreeMap String LedgerRef compare × Heap MachineLedger :=
  match machines.1[entry.1]? with
  | some i => (machines.1, machines.2.modify i (·.reconfigure entry.2))
  | none => (machines.1.insert entry.1 machines.2.next, machines.2.alloc (.new entry.1 entry.2))

/-- Bring the machine ledgers in line with `plan`, and nothing else. -/
def configureMachines (c : Controller) (plan : AdmissionPlan) : Controller :=
  let machines := plan.machines.toList.foldl configureMachine
    (c.machines.filter fun id _ => plan.machines.contains id, c.ledgers)
  { c with machines := machines.1, ledgers := machines.2, targetMemory := plan.targetMemory }

/-- Make the controller enforce `plan`, in place. -/
def apply (c : Controller) (plan : AdmissionPlan) (nowMs : ℕ) : Controller :=
  ((((((c.reconfigureGlobal plan.global nowMs).reshapeBytes plan.byteRates nowMs).applyTenants
    plan.tenants nowMs).applyPrincipals plan.principals nowMs).applyTargets
    plan.targets nowMs).applyAliases plan.aliases nowMs).replaceClasses plan.classes
    |>.configureMachines plan

/-- A controller enforcing `plan`, created at `newMs`. -/
def fromPlan (plan : AdmissionPlan) (newMs nowMs : ℕ) : Controller :=
  (new plan.global newMs).apply plan nowMs

/-! ### The chain of a request -/

/-- An alias's scope for one operation: the operation-specific entry wins. -/
def aliasScope (c : Controller) (aliasId : AliasId) (operation : Operation) : Option ScopeRef :=
  c.aliases[((aliasId, some operation) : AliasKey)]?.or c.aliases[((aliasId, none) : AliasKey)]?

def targetScope (c : Controller) (target : TargetId) : Option ScopeRef := c.targets[target]?

def tenantScope (c : Controller) (tenant : TenantId) (nowMs : ℕ) : ScopeRef × Controller :=
  match c.tenants[tenant]? with
  | some i => (i, c)
  | none =>
    (c.scopes.next, { c with
      tenants := c.tenants.insert tenant c.scopes.next
      scopes := c.scopes.alloc (.new (tenantName tenant) c.defaultTenantLimits nowMs) })

def principalScope (c : Controller) (principal : PrincipalId) (nowMs : ℕ) : ScopeRef × Controller :=
  match c.principals[principal]? with
  | some i => (i, c)
  | none =>
    (c.scopes.next, { c with
      principals := c.principals.insert principal c.scopes.next
      scopes := c.scopes.alloc (.new (principalName principal) c.defaultPrincipalLimits nowMs) })

/-- Every scope a request passes through, widest to narrowest. -/
def chain (c : Controller) (route : Route) (clock : Readings) : List ScopeRef × Controller :=
  let tenant := c.tenantScope route.tenant clock.tenant
  let principal := tenant.2.principalScope route.principal clock.principal
  let c := principal.2
  let aliased := route.aliased.bind fun (aliasId, operation) => c.aliasScope aliasId operation
  ([c.global, tenant.1, principal.1] ++ aliased.toList ++ (c.targetScope route.target).toList, c)

/-- The ledger a target draws on, what one of its requests holds, and the class it waits in. -/
def machineFor (c : Controller) (target : TargetId) (caller : PriorityClass) :
    Option (LedgerRef × ℕ × PriorityClass) :=
  match c.targetMemory[target]? with
  | none => none
  | some memory =>
    match c.machines[memory.machine]? with
    | none => none
    | some ledger => some (ledger, memory.bytes, memory.priority.getD caller)

end Controller

/-! ### Acquisition -/

/-- Undo the acquisitions `held`, the newest of which stands first. -/
def rollbackAll (tokens : ℕ) (held : List ScopeRef) (scopes : Heap Scope) : Heap Scope :=
  held.foldl (fun scopes i => scopes.modify i (·.rollback tokens)) scopes

/-- The loop of `acquire_chain`: acquire scope after scope, `held` being those acquired so far,
the newest first; the first refusal rolls them back. -/
def acquireAll (tokens nowMs : ℕ) (ticketAt : String → Option ℕ) :
    List ScopeRef → List ScopeRef → Heap Scope →
      Except (Rejection × String) (List ScopeRef) × Heap Scope
  | [], held, scopes => (.ok held.reverse, scopes)
  | i :: rest, held, scopes =>
    let scope := scopes.cell i
    match scope.tryAcquireAs tokens nowMs (ticketAt scope.name) with
    | (.ok _, scope') => acquireAll tokens nowMs ticketAt rest (i :: held) (scopes.set i scope')
    | (.error rejection, scope') =>
      (.error (rejection, scope.name), rollbackAll tokens held (scopes.set i scope'))

namespace Controller

/-- The ticket a request that has waited presents at the scopes named `name`. -/
def ticketAt (c : Controller) (holder : Option (ScopeRef × ℕ)) (name : String) : Option ℕ :=
  holder.bind fun (queued, ticket) =>
    if (c.scopes.cell queued).name = name then some ticket else none

/-- The hold of an ask goes out of scope with a call that failed. -/
def dropAsk (c : Controller) : MemoryAsk → Controller
  | .take _ _ => c
  | .held ledger hold =>
    { c with ledgers := c.ledgers.modify ledger fun m => (hold.release m).2 }

/-- The second half of `acquire_chain`: the machine's memory, with the scopes `held` acquired. -/
def acquireMemory (c : Controller) (route : Route) (tokens : ℕ) (held : List ScopeRef)
    (memory : MemoryAsk) (nowMs : ℕ) : Except (Rejection × String) Reservation × Controller :=
  match memory with
  | .held ledger hold => (.ok ⟨held, tokens, false, route.target, some (ledger, hold)⟩, c)
  | .take priority key =>
    match c.machineFor route.target priority with
    | none => (.ok ⟨held, tokens, false, route.target, none⟩, c)
    | some (ledger, bytes, priority) =>
      match (c.ledgers.cell ledger).tryHold route.target bytes priority key nowMs with
      | (.ok hold, m) =>
        (.ok ⟨held, tokens, false, route.target, some (ledger, hold)⟩,
          { c with ledgers := c.ledgers.set ledger m })
      | (.error _, m) =>
        (.error (.memoryExhausted, (c.ledgers.cell ledger).name),
          { c with
            scopes := rollbackAll tokens held.reverse c.scopes
            ledgers := c.ledgers.set ledger m })

/-- Acquire across the whole chain, all or nothing.  `holder` is a queue ticket and the scope it
is honoured at, for a request that has waited its turn. -/
def acquireChain (c : Controller) (route : Route) (tokens : ℕ) (holder : Option (ScopeRef × ℕ))
    (memory : MemoryAsk) (clock : Readings) : Except (Rejection × String) Reservation × Controller :=
  let chain := c.chain route clock
  let c := chain.2
  match acquireAll tokens clock.now (c.ticketAt holder) chain.1 [] c.scopes with
  | (.error refusal, scopes) => (.error refusal, { c with scopes := scopes }.dropAsk memory)
  | (.ok held, scopes) => { c with scopes := scopes }.acquireMemory route tokens held memory clock.now

/-- `reserve_for`; `reserve` is the same with no alias in the route. -/
def reserveFor (c : Controller) (route : Route) (estimatedTokens : ℕ) (clock : Readings) :
    Except (Rejection × String) Reservation × Controller :=
  c.acquireChain route estimatedTokens none (.take .standard none) clock

/-- The scope a rejection named, so the caller can queue on it. -/
def scopeNamed (c : Controller) (name : String) (route : Route) (clock : Readings) :
    Option ScopeRef × Controller :=
  let chain := c.chain route clock
  (chain.1.find? fun i => (chain.2.scopes.cell i).name = name, chain.2)

/-! ### Bytes and spend -/

/-- Charge `inbound` bytes against the global input-rate limit. -/
def tryAdmitBytes (c : Controller) (inbound nowMs : ℕ) : Except Rejection Unit × Controller :=
  let taken := withBucket c.inboundBytes (·.tryTake inbound nowMs)
  (if taken.1 then .ok () else .error .byteRateExceeded, { c with inboundBytes := taken.2 })

/-- Charge `outbound` bytes against the global output-rate limit. -/
def recordOutputBytes (c : Controller) (outbound nowMs : ℕ) : Controller :=
  { c with outboundBytes := (withBucket c.outboundBytes (·.tryTake outbound nowMs)).2 }

/-- Record spend at one scope. -/
def spendAt (c : Controller) (minorUnits nowMs : ℕ) (i : ScopeRef) : Controller :=
  { c with scopes := c.scopes.modify i (·.recordSpend minorUnits nowMs) }

/-- Record spend at the scope of a layer that may have none. -/
def spendAtLayer (c : Controller) (minorUnits nowMs : ℕ) : Option ScopeRef → Controller
  | none => c
  | some i => c.spendAt minorUnits nowMs i

/-- Record actual spend against every scope a request passed through. -/
def recordSpend (c : Controller) (tenant : TenantId) (principal : PrincipalId)
    (aliased : Option (AliasId × Operation)) (target : Option TargetId)
    (minorUnits nowMs : ℕ) (clock : Readings) : Controller :=
  if minorUnits = 0 then c
  else
    let c := c.spendAt minorUnits nowMs c.global
    let found := c.tenantScope tenant clock.tenant
    let c := found.2.spendAt minorUnits nowMs found.1
    let found := c.principalScope principal clock.principal
    let c := found.2.spendAt minorUnits nowMs found.1
    let c := c.spendAtLayer minorUnits nowMs
      (aliased.bind fun (aliasId, operation) => c.aliasScope aliasId operation)
    c.spendAtLayer minorUnits nowMs (target.bind c.targetScope)

/-- Every machine and what it holds, for the management API. -/
def machineViews (c : Controller) (nowMs : ℕ) : List (String × MachineView) × Controller :=
  let look (ledgers : Heap MachineLedger) (i : LedgerRef) :=
    ledgers.modify i fun m => (m.view nowMs).2
  (c.machines.toList.map fun entry => (entry.1, ((c.ledgers.cell entry.2).view nowMs).1),
    { c with ledgers := c.machines.values.foldl look c.ledgers })

/-- Give up `key`'s place in line on every machine. -/
def dropMachineClaims (c : Controller) (key : String) : Controller :=
  let drop (ledgers : Heap MachineLedger) (i : LedgerRef) := ledgers.modify i (·.dropClaim key)
  { c with ledgers := c.machines.values.foldl drop c.ledgers }

end Controller

/-! ### Release -/

/-- Return the scopes `held`, in the order given. -/
def releaseAll (reserved actual nowMs : ℕ) (held : List ScopeRef) (scopes : Heap Scope) :
    Heap Scope :=
  held.foldl (fun scopes i => scopes.modify i (·.release reserved actual nowMs)) scopes

namespace Reservation

/-- Release once: the machine's memory, then the scopes in reverse acquisition order. -/
def finish (r : Reservation) (actualTokens nowMs : ℕ) (c : Controller) : Reservation × Controller :=
  if r.released then (r, c)
  else
    let scopes := releaseAll r.reservedTokens actualTokens nowMs r.scopes.reverse c.scopes
    match r.machine with
    | none => ({ r with released := true }, { c with scopes := scopes })
    | some (ledger, hold) =>
      let freed := hold.release (c.ledgers.cell ledger)
      ({ r with released := true, machine := some (ledger, freed.1) },
        { c with scopes := scopes, ledgers := c.ledgers.set ledger freed.2 })

/-- `Drop`: accounting falls back to the estimate.  The hold goes out of scope with the
reservation. -/
def drop (r : Reservation) (nowMs : ℕ) (c : Controller) : Reservation × Controller :=
  let done := r.finish r.reservedTokens nowMs c
  match done.1.machine with
  | none => done
  | some (ledger, hold) =>
    let freed := hold.release (done.2.ledgers.cell ledger)
    ({ done.1 with machine := some (ledger, freed.1) },
      { done.2 with ledgers := done.2.ledgers.set ledger freed.2 })

/-- Release with reconciled usage; the reservation is dropped at the end. -/
def commit (r : Reservation) (actualTokens nowMs : ℕ) (c : Controller) : Reservation × Controller :=
  let done := r.finish actualTokens nowMs c
  done.1.drop nowMs done.2

/-- Release a reservation whose attempt consumed no tokens. -/
def releaseUnused (r : Reservation) (nowMs : ℕ) (c : Controller) : Reservation × Controller :=
  let done := r.finish 0 nowMs c
  done.1.drop nowMs done.2

end Reservation

end HypeLlm.Admission
