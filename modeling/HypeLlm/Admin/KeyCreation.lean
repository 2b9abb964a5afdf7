import HypeLlm.Auth.KeyPayloads
import HypeLlm.Auth.Sessions
import HypeLlm.Net.Blocks
import HypeLlm.Store.AuditEvents

/-!
# Creating a key over the management interface

A request says what the new key is limited to: its expiry, the networks it may be used from, its scopes,
and its restrictions.  Everything is read before the key exists, but not everything strictly: an expiry
and a list of networks of another type are taken for absent.  What fails after the key exists in memory
revokes it again.

* `parseRequest` — what is read of a request;
* `mint` — the key is made, and what the log keeps of it;
* `createKey` — the request.
-/

namespace HypeLlm.Admin.Creation

open HypeLlm.Json HypeLlm.Net HypeLlm.Auth.Stored List

variable {F : Type}

/-! ### Errors -/

inductive ApiErrorCode where
  | invalidRequest | unauthenticated | forbidden | reauthenticationRequired | notFound
  | preconditionFailed | preconditionRequired | conflict | idempotencyConflict | csrfRequired
  | originNotPermitted | validationFailed | tooManyRequests | internalFault
  deriving Repr, DecidableEq

structure ApiError where
  code : ApiErrorCode
  message : String
  deriving Repr, DecidableEq

/-- At most 32 characters of a text, of a narrow alphabet. -/
def echo (raw : List Char) : String :=
  let narrowed := (raw.take 32).map fun c =>
    if c.isAlphanum ∨ c ∈ ['_', '-', '.', ':'] then c else '_'
  String.ofList (narrowed ++ if 32 < raw.length then ['…'] else [])

/-! ### The networks -/

def maxSourceNetworks : ℕ := 32

def maxBits : IpAddr → ℕ
  | .v4 _ => 32
  | .v6 _ => 128

def parseEntry (entry : Value F) : Except ApiError (IpAddr × UInt8) :=
  let text := entry.asStr.getD []
  match splitOnce '/' text with
  | none => .error ⟨.invalidRequest, "'" ++ echo text ++
      "' is not a CIDR block; write a prefix length, such as '10.0.0.0/8' or '203.0.113.7/32'"⟩
  | some (address, length) =>
    match parseAddress address with
    | none => .error ⟨.invalidRequest, "'" ++ echo address ++ "' is not a valid IP address"⟩
    | some addr =>
      match parseBits length with
      | none => .error ⟨.invalidRequest, "'" ++ echo length ++ "' is not a valid prefix length"⟩
      | some bits =>
        if maxBits addr < bits.toNat then .error ⟨.invalidRequest, "a prefix length of " ++
          Nat.repr bits.toNat ++ " is too long for this address family"⟩
        else .ok (addr, bits)

/-- A field that is no list is taken for absent here. -/
def parseSourceRestriction (body : Value F) : Except ApiError SourceRestriction :=
  match (body.optFieldArray "source_networks".toList).toOption.join with
  | none => .ok .any
  | some entries =>
    if entries.isEmpty then .error ⟨.invalidRequest,
      "'source_networks' was present but empty; omit it for an unrestricted key"⟩
    else if maxSourceNetworks < entries.length then .error ⟨.invalidRequest,
      "'source_networks' names more networks than a key may carry"⟩
    else (entries.mapM parseEntry).map .networks

/-! ### Restrictions -/

/-- The entries of a list from a position on. -/
def parseNames (field : String) : ℕ → List (Value F) → Except ApiError (List Identifier)
  | _, [] => .ok []
  | index, item :: items =>
    match item.asStr.bind Identifier.new with
    | none => .error ⟨.validationFailed, "'" ++ field ++ "' entry " ++ Nat.repr index ++
        " is not a valid identifier"⟩
    | some name => (parseNames field (index + 1) items).map (name :: ·)

def restrictionList (body : Value F) (field : String) : Except ApiError (Option (Finset Identifier)) :=
  match body.get field.toList with
  | none => .error ⟨.invalidRequest, "a restriction change requires '" ++ field ++
      "': a list, or null to narrow nothing"⟩
  | some .null => .ok none
  | some (.array items) =>
    if items.isEmpty then .error ⟨.validationFailed, "'" ++ field ++
      "' is empty, which would allow nothing; to stop a key working,                      revoke it"⟩
    else if maxRestrictionEntries < items.length then .error ⟨.validationFailed, "'" ++ field ++
      "' may hold at most " ++ Nat.repr maxRestrictionEntries ++ " entries"⟩
    else (parseNames field 0 items).map fun names => some names.toFinset
  | some _ => .error ⟨.validationFailed, "'" ++ field ++ "' must be a list or null"⟩

/-- What a principal may use under the active configuration. -/
structure PrincipalCeiling where
  models : Finset Identifier
  targets : Finset Identifier
  hosts : Finset Identifier
  priority : PriorityClass

/-- What is asked of the active configuration: by principal and tenant, and which names it declares. -/
structure Config where
  managementRoles : Identifier → Identifier → List Auth.Role
  ceiling : Identifier → Identifier → PrincipalCeiling
  aliases : Identifier → Bool
  targets : Identifier → Bool
  hosts : Identifier → Bool

local instance identifier_trans : IsTrans Identifier fun a b => a ≤ b := inferInstance

local instance identifier_antisymm : Std.Antisymm fun a b : Identifier => a ≤ b := inferInstance

local instance identifier_total : Std.Total fun a b : Identifier => a ≤ b := inferInstance

/-- All names are among those that the principal may use. -/
def checkWithin (what : String) (principal : Identifier) (permitted : Finset Identifier)
    (declared : Identifier → Bool) (names : Option (Finset Identifier)) : Except ApiError Unit :=
  match ((names.map fun set => set.sort (· ≤ ·)).getD []).find? fun name => name ∉ permitted with
  | none => .ok ()
  | some name => .error ⟨.validationFailed,
      if declared name then what ++ " '" ++ String.ofList name.text ++
        "' is outside what principal '" ++ String.ofList principal.text ++
        "' may use; a key can                          only narrow its principal's access"
      else "an entry names a " ++ what ++ " the active configuration does not declare"⟩

def parsePriority (body : Value F) : Except ApiError (Option PriorityClass) :=
  match body.get "priority".toList with
  | none => .error ⟨.invalidRequest, "a restriction change requires 'priority': interactive, " ++
      "standard, batch,                      or null to keep the principal's"⟩
  | some .null => .ok none
  | some value =>
    match value.asStr.bind PriorityClass.parse with
    | none => .error ⟨.validationFailed, "'priority' must be interactive, standard, batch, or null"⟩
    | some priority => .ok (some priority)

/-- A class before the principal's is a higher one. -/
def checkPriority (principal : Identifier) (ceiling : PriorityClass) (priority : Option PriorityClass) :
    Except ApiError Unit :=
  if priority.any fun c => c.rank < ceiling.rank then .error ⟨.validationFailed,
    "principal '" ++ String.ofList principal.text ++ "' queues at '" ++ ceiling.asStr ++
      "'; a key may lower its priority but not                      raise it"⟩
  else .ok ()

def parseKeyRestrictions (config : Config) (body : Value F) (principal tenant : Identifier) :
    Except ApiError KeyRestriction := do
  let models ← restrictionList body "models"
  let targets ← restrictionList body "targets"
  let hosts ← restrictionList body "hosts"
  let priority ← parsePriority body
  let ceiling := config.ceiling principal tenant
  let _ ← checkWithin "alias" principal ceiling.models config.aliases models
  let _ ← checkWithin "target" principal ceiling.targets config.targets targets
  let _ ← checkWithin "slave" principal ceiling.hosts config.hosts hosts
  let _ ← checkPriority principal ceiling.priority priority
  return ⟨models, targets, hosts, priority⟩

/-- The restrictions a key is to begin with; none if they would narrow nothing. -/
def parseInitialRestrictions (config : Config) (body : Value F) (principal tenant : Identifier) :
    Except ApiError (Option KeyRestriction) :=
  match body.get "restrictions".toList with
  | none | some .null => .ok none
  | some (.object entries) =>
    (parseKeyRestrictions config (.object entries) principal tenant).map fun restrictions =>
      if restrictions = .default then none else some restrictions
  | some _ => .error ⟨.validationFailed,
      "'restrictions' must be an object naming models, targets, hosts and priority, or null"⟩

/-! ### Scopes and the expiry -/

def parseScope (raw : Value F) : Except ApiError Scope :=
  match Scope.parse (raw.asStr.getD []) with
  | none => .error ⟨.invalidRequest, "unknown scope; expected one of " ++
      String.intercalate ", " (Scope.all.map Scope.asStr)⟩
  | some scope => .ok scope

def parseScopes (body : Value F) : Except ApiError (List Scope) :=
  match (((body.optFieldArray "scopes".toList).toOption.join).getD []).mapM parseScope with
  | .error e => .error e
  | .ok scopes =>
    if scopes.isEmpty then .error ⟨.invalidRequest, "a key requires at least one scope"⟩ else .ok scopes

/-- A field that is no integer, or a negative one, is taken for absent here. -/
def parseExpiresAt (body : Value F) : Option UInt64 :=
  ((body.optFieldI64 "expires_at".toList).toOption.join).bind fun v =>
    if 0 ≤ v.toInt then some (UInt64.ofNat v.toInt.toNat) else none

inductive AuthMethod where
  | oidc | breakGlass | password | apiKey | localPeer | anonymous
  deriving Repr, DecidableEq

/-- The session that a key is created in. -/
structure Minter where
  tenant : Identifier
  principal : Identifier
  accountable : Option Identifier
  method : AuthMethod
  roles : List Auth.Role
  absoluteExpiryMillis : UInt64

def isBreakGlass (role : Auth.Role) : Bool := role = .breakGlassAdmin

/-- The roles that may manage keys. -/
def grantsManageKeys : Auth.Role → Bool
  | .keyManager | .breakGlassAdmin => true
  | _ => false

/-- A management key may not carry a role that its creator holds under break-glass only. -/
def refuseWidenedManagementKey (config : Config) (minter : Minter) (principal : Identifier)
    (scopes : List Scope) : Except ApiError Unit :=
  if scopes.any fun s => s = .managementRead ∨ s = .managementWrite then
    if (config.managementRoles principal minter.tenant).any
        fun role => role ∉ minter.roles.filter fun r => !isBreakGlass r then
      .error ⟨.forbidden, "a management key may not carry a role its creator does not hold " ++
        "outside break-glass"⟩
    else .ok ()
  else .ok ()

/-- The clock, at the moments it is read. -/
structure Clock where
  nowMillis : UInt64
  wallMillis : UInt64
  createdAtMillis : UInt64
  auditMillis : UInt64
  abandonedMillis : UInt64

/-- When the session ends, by the wall clock. -/
def breakGlassKeyBound (clock : Clock) (minter : Minter) : UInt64 :=
  .ofNat (min (2 ^ 64 - 1)
    (clock.wallMillis.toNat + (minter.absoluteExpiryMillis.toNat - clock.nowMillis.toNat)))

/-- The key must expire with the session. -/
def keysCappedToSession (minter : Minter) : Bool :=
  minter.method = .breakGlass ∨ !minter.roles.any fun role => !isBreakGlass role && grantsManageKeys role

def boundExpiry (clock : Clock) (minter : Minter) (expiresAt : Option UInt64) :
    Except ApiError (Option UInt64) :=
  if keysCappedToSession minter then
    let bound := breakGlassKeyBound clock minter
    match expiresAt with
    | none => .ok (some bound)
    | some requested =>
      if requested ≤ bound then .ok (some requested)
      else .error ⟨.invalidRequest, "a key created under break-glass must expire by " ++
        Nat.repr bound.toNat ++ ", when the break-glass session does"⟩
  else .ok expiresAt

/-! ### The budget -/

/-- A message and an address, as they are kept. -/
abbrev Payment := Option (List Char) × Option (List Char)

def maxTokens : ℕ := 2 ^ 63 - 1

def parseTokenLimit (body : Value F) : Except ApiError (Option ℕ) :=
  match body.get "token_limit".toList with
  | none | some .null => .ok none
  | some value =>
    match value.asU64.filter (· ≤ maxTokens) with
    | none => .error ⟨.validationFailed, "'token_limit' must be null or a non-negative integer"⟩
    | some limit => .ok (some limit)

/-- A text that may be absent. -/
def paymentText (object : Value F) (name : String) : Except ApiError (Option (List Char)) :=
  match object.get name.toList with
  | none | some .null => .ok none
  | some value =>
    match value.asStr with
    | none => .error ⟨.validationFailed, "payment instructions are strings"⟩
    | some text => .ok (some text)

/-- `check` is the validation of a message and an address. -/
def parsePaymentOverride
    (check : Option (List Char) → Option (List Char) → Except String (Option Payment))
    (body : Value F) : Except ApiError (Option Payment) :=
  match body.get "payment_required".toList with
  | none | some .null => .ok none
  | some (.object entries) => do
    let message ← paymentText (.object entries) "message"
    let url ← paymentText (.object entries) "payment_url"
    (check message url).mapError fun e => ⟨.validationFailed, e⟩
  | some _ => .error ⟨.validationFailed,
      "'payment_required' must be null or an object with 'message' and 'payment_url'"⟩

/-! ### The request -/

/-- Which of the appends succeed. -/
structure Appends where
  audit : Bool
  budget : Bool
  restriction : Bool
  record : Bool
  abandoned : Bool

/-- What a creation finds around it. -/
structure Surroundings where
  /-- Whether the session may manage keys. -/
  authorization : Except ApiError Unit
  config : Config
  checkPayment : Option (List Char) → Option (List Char) → Except String (Option Payment)
  minter : Minter
  clock : Clock
  /-- The identifier and the verifier, where there is entropy. -/
  drawn : Option (Identifier × Digest)
  appends : Appends

/-- What is asked for. -/
structure KeyRequest where
  principal : Identifier
  scopes : List Scope
  expiresAtMillis : Option UInt64
  source : SourceRestriction
  budget : Option (Option ℕ × Option Payment)
  restrictions : Option KeyRestriction
  description : Option (List Char)

def parsePrincipal (body : Value F) : Except ApiError Identifier :=
  match body.fieldStr "principal".toList with
  | .error _ => .error ⟨.invalidRequest, "a key requires a 'principal'"⟩
  | .ok text =>
    match Identifier.new text with
    | none => .error ⟨.invalidRequest, "the principal is not a valid identifier"⟩
    | some principal => .ok principal

def parseBody (floats : FloatText F) (bytes : List UInt8) : Except ApiError (Value F) :=
  match Json.parse floats .small bytes with
  | .error e => .error ⟨.invalidRequest, "the request body is not valid JSON (" ++ e.kind.code ++ ")"⟩
  | .ok body => .ok body

/-- All that is read before the key exists. -/
def parseRequest (w : Surroundings) (body : Value F) : Except ApiError KeyRequest := do
  let principal ← parsePrincipal body
  let scopes ← parseScopes body
  let _ ← refuseWidenedManagementKey w.config w.minter principal scopes
  let expiresAtMillis ← boundExpiry w.clock w.minter (parseExpiresAt body)
  let source ← parseSourceRestriction body
  let limit ← parseTokenLimit body
  let payment ← parsePaymentOverride w.checkPayment body
  let restrictions ← parseInitialRestrictions w.config body principal w.minter.tenant
  return {
    principal := principal
    scopes := scopes
    expiresAtMillis := expiresAtMillis
    source := source
    budget := if limit.isNone ∧ payment.isNone then none else some (limit, payment)
    restrictions := restrictions
    description := (body.optFieldStr "description".toList).toOption.join }

/-! ### The key -/

/-- What the log keeps of a creation. -/
inductive Entry where
  | audit (event : Store.AuditEvent)
  | budget (key tenant : Identifier) (limit : Option ℕ) (payment : Option Payment)
  | apiKeyRestriction (change : RestrictionChange)
  | apiKey (record : KeyRecord)

/-- The keys in memory and the log. -/
structure KeyState where
  keys : Identifier → Option KeyRecord
  log : List Entry

namespace KeyState

variable (s : KeyState)

def insert (record : KeyRecord) : KeyState :=
  { s with keys := Function.update s.keys record.id (some record) }

def revoke (id : Identifier) : KeyState :=
  { s with keys := Function.update s.keys id ((s.keys id).map fun r => { r with revoked := true }) }

def setRestrictions (id : Identifier) (restrictions : KeyRestriction) : KeyState :=
  { s with
    keys := Function.update s.keys id
      ((s.keys id).map fun r => { r with restrictions := restrictions }) }

def append (entry : Entry) : KeyState := { s with log := s.log ++ [entry] }

end KeyState

/-- The new record. -/
def KeyRequest.record (request : KeyRequest) (w : Surroundings) (id : Identifier) (verifier : Digest) :
    KeyRecord where
  id := id
  verifier := verifier
  tenant := w.minter.tenant
  principal := request.principal
  scopes := request.scopes
  expiresAtMillis := request.expiresAtMillis
  source := request.source
  createdAtMillis := w.clock.createdAtMillis
  description := request.description
  revoked := false
  createdBy := some (w.minter.accountable.getD w.minter.principal)
  restrictions := .default

def describeNames : Option (Finset Identifier) → String
  | none => "*"
  | some names =>
    "[" ++ String.intercalate "," ((names.sort (· ≤ ·)).map fun i => String.ofList i.text) ++ "]"

/-- For the reason of an audit event. -/
def describeRestriction (restrictions : KeyRestriction) : String :=
  "models " ++ describeNames restrictions.models ++ "; targets " ++ describeNames restrictions.targets ++
    "; hosts " ++ describeNames restrictions.hosts ++ "; priority " ++
    (restrictions.priority.map PriorityClass.asStr).getD "inherit"

def KeyRequest.event (request : KeyRequest) (w : Surroundings) (id : Identifier) : Store.AuditEvent :=
  let event := ((Store.AuditEvent.new w.clock.auditMillis w.minter.principal.text .keyCreated).withObject
    id.text).withTenant w.minter.tenant.text
  let reasons :=
    (request.budget.map fun budget =>
      "initial token_limit " ++ (budget.1.map Nat.repr).getD "unlimited").toList ++
    (request.restrictions.map fun restrictions =>
      "initial restrictions " ++ describeRestriction restrictions).toList
  if reasons.isEmpty then event else event.withReason (String.intercalate "; " reasons).toList

/-- A key as it is reported to the caller, its secret apart. -/
structure Created where
  id : Identifier
  principal : Identifier
  scopes : List Scope
  expiresAtMillis : Option UInt64
  restrictions : KeyRestriction

/-- The event again, as what did not happen; it may be lost. -/
def recordAbandoned (w : Surroundings) (event : Store.AuditEvent) (why : String) (s : KeyState) :
    KeyState :=
  if w.appends.abandoned then
    s.append (.audit ((({ event with timestampMillis := w.clock.abandonedMillis } :
      Store.AuditEvent).withOutcome .failed).withReason ("not applied: " ++ why).toList))
  else s

/-- Something that the key needs in the log before it is reported, if anything.  Where it cannot be
written, the key is revoked again. -/
def commit (w : Surroundings) (id : Identifier) (event : Store.AuditEvent) (entry : Option Entry)
    (ok : Bool) (why message : String) (next : KeyState → KeyState × Except ApiError Created)
    (s : KeyState) : KeyState × Except ApiError Created :=
  match entry with
  | none => next s
  | some entry =>
    if ok then next (s.append entry)
    else (recordAbandoned w event why (s.revoke id), .error ⟨.internalFault, message⟩)

/-- The key is made in memory, narrowed, audited, and written after its budget and its restrictions. -/
def mint (w : Surroundings) (request : KeyRequest) (id : Identifier) (verifier : Digest) (s : KeyState) :
    KeyState × Except ApiError Created :=
  let record := request.record w id verifier
  let s := s.insert record
  let s :=
    match request.restrictions with
    | some restrictions => s.setRestrictions id restrictions
    | none => s
  let event := request.event w id
  if w.appends.audit then
    commit w id event (request.budget.map fun b => .budget id w.minter.tenant b.1 b.2) w.appends.budget
      "the key's budget could not be written durably"
      "the key's budget could not be recorded durably and the key was not created"
      (commit w id event (request.restrictions.map fun r => .apiKeyRestriction ⟨id, r⟩)
        w.appends.restriction "the key's restrictions could not be written durably"
        "the key's restrictions could not be recorded durably and the key was not created"
        (commit w id event (some (.apiKey record)) w.appends.record
          "the key could not be written durably"
          "the key could not be recorded durably and was not created"
          fun s => (s, .ok ⟨id, request.principal, request.scopes, request.expiresAtMillis,
            request.restrictions.getD .default⟩)))
      (s.append (.audit event))
  else (s.revoke id,
    .error ⟨.internalFault, "the action could not be recorded durably and was not applied"⟩)

def createKey (floats : FloatText F) (w : Surroundings) (bytes : List UInt8) (s : KeyState) :
    KeyState × Except ApiError Created :=
  match (do
    let _ ← w.authorization
    let body ← parseBody floats bytes
    parseRequest w body) with
  | .error e => (s, .error e)
  | .ok request =>
    match w.drawn with
    | none => (s, .error ⟨.internalFault, "cannot create a key"⟩)
    | some (id, verifier) => mint w request id verifier s

end HypeLlm.Admin.Creation
