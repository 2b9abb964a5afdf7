import HypeLlm.Crypto.Digests
import HypeLlm.Fleet.Snapshot
import HypeLlm.Lib.Utf8
import HypeLlm.Net.Address

/-!
# Enrolling a host

An administrator issues a token, a new host registers with it, and an administrator approves or rejects
the registration; an approval may be revoked.  A token that is not used in time reads as expired,
though nothing is written down.

The registry keeps one record an enrollment.  Every change is made on a copy, committed to the journal
and only then installed; a restart reads the journal into an empty registry.  Old terminal records are
dropped whenever a record is installed.

The journal may fail, and then nothing changes.
-/

namespace HypeLlm.Fleet

open Std HypeLlm.Words

/-! ### Limits -/

/-- Enrollments not yet in a terminal state, at most. -/
def maxOpenEnrollments : ℕ := 64

/-- Terminal enrollments kept in memory. -/
def maxRetainedEnrollments : ℕ := 256

def minTtlMs : ℕ := 60 * 1000
def maxTtlMs : ℕ := 24 * 60 * 60 * 1000

/-- Failed presentations of a token tolerated in a window. -/
def maxFailedAttempts : ℕ := 20

def throttleWindowMs : ℕ := 60 * 1000

/-! ### Tokens -/

/-- The bytes `hypellm/fleet-enroll-token/v1` and a zero, which set the digests of tokens apart. -/
def tokenDomain : List UInt8 := Utf8.encode "hypellm/fleet-enroll-token/v1".toList ++ [0]

/-- The digest under which a token is held. -/
def tokenDigest (token : String) : List UInt8 :=
  Crypto.sha256 (tokenDomain ++ Utf8.encode token.toList)

/-- 64 lowercase hex characters. -/
def tokenWellFormed (token : String) : Bool :=
  (Utf8.encode token.toList).length = 64 ∧
    ∀ b ∈ Utf8.encode token.toList, (48 ≤ b ∧ b ≤ 57) ∨ (97 ≤ b ∧ b ≤ 102)

/-! ### The registration -/

/-- The blob of an Ed25519 public key of an SSH host. -/
structure SshEd25519Key where
  blob : List UInt8
  deriving Repr, DecidableEq

/-- An Ed25519 public key of a device, in DER. -/
structure DeviceKey where
  der : List UInt8
  deriving Repr, DecidableEq

structure ReportedGpu where
  index : ℕ
  name : String
  memoryBytes : ℕ
  deriving Repr, DecidableEq

/-- What a host reported of itself when it registered. -/
structure Registration where
  address : Net.IpAddr
  arch : Arch
  hostname : String
  sshUser : String
  dataDir : String
  gpus : List ReportedGpu
  memoryBytes : ℕ
  hostKey : SshEd25519Key
  deviceKey : DeviceKey
  kitVersion : String
  deriving Repr, DecidableEq

/-! ### The record -/

inductive EnrollmentState where
  | issued
  | registered
  | approved
  | rejected
  | expired
  | revoked
  deriving Repr, DecidableEq

def EnrollmentState.isTerminal : EnrollmentState → Bool
  | .rejected | .expired | .revoked => true
  | _ => false

structure Enrollment where
  id : String
  host : HostId
  agent : AgentId
  /-- The digest of the token, never the token. -/
  tokenDigest : List UInt8
  issuedBy : String
  issuedAtMs : ℕ
  /-- When the token stops working. -/
  expiresAtMs : ℕ
  state : EnrollmentState
  registration : Option Registration
  registeredAtMs : Option ℕ
  /-- Who approved, rejected or revoked it. -/
  decidedBy : Option String
  decidedAtMs : Option ℕ
  /-- The draft an approval created. -/
  draft : Option String
  deriving Repr, DecidableEq

namespace Enrollment

/-- The state at a time: an unused token past its lifetime reads as expired. -/
def stateAt (e : Enrollment) (nowMs : ℕ) : EnrollmentState :=
  if e.state = .issued ∧ e.expiresAtMs ≤ nowMs then .expired else e.state

def isOpen (e : Enrollment) (nowMs : ℕ) : Bool :=
  match e.stateAt nowMs with
  | .issued | .registered => true
  | _ => false

end Enrollment

/-! ### The registry -/

inductive EnrollError where
  | unknown
  | invalidToken
  | throttled
  | tooMany
  | hostTaken
  | wrongState
  | journal
  deriving Repr, DecidableEq

/-- What an issue records. -/
structure NewEnrollment where
  id : String
  host : HostId
  agent : AgentId
  tokenDigest : List UInt8
  issuedBy : String
  ttlMs : ℕ
  deriving Repr, DecidableEq

abbrev Enrollments := TreeMap String Enrollment

def records (byId : Enrollments) : List Enrollment := byId.toList.map (·.2)

/-- The order in which terminal records are dropped. -/
def terminalLe (a b : ℕ × String) : Bool := a.1 < b.1 ∨ a.1 = b.1 ∧ a.2 ≤ b.2

/-- The terminal records past the number that is kept, oldest first. -/
def excess (byId : Enrollments) : List (ℕ × String) :=
  ((((records byId).filter (·.state.isTerminal)).map
    fun e => (e.decidedAtMs.getD e.issuedAtMs, e.id)).mergeSort terminalLe).take
      (byId.size - maxRetainedEnrollments)

/-- Drop the oldest terminal records past the number that is kept. -/
def prune (byId : Enrollments) : Enrollments :=
  (excess byId).foldl (fun byId old => byId.erase old.2) byId

/-- Install a record. -/
def adopt (byId : Enrollments) (record : Enrollment) : Enrollments :=
  prune (byId.insert record.id record)

/-- A registry and the journal of the records it committed, oldest first. -/
structure EnrollmentRegistry where
  byId : Enrollments
  /-- When tokens were presented that matched nothing. -/
  failures : List ℕ
  journal : List Enrollment

namespace EnrollmentRegistry

def new : EnrollmentRegistry := ⟨∅, [], []⟩

/-- Adopt a record read back from the journal. -/
def restore (s : EnrollmentRegistry) (record : Enrollment) : EnrollmentRegistry :=
  { s with byId := adopt s.byId record }

/-- Read the journal into an empty registry. -/
def restart (s : EnrollmentRegistry) : EnrollmentRegistry :=
  s.journal.foldl restore ⟨∅, [], s.journal⟩

/-- Commit a record and install it, unless the journal fails. -/
def commitLocked (s : EnrollmentRegistry) (commits : Bool) (record : Enrollment) :
    Except EnrollError Enrollment × EnrollmentRegistry :=
  if commits then
    (.ok record, { s with byId := adopt s.byId record, journal := s.journal ++ [record] })
  else (.error .journal, s)

/-- Record a newly minted token. -/
def issue (s : EnrollmentRegistry) (new : NewEnrollment) (nowMs : ℕ) (commits : Bool) :
    Except EnrollError Enrollment × EnrollmentRegistry :=
  if maxOpenEnrollments ≤ ((records s.byId).filter (·.isOpen nowMs)).length then (.error .tooMany, s)
  else if (records s.byId).any fun e =>
      e.host = new.host ∧ (e.isOpen nowMs ∨ e.state = .approved) then (.error .hostTaken, s)
  else if s.byId.contains new.id then (.error .hostTaken, s)
  else s.commitLocked commits {
    id := new.id
    host := new.host
    agent := new.agent
    tokenDigest := new.tokenDigest
    issuedBy := new.issuedBy
    issuedAtMs := nowMs
    expiresAtMs := satAdd u64Max nowMs (max minTtlMs (min new.ttlMs maxTtlMs))
    state := .issued
    registration := none
    registeredAtMs := none
    decidedBy := none
    decidedAtMs := none
    draft := none }

/-- The issued, unexpired enrollment a token belongs to.  Presentations that match nothing are counted,
and past a number in a window none is looked at. -/
def findIssued (s : EnrollmentRegistry) (token : String) (nowMs : ℕ) :
    Except EnrollError Enrollment × EnrollmentRegistry :=
  let s := { s with failures := s.failures.dropWhile fun at' => throttleWindowMs ≤ nowMs - at' }
  if maxFailedAttempts ≤ s.failures.length then (.error .throttled, s)
  else
    let digest := Fleet.tokenDigest token
    let found := if tokenWellFormed token then
        (records s.byId).find? fun e => e.stateAt nowMs = .issued ∧ e.tokenDigest = digest
      else none
    match found with
    | some e =>
      match s.byId[e.id]? with
      | some e => (.ok e, s)
      | none => (.error .invalidToken, s)
    | none => (.error .invalidToken, { s with failures := s.failures ++ [nowMs] })

def redeemPeek (s : EnrollmentRegistry) (token : String) (nowMs : ℕ) :
    Except EnrollError Enrollment × EnrollmentRegistry :=
  s.findIssued token nowMs

/-- Consume a token with the report of the host. -/
def register (s : EnrollmentRegistry) (token : String) (registration : Registration) (nowMs : ℕ)
    (commits : Bool) : Except EnrollError Enrollment × EnrollmentRegistry :=
  match s.findIssued token nowMs with
  | (.error e, s) => (.error e, s)
  | (.ok record, s) => s.commitLocked commits { record with
      state := .registered
      registration := some registration
      registeredAtMs := some nowMs }

def transition (s : EnrollmentRegistry) (id actor : String) (nowMs : ℕ)
    (states : List EnrollmentState) (after : EnrollmentState) (draft : Option String)
    (commits : Bool) : Except EnrollError Enrollment × EnrollmentRegistry :=
  match s.byId[id]? with
  | none => (.error .unknown, s)
  | some current =>
    if current.stateAt nowMs ∉ states then (.error .wrongState, s)
    else s.commitLocked commits { current with
      state := after
      decidedBy := some actor
      decidedAtMs := some nowMs
      draft := draft <|> current.draft }

/-- Approve a registered host, with the draft that adds its records. -/
def approve (s : EnrollmentRegistry) (id actor : String) (nowMs : ℕ) (draft : String)
    (commits : Bool) : Except EnrollError Enrollment × EnrollmentRegistry :=
  s.transition id actor nowMs [.registered] .approved (some draft) commits

/-- Refuse an issued or registered enrollment. -/
def reject (s : EnrollmentRegistry) (id actor : String) (nowMs : ℕ) (commits : Bool) :
    Except EnrollError Enrollment × EnrollmentRegistry :=
  s.transition id actor nowMs [.issued, .registered] .rejected none commits

/-- Withdraw an approval. -/
def revoke (s : EnrollmentRegistry) (id actor : String) (nowMs : ℕ) (commits : Bool) :
    Except EnrollError Enrollment × EnrollmentRegistry :=
  s.transition id actor nowMs [.approved] .revoked none commits

end EnrollmentRegistry

/-! ### Calls -/

inductive Call where
  | issue (new : NewEnrollment)
  | redeemPeek (token : String)
  | register (token : String) (registration : Registration)
  | approve (id actor draft : String)
  | reject (id actor : String)
  | revoke (id actor : String)
  deriving Repr, DecidableEq

/-- A call at a time, with whether the journal commits, or a restart. -/
inductive EnrollmentEvent where
  | call (c : Call) (nowMs : ℕ) (commits : Bool)
  | restart
  deriving Repr, DecidableEq

namespace EnrollmentRegistry

def answer (s : EnrollmentRegistry) (c : Call) (nowMs : ℕ) (commits : Bool) :
    Except EnrollError Enrollment × EnrollmentRegistry :=
  match c with
  | .issue new => s.issue new nowMs commits
  | .redeemPeek token => s.redeemPeek token nowMs
  | .register token registration => s.register token registration nowMs commits
  | .approve id actor draft => s.approve id actor nowMs draft commits
  | .reject id actor => s.reject id actor nowMs commits
  | .revoke id actor => s.revoke id actor nowMs commits

def step (s : EnrollmentRegistry) : EnrollmentEvent → EnrollmentRegistry
  | .call c nowMs commits => (s.answer c nowMs commits).2
  | .restart => s.restart

end EnrollmentRegistry

end HypeLlm.Fleet
