import HypeLlm.Lib.Words
import HypeLlm.Lib.Maps
import HypeLlm.Ids

/-!
# The machine memory ledger

Targets that run on one machine share its memory.  Each declares what one request or job holds
while it runs, and work starts only when what is held plus what it needs fits.  Work that does
not fit leaves a claim, which ranks by class and arrival and lapses unless it is renewed; a
newcomer is refused while a claim outranks it.

A hold returns its memory once, on `release` or when it is dropped.  Waking the threads that wait
for memory is left out: it changes nothing the ledger keeps, and every attempt a woken thread
makes is one of the operations here.
-/

namespace HypeLlm.Machine

open HypeLlm.Words Std

/-- How long a claim lasts without being renewed, in milliseconds. -/
def claimTtlMs : ℕ := 60000

/-- The most claims one machine keeps. -/
def maxClaims : ℕ := 256

/-- One piece of work waiting for memory. -/
structure Claim where
  key : String
  priority : PriorityClass
  seq : ℕ
  bytes : ℕ
  sinceMs : ℕ
  expiresMs : ℕ
  deriving Repr, DecidableEq

structure LedgerState where
  capacityBytes : ℕ
  heldBytes : ℕ
  /-- What each target holds now: holds and bytes. -/
  holders : TreeMap TargetId (ℕ × ℕ) compare
  claims : List Claim
  nextSeq : ℕ
  acquired : ℕ
  released : ℕ
  /-- Bumped on every change a waiter could be waiting for. -/
  changes : ℕ

/-- `(class, seq) < (class, seq)`, in the derived lexicographic order. -/
def ranksBefore (priority : PriorityClass) (seq : ℕ) (priority' : PriorityClass) (seq' : ℕ) : Bool :=
  priority.rank < priority'.rank || (priority.rank = priority'.rank && seq < seq')

namespace LedgerState

def changed (s : LedgerState) : LedgerState := { s with changes := wrapAdd 64 s.changes 1 }

/-- Drop the claims whose lease has run out. -/
def expire (s : LedgerState) (nowMs : ℕ) : LedgerState :=
  let live := s.claims.filter fun c => nowMs < c.expiresMs
  if live.length ≠ s.claims.length then { s with claims := live }.changed else { s with claims := live }

/-- Whether a claim other than `key`'s outranks `(priority, seq)`.  A claim that cannot fit even on
an empty machine blocks nobody. -/
def outranked (s : LedgerState) (priority : PriorityClass) (seq : ℕ) (key : Option String) : Bool :=
  s.claims.any fun c =>
    some c.key ≠ key && c.bytes ≤ s.capacityBytes && ranksBefore c.priority c.seq priority seq

/-- Take the claims of `key` out of the line. -/
def withoutClaim (s : LedgerState) (key : String) : LedgerState :=
  let rest := s.claims.filter fun c => c.key ≠ key
  if rest.length ≠ s.claims.length then { s with claims := rest }.changed else { s with claims := rest }

/-- A hold consumes the claim its caller had. -/
def consume (s : LedgerState) : Option String → LedgerState
  | some key => s.withoutClaim key
  | none => s

end LedgerState

/-- Memory held on a machine, returned once. -/
structure MachineHold where
  target : TargetId
  bytes : ℕ
  released : Bool
  deriving Repr, DecidableEq

/-- The memory is not free, or work of a higher class waits for it. -/
inductive Refused where
  | refused
  deriving Repr, DecidableEq

/-- One claim, as the management API shows it. -/
structure WaitingView where
  priority : PriorityClass
  bytes : ℕ
  waitedMs : ℕ
  deriving Repr, DecidableEq

/-- What a ledger looks like right now. -/
structure MachineView where
  capacityBytes : ℕ
  heldBytes : ℕ
  holders : List (TargetId × ℕ × ℕ)
  waiting : List WaitingView
  deriving Repr, DecidableEq

structure MachineLedger where
  name : String
  state : LedgerState

namespace MachineLedger

def new (id : String) (capacityBytes : ℕ) : MachineLedger where
  name := "machine:" ++ id
  state := ⟨capacityBytes, 0, ∅, [], 0, 0, 0, 0⟩

/-- Change the capacity, keeping everything held and waiting. -/
def reconfigure (m : MachineLedger) (capacityBytes : ℕ) : MachineLedger :=
  { m with state := { m.state with capacityBytes := capacityBytes }.changed }

/-- Enter a hold of `bytes` for `target` in the books. -/
def take (s : LedgerState) (target : TargetId) (bytes : ℕ) : LedgerState :=
  let entry := s.holders[target]?.getD (0, 0)
  { s with
    heldBytes := satAdd u64Max s.heldBytes bytes
    holders := s.holders.insert target
      (satAdd u32Max entry.1 1, satAdd u64Max entry.2 bytes) }

/-- Take `bytes` for `target`, as the holder of claim `key` if it has one.  Zero bytes always
succeed. -/
def tryHold (m : MachineLedger) (target : TargetId) (bytes : ℕ) (priority : PriorityClass)
    (key : Option String) (nowMs : ℕ) : Except Refused MachineHold × MachineLedger :=
  let s := m.state.expire nowMs
  let seq := ((key.bind fun k => s.claims.find? fun c => c.key = k).map (·.seq)).getD u64Max
  let fits := (checkedAdd u64Max s.heldBytes bytes).any fun total => total ≤ s.capacityBytes
  if 0 < bytes && (!fits || s.outranked priority seq key) then
    (.error .refused, { m with state := s })
  else
    let s := (if 0 < bytes then take s target bytes else s).consume key
    (.ok ⟨target, bytes, false⟩,
      { m with state := { s with acquired := satAdd u64Max s.acquired 1 } })

/-- Record, or renew, `key`'s place in line for `bytes`; the answer is whether the claim is
held. -/
def claim (m : MachineLedger) (key : String) (priority : PriorityClass) (bytes nowMs : ℕ) :
    Bool × MachineLedger :=
  if bytes = 0 then (false, m)
  else
    let s := m.state.expire nowMs
    let expiresMs := satAdd u64Max nowMs claimTtlMs
    match s.claims.findIdx? fun c => c.key = key with
    | some i =>
      -- A renewal keeps the original arrival.
      (true, { m with state := { s with claims := s.claims.modify i fun c =>
        { c with priority := priority, bytes := bytes, expiresMs := expiresMs } } })
    | none =>
      if maxClaims ≤ s.claims.length then (false, { m with state := s })
      else
        (true, { m with state := { s with
          nextSeq := satAdd u64Max s.nextSeq 1
          claims := s.claims ++ [⟨key, priority, s.nextSeq, bytes, nowMs, expiresMs⟩] } })

/-- Give up `key`'s place in line, if it has one. -/
def dropClaim (m : MachineLedger) (key : String) : MachineLedger :=
  { m with state := m.state.withoutClaim key }

/-- What the ledger holds and who is waiting, waiters in admission order. -/
def view (m : MachineLedger) (nowMs : ℕ) : MachineView × MachineLedger :=
  let s := m.state.expire nowMs
  let claims := s.claims.mergeSort fun a b => !ranksBefore b.priority b.seq a.priority a.seq
  (⟨s.capacityBytes, s.heldBytes, s.holders.toList,
      claims.map fun c => ⟨c.priority, c.bytes, nowMs - c.sinceMs⟩⟩,
    { m with state := s })

/-- Take a hold of `bytes` for `target` out of the books. -/
def giveBack (m : MachineLedger) (target : TargetId) (bytes : ℕ) : MachineLedger :=
  let s := { m.state with heldBytes := m.state.heldBytes - bytes }
  let s := if 0 < bytes then
      match s.holders[target]? with
      | some entry =>
        if entry.1 - 1 = 0 then { s with holders := s.holders.erase target }
        else { s with holders := s.holders.insert target (entry.1 - 1, entry.2 - bytes) }
      | none => s
    else s
  { m with state := { s with released := satAdd u64Max s.released 1 }.changed }

end MachineLedger

/-- Return the memory.  `Drop` calls it too, so it does nothing the second time. -/
def MachineHold.release (h : MachineHold) (m : MachineLedger) : MachineHold × MachineLedger :=
  if h.released then (h, m) else ({ h with released := true }, m.giveBack h.target h.bytes)

end HypeLlm.Machine
