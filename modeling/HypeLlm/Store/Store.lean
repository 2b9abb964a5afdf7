import HypeLlm.Store.Snapshot
import HypeLlm.Store.Log
import HypeLlm.Store.TornTail

/-!
# The durable store

A state directory holds a snapshot file and a log of the frames appended since.  A store appends
records and audit events, and compacts: it writes a snapshot, puts it in place with one rename, and
only then resets the log.  Opening reads the snapshot, replays the log, cuts off a torn tail, leaves
out the frames the snapshot covers, and chains the audit records on from the snapshot's head.

Calls of the operating system may fail, as in the model of the log.  Overflow of a counter is checked
and aborts the process.  A process may die at any moment: inside an operation it leaves what the operation leaves
when a call of it fails at that point.

`History` is a ghost: what the log acknowledged and what else is whole in its file.  Operations stamp
it, and nothing reads it but the statements.
-/

set_option linter.dupNamespace false

namespace HypeLlm.Store

open HypeLlm.Words List

/-! ### What was made durable -/

structure History where
  /-- The payload of the snapshot in place. -/
  taken : Option (List UInt8)
  /-- Records that were acknowledged, or recovered, before the snapshot was taken. -/
  covered : List Record
  /-- Records in the log file that the snapshot covers. -/
  stale : List Record
  /-- Records acknowledged, or recovered, since the snapshot. -/
  fresh : List Record
  /-- A record whose append was not acknowledged and which is whole in the log file. -/
  stray : Option Record
  /-- The sequences of all records that were ever whole in the log file. -/
  written : List UInt64
  deriving Repr, DecidableEq

namespace History

def empty : History := ⟨none, [], [], [], none, []⟩

/-- The records behind the snapshot. -/
def behind (h : History) : List Record := h.fresh ++ h.stray.toList

/-- The records that are whole in the log file. -/
def logged (h : History) : List Record := h.stale ++ h.behind

/-- The durable records, those that the snapshot stands for included. -/
def durable (h : History) : List Record := h.covered ++ h.behind

/-- An append of `r`, given the log file before and after it. -/
def appended (h : History) (r : Record) (bytes before after : List UInt8) (acknowledged : Bool) :
    History :=
  if acknowledged then { h with fresh := h.fresh ++ [r], written := h.written ++ [r.sequence] }
  else if after = before ++ bytes then
    { h with stray := some r, written := h.written ++ [r.sequence] }
  else h

/-- A new snapshot is in place.  A stray record is covered by its sequence and stands for nothing. -/
def snapshotted (h : History) (payload : List UInt8) : History :=
  { h with
    taken := some payload
    covered := h.covered ++ h.fresh
    stale := h.logged
    fresh := []
    stray := none }

/-- The log was reset, if its file is empty. -/
def afterReset (h : History) (file : List UInt8) : History :=
  if file = [] then { h with stale := [] } else h

/-- The store was opened: what is whole in the log file counts. -/
def reopened (h : History) : History := { h with fresh := h.behind, stray := none }

end History

/-! ### The store -/

/-- What is on disk. -/
structure Dir where
  snapshot : Option (List UInt8)
  log : List UInt8
  history : History
  deriving Repr, DecidableEq

structure Store where
  /-- The snapshot file of the state directory. -/
  snapshotFile : Option (List UInt8)
  log : Log
  sequence : UInt64
  macKey : List UInt8
  audit : AuditChain
  auditSinceCheckpoint : ℕ
  checkpointInterval : ℕ
  /-- The sequence the current snapshot covers up to. -/
  snapshotSequence : UInt64
  history : History
  deriving Repr, DecidableEq

def Store.dir (s : Store) : Dir := ⟨s.snapshotFile, s.log.file, s.history⟩

/-- How a call ends: with a value, with an error, or with the process. -/
inductive Outcome (α : Type) where
  | ok (value : α) (s : Store)
  | err (s : Store)
  | abort (dir : Dir)
  deriving Repr, DecidableEq

/-- The largest sequence. -/
def maxSequence : UInt64 := UInt64.ofNat u64Max

structure AuditAppended where
  sequence : UInt64
  link : Link
  checkpoint : Option AuditCheckpoint
  deriving Repr, DecidableEq

/-- The outcomes of the calls a compaction makes: the rename of the new snapshot, with what comes
before it; the sync of the directory; the removal of a file of an earlier format; the reset. -/
structure CompactIo where
  rename : Bool
  syncDir : Bool
  removeLegacy : Bool
  reset : CutIo
  deriving Repr, DecidableEq

namespace Store

variable {E : Type} (hs : Hashes) (codec : EventCodec E)

/-- Append with the log lock held.  The sequence is taken first, and is gone when the append fails. -/
def appendLocked (s : Store) (kind : RecordKind) (payload : List UInt8) (io : AppendIo) :
    Outcome UInt64 :=
  if s.sequence = maxSequence then .abort s.dir
  else
    let sequence := s.sequence + 1
    let r : Record := ⟨kind, sequence, payload⟩
    match s.log.append hs.toDigests kind sequence payload s.macKey io with
    | (some _, log) => .ok sequence { s with
        sequence := sequence
        log := log
        history := s.history.appended r (r.bytes hs.toDigests s.macKey) s.log.file log.file true }
    | (none, log) => .err { s with
        sequence := sequence
        log := log
        history := s.history.appended r (r.bytes hs.toDigests s.macKey) s.log.file log.file false }

/-- Append a record. -/
def append (s : Store) (kind : RecordKind) (payload : List UInt8) (io : AppendIo) : Outcome UInt64 :=
  s.appendLocked hs kind payload io

/-- Append an audit event, and a checkpoint when one is due.  The chain goes on before the write and
is put back when the write fails. -/
def appendAudit (s : Store) (event : E) (io checkpointIo : AppendIo) : Outcome AuditAppended :=
  match s.audit.append hs codec event with
  | none => .abort s.dir
  | some (record, chain) =>
    match { s with audit := chain }.appendLocked hs .auditEvent (record.toPayload codec) io with
    | .abort dir => .abort dir
    | .err s' => .err { s' with audit := s.audit }
    | .ok sequence s' =>
      match checkedAdd u64Max s'.auditSinceCheckpoint 1 with
      | none => .abort s'.dir
      | some since =>
        if 0 < s'.checkpointInterval ∧ s'.checkpointInterval ≤ since then
          let taken := s'.audit.checkpoint hs.toDigests sequence
            (codec.timestampMillis record.event) s'.macKey
          match { s' with auditSinceCheckpoint := 0 }.appendLocked hs .auditCheckpoint
              taken.toPayload checkpointIo with
          | .abort dir => .abort dir
          | .err s' => .err { s' with auditSinceCheckpoint := since }
          | .ok _ s' => .ok ⟨sequence, record.link hs codec, some taken⟩ s'
        else .ok ⟨sequence, record.link hs codec, none⟩ { s' with auditSinceCheckpoint := since }

/-- Force an audit checkpoint. -/
def checkpointAudit (s : Store) (timestampMillis : UInt64) (io : AppendIo) :
    Outcome AuditCheckpoint :=
  let checkpoint := s.audit.checkpoint hs.toDigests s.sequence timestampMillis s.macKey
  match s.appendLocked hs .auditCheckpoint checkpoint.toPayload io with
  | .abort dir => .abort dir
  | .err s => .err s
  | .ok _ s => .ok checkpoint { s with auditSinceCheckpoint := 0 }

/-- Write a snapshot and reset the log. -/
def compact (s : Store) (payload : List UInt8) (io : CompactIo) : Outcome Unit :=
  let state : SnapshotState := ⟨payload, s.sequence, s.audit.head, s.audit.count⟩
  if !io.rename then .err s
  else
    let renamed := { s with
      snapshotFile := some (snapshotBytes hs state s.macKey)
      history := s.history.snapshotted payload }
    if !io.syncDir then .err renamed
    else
      let synced := { renamed with snapshotSequence := s.sequence }
      if !io.removeLegacy then .err synced
      else
        match s.log.reset io.reset with
        | (true, log) =>
          .ok () { synced with log := log, history := synced.history.afterReset log.file }
        | (false, log) =>
          .err { synced with log := log, history := synced.history.afterReset log.file }

end Store

/-! ### Opening -/

/-- What startup recovered. -/
structure Recovery where
  snapshot : Option SnapshotState
  frames : List Frame
  truncated : Bool
  auditChainBrokenAt : Option UInt64
  stopReason : Option FrameError
  deriving Repr, DecidableEq

/-- The sequence a snapshot covers up to. -/
def coveredSequence (snapshot : Option SnapshotState) : UInt64 := (snapshot.map (·.sequence)).getD 0

/-- The chain a snapshot was taken at. -/
def coveredChain (snapshot : Option SnapshotState) : AuditChain :=
  match snapshot with
  | some s => ⟨s.auditHead, s.auditCount⟩
  | none => AuditChain.new

namespace Store

variable {E : Type} (hs : Hashes) (codec : EventCodec E)

/-- The highest sequence recovered. -/
def maxRecovered (snapshot : Option SnapshotState) (frames : List Frame) : UInt64 :=
  max ((frames.getLast?.map (·.sequence)).getD 0) (coveredSequence snapshot)

/-- Chain the audit records of the frames on, and note the first that does not follow. -/
def rechain : AuditChain × Option UInt64 → List Frame → AuditChain × Option UInt64
  | result, [] => result
  | (chain, brokenAt), f :: fs =>
    if f.kind ≠ .auditEvent then rechain (chain, brokenAt) fs
    else
      match AuditRecord.fromPayload codec f.payload with
      -- A frame that authenticates and is no audit record is a break too.
      | none => rechain (chain, brokenAt.or (some f.sequence)) fs
      | some record =>
        let brokenAt := if record.previousLink ≠ chain.head then brokenAt.or (some f.sequence)
          else brokenAt
        rechain (⟨record.link hs codec, satAdd u64Max chain.count 1⟩, brokenAt) fs

/-- The store over a snapshot and a log that was replayed and cut. -/
def recovered (macKey : List UInt8) (checkpointInterval : ℕ) (dir : Dir)
    (snapshot : Option SnapshotState) (replay : Replay) (log : Log) : Store × Recovery :=
  let frames := replay.frames.filter fun f => coveredSequence snapshot < f.sequence
  let (audit, brokenAt) := rechain hs codec (coveredChain snapshot, none) frames
  ({ snapshotFile := dir.snapshot
     log := log
     sequence := maxRecovered snapshot frames
     macKey := macKey
     audit := audit
     auditSinceCheckpoint := 0
     checkpointInterval := checkpointInterval
     snapshotSequence := coveredSequence snapshot
     history := dir.history.reopened },
    { snapshot := snapshot
      frames := frames
      truncated := replay.truncatedAt.isSome
      auditChainBrokenAt := brokenAt
      stopReason := replay.stopReason })

/-- Open the store over a directory; with an error, the directory that is left. -/
def open_ (split : ℕ → ℕ) (macKey : List UInt8) (checkpointInterval : ℕ) (dir : Dir) (io : CutIo) :
    Except (StoreError × Dir) (Store × Recovery) :=
  match readSnapshot hs macKey dir.snapshot with
  | .error e => .error (e, dir)
  | .ok snapshot =>
    let log := Log.open_ dir.log true
    match replayRetaining split hs.toDigests macKey (fun _ => true) log.file with
    | .error e => .error (.log e, dir)
    | .ok replay =>
      if replay.truncatedAt.isSome then
        match log.truncate replay.validLen io with
        | (true, log) => .ok (recovered hs codec macKey checkpointInterval dir snapshot replay log)
        | (false, log) => .error (.io, { dir with log := log.file })
      else .ok (recovered hs codec macKey checkpointInterval dir snapshot replay log)

end Store

/-! ### Runs -/

inductive StoreOp (E : Type) where
  | append (kind : RecordKind) (payload : List UInt8) (io : AppendIo)
  | appendAudit (event : E) (io checkpointIo : AppendIo)
  | checkpointAudit (timestampMillis : UInt64) (io : AppendIo)
  | compact (payload : List UInt8) (io : CompactIo)
  deriving Repr, DecidableEq

/-- A state directory, with or without a process that has it open. -/
inductive Node where
  | up (s : Store)
  | down (dir : Dir)
  deriving Repr, DecidableEq

def Node.dir : Node → Dir
  | .up s => s.dir
  | .down dir => dir

def Outcome.node {α : Type} : Outcome α → Node
  | .ok _ s => .up s
  | .err s => .up s
  | .abort dir => .down dir

inductive StoreEvent (E : Type) where
  | op (o : StoreOp E)
  /-- The process dies, inside an operation or between two. -/
  | die (during : Option (StoreOp E))
  | open_ (checkpointInterval : ℕ) (io : CutIo)
  deriving Repr, DecidableEq

section

variable {E : Type} (hs : Hashes) (codec : EventCodec E) (split : ℕ → ℕ) (macKey : List UInt8)

def Store.apply (s : Store) : StoreOp E → Node
  | .append kind payload io => (s.append hs kind payload io).node
  | .appendAudit event io checkpointIo => (s.appendAudit hs codec event io checkpointIo).node
  | .checkpointAudit timestampMillis io => (s.checkpointAudit hs timestampMillis io).node
  | .compact payload io => (s.compact hs payload io).node

def Node.step : Node → StoreEvent E → Node
  | .up s, .op o => s.apply hs codec o
  | .up s, .die none => .down s.dir
  | .up s, .die (some o) => .down (s.apply hs codec o).dir
  -- The lock of the state directory is held.
  | .up s, .open_ _ _ => .up s
  | .down dir, .open_ checkpointInterval io =>
    match Store.open_ hs codec split macKey checkpointInterval dir io with
    | .ok (s, _) => .up s
    | .error (_, dir) => .down dir
  | .down dir, _ => .down dir

end

/-- An empty state directory. -/
def Node.init : Node := .down ⟨none, [], .empty⟩

end HypeLlm.Store
