import HypeLlm.Lib.Utf8
import HypeLlm.Store.Recovery

/-!
# Recovery of the audit chain

Whatever a store did and wherever it died, opening its directory gives back the chain of the durable
audit records and applies every record behind the snapshot once.  And the chain is evidence: a log
that was changed before an audit record that it still holds opens with a break.

Opening looks at no checkpoint.  A checkpoint is for whoever has a copy of the chain elsewhere, so a
log that was cut short in front of one opens without a break.

* `unbroken_walk` — a recovery without a break is a walk from the snapshot's head;
* `broken_of_tampered` — what changes before a retained record shows;
* **`audit_chain_recovers`** — both directions, for every run;
* `audit_recovery_limits` — what a run has to see to, and what is not noticed.
-/

set_option linter.dupNamespace false

namespace HypeLlm.Store

open HypeLlm.Words HypeLlm.Runs List

variable {E : Type} {hs : Hashes} {codec : EventCodec E} {macKey : List UInt8}
  {snapshot : Option SnapshotState} {dir : Dir}

/-- The audit records among the frames. -/
def auditFrames (codec : EventCodec E) (frames : List Frame) : List (AuditRecord E) :=
  frames.filterMap fun f =>
    if f.kind = .auditEvent then AuditRecord.fromPayload codec f.payload else none

/-- A frame of an audit event that is no audit record. -/
def Unreadable (codec : EventCodec E) (f : Frame) : Prop :=
  f.kind = .auditEvent ∧ AuditRecord.fromPayload codec f.payload = none

/-- A recovered record is one of the original chain, and what comes before it is not what came before
it there.  The recovered records are those behind the snapshot. -/
def Tampered (codec : EventCodec E) (covered original recovered : List (AuditRecord E)) : Prop :=
  ∃ i j r r', original[i]? = some r ∧ recovered[j]? = some r' ∧
    r.content codec = r'.content codec ∧
    (covered ++ recovered.take j).map (AuditRecord.content codec) ≠
      (original.take i).map (AuditRecord.content codec)

/-! ### What a recovery without a break has seen -/

/-- The first break stays. -/
theorem rechain_broken (fs : List Frame) (chain : AuditChain) (sequence : UInt64) :
    (Store.rechain hs codec (chain, some sequence) fs).2 = some sequence := by
  induction fs generalizing chain with
  | nil => rfl
  | cons f fs ih =>
    by_cases hkind : f.kind = .auditEvent
    · cases hpayload : AuditRecord.fromPayload codec f.payload with
      | none =>
        rw [rechain_unreadable hkind hpayload]
        exact ih chain
      | some record =>
        rw [rechain_record hkind hpayload, Option.some_or, ite_self]
        exact ih _
    · rw [rechain_other hkind]
      exact ih chain

/-- **A recovery without a break is a walk from the head it started at.** -/
theorem unbroken_walk {fs : List Frame} {chain : AuditChain}
    (h : (Store.rechain hs codec (chain, none) fs).2 = none) :
    (∀ f ∈ fs, ¬ Unreadable codec f) ∧
      ∃ final, walk hs codec chain.head (auditFrames codec fs) = some final := by
  induction fs generalizing chain with
  | nil =>
    refine ⟨?_, chain.head, rfl⟩
    intro f hf
    cases hf
  | cons f fs ih =>
    by_cases hkind : f.kind = .auditEvent
    · cases hpayload : AuditRecord.fromPayload codec f.payload with
      | none =>
        rw [rechain_unreadable hkind hpayload, Option.none_or, rechain_broken] at h
        cases h
      | some record =>
        rw [rechain_record hkind hpayload] at h
        by_cases hnames : record.previousLink = chain.head
        · rw [if_neg (not_not.2 hnames)] at h
          obtain ⟨hreadable, final, hwalk⟩ := ih h
          have hcons : auditFrames codec (f :: fs) = record :: auditFrames codec fs := by
            simp [auditFrames, hkind, hpayload]
          refine ⟨?_, final, ?_⟩
          · intro f' hf'
            rcases mem_cons.1 hf' with rfl | hf'
            · rintro ⟨-, hnone⟩
              rw [hpayload] at hnone
              cases hnone
            · exact hreadable f' hf'
          · rw [hcons, walk, HashChain.walk, if_pos hnames]
            exact hwalk
        · rw [if_pos hnames, Option.none_or, rechain_broken] at h
          cases h
    · rw [rechain_other hkind] at h
      obtain ⟨hreadable, final, hwalk⟩ := ih h
      have hcons : auditFrames codec (f :: fs) = auditFrames codec fs := by
        simp [auditFrames, hkind]
      refine ⟨?_, final, by rw [hcons]; exact hwalk⟩
      intro f' hf'
      rcases mem_cons.1 hf' with rfl | hf'
      · exact fun hunreadable => hkind hunreadable.1
      · exact hreadable f' hf'

/-- The break that opening reports is the one of the frames it recovered. -/
theorem open_brokenAt (dir : Dir) {split : ℕ → ℕ} {checkpointInterval : ℕ} {io : CutIo} {s : Store}
    {recovery : Recovery} (hreads : readSnapshot hs macKey dir.snapshot = .ok snapshot)
    (hopen : Store.open_ hs codec split macKey checkpointInterval dir io = .ok (s, recovery)) :
    recovery.auditChainBrokenAt =
      (Store.rechain hs codec (coveredChain snapshot, none) recovery.frames).2 := by
  rw [Store.open_, hreads] at hopen
  dsimp only at hopen
  split at hopen
  · cases hopen
  · split at hopen
    · split at hopen
      · obtain ⟨-, rfl⟩ := Prod.mk.inj (Except.ok.inj hopen)
        rfl
      · cases hopen
    · obtain ⟨-, rfl⟩ := Prod.mk.inj (Except.ok.inj hopen)
      rfl

/-- **What changes before a retained audit record shows.**  The log file may be any. -/
theorem broken_of_tampered (h : dir.Sound hs codec macKey snapshot) {log : List UInt8}
    {split : ℕ → ℕ} {checkpointInterval : ℕ} {io : CutIo} {s : Store} {recovery : Recovery}
    (hopen : Store.open_ hs codec split macKey checkpointInterval { dir with log := log } io =
      .ok (s, recovery))
    (hfree : CollisionFree hs codec (auditsOf codec dir.history.durable ++
      (auditsOf codec dir.history.covered ++ auditFrames codec recovery.frames)))
    (htampered : (∃ f ∈ recovery.frames, Unreadable codec f) ∨
      Tampered codec (auditsOf codec dir.history.covered) (auditsOf codec dir.history.durable)
        (auditFrames codec recovery.frames)) :
    recovery.auditChainBrokenAt ≠ none := by
  rw [open_brokenAt { dir with log := log } h.reads hopen]
  intro hunbroken
  obtain ⟨hreadable, final, hwalk⟩ := unbroken_walk hunbroken
  rcases htampered with ⟨f, hf, hunreadable⟩ | ⟨i, j, r, r', hi, hj, hsame, hdiffers⟩
  · exact hreadable f hf hunreadable
  obtain ⟨head, hchain⟩ := h.chained
  -- Both beginnings lead to the link that the retained record names.
  have horiginal := walk_take hchain hi
  have hrecovered : walk hs codec genesis (auditsOf codec dir.history.covered ++
      (auditFrames codec recovery.frames).take j) = some r.previousLink := by
    rw [walk_append_of_eq h.coveredHead, walk_take hwalk hj]
    exact congrArg some (Prod.ext_iff.1 hsame).1.symm
  refine hdiffers (content_eq_of_walk (hfree.mono ?_) hrecovered horiginal)
  intro x hx
  rcases mem_append.1 hx with hx | hx
  · rcases mem_append.1 hx with hx | hx
    · exact mem_append_right _ (mem_append_left _ hx)
    · exact mem_append_right _ (mem_append_right _ (mem_of_mem_take hx))
  · exact mem_append_left _ (mem_of_mem_take hx)

/-! ### Every run -/

theorem append_ok {s s' : Store} {kind : RecordKind} {payload : List UInt8} {io : AppendIo} {n : UInt64}
    (h : s.append hs kind payload io = .ok n s') : s.sequence.toNat < n.toNat := by
  rw [Store.append, Store.appendLocked] at h
  split at h
  · cases h
  · rename_i hmax
    have hnext := toNat_next hmax
    dsimp only at h
    split at h
    · cases h
      omega
    · cases h

theorem written_le {s : Store} (hx : s.Exact hs codec macKey snapshot) :
    ∀ m ∈ s.history.written, m ≤ s.sequence := by
  intro m hm
  rw [UInt64.le_iff_toNat_le]
  exact (hx.dir.written_le m hm).trans hx.sequence

/-- **The audit chain recovers.**  In every state that a proper run reaches, an open store has the
head and the count of the chain of what was acknowledged.  Wherever a process dies, opening the
directory gives the chain of the durable audit records without a break and every record behind the
snapshot once, and hands out only sequences above all that were ever durable; it fails only on a log
past the size limit, on a tail that embeds a frame, or when the tail cannot be cut off.  And however
the log file was changed, a change before an audit record that it still holds opens with a break, as
long as no two of the hashed records collide. -/
theorem audit_chain_recovers (hs : Hashes) (codec : EventCodec E) (split : ℕ → ℕ)
    (macKey : List UInt8) (events : List (StoreEvent E))
    (hproper : StepsMeet (Node.step hs codec split macKey) (Node.Proper codec) Node.init events) :
    let node := run (Node.step hs codec split macKey) Node.init events
    let history := node.dir.history
    history.written.Pairwise (· < ·) ∧
      (∀ s, node = .up s →
        verifyChain hs codec (auditsOf codec (history.covered ++ history.fresh)) =
            .intact s.audit.head s.audit.count ∧
          ∀ m ∈ history.written, m ≤ s.sequence) ∧
      (∀ checkpointInterval io, node.dir.log.length ≤ maxLogBytes →
        ¬ node.dir.Embeds hs.toDigests macKey → io.Fine →
        ∃ s recovery,
          Store.open_ hs codec split macKey checkpointInterval node.dir io = .ok (s, recovery) ∧
          recovery.auditChainBrokenAt = none ∧
          verifyChain hs codec (auditsOf codec history.durable) =
            .intact s.audit.head s.audit.count ∧
          recovery.snapshot.map (·.payload) = history.taken ∧
          recovery.frames = history.behind.map Record.frame ∧
          (∀ m ∈ history.written, m ≤ s.sequence) ∧
          ∀ kind payload io n s', s.append hs kind payload io = .ok n s' →
            ∀ m ∈ history.written, m < n) ∧
      ∀ log checkpointInterval io s recovery,
        Store.open_ hs codec split macKey checkpointInterval { node.dir with log := log } io =
          .ok (s, recovery) →
        CollisionFree hs codec (auditsOf codec history.durable ++
          (auditsOf codec history.covered ++ auditFrames codec recovery.frames)) →
        (∃ f ∈ recovery.frames, Unreadable codec f) ∨
          Tampered codec (auditsOf codec history.covered) (auditsOf codec history.durable)
            (auditFrames codec recovery.frames) →
        recovery.auditChainBrokenAt ≠ none := by
  intro node history
  have hsound := sound_after hs codec macKey split hproper
  obtain ⟨snapshot, hdir⟩ := hsound.dir
  refine ⟨hdir.written_sorted, ?_, ?_, ?_⟩
  · intro s hup
    have hnode : node.Sound hs codec macKey := hsound
    have hhistory : history = s.history := by
      rw [show history = node.dir.history from rfl, hup]
      rfl
    rw [hup] at hnode
    obtain ⟨_, hx, hc⟩ := hnode
    rw [hhistory, verifyChain_of_walk hc.head, hc.count]
    exact ⟨rfl, written_le hx⟩
  · intro checkpointInterval io hsize hembeds hfine
    rcases open_cases hdir split checkpointInterval io with
      ⟨s, recovery, hopen, hrecovers⟩ | ⟨e, dir', -, -, hlarge | hembedded | hfailed⟩
    · have hwritten : ∀ m ∈ history.written, m ≤ s.sequence := by
        have hle := written_le hrecovers.exact
        rw [hrecovers.history] at hle
        exact hle
      have hhead := hrecovers.chained.head
      have hcount := hrecovers.chained.count
      rw [hrecovers.history] at hhead hcount
      refine ⟨s, recovery, hopen, hrecovers.unbroken, ?_, ?_, hrecovers.frames, hwritten, ?_⟩
      · rw [← hcount]
        exact verifyChain_of_walk hhead
      · rw [hrecovers.snapshot_eq]
        exact hdir.taken
      · intro kind payload io n s' happend m hm
        have hle := hwritten m hm
        have hlt := append_ok happend
        rw [UInt64.le_iff_toNat_le] at hle
        rw [UInt64.lt_iff_toNat_lt]
        omega
    · exact absurd hsize (not_le.2 hlarge)
    · exact absurd hembedded hembeds
    · exact absurd hfine hfailed
  · intro log checkpointInterval io s recovery hopen hfree htampered
    exact broken_of_tampered hdir hopen hfree htampered

/-! ### Runs in which every call succeeds -/

theorem length_checkpoint_le (d : Digests) (chain : AuditChain) (sequence timestampMillis : UInt64)
    (key : List UInt8) :
    (chain.checkpoint d sequence timestampMillis key).toPayload.length ≤ maxPayloadLen := by
  rw [AuditCheckpoint.toPayload, length_append, length_append, length_append, Bytes.length_toLe,
    Bytes.length_toLe, Link.length_bytes]
  show 8 + 32 + 8 + (checkpointMac d sequence chain.head timestampMillis key).length ≤ maxPayloadLen
  rw [checkpointMac, d.hmacSha256_length]
  decide

section

variable (hs codec)

namespace Store

/-- The store after an append of a record. -/
def logged (s : Store) (kind : RecordKind) (payload : List UInt8) : Store :=
  let r : Record := ⟨kind, s.sequence + 1, payload⟩
  { s with
    sequence := s.sequence + 1
    log := { s.log with
      file := s.log.file ++ r.bytes hs.toDigests s.macKey
      len := s.log.len + (r.bytes hs.toDigests s.macKey).length }
    history := { s.history with
      fresh := s.history.fresh ++ [r], written := s.history.written ++ [s.sequence + 1] } }

/-- The store after an append of an audit event, when no checkpoint is due. -/
def audited (s : Store) (event : E) : Store :=
  { s.logged hs .auditEvent (AuditRecord.toPayload codec ⟨s.audit.head, event⟩) with
    audit := ⟨AuditRecord.link hs codec ⟨s.audit.head, event⟩, s.audit.count + 1⟩
    auditSinceCheckpoint := s.auditSinceCheckpoint + 1 }

variable {s : Store} (hp : s.log.poisoned = false) (hmax : s.sequence ≠ maxSequence)

include hp hmax

theorem appendLocked_fine (kind : RecordKind) {payload : List UInt8}
    (hlarge : payload.length ≤ maxPayloadLen) :
    s.appendLocked hs kind payload Sample.fine = .ok (s.sequence + 1) (s.logged hs kind payload) := by
  have happend : s.log.append hs.toDigests kind (s.sequence + 1) payload s.macKey Sample.fine =
      (some s.log.len, (s.logged hs kind payload).log) := by
    rw [Log.append, if_neg (by simp [hp]), encode_eq hs.toDigests s.macKey hlarge]
    simp [Log.writeFrame, Sample.fine, Record.bytes, logged]
  rw [appendLocked, if_neg hmax]
  simp only [happend, History.appended_acknowledged]
  rfl

theorem appendAudit_fine (hinterval : s.checkpointInterval = 0) (hcount : s.audit.count < u64Max)
    (hsince : s.auditSinceCheckpoint < u64Max) (event : E)
    (hlarge : (AuditRecord.toPayload codec ⟨s.audit.head, event⟩).length ≤ maxPayloadLen) :
    (s.appendAudit hs codec event Sample.fine Sample.fine).node = .up (s.audited hs codec event) := by
  have hchain : s.audit.append hs codec event = some (⟨s.audit.head, event⟩,
      ⟨AuditRecord.link hs codec ⟨s.audit.head, event⟩, s.audit.count + 1⟩) := by
    rw [AuditChain.append, checkedAdd, if_pos (by omega)]
    rfl
  have hchecked : checkedAdd u64Max s.auditSinceCheckpoint 1 = some (s.auditSinceCheckpoint + 1) := by
    rw [checkedAdd, if_pos (by omega)]
  rw [appendAudit, hchain]
  dsimp only
  rw [appendLocked_fine hs (by exact hp) (by exact hmax) _ hlarge]
  simp [logged, hchecked, hinterval, Outcome.node, audited]

theorem checkpointAudit_fine (timestampMillis : UInt64) :
    (s.checkpointAudit hs timestampMillis Sample.fine).node =
      .up { s.logged hs .auditCheckpoint (s.audit.checkpoint hs.toDigests s.sequence timestampMillis
        s.macKey).toPayload with auditSinceCheckpoint := 0 } := by
  rw [checkpointAudit, appendLocked_fine hs hp hmax _ (length_checkpoint_le _ _ _ _ _)]
  rfl

end Store

end

section

variable (hs codec) (split : ℕ → ℕ) (macKey)

def cutFine : CutIo := ⟨true, true, true⟩

/-- A store that was opened over an empty directory. -/
def opened : Store := ⟨none, ⟨[], true, 0, false⟩, 0, macKey, .new, 0, 0, 0, .empty⟩

theorem step_init :
    Node.init.step hs codec split macKey (.open_ 0 cutFine) = .up (opened macKey) := by
  have hnone : ∀ r ∈ ([] : List Record), r.WellFormed := by
    intro r hr
    cases hr
  have hreads : readSnapshot hs macKey none = .ok none := rfl
  rw [Node.init, Node.step, open_of_file hnone Pairwise.nil ⟨none, [], .empty⟩ hreads rfl
    (Nat.zero_le _)]
  rfl

theorem run_opened (events : List (StoreEvent E)) :
    run (Node.step hs codec split macKey) Node.init (.open_ 0 cutFine :: events) =
      run (Node.step hs codec split macKey) (.up (opened macKey)) events := by
  rw [run_cons, step_init]

variable {split}

theorem length_bytes_le {r : Record} (hwell : r.WellFormed) :
    (r.bytes hs.toDigests macKey).length ≤ maxPayloadLen + 60 := by
  have hpayload := hwell.payload
  rw [Record.bytes, length_frameBytes, Header.total, Header.crcEnd, Header.of]
  unfold headerLen crcLen macLen
  split <;> dsimp only <;> omega

variable {macKey}

/-- Opening a log of one record. -/
theorem open_one {r : Record} (hwell : r.WellFormed) (hfirst : 0 < r.sequence) (split : ℕ → ℕ)
    (history : History) :
    ∃ s recovery, Store.open_ hs codec split macKey 0
        ⟨none, r.bytes hs.toDigests macKey, history⟩ cutFine = .ok (s, recovery) ∧
      recovery.frames = [r.frame] ∧
      (s.audit, recovery.auditChainBrokenAt) = Store.rechain hs codec (.new, none) [r.frame] := by
  have hfile : r.bytes hs.toDigests macKey = Record.file hs.toDigests macKey [r] := by
    simp [Record.file]
  have hrs : ∀ x ∈ [r], x.WellFormed := by
    intro x hx
    obtain rfl := mem_singleton.1 hx
    exact hwell
  have hreads : readSnapshot hs macKey none = .ok none := rfl
  have hsize : (r.bytes hs.toDigests macKey).length ≤ maxLogBytes :=
    (length_bytes_le hs macKey hwell).trans (by decide)
  have hkept : ([r].map Record.frame).filter (fun f => coveredSequence none < f.sequence) =
      [r.frame] := filter_cons_of_pos (decide_eq_true hfirst)
  refine ⟨_, _, open_of_file hrs (pairwise_singleton _ _)
    ⟨none, r.bytes hs.toDigests macKey, history⟩ hreads hfile hsize split 0 cutFine, hkept, ?_⟩
  simp only [hkept]
  rfl

theorem open_unreadable {r : Record} (hwell : r.WellFormed) (hfirst : 0 < r.sequence)
    (hkind : r.kind = .auditEvent) (hpayload : AuditRecord.fromPayload codec r.payload = none)
    (split : ℕ → ℕ) (history : History) :
    ∃ s recovery, Store.open_ hs codec split macKey 0
        ⟨none, r.bytes hs.toDigests macKey, history⟩ cutFine = .ok (s, recovery) ∧
      recovery.auditChainBrokenAt = some r.sequence := by
  obtain ⟨s, recovery, hopen, -, hchain⟩ := open_one hs codec hwell hfirst split history
  refine ⟨s, recovery, hopen, ?_⟩
  rw [rechain_unreadable hkind hpayload] at hchain
  exact (Prod.ext_iff.1 hchain).2

theorem open_refused {snapshot : Option SnapshotState} (dir : Dir) {e : LogError}
    (hreads : readSnapshot hs macKey dir.snapshot = .ok snapshot)
    (hreplay : replayRetaining split hs.toDigests macKey (fun _ => true) dir.log = .error e) :
    Store.open_ hs codec split macKey 0 dir cutFine = .error (.log e, dir) := by
  have hfile : (Log.open_ dir.log true).file = dir.log := rfl
  rw [Store.open_, hreads]
  dsimp only
  rw [hfile, hreplay]

end

section

variable (hs codec) (split : ℕ → ℕ) (macKey)

/-- The directory after a first append. -/
theorem dir_append (kind : RecordKind) (payload : List UInt8)
    (hlarge : payload.length ≤ maxPayloadLen) :
    ∃ history, (run (Node.step hs codec split macKey) Node.init
        [.open_ 0 cutFine, .op (.append kind payload Sample.fine)]).dir =
      ⟨none, Record.bytes hs.toDigests macKey ⟨kind, 1, payload⟩, history⟩ := by
  have hmax : (opened macKey).sequence ≠ maxSequence := by
    show (0 : UInt64) ≠ maxSequence
    decide
  rw [run_opened, run_cons, run_nil, Node.step, Store.apply, Store.append,
    Store.appendLocked_fine hs rfl hmax kind hlarge]
  exact ⟨_, rfl⟩

/-- The directory after a first append that was torn, and could not be rolled back. -/
theorem dir_torn (kind : RecordKind) (payload : List UInt8)
    (hlarge : payload.length ≤ maxPayloadLen) (n : ℕ) :
    ∃ history, (run (Node.step hs codec split macKey) Node.init
        [.open_ 0 cutFine, .op (.append kind payload ⟨some n, true, false, true⟩)]).dir =
      ⟨none, (Record.bytes hs.toDigests macKey ⟨kind, 1, payload⟩).take n, history⟩ := by
  have hmax : (opened macKey).sequence ≠ maxSequence := by
    show (0 : UInt64) ≠ maxSequence
    decide
  have happend : (opened macKey).log.append hs.toDigests kind 1 payload macKey
      ⟨some n, true, false, true⟩ = (none,
        ⟨(Record.bytes hs.toDigests macKey ⟨kind, 1, payload⟩).take n, true, 0, true⟩) := by
    rw [Log.append, if_neg (by simp [opened]), encode_eq hs.toDigests macKey hlarge]
    simp [Log.writeFrame, Log.rollBack, opened, Record.bytes]
  rw [run_opened, run_cons, run_nil, Node.step, Store.apply, Store.append, Store.appendLocked,
    if_neg hmax]
  have hnext : (opened macKey).sequence + 1 = 1 := rfl
  have hkey : (opened macKey).macKey = macKey := rfl
  simp only [hnext, hkey, happend]
  exact ⟨_, rfl⟩

/-- The store after a first audit event. -/
theorem run_appendAudit (event : E)
    (hlarge : (AuditRecord.toPayload codec ⟨genesis, event⟩).length ≤ maxPayloadLen)
    (events : List (StoreEvent E)) :
    run (Node.step hs codec split macKey) Node.init
        (.open_ 0 cutFine :: .op (.appendAudit event Sample.fine Sample.fine) :: events) =
      run (Node.step hs codec split macKey) (.up ((opened macKey).audited hs codec event)) events := by
  have hmax : (opened macKey).sequence ≠ maxSequence := by
    show (0 : UInt64) ≠ maxSequence
    decide
  have hzero : 0 < u64Max := by decide
  rw [run_opened, run_cons, Node.step, Store.apply,
    Store.appendAudit_fine hs codec rfl hmax rfl hzero hzero event hlarge]

theorem dir_audited (event : E) :
    ∃ history, (Node.up ((opened macKey).audited hs codec event)).dir =
      ⟨none, Record.bytes hs.toDigests macKey
        ⟨.auditEvent, 1, AuditRecord.toPayload codec ⟨genesis, event⟩⟩, history⟩ :=
  ⟨_, rfl⟩

theorem dir_died (event : E) :
    let node := run (Node.step hs codec split macKey) (.up ((opened macKey).audited hs codec event)) [.die none]
    node.dir = ⟨none, Record.bytes hs.toDigests macKey
      ⟨.auditEvent, 1, AuditRecord.toPayload codec ⟨genesis, event⟩⟩, node.dir.history⟩ :=
  rfl

/-- Appends of one payload make the log grow by its length each. -/
theorem length_appends (kind : RecordKind) {payload : List UInt8}
    (hlarge : payload.length ≤ maxPayloadLen) (k : ℕ) {s : Store} (hp : s.log.poisoned = false)
    (hmax : s.sequence.toNat + k ≤ u64Max) :
    ∃ s', run (Node.step hs codec split macKey) (.up s)
        (replicate k (.op (.append kind payload Sample.fine))) = .up s' ∧
      s'.snapshotFile = s.snapshotFile ∧
      s'.log.file.length = s.log.file.length + k * (Header.of kind 0 payload.length).total := by
  induction k generalizing s with
  | zero => exact ⟨s, rfl, rfl, by omega⟩
  | succ k ih =>
    have hne : s.sequence ≠ maxSequence := by
      intro heq
      rw [heq] at hmax
      have : maxSequence.toNat = u64Max := by decide
      omega
    have hnext := toNat_next hne
    obtain ⟨s', hrun, hsnapshot, hlength⟩ := ih (s := s.logged hs kind payload) hp (by
      show (s.sequence + 1).toNat + k ≤ u64Max
      omega)
    refine ⟨s', ?_, hsnapshot, ?_⟩
    · rw [replicate_succ, run_cons, Node.step, Store.apply, Store.append,
        Store.appendLocked_fine hs hp hne kind hlarge]
      exact hrun
    · rw [hlength]
      show (s.log.file ++ Record.bytes hs.toDigests s.macKey ⟨kind, _, payload⟩).length + _ = _
      have htotal : (Record.bytes hs.toDigests s.macKey ⟨kind, s.sequence + 1, payload⟩).length =
        (Header.of kind 0 payload.length).total := length_frameBytes _ _ _ _ _
      rw [length_append, htotal, Nat.succ_mul]
      omega

/-- The directory after a first audit event and a checkpoint over it. -/
theorem dir_checkpointed (event : E)
    (hlarge : (AuditRecord.toPayload codec ⟨genesis, event⟩).length ≤ maxPayloadLen)
    (timestampMillis : UInt64) :
    ∃ (r : Record) (history : History), r.kind = .auditCheckpoint ∧ r.sequence = 2 ∧ r.WellFormed ∧
      (run (Node.step hs codec split macKey) Node.init [.open_ 0 cutFine,
        .op (.appendAudit event Sample.fine Sample.fine),
        .op (.checkpointAudit timestampMillis Sample.fine)]).dir =
      ⟨none, Record.bytes hs.toDigests macKey
        ⟨.auditEvent, 1, AuditRecord.toPayload codec ⟨genesis, event⟩⟩ ++
          r.bytes hs.toDigests macKey, history⟩ := by
  have hmax : ((opened macKey).audited hs codec event).sequence ≠ maxSequence := by
    show (0 : UInt64) + 1 ≠ maxSequence
    decide
  have hkind : RecordKind.auditCheckpoint.Canonical := by decide
  have hwell : Record.WellFormed ⟨.auditCheckpoint, 2, (((opened macKey).audited hs codec
      event).audit.checkpoint hs.toDigests 1 timestampMillis macKey).toPayload⟩ :=
    ⟨hkind, length_checkpoint_le _ _ _ _ _⟩
  rw [run_appendAudit hs codec macKey split event hlarge, run_cons, run_nil, Node.step, Store.apply,
    Store.checkpointAudit_fine hs rfl hmax]
  exact ⟨_, _, rfl, rfl, hwell, rfl⟩

/-- A snapshot that is too large is put in place, and cannot be read. -/
theorem open_oversized (payload : List UInt8)
    (hsize : maxStateFileBytes < metaLen + payload.length) :
    ∃ e dir, Store.open_ hs codec split macKey 0 (run (Node.step hs codec split macKey) Node.init
      [.open_ 0 cutFine, .op (.compact payload ⟨true, true, true, cutFine⟩)]).dir cutFine =
        .error (e, dir) := by
  have hlen : (snapshotBytes hs ⟨payload, 0, genesis, 0⟩ macKey).length = metaLen + payload.length := by
    rw [snapshotBytes, length_append, length_encodeMeta]
  have hsnapshot : ((opened macKey).compact hs payload ⟨true, true, true, cutFine⟩).node.dir.snapshot =
      some (snapshotBytes hs ⟨payload, 0, genesis, 0⟩ macKey) := rfl
  rw [run_opened, run_cons, run_nil, Node.step, Store.apply, Store.open_, hsnapshot, readSnapshot,
    if_pos (by rw [hlen]; exact hsize)]
  exact ⟨_, _, rfl⟩

end

section

variable (hs codec) (split : ℕ → ℕ) (macKey) (event : E)

/-- The audit records of an event that is appended twice. -/
def twice : AuditRecord E × AuditRecord E :=
  (⟨genesis, event⟩, ⟨AuditRecord.link hs codec ⟨genesis, event⟩, event⟩)

/-- The records of an event that is appended twice. -/
def twiceLogged : Record × Record :=
  (⟨.auditEvent, 1, (twice hs codec event).1.toPayload codec⟩,
    ⟨.auditEvent, 2, (twice hs codec event).2.toPayload codec⟩)

theorem dir_twice (hlarge : ∀ link, (AuditRecord.toPayload codec ⟨link, event⟩).length ≤ maxPayloadLen) :
    (run (Node.step hs codec split macKey) Node.init [.open_ 0 cutFine,
      .op (.appendAudit event Sample.fine Sample.fine), .op (.appendAudit event Sample.fine Sample.fine),
      .die none]).dir =
    ⟨none, (twiceLogged hs codec event).1.bytes hs.toDigests macKey ++
        (twiceLogged hs codec event).2.bytes hs.toDigests macKey,
      { History.empty with
        fresh := [(twiceLogged hs codec event).1, (twiceLogged hs codec event).2]
        written := [1, 2] }⟩ := by
  have hmax : ((opened macKey).audited hs codec event).sequence ≠ maxSequence := by
    show (0 : UInt64) + 1 ≠ maxSequence
    decide
  have hone : 1 < u64Max := by decide
  rw [run_appendAudit hs codec macKey split event (hlarge _), run_cons, run_cons, run_nil, Node.step,
    Store.apply, Store.appendAudit_fine hs codec rfl hmax rfl hone hone event (hlarge _)]
  rfl

variable {event}

theorem auditsOf_twice (hreads : codec.ReadsBack event) :
    auditsOf codec [(twiceLogged hs codec event).1, (twiceLogged hs codec event).2] =
      [(twice hs codec event).1, (twice hs codec event).2] := by
  have hfirst := AuditRecord.fromPayload_toPayload codec
    (show codec.ReadsBack (twice hs codec event).1.event from hreads)
  have hsecond := AuditRecord.fromPayload_toPayload codec
    (show codec.ReadsBack (twice hs codec event).2.event from hreads)
  simp [auditsOf, twiceLogged, hfirst, hsecond]

theorem verifyChain_twice :
    verifyChain hs codec [(twice hs codec event).1, (twice hs codec event).2] =
      .intact ((twice hs codec event).2.link hs codec) 2 := by
  refine verifyChain_of_walk ?_
  have hfirst : walk hs codec genesis [(twice hs codec event).1] = some _ :=
    walk_singleton (twice hs codec event).1
  exact (walk_append_of_eq hfirst [(twice hs codec event).2]).trans (walk_singleton _)

theorem auditFrames_twice (hreads : codec.ReadsBack event) :
    auditFrames codec [(twiceLogged hs codec event).2.frame] = [(twice hs codec event).2] := by
  have hsecond := AuditRecord.fromPayload_toPayload codec
    (show codec.ReadsBack (twice hs codec event).2.event from hreads)
  simp [auditFrames, twiceLogged, Record.frame, hsecond]

end

/-- A log of whole records has no tail. -/
theorem not_embeds_of_whole {d : Digests} {dir : Dir}
    (h : dir.log = Record.file d macKey dir.history.logged) : ¬ dir.Embeds d macKey := by
  rintro ⟨sequence, hembeds⟩
  rw [Dir.tail, h, drop_length] at hembeds
  exact not_embeds_of_surviving rfl sequence hembeds

/-! ### What a run has to see to -/

namespace Sample

theorem length_sha256 (data : List UInt8) : (Crypto.sha256 data).length = 32 :=
  Crypto.length_finalize _

def storeHashes : Hashes := ⟨storeDigests, fun data => ⟨Crypto.sha256 data, length_sha256 data⟩⟩

/-- A login at the first millisecond, and one past the range of signed numbers. -/
inductive Event where
  | login
  | farFuture
  deriving Repr, DecidableEq

/-- The events as canonical JSON.  The time of the second is written as a float. -/
def eventText : Event → List UInt8
  | .login => "\x7b\"action\":\"login\",\"actor\":\"admin\",\"outcome\":\"success\",\"timestamp_millis\":1\x7d".toUTF8.toList
  | .farFuture => "\x7b\"action\":\"login\",\"actor\":\"admin\",\"outcome\":\"success\",\"timestamp_millis\":9.223372036854776e18\x7d".toUTF8.toList

/-- A float is no time when it is read. -/
def eventCodec : EventCodec Event where
  toCanonicalBytes := eventText
  parse bytes := if bytes = eventText .login then some .login else none
  timestampMillis
    | .login => 1
    | .farFuture => 9223372036854775808

theorem length_payload_le (link : Link) (event : Event) :
    (AuditRecord.toPayload eventCodec ⟨link, event⟩).length ≤ maxPayloadLen := by
  have htext : (eventText event).length ≤ 200 := by
    cases event with
    | login =>
      have hlogin : eventText .login = Utf8.encode _ := Utf8.toUTF8_toList_ofList _
      rw [hlogin]
      decide +kernel
    | farFuture =>
      have hfarFuture : eventText .farFuture = Utf8.encode _ := Utf8.toUTF8_toList_ofList _
      rw [hfarFuture]
      decide +kernel
  have hbytes : eventCodec.toCanonicalBytes event = eventText event := rfl
  rw [AuditRecord.toPayload, length_append, Link.length_bytes, hbytes]
  unfold maxPayloadLen
  omega

theorem readsBack_login : eventCodec.ReadsBack .login := if_pos rfl

/-- The node after a store was opened over an empty directory, and `events`. -/
def after (split : ℕ → ℕ) (events : List (StoreEvent Event)) : Node :=
  run (Node.step storeHashes eventCodec split []) Node.init (.open_ 0 cutFine :: events)

def reopen (split : ℕ → ℕ) (dir : Dir) : Except (StoreError × Dir) (Store × Recovery) :=
  Store.open_ storeHashes eventCodec split [] 0 dir cutFine

/-- An administrator who logs in twice. -/
def twoLogins : List (StoreEvent Event) :=
  [.op (.appendAudit .login fine fine), .op (.appendAudit .login fine fine), .die none]

def loginRecords : Record × Record := twiceLogged storeHashes eventCodec .login

theorem loginRecords_wellFormed : loginRecords.1.WellFormed ∧ loginRecords.2.WellFormed :=
  ⟨⟨by decide, length_payload_le _ _⟩, ⟨by decide, length_payload_le _ _⟩⟩

theorem proper_audit (node : Node) :
    node.Proper eventCodec (.op (.appendAudit .login fine fine)) := by
  cases node with
  | up s => exact ⟨readsBack_login, trivial⟩
  | down dir => exact trivial

theorem twoLogins_proper (split : ℕ → ℕ) :
    StepsMeet (Node.step storeHashes eventCodec split []) (Node.Proper eventCodec) Node.init
      (.open_ 0 cutFine :: twoLogins) := by
  refine ⟨trivial, proper_audit _, proper_audit _, ?_, trivial⟩
  generalize Node.step storeHashes eventCodec split [] _ _ = node
  cases node <;> exact trivial

/-- The hashed bytes of the two logins do not collide. -/
theorem logins_collisionFree : CollisionFree storeHashes eventCodec
    [(twice storeHashes eventCodec .login).1, (twice storeHashes eventCodec .login).2,
      (twice storeHashes eventCodec .login).2] := by
  have hlogin : eventCodec.toCanonicalBytes .login = Utf8.encode _ := Utf8.toUTF8_toList_ofList _
  have hdomain : auditDomain = Utf8.encode _ := Utf8.toUTF8_toList_ofList _
  have hdigests : storeHashes.sha256 ((twice storeHashes eventCodec .login).1.hashed eventCodec) ≠
        genesis ∧
      storeHashes.sha256 ((twice storeHashes eventCodec .login).2.hashed eventCodec) ≠ genesis ∧
      storeHashes.sha256 ((twice storeHashes eventCodec .login).1.hashed eventCodec) ≠
        storeHashes.sha256 ((twice storeHashes eventCodec .login).2.hashed eventCodec) := by
    rw [twice, AuditRecord.hashed, AuditRecord.hashed, AuditRecord.link, linkOf, hlogin, hdomain]
    decide +kernel
  obtain ⟨hfirst, hsecond, hdiffer⟩ := hdigests
  constructor
  · intro r hr r' hr' hsame
    simp only [mem_cons, not_mem_nil, or_false, or_self] at hr hr'
    rcases hr with rfl | rfl <;> rcases hr' with rfl | rfl
    · rfl
    · exact absurd hsame hdiffer
    · exact absurd hsame.symm hdiffer
    · rfl
  · intro r hr
    simp only [mem_cons, not_mem_nil, or_false, or_self] at hr
    rcases hr with rfl | rfl
    · exact hfirst
    · exact hsecond

end Sample

/-- **Two logins recover**, and the second alone does not. -/
theorem two_logins_recover :
    let dir := (Sample.after (fun _ => 0) Sample.twoLogins).dir
    (∃ s recovery, Sample.reopen (fun _ => 0) dir = .ok (s, recovery) ∧
        recovery.auditChainBrokenAt = none ∧ s.audit.count = 2 ∧
        recovery.frames = [Sample.loginRecords.1.frame, Sample.loginRecords.2.frame] ∧
        ∀ m ∈ [1, 2], m ≤ s.sequence) ∧
      ∃ s recovery, Sample.reopen (fun _ => 0)
          { dir with log := Sample.loginRecords.2.bytes storeDigests [] } = .ok (s, recovery) ∧
        recovery.auditChainBrokenAt ≠ none := by
  have hdir := dir_twice Sample.storeHashes Sample.eventCodec [] (fun _ => 0) .login
    fun link => Sample.length_payload_le link _
  have haudits := auditsOf_twice Sample.storeHashes Sample.eventCodec Sample.readsBack_login
  obtain ⟨hfirst, hsecond⟩ := Sample.loginRecords_wellFormed
  obtain ⟨-, -, hopens, hbreaks⟩ := audit_chain_recovers Sample.storeHashes Sample.eventCodec (fun _ => 0) []
    (.open_ 0 cutFine :: Sample.twoLogins) (Sample.twoLogins_proper _)
  dsimp only at hopens hbreaks
  rw [Sample.twoLogins, hdir] at hopens hbreaks
  dsimp only at hopens hbreaks
  rw [Sample.after, Sample.twoLogins, hdir]
  intro dir
  constructor
  · have hle := length_bytes_le Sample.storeHashes [] hfirst
    have hle' := length_bytes_le Sample.storeHashes [] hsecond
    have hsize : (Sample.loginRecords.1.bytes storeDigests [] ++
        Sample.loginRecords.2.bytes storeDigests []).length ≤ maxLogBytes := by
      rw [length_append]
      refine (Nat.add_le_add hle hle').trans ?_
      decide
    have hembeds : ¬ dir.Embeds Sample.storeHashes.toDigests [] := by
      refine not_embeds_of_whole ?_
      show _ ++ _ = Record.file storeDigests [] [Sample.loginRecords.1, Sample.loginRecords.2]
      rw [Record.file, flatMap_cons, flatMap_cons, flatMap_nil, append_nil]
      rfl
    obtain ⟨s, recovery, hopen, hunbroken, hverify, -, hframes, hwritten, -⟩ :=
      hopens 0 cutFine hsize hembeds ⟨rfl, rfl, rfl⟩
    have hintact : verifyChain Sample.storeHashes Sample.eventCodec (auditsOf Sample.eventCodec
        [Sample.loginRecords.1, Sample.loginRecords.2]) = .intact s.audit.head s.audit.count := hverify
    rw [Sample.loginRecords, haudits, verifyChain_twice] at hintact
    exact ⟨s, recovery, hopen, hunbroken, (ChainVerification.intact.inj hintact).2.symm, hframes,
      hwritten⟩
  · obtain ⟨s, recovery, hopen, hframes, -⟩ := open_one Sample.storeHashes Sample.eventCodec hsecond
      (show (0 : UInt64) < 2 by decide) (fun _ => 0) dir.history
    have hkept := auditFrames_twice Sample.storeHashes Sample.eventCodec Sample.readsBack_login
    have hdurable : auditsOf Sample.eventCodec dir.history.durable =
        [(twice Sample.storeHashes Sample.eventCodec .login).1,
          (twice Sample.storeHashes Sample.eventCodec .login).2] := haudits
    refine ⟨s, recovery, hopen, hbreaks _ 0 cutFine s recovery hopen ?_ (.inr ?_)⟩
    · rw [hframes, Sample.loginRecords, hkept, hdurable]
      exact Sample.logins_collisionFree
    · rw [hframes, Sample.loginRecords, hkept, hdurable]
      exact ⟨1, 0, _, _, rfl, rfl, rfl, cons_ne_nil _ _ ∘ Eq.symm⟩

namespace Sample

theorem fromPayload_unread {link : Link} {event : Event} (h : eventText event ≠ eventText .login) :
    AuditRecord.fromPayload eventCodec (AuditRecord.toPayload eventCodec ⟨link, event⟩) = none := by
  have hdrop : (AuditRecord.toPayload eventCodec ⟨link, event⟩).drop 32 = eventText event := by
    rw [AuditRecord.toPayload]
    dsimp only
    rw [← link.length_bytes, drop_left]
    rfl
  have hparse : eventCodec.parse (eventText event) = none := if_neg h
  rw [AuditRecord.fromPayload, hdrop, hparse]
  split <;> rfl

/-- A generic append of an audit record is in no chain. -/
def unchained : StoreEvent Event := .op (.append .auditEvent [] fine)

theorem unchained_breaks (split : ℕ → ℕ) :
    ∃ s recovery, reopen split (after split [unchained]).dir = .ok (s, recovery) ∧
      recovery.auditChainBrokenAt = some 1 := by
  obtain ⟨history, hdir⟩ := dir_append storeHashes eventCodec [] split .auditEvent [] (Nat.zero_le _)
  rw [after, unchained, hdir]
  exact open_unreadable storeHashes eventCodec (r := ⟨.auditEvent, 1, []⟩) ⟨by decide, Nat.zero_le _⟩
    (show (0 : UInt64) < 1 by decide) rfl rfl split history

/-- An audit event that cannot be read back. -/
def unread : StoreEvent Event := .op (.appendAudit .farFuture fine fine)

theorem unread_breaks (split : ℕ → ℕ) :
    ∃ s recovery, reopen split (after split [unread]).dir = .ok (s, recovery) ∧
      recovery.auditChainBrokenAt = some 1 := by
  have hunread : AuditRecord.fromPayload eventCodec
      (AuditRecord.toPayload eventCodec ⟨genesis, .farFuture⟩) = none := by
    have hlogin : eventText .login = Utf8.encode _ := Utf8.toUTF8_toList_ofList _
    have hfarFuture : eventText .farFuture = Utf8.encode _ := Utf8.toUTF8_toList_ofList _
    have hdiffer : eventText .farFuture ≠ eventText .login := by
      rw [hlogin, hfarFuture]
      decide +kernel
    exact fromPayload_unread hdiffer
  obtain ⟨history, hdir⟩ := dir_audited storeHashes eventCodec [] .farFuture
  rw [after, unread, run_appendAudit storeHashes eventCodec [] split _ (length_payload_le _ _), run_nil,
    hdir]
  exact open_unreadable storeHashes eventCodec
    (r := ⟨.auditEvent, 1, AuditRecord.toPayload eventCodec ⟨genesis, .farFuture⟩⟩)
    ⟨by decide, length_payload_le _ _⟩ (show (0 : UInt64) < 1 by decide) rfl hunread split history

/-- A login and a checkpoint over it. -/
def anchored : List (StoreEvent Event) :=
  [.op (.appendAudit .login fine fine), .op (.checkpointAudit 2 fine)]

/-- Without the login, from the checkpoint on, the log opens as if there had been none. -/
theorem anchored_unbroken (split : ℕ → ℕ) :
    let dir := (after split anchored).dir
    let first := loginRecords.1.bytes storeDigests []
    first.isPrefixOf dir.log = true ∧ ∃ s recovery,
      reopen split { dir with log := dir.log.drop first.length } = .ok (s, recovery) ∧
        recovery.auditChainBrokenAt = none ∧ s.audit = .new := by
  obtain ⟨r, history, hkind, hsequence, hwell, hdir⟩ := dir_checkpointed storeHashes eventCodec [] split
    .login (length_payload_le _ _) 2
  rw [after, anchored, hdir]
  intro dir first
  have hdrop : dir.log.drop first.length = r.bytes storeDigests [] := drop_left
  have hfirst : 0 < r.sequence := by
    rw [hsequence]
    decide
  obtain ⟨s, recovery, hopen, -, hchain⟩ := open_one storeHashes eventCodec hwell hfirst split history
  have hother : r.frame.kind ≠ .auditEvent := by
    show r.kind ≠ .auditEvent
    rw [hkind]
    decide
  rw [rechain_other hother, Store.rechain] at hchain
  refine ⟨ isPrefixOf_iff_prefix.2 (prefix_append _ _), s, recovery, ?_, (Prod.ext_iff.1 hchain).2,
    (Prod.ext_iff.1 hchain).1⟩
  rw [hdrop]
  exact hopen

/-- A record under a kind that means another one on disk. -/
theorem misnamed_refused (split : ℕ → ℕ) :
    ∃ e dir, reopen split (after split [.op (.append (.unknown 1) [] fine)]).dir = .error (e, dir) := by
  obtain ⟨history, hdir⟩ := dir_append storeHashes eventCodec [] split (.unknown 1) [] (Nat.zero_le _)
  rw [after, hdir]
  exact ⟨_, _, open_refused storeHashes eventCodec ⟨none, misnamed.bytes storeDigests [], history⟩ rfl
    (replay_misnamed split)⟩

/-- Four records with the largest payload. -/
theorem large_refused (split : ℕ → ℕ) :
    ∃ e dir, reopen split (after split (replicate 4
      (.op (.append .usageAggregate (replicate maxPayloadLen 0) fine)))).dir = .error (e, dir) := by
  have hlength : (replicate maxPayloadLen (0 : UInt8)).length = maxPayloadLen := length_replicate
  have hmax : (opened []).sequence.toNat + 4 ≤ u64Max := by decide
  obtain ⟨s, hrun, hsnapshot, hlog⟩ := length_appends storeHashes eventCodec [] split
    .usageAggregate hlength.le 4 (s := opened []) rfl hmax
  have htotal : (Header.of .usageAggregate 0 maxPayloadLen).total = 67108892 := by decide
  have hempty : (opened []).log.file.length = 0 := rfl
  rw [hlength, htotal, hempty] at hlog
  have hlarge : maxLogBytes < s.dir.log.length := by
    show maxLogBytes < s.log.file.length
    rw [hlog]
    decide
  have hreads : readSnapshot storeHashes [] s.dir.snapshot = .ok none := by
    show readSnapshot storeHashes [] s.snapshotFile = .ok none
    rw [hsnapshot]
    rfl
  rw [after, run_opened, hrun]
  exact ⟨_, _, open_refused storeHashes eventCodec s.dir hreads (if_pos hlarge)⟩

/-- A record whose payload is a frame itself, and one more byte. -/
def nested : Record := ⟨.usageAggregate, 1, frameBytes storeDigests .usageAggregate 1 [] [] ++ [0]⟩

/-- An append of it that is torn behind the inner frame. -/
theorem nested_refused (split : ℕ → ℕ) :
    ∃ e dir, reopen split (after split
      [.op (.append .usageAggregate nested.payload ⟨some 52, true, false, true⟩)]).dir =
        .error (e, dir) := by
  have hlength : (nested.bytes storeDigests []).length = 57 := by decide +kernel
  have hwell : nested.WellFormed := ⟨by decide, by decide +kernel⟩
  have hsurviving : survivingSequenceAfter storeDigests [] ((nested.bytes storeDigests []).take 52) 0 =
      some 1 := by decide +kernel
  obtain ⟨history, hdir⟩ := dir_torn storeHashes eventCodec [] split .usageAggregate nested.payload
    hwell.payload 52
  have hsize : ((nested.bytes storeDigests []).take 52).length ≤ maxLogBytes := by
    rw [length_take, hlength]
    decide
  have hne : (nested.bytes storeDigests []).take 52 ≠ [] := by
    intro hnil
    have hzero := congrArg length hnil
    rw [length_take, hlength] at hzero
    cases hzero
  have hreplay : replayRetaining split storeDigests [] (fun _ => true)
      ((nested.bytes storeDigests []).take 52) = .error (.midFileDamage 0 0 1) := by
    have hthreshold : Progress.start.threshold = 0 := rfl
    rw [replayRetaining_eq storeDigests split [] _ hsize,
      Record.replayFrom_cut hwell _ (by rw [hlength]; decide) hne, hthreshold, hsurviving]
    rfl
  rw [after, hdir]
  exact ⟨_, _, open_refused storeHashes eventCodec
    ⟨none, (nested.bytes storeDigests []).take 52, history⟩ rfl hreplay⟩

/-- A snapshot that is past the size of a state file. -/
theorem oversized_refused (split : ℕ → ℕ) :
    ∃ e dir, reopen split (after split
      [.op (.compact (replicate maxStateFileBytes 0) ⟨true, true, true, cutFine⟩)]).dir =
        .error (e, dir) := by
  have hlength : (replicate maxStateFileBytes (0 : UInt8)).length = maxStateFileBytes :=
    length_replicate
  have hsize : maxStateFileBytes < metaLen + (replicate maxStateFileBytes (0 : UInt8)).length := by
    rw [hlength]
    decide
  exact open_oversized storeHashes eventCodec [] split _ hsize

end Sample

/-- **What a run has to see to.**  A generic append of an audit record, and an event that does not
read back, break the chain.  A misnamed record, a log or a snapshot past its size limit and a torn
frame inside a frame are refused.  And a record that was deleted in front of a checkpoint, with no
audit record behind it, is not missed. -/
theorem audit_recovery_limits :
    (∃ s recovery, Sample.reopen (fun _ => 0)
        (Sample.after (fun _ => 0) [Sample.unchained]).dir = .ok (s, recovery) ∧
      recovery.auditChainBrokenAt = some 1) ∧
    (∃ s recovery, Sample.reopen (fun _ => 0)
        (Sample.after (fun _ => 0) [Sample.unread]).dir = .ok (s, recovery) ∧
      recovery.auditChainBrokenAt = some 1) ∧
    (∃ e dir, Sample.reopen (fun _ => 0) (Sample.after (fun _ => 0)
      [.op (.append (.unknown 1) [] Sample.fine)]).dir = .error (e, dir)) ∧
    (∃ e dir, Sample.reopen (fun _ => 0) (Sample.after (fun _ => 0) (replicate 4
      (.op (.append .usageAggregate (replicate maxPayloadLen 0) Sample.fine)))).dir =
        .error (e, dir)) ∧
    (∃ e dir, Sample.reopen (fun _ => 0) (Sample.after (fun _ => 0)
      [.op (.compact (replicate maxStateFileBytes 0) ⟨true, true, true, cutFine⟩)]).dir =
        .error (e, dir)) ∧
    (∃ e dir, Sample.reopen (fun _ => 0) (Sample.after (fun _ => 0)
      [.op (.append .usageAggregate Sample.nested.payload ⟨some 52, true, false, true⟩)]).dir =
        .error (e, dir)) ∧
    let dir := (Sample.after (fun _ => 0) Sample.anchored).dir
    let first := Sample.loginRecords.1.bytes storeDigests []
    first.isPrefixOf dir.log = true ∧ ∃ s recovery,
      Sample.reopen (fun _ => 0) { dir with log := dir.log.drop first.length } = .ok (s, recovery) ∧
        recovery.auditChainBrokenAt = none ∧ s.audit = .new :=
  ⟨Sample.unchained_breaks _, Sample.unread_breaks _, Sample.misnamed_refused _, Sample.large_refused _,
    Sample.oversized_refused _, Sample.nested_refused _, Sample.anchored_unbroken _⟩

end HypeLlm.Store
