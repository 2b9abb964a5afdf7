import HypeLlm.Store.Invariant

/-!
# Appends to the store

An append takes the next sequence and writes one frame.  It may abort before anything is written, be
acknowledged, or fail; a frame of a failed append may be whole in the file, or begun, and then the log
is poisoned and nothing is written behind it.

* `appendLocked_cases` — what one append does;
* `append_sound`, `checkpointAudit_sound`, `appendAudit_sound` — the operations that append.
-/

set_option linter.dupNamespace false

namespace HypeLlm.Store

open HypeLlm.Words List

variable {E : Type} {hs : Hashes} {codec : EventCodec E} {macKey : List UInt8}
  {snapshot : Option SnapshotState}

/-! ### One append to the store -/

theorem Record.bytes_ne_nil (d : Digests) (macKey : List UInt8) (r : Record) :
    r.bytes d macKey ≠ [] := by
  intro hnil
  have hlen := length_frameBytes d r.kind r.sequence r.payload macKey
  rw [show frameBytes d r.kind r.sequence r.payload macKey = [] from hnil, length_nil] at hlen
  have hheader := headerLen_le_total (Header.of r.kind r.sequence r.payload.length)
  unfold headerLen at hheader
  omega

namespace History

variable {h : History} {r : Record} {bytes before after : List UInt8}

theorem appended_acknowledged : h.appended r bytes before after true =
    { h with fresh := h.fresh ++ [r], written := h.written ++ [r.sequence] } := if_pos rfl

theorem appended_whole (hwhole : after = before ++ bytes) : h.appended r bytes before after false =
    { h with stray := some r, written := h.written ++ [r.sequence] } := by
  rw [appended, if_neg (by decide), if_pos hwhole]

theorem appended_cut (hcut : after ≠ before ++ bytes) : h.appended r bytes before after false = h := by
  rw [appended, if_neg (by decide), if_neg hcut]

theorem afterReset_behind (h : History) (file : List UInt8) :
    (h.afterReset file).behind = h.behind := by
  rw [afterReset]
  split <;> rfl

theorem afterReset_acknowledged (h : History) (file : List UInt8) :
    (h.afterReset file).covered ++ (h.afterReset file).fresh = h.covered ++ h.fresh := by
  rw [afterReset]
  split <;> rfl

theorem stray_of_behind (hbehind : h.behind = []) : h.stray = none := by
  cases hstray : h.stray with
  | none => rfl
  | some r =>
    rw [behind, hstray] at hbehind
    cases append_eq_nil_iff.1 hbehind with
    | intro _ hsome => cases hsome

theorem behind_of_stray (hstray : h.stray = none) : h.behind = h.fresh := by
  rw [behind, hstray]
  exact append_nil _

end History

namespace Store

/-- A record that may be appended next. -/
structure Next (hs : Hashes) (codec : EventCodec E) (s : Store) (r : Record) : Prop where
  wellFormed : r.WellFormed
  sequence : s.sequence.toNat < r.sequence.toNat
  readable : Readable codec r
  chained : ∃ head, walk hs codec genesis
    (auditsOf codec (s.history.covered ++ s.history.fresh ++ [r])) = some head

variable {s : Store} {r : Record}

namespace Exact

/-- The directory with the next record whole behind the others. -/
theorem extend (hx : s.Exact hs codec macKey snapshot) (hp : s.log.poisoned = false)
    (hr : s.Next hs codec r) {history : History} (htaken : history.taken = s.history.taken)
    (hcovered : history.covered = s.history.covered) (hstale : history.stale = s.history.stale)
    (hbehind : history.behind = s.history.fresh ++ [r])
    (hwritten : history.written = s.history.written ++ [r.sequence]) :
    Dir.Sound hs codec macKey
      ⟨s.snapshotFile, s.log.file ++ r.bytes hs.toDigests macKey, history⟩ snapshot := by
  obtain ⟨hstray, hfile, -⟩ := hx.clean hp
  have hsame := History.behind_of_stray hstray
  refine hx.dir.extend hfile hr.wellFormed (hx.sequence.trans_lt hr.sequence) hr.readable ?_ htaken
    hcovered hstale (by rw [hbehind]; exact congrArg (· ++ [r]) hsame.symm) hwritten
  show ∃ head, walk hs codec genesis (auditsOf codec (s.history.durable ++ [r])) = some head
  rw [History.durable, hsame]
  exact hr.chained

/-- The next record is the last one that opening finds. -/
theorem recoveredSequence_next (hx : s.Exact hs codec macKey snapshot) (hp : s.log.poisoned = false)
    (hr : s.Next hs codec r) :
    recoveredSequence snapshot (s.history.fresh ++ [r]) = r.sequence.toNat := by
  refine recoveredSequence_snoc ?_
  rw [← History.behind_of_stray (hx.clean hp).1]
  exact hx.sequence.trans hr.sequence.le

theorem acknowledge (hx : s.Exact hs codec macKey snapshot) (hp : s.log.poisoned = false)
    (hr : s.Next hs codec r) :
    Store.Exact hs codec macKey { s with
      sequence := r.sequence
      log := { s.log with
        file := s.log.file ++ r.bytes hs.toDigests macKey
        len := s.log.len + (r.bytes hs.toDigests macKey).length }
      history := { s.history with
        fresh := s.history.fresh ++ [r], written := s.history.written ++ [r.sequence] } }
      snapshot := by
  obtain ⟨hstray, hfile, hlen⟩ := hx.clean hp
  let history : History := { s.history with
    fresh := s.history.fresh ++ [r], written := s.history.written ++ [r.sequence] }
  have hbehind : history.behind = s.history.fresh ++ [r] := History.behind_of_stray hstray
  refine ⟨hx.extend hp hr rfl rfl rfl hbehind rfl, hx.key, ?_, fun _ => ⟨hstray, ?_, ?_⟩⟩
  · show recoveredSequence snapshot history.behind ≤ r.sequence.toNat
    rw [hbehind, hx.recoveredSequence_next hp hr]
  · show s.log.file ++ r.bytes hs.toDigests macKey = Record.file hs.toDigests macKey history.logged
    rw [History.logged, hbehind, ← append_assoc, file_snoc, hfile, History.logged,
      History.behind_of_stray hstray]
  · show s.log.len + _ = (s.log.file ++ _).length
    rw [length_append, hlen]

/-- The frame is whole in the file although the append failed. -/
theorem strayed (hx : s.Exact hs codec macKey snapshot) (hp : s.log.poisoned = false)
    (hr : s.Next hs codec r) {log : Log} (hpoisoned : log.poisoned = true)
    (hfile : log.file = s.log.file ++ r.bytes hs.toDigests macKey) :
    Store.Exact hs codec macKey { s with
      sequence := r.sequence
      log := log
      history := { s.history with
        stray := some r, written := s.history.written ++ [r.sequence] } } snapshot := by
  refine ⟨?_, hx.key, (hx.recoveredSequence_next hp hr).le, fun hclean => ?_⟩
  · show Dir.Sound hs codec macKey ⟨s.snapshotFile, log.file,
      { s.history with stray := some r, written := s.history.written ++ [r.sequence] }⟩ snapshot
    rw [hfile]
    exact hx.extend hp hr rfl rfl rfl rfl rfl
  · rw [hpoisoned] at hclean
    cases hclean

/-- A beginning of the frame is left in the file. -/
theorem cut (hx : s.Exact hs codec macKey snapshot) (hp : s.log.poisoned = false)
    (hr : s.Next hs codec r) {log : Log} (hpoisoned : log.poisoned = true) {n : ℕ}
    (hn : n < (r.bytes hs.toDigests macKey).length)
    (hfile : log.file = s.log.file ++ (r.bytes hs.toDigests macKey).take n) :
    Store.Exact hs codec macKey { s with sequence := r.sequence, log := log } snapshot := by
  have htorn : TornTail hs macKey s.history.logged ((r.bytes hs.toDigests macKey).take n) := by
    refine .inr ⟨r, n, hr.wellFormed, ?_, hn, rfl⟩
    intro x hlogged
    rw [UInt64.lt_iff_toNat_lt]
    exact ((hx.dir.logged_le hlogged).trans hx.sequence).trans_lt hr.sequence
  refine ⟨?_, hx.key, hx.sequence.trans hr.sequence.le, fun hclean => ?_⟩
  · show Dir.Sound hs codec macKey ⟨s.snapshotFile, log.file, s.history⟩ snapshot
    rw [hfile, (hx.clean hp).2.1]
    exact hx.dir.recast rfl rfl rfl rfl rfl htorn
  · rw [hpoisoned] at hclean
    cases hclean

end Exact

/-- **What an append does.**  It aborts with nothing written, or it succeeds and the record is
acknowledged, or it fails and what was acknowledged stays; the store stays exact. -/
theorem appendLocked_cases (hx : s.Exact hs codec macKey snapshot) {kind : RecordKind}
    (payload : List UInt8) (hkind : kind.Canonical)
    (hread : Readable codec ⟨kind, s.sequence + 1, payload⟩)
    (hchain : ∃ head, walk hs codec genesis (auditsOf codec
      (s.history.covered ++ s.history.fresh ++ [⟨kind, s.sequence + 1, payload⟩])) = some head)
    (io : AppendIo) :
    s.appendLocked hs kind payload io = .abort s.dir ∨
      ∃ s', s'.Exact hs codec macKey snapshot ∧ s'.audit = s.audit ∧
        s'.history.covered = s.history.covered ∧
        (s.appendLocked hs kind payload io = .ok (s.sequence + 1) s' ∧
            s'.history.fresh = s.history.fresh ++ [⟨kind, s.sequence + 1, payload⟩] ∨
          s.appendLocked hs kind payload io = .err s' ∧ s'.history.fresh = s.history.fresh) := by
  by_cases hmax : s.sequence = maxSequence
  · left
    rw [appendLocked, if_pos hmax]
  right
  have hnext := toNat_next hmax
  obtain rfl := hx.key
  rw [appendLocked, if_neg hmax]
  rcases Log.append_result hs.toDigests (fun hp => (hx.clean hp).2.2) kind (s.sequence + 1) payload
    s.macKey io with hnone | ⟨hp, hlarge, hwritten⟩
  · -- Nothing was written, and the sequence is gone.
    have hcut : s.log.file ≠ s.log.file ++
        Record.bytes hs.toDigests s.macKey ⟨kind, s.sequence + 1, payload⟩ := by
      intro heq
      exact Record.bytes_ne_nil _ _ _ (append_right_eq_self.1 heq.symm)
    refine ⟨{ s with sequence := s.sequence + 1 }, { hx with sequence := ?_ }, rfl, rfl,
      .inr ⟨?_, rfl⟩⟩
    · show recoveredSequence snapshot s.history.behind ≤ (s.sequence + 1).toNat
      have hle := hx.sequence
      omega
    · simp only [hnone, History.appended_cut hcut]
  have hr : s.Next hs codec ⟨kind, s.sequence + 1, payload⟩ := by
    refine ⟨⟨hkind, hlarge⟩, ?_, hread, hchain⟩
    show s.sequence.toNat < (s.sequence + 1).toNat
    omega
  rcases hwritten with hok | ⟨n, log, hfailed, hpoisoned, hfile⟩
  · refine ⟨_, hx.acknowledge hp hr, rfl, rfl, .inl ⟨?_, rfl⟩⟩
    simp only [hok, History.appended_acknowledged]
    rfl
  by_cases hwhole : log.file = s.log.file ++
      Record.bytes hs.toDigests s.macKey ⟨kind, s.sequence + 1, payload⟩
  · refine ⟨_, hx.strayed hp hr hpoisoned hwhole, rfl, rfl, .inr ⟨?_, rfl⟩⟩
    simp only [hfailed, History.appended_whole hwhole]
  · have hn : n < (Record.bytes hs.toDigests s.macKey ⟨kind, s.sequence + 1, payload⟩).length := by
      by_contra hlong
      refine hwhole ?_
      rw [hfile]
      exact congrArg (s.log.file ++ ·) (take_of_length_le (not_lt.1 hlong))
    refine ⟨_, hx.cut hp hr hpoisoned hn hfile, rfl, rfl, .inr ⟨?_, rfl⟩⟩
    simp only [hfailed, History.appended_cut hwhole]

/-! ### The operations -/

theorem auditsOf_snoc_other (rs : List Record) (hother : r.kind ≠ .auditEvent) :
    auditsOf codec (rs ++ [r]) = auditsOf codec rs := by
  rw [auditsOf_append]
  simp [auditsOf, hother]

theorem auditsOf_snoc_audit (rs : List Record) {record : AuditRecord E}
    (hread : codec.ReadsBack record.event) (sequence : UInt64) :
    auditsOf codec (rs ++ [⟨.auditEvent, sequence, record.toPayload codec⟩]) =
      auditsOf codec rs ++ [record] := by
  rw [auditsOf_append]
  simp [auditsOf, AuditRecord.fromPayload_toPayload codec hread]

/-- **An append of another kind** keeps the store exact and the chain as it is. -/
theorem appendLocked_other (hx : s.Exact hs codec macKey snapshot) (hc : s.Chained hs codec)
    {kind : RecordKind} (hkind : kind.Canonical) (hother : kind ≠ .auditEvent)
    (payload : List UInt8) (io : AppendIo) :
    s.appendLocked hs kind payload io = .abort s.dir ∨
      ∃ s', s'.Exact hs codec macKey snapshot ∧ s'.Chained hs codec ∧
        (s.appendLocked hs kind payload io = .ok (s.sequence + 1) s' ∨
          s.appendLocked hs kind payload io = .err s') := by
  have hsame : auditsOf codec (s.history.covered ++ s.history.fresh ++
      [⟨kind, s.sequence + 1, payload⟩]) = auditsOf codec (s.history.covered ++ s.history.fresh) :=
    auditsOf_snoc_other _ hother
  rcases appendLocked_cases hx payload hkind (fun haudit => absurd haudit hother)
    ⟨s.audit.head, by rw [hsame]; exact hc.head⟩ io with
    habort | ⟨s', hx', haudit, hcovered, ⟨hok, hfresh⟩ | ⟨herr, hfresh⟩⟩
  · exact .inl habort
  · refine .inr ⟨s', hx', ⟨?_, ?_⟩, .inl hok⟩
    · rw [hcovered, hfresh, ← append_assoc, hsame, haudit]
      exact hc.head
    · rw [hcovered, hfresh, ← append_assoc, hsame, haudit]
      exact hc.count
  · refine .inr ⟨s', hx', ⟨?_, ?_⟩, .inr herr⟩
    · rw [hcovered, hfresh, haudit]
      exact hc.head
    · rw [hcovered, hfresh, haudit]
      exact hc.count

end Store

/-- The state directory is sound, and so is the store that has it open. -/
def Node.Sound (hs : Hashes) (codec : EventCodec E) (macKey : List UInt8) : Node → Prop
  | .up s => ∃ snapshot, s.Exact hs codec macKey snapshot ∧ s.Chained hs codec
  | .down dir => ∃ snapshot, dir.Sound hs codec macKey snapshot

theorem Node.Sound.dir {node : Node} (h : node.Sound hs codec macKey) :
    ∃ snapshot, node.dir.Sound hs codec macKey snapshot := by
  cases node with
  | up s =>
    obtain ⟨snapshot, hx, -⟩ := h
    exact ⟨snapshot, hx.dir⟩
  | down dir => exact h

namespace Store

variable {s : Store}

theorem append_sound (hx : s.Exact hs codec macKey snapshot) (hc : s.Chained hs codec)
    {kind : RecordKind} (hkind : kind.Canonical) (hother : kind ≠ .auditEvent)
    (payload : List UInt8) (io : AppendIo) :
    (s.append hs kind payload io).node.Sound hs codec macKey := by
  rw [append]
  rcases appendLocked_other hx hc hkind hother payload io with habort | ⟨s', hx', hc', hok | herr⟩
  · rw [habort]
    exact ⟨snapshot, hx.dir⟩
  · rw [hok]
    exact ⟨snapshot, hx', hc'⟩
  · rw [herr]
    exact ⟨snapshot, hx', hc'⟩

/-- The counter towards the next checkpoint does not matter. -/
theorem Exact.sinceCheckpoint (hx : s.Exact hs codec macKey snapshot) (since : ℕ) :
    Store.Exact hs codec macKey { s with auditSinceCheckpoint := since } snapshot :=
  ⟨hx.dir, hx.key, hx.sequence, hx.clean⟩

theorem Chained.sinceCheckpoint (hc : s.Chained hs codec) (since : ℕ) :
    Store.Chained hs codec { s with auditSinceCheckpoint := since } := ⟨hc.head, hc.count⟩

theorem auditCheckpoint_canonical : RecordKind.Canonical .auditCheckpoint := by decide

theorem checkpointAudit_sound (hx : s.Exact hs codec macKey snapshot) (hc : s.Chained hs codec)
    (timestampMillis : UInt64) (io : AppendIo) :
    (s.checkpointAudit hs timestampMillis io).node.Sound hs codec macKey := by
  rw [checkpointAudit]
  rcases appendLocked_other hx hc auditCheckpoint_canonical (by decide)
    (s.audit.checkpoint hs.toDigests s.sequence timestampMillis s.macKey).toPayload io with
    habort | ⟨s', hx', hc', hok | herr⟩
  · simp only [habort]
    exact ⟨snapshot, hx.dir⟩
  · simp only [hok]
    exact ⟨snapshot, hx'.sinceCheckpoint 0, hc'.sinceCheckpoint 0⟩
  · simp only [herr]
    exact ⟨snapshot, hx', hc'⟩

/-- The checkpoint that an audit append takes when one is due. -/
theorem takeCheckpoint_sound (hx : s.Exact hs codec macKey snapshot) (hc : s.Chained hs codec)
    (taken : AuditCheckpoint) (io : AppendIo) (since : ℕ) (appended : AuditAppended) :
    Node.Sound hs codec macKey (match s.appendLocked hs .auditCheckpoint taken.toPayload io with
      | .abort dir => (Outcome.abort dir : Outcome AuditAppended)
      | .err s' => .err { s' with auditSinceCheckpoint := since }
      | .ok _ s' => .ok appended s').node := by
  rcases appendLocked_other hx hc auditCheckpoint_canonical (by decide) taken.toPayload io with
    habort | ⟨s', hx', hc', hok | herr⟩
  · simp only [habort]
    exact ⟨snapshot, hx.dir⟩
  · simp only [hok]
    exact ⟨snapshot, hx', hc'⟩
  · simp only [herr]
    exact ⟨snapshot, hx'.sinceCheckpoint since, hc'.sinceCheckpoint since⟩

theorem appendAudit_sound (hx : s.Exact hs codec macKey snapshot) (hc : s.Chained hs codec)
    {event : E} (hread : codec.ReadsBack event) (io checkpointIo : AppendIo) :
    (s.appendAudit hs codec event io checkpointIo).node.Sound hs codec macKey := by
  rw [appendAudit]
  cases hchain : s.audit.append hs codec event with
  | none => exact ⟨snapshot, hx.dir⟩
  | some next =>
    obtain ⟨record, chain⟩ := next
    obtain ⟨rfl, rfl⟩ := AuditChain.append_eq_some hchain
    have hsnoc : auditsOf codec (s.history.covered ++ s.history.fresh ++ [⟨.auditEvent,
        s.sequence + 1, AuditRecord.toPayload codec ⟨s.audit.head, event⟩⟩]) =
        auditsOf codec (s.history.covered ++ s.history.fresh) ++ [⟨s.audit.head, event⟩] :=
      auditsOf_snoc_audit _ hread _
    have hwalk : walk hs codec genesis (auditsOf codec (s.history.covered ++ s.history.fresh ++
        [⟨.auditEvent, s.sequence + 1, AuditRecord.toPayload codec ⟨s.audit.head, event⟩⟩])) =
        some (AuditRecord.link hs codec ⟨s.audit.head, event⟩) := by
      rw [hsnoc, walk_append_of_eq hc.head]
      exact walk_singleton (⟨s.audit.head, event⟩ : AuditRecord E)
    have hx₁ : Store.Exact hs codec macKey { s with
        audit := ⟨AuditRecord.link hs codec ⟨s.audit.head, event⟩, s.audit.count + 1⟩ } snapshot :=
      ⟨hx.dir, hx.key, hx.sequence, hx.clean⟩
    rcases appendLocked_cases hx₁ (AuditRecord.toPayload codec ⟨s.audit.head, event⟩) (by decide)
      (fun _ => by rw [AuditRecord.fromPayload_toPayload codec hread]; rfl) ⟨_, hwalk⟩ io with
      habort | ⟨s', hx', haudit, hcovered, ⟨hok, hfresh⟩ | ⟨herr, hfresh⟩⟩
    · simp only [habort]
      exact ⟨snapshot, hx.dir⟩
    · -- The record is durable, and the chain goes on with it.
      have hc' : s'.Chained hs codec := by
        refine ⟨?_, ?_⟩
        · rw [hcovered, hfresh, ← append_assoc, haudit]
          exact hwalk
        · rw [hcovered, hfresh, ← append_assoc, haudit]
          show (auditsOf codec (s.history.covered ++ s.history.fresh ++ _)).length = _
          rw [hsnoc, length_append, hc.count]
          rfl
      simp only [hok]
      cases checkedAdd u64Max s'.auditSinceCheckpoint 1 with
      | none => exact ⟨snapshot, hx'.dir⟩
      | some since =>
        dsimp only
        split
        · exact takeCheckpoint_sound (hx'.sinceCheckpoint 0) (hc'.sinceCheckpoint 0) _ checkpointIo
            since _
        · exact ⟨snapshot, hx'.sinceCheckpoint since, hc'.sinceCheckpoint since⟩
    · -- The write failed, and the chain is put back.
      simp only [herr]
      refine ⟨snapshot, ⟨hx'.dir, hx'.key, hx'.sequence, hx'.clean⟩, ⟨?_, ?_⟩⟩
      · show walk hs codec genesis (auditsOf codec (s'.history.covered ++ s'.history.fresh)) = _
        rw [hcovered, hfresh]
        exact hc.head
      · show (auditsOf codec (s'.history.covered ++ s'.history.fresh)).length = _
        rw [hcovered, hfresh]
        exact hc.count

end Store

end HypeLlm.Store
