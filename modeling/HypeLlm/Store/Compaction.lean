import HypeLlm.Store.Appends

/-!
# Compaction

A compaction puts a new snapshot in place and then resets the log.  From the rename on, the snapshot
covers every record there is, so it does not matter what the reset leaves in the log file.

* `Exact.renamed` — the new snapshot covers everything;
* `compact_dir` — the directory is sound wherever a compaction ends;
* **`apply_sound`**, **`apply_dir`** — every operation.
-/

set_option linter.dupNamespace false

namespace HypeLlm.Store

open HypeLlm.Words List

variable {E : Type} {hs : Hashes} {codec : EventCodec E} {macKey : List UInt8}
  {snapshot : Option SnapshotState}

namespace Store

variable {s : Store}

/-- The store with a new snapshot in place. -/
def renamed (hs : Hashes) (s : Store) (payload : List UInt8) : Store :=
  { s with
    snapshotFile := some (snapshotBytes hs ⟨payload, s.sequence, s.audit.head, s.audit.count⟩ s.macKey)
    history := s.history.snapshotted payload }

/-- Where a compaction may end. -/
theorem compact_node (hs : Hashes) (s : Store) (payload : List UInt8) (io : CompactIo) :
    (s.compact hs payload io).node = .up s ∨
      (s.compact hs payload io).node = .up (s.renamed hs payload) ∨
      (s.compact hs payload io).node =
        .up { s.renamed hs payload with snapshotSequence := s.sequence } ∨
      io.rename = true ∧ io.syncDir = true ∧ io.removeLegacy = true ∧
        (s.compact hs payload io).node = .up { s.renamed hs payload with
          snapshotSequence := s.sequence
          log := (s.log.reset io.reset).2
          history := (s.history.snapshotted payload).afterReset (s.log.reset io.reset).2.file } := by
  rw [compact]
  cases io.rename with
  | false => exact .inl rfl
  | true =>
    cases io.syncDir with
    | false => exact .inr (.inl rfl)
    | true =>
      cases io.removeLegacy with
      | false => exact .inr (.inr (.inl rfl))
      | true =>
        refine .inr (.inr (.inr ⟨rfl, rfl, rfl, ?_⟩))
        rcases s.log.reset io.reset with ⟨_ | _, log⟩ <;> rfl

theorem count_le (hx : s.Exact hs codec macKey snapshot) :
    (auditsOf codec (s.history.covered ++ s.history.fresh)).length ≤ s.sequence.toNat := by
  have hdurable : s.history.durable =
      s.history.covered ++ s.history.fresh ++ s.history.stray.toList := by
    rw [History.durable, History.behind, append_assoc]
  have hle : (auditsOf codec (s.history.covered ++ s.history.fresh)).length ≤
      (auditsOf codec s.history.durable).length := by
    rw [hdurable, auditsOf_append (s.history.covered ++ s.history.fresh), length_append]
    exact Nat.le_add_right _ _
  exact hle.trans (hx.dir.count_le.trans hx.sequence)

theorem Chained.renamed (hc : s.Chained hs codec) (payload : List UInt8) :
    (s.renamed hs payload).Chained hs codec := by
  have hsame : (s.history.snapshotted payload).covered ++ (s.history.snapshotted payload).fresh =
      s.history.covered ++ s.history.fresh := append_nil _
  refine ⟨?_, ?_⟩
  · show walk hs codec genesis
      (auditsOf codec ((s.history.snapshotted payload).covered ++ (s.history.snapshotted payload).fresh)) = _
    rw [hsame]
    exact hc.head
  · show (auditsOf codec ((s.history.snapshotted payload).covered ++ (s.history.snapshotted payload).fresh)).length = _
    rw [hsame]
    exact hc.count

/-- **The new snapshot covers everything**, whatever is left in the log file. -/
theorem Exact.renamed (hx : s.Exact hs codec macKey snapshot) (hc : s.Chained hs codec)
    {payload : List UInt8} (hsize : metaLen + payload.length ≤ maxStateFileBytes) :
    (s.renamed hs payload).Exact hs codec macKey
      (some ⟨payload, s.sequence, s.audit.head, s.audit.count⟩) := by
  have hcount : s.audit.count ≤ s.sequence.toNat := by
    rw [← hc.count]
    exact count_le hx
  have hlogged : (s.history.snapshotted payload).logged = s.history.logged := append_nil _
  have hdurable : (s.history.snapshotted payload).durable = s.history.covered ++ s.history.fresh := append_nil _
  have hrecovered : recoveredSequence (some ⟨payload, s.sequence, s.audit.head, s.audit.count⟩)
      (s.history.snapshotted payload).behind = s.sequence.toNat := max_eq_right (Nat.zero_le _)
  have hdir : (s.renamed hs payload).dir.Sound hs codec macKey
      (some ⟨payload, s.sequence, s.audit.head, s.audit.count⟩) := by
    refine ⟨?_, rfl, ?_, ?_, ?_, ?_, ?_, ?_, hc.head, hc.count, ⟨s.audit.head, ?_⟩, ?_, ?_, ?_,
      hx.dir.written_sorted⟩
    · show readSnapshot hs macKey (some (snapshotBytes hs _ s.macKey)) = _
      rw [hx.key]
      refine readSnapshot_encoded hs macKey ?_ hsize
      have hlt := s.sequence.toNat_lt
      show s.audit.count ≤ u64Max
      unfold u64Max
      omega
    · show ∀ r ∈ (s.history.snapshotted payload).logged, r.WellFormed
      rw [hlogged]
      exact hx.dir.wellFormed
    · show ((s.history.snapshotted payload).logged.map (·.sequence)).Pairwise (· < ·)
      rw [hlogged]
      exact hx.dir.sorted
    · show ∃ rest, s.log.file = Record.file hs.toDigests macKey (s.history.snapshotted payload).logged ++ rest ∧
        TornTail hs macKey (s.history.snapshotted payload).logged rest
      rw [hlogged]
      exact hx.dir.log
    · intro r hr
      rw [UInt64.le_iff_toNat_le]
      exact (hx.dir.logged_le hr).trans hx.sequence
    · intro r hr
      cases hr
    · intro r hr
      cases hr
    · show walk hs codec genesis (auditsOf codec (s.history.snapshotted payload).durable) = _
      rw [hdurable]
      exact hc.head
    · show (auditsOf codec (s.history.snapshotted payload).durable).length ≤ recoveredSequence _ _
      rw [hdurable]
      exact (count_le hx).trans hrecovered.ge
    · show ∀ r ∈ (s.history.snapshotted payload).logged, r.sequence ∈ s.history.written
      rw [hlogged]
      exact hx.dir.logged_written
    · intro m hm
      exact ((hx.dir.written_le m hm).trans hx.sequence).trans hrecovered.ge
  refine ⟨hdir, hx.key, hrecovered.le, fun hp => ⟨rfl, ?_, (hx.clean hp).2.2⟩⟩
  show s.log.file = Record.file hs.toDigests macKey (s.history.snapshotted payload).logged
  rw [hlogged]
  exact (hx.clean hp).2.1

/-- A reset leaves the log, or an empty file.  The length is right unless it fails with the file cut
under a log that is not poisoned. -/
theorem reset_cases (log : Log) (io : CutIo) :
    (log.reset io).2 = log ∨ (log.reset io).2.file = [] ∧
      ((log.reset io).2.len = 0 ∨ (log.reset io).2.poisoned = log.poisoned ∧
        (log.reset io).2.len = log.len ∧ io.setLen = true ∧ (io.syncAll = false ∨ io.seek = false)) := by
  have hempty : setLen log.file 0 = [] := by simp [setLen]
  rw [Log.reset]
  rcases log.truncate_cases 0 io with ⟨-, hcut⟩ | hcut | ⟨hset, hfailed, hcut⟩
  · left
    rw [hcut]
  · rw [hcut]
    exact .inr ⟨hempty, .inl rfl⟩
  · rw [hcut]
    exact .inr ⟨hempty, .inr ⟨rfl, rfl, hset, hfailed⟩⟩

/-- The reset of a compaction does not fail with the file already cut under a log that is not
poisoned. -/
def CleanReset (s : Store) : StoreOp E → Prop
  | .compact _ io => io.rename = true → io.syncDir = true → io.removeLegacy = true →
      s.log.poisoned = false → io.reset.setLen = true →
      io.reset.syncAll = false ∨ io.reset.seek = false → s.log.file = []
  | _ => True

/-- The directory after a reset. -/
theorem Exact.reset_dir (hx : s.Exact hs codec macKey snapshot) (hbehind : s.history.behind = [])
    (io : CutIo) :
    Dir.Sound hs codec macKey ⟨s.snapshotFile, (s.log.reset io).2.file,
      s.history.afterReset (s.log.reset io).2.file⟩ snapshot := by
  by_cases hempty : (s.log.reset io).2.file = []
  · rw [hempty, History.afterReset, if_pos rfl]
    exact hx.dir.emptied hbehind
  · have hsame : (s.log.reset io).2 = s.log :=
      (reset_cases s.log io).resolve_right fun h => hempty h.1
    rw [History.afterReset, if_neg hempty, hsame]
    exact hx.dir

/-- The store after a reset that did not fail half-way. -/
theorem Exact.reset (hx : s.Exact hs codec macKey snapshot) (hbehind : s.history.behind = [])
    {io : CutIo} (hclean : s.log.poisoned = false → io.setLen = true →
      io.syncAll = false ∨ io.seek = false → s.log.file = []) :
    Store.Exact hs codec macKey { s with
      log := (s.log.reset io).2
      history := s.history.afterReset (s.log.reset io).2.file } snapshot := by
  have hdir := hx.reset_dir hbehind io
  have hbehind' := (History.afterReset_behind s.history (s.log.reset io).2.file).trans hbehind
  refine ⟨hdir, hx.key, ?_, fun hp => ⟨History.stray_of_behind hbehind', ?_⟩⟩
  · show recoveredSequence snapshot (s.history.afterReset _).behind ≤ s.sequence.toNat
    rw [History.afterReset_behind]
    exact hx.sequence
  show (s.log.reset io).2.file =
      Record.file hs.toDigests macKey (s.history.afterReset (s.log.reset io).2.file).logged ∧
    (s.log.reset io).2.len = (s.log.reset io).2.file.length
  have hp : (s.log.reset io).2.poisoned = false := hp
  by_cases hempty : (s.log.reset io).2.file = []
  · rw [hempty]
    have hlogged : (s.history.afterReset []).logged = [] := by
      rw [History.afterReset, if_pos rfl]
      exact hbehind
    refine ⟨by rw [hlogged]; rfl, ?_⟩
    rcases reset_cases s.log io with hsame | ⟨-, hlen | ⟨hpoisoned, hlen, hset, hfailed⟩⟩
    · rw [hsame] at hp hempty ⊢
      rw [(hx.clean hp).2.2, hempty]
    · exact hlen
    · -- The cut failed half-way, so there was nothing to cut.
      rw [hpoisoned] at hp
      rw [hlen, (hx.clean hp).2.2, hclean hp hset hfailed]
  · have hsame : (s.log.reset io).2 = s.log :=
      (reset_cases s.log io).resolve_right fun h => hempty h.1
    rw [History.afterReset, if_neg hempty, hsame]
    rw [hsame] at hp
    exact (hx.clean hp).2

/-- Compaction leaves a sound directory wherever it ends. -/
theorem compact_dir (hx : s.Exact hs codec macKey snapshot) (hc : s.Chained hs codec)
    {payload : List UInt8} (hsize : metaLen + payload.length ≤ maxStateFileBytes) (io : CompactIo) :
    ∃ snapshot', (s.compact hs payload io).node.dir.Sound hs codec macKey snapshot' := by
  have hrenamed := hx.renamed hc hsize
  rcases compact_node hs s payload io with hnode | hnode | hnode | ⟨-, -, -, hnode⟩
  · rw [hnode]
    exact ⟨snapshot, hx.dir⟩
  · rw [hnode]
    exact ⟨_, hrenamed.dir⟩
  · rw [hnode]
    exact ⟨_, hrenamed.dir⟩
  · rw [hnode]
    exact ⟨_, hrenamed.reset_dir rfl io.reset⟩

theorem compact_sound (hx : s.Exact hs codec macKey snapshot) (hc : s.Chained hs codec)
    {payload : List UInt8} (hsize : metaLen + payload.length ≤ maxStateFileBytes) {io : CompactIo}
    (hclean : s.CleanReset (.compact payload io : StoreOp E)) :
    (s.compact hs payload io).node.Sound hs codec macKey := by
  have hrenamed := hx.renamed hc hsize
  have hchained := hc.renamed payload
  rcases compact_node hs s payload io with hnode | hnode | hnode | ⟨hrename, hsync, hlegacy, hnode⟩
  · rw [hnode]
    exact ⟨snapshot, hx, hc⟩
  · rw [hnode]
    exact ⟨_, hrenamed, hchained⟩
  · rw [hnode]
    exact ⟨_, ⟨hrenamed.dir, hrenamed.key, hrenamed.sequence, hrenamed.clean⟩,
      ⟨hchained.head, hchained.count⟩⟩
  · rw [hnode]
    have hreset := hrenamed.reset rfl (hclean hrename hsync hlegacy)
    have hsame := History.afterReset_acknowledged (s.history.snapshotted payload) (s.log.reset io.reset).2.file
    refine ⟨_, ⟨hreset.dir, hreset.key, hreset.sequence, hreset.clean⟩, ⟨?_, ?_⟩⟩
    · show walk hs codec genesis (auditsOf codec (((s.history.snapshotted payload).afterReset _).covered ++
        ((s.history.snapshotted payload).afterReset _).fresh)) = _
      rw [hsame]
      exact hchained.head
    · show (auditsOf codec (((s.history.snapshotted payload).afterReset _).covered ++
        ((s.history.snapshotted payload).afterReset _).fresh)).length = _
      rw [hsame]
      exact hchained.count

end Store

/-! ### Every operation -/

/-- What the caller of an operation has to see to: a generic append is of no kind that has another
meaning on disk and of no audit record, an audit event is one that can be read back, and a snapshot
fits in a state file. -/
def StoreOp.Proper (codec : EventCodec E) : StoreOp E → Prop
  | .append kind _ _ => kind.Canonical ∧ kind ≠ .auditEvent
  | .appendAudit event _ _ => codec.ReadsBack event
  | .checkpointAudit _ _ => True
  | .compact payload _ => metaLen + payload.length ≤ maxStateFileBytes

namespace Store

variable {s : Store}

/-- **An operation keeps the store sound** unless its reset fails half-way. -/
theorem apply_sound (hx : s.Exact hs codec macKey snapshot) (hc : s.Chained hs codec)
    {o : StoreOp E} (hproper : o.Proper codec) (hclean : s.CleanReset o) :
    (s.apply hs codec o).Sound hs codec macKey := by
  cases o with
  | append kind payload io => exact append_sound hx hc hproper.1 hproper.2 payload io
  | appendAudit event io checkpointIo => exact appendAudit_sound hx hc hproper io checkpointIo
  | checkpointAudit timestampMillis io => exact checkpointAudit_sound hx hc timestampMillis io
  | compact payload io => exact compact_sound hx hc hproper hclean

/-- **Wherever an operation ends or the process dies in it, the directory is sound.** -/
theorem apply_dir (hx : s.Exact hs codec macKey snapshot) (hc : s.Chained hs codec)
    {o : StoreOp E} (hproper : o.Proper codec) :
    ∃ snapshot', (s.apply hs codec o).dir.Sound hs codec macKey snapshot' := by
  cases o with
  | append kind payload io => exact (append_sound hx hc hproper.1 hproper.2 payload io).dir
  | appendAudit event io checkpointIo => exact (appendAudit_sound hx hc hproper io checkpointIo).dir
  | checkpointAudit timestampMillis io => exact (checkpointAudit_sound hx hc timestampMillis io).dir
  | compact payload io => exact compact_dir hx hc hproper io

end Store

end HypeLlm.Store
