import HypeLlm.Store.Store

/-!
# What a sound state directory is

`Dir.Sound` says what a state directory satisfies whenever a process may die in it: the log file is
the logged records and possibly the beginning of one more, the snapshot covers exactly what is not
behind it, and the audit records of both form one chain.  `Store.Exact` and `Store.Chained` add what
an open store knows: a log that is exact unless it is poisoned, and the head and the count of the
chain of what was acknowledged.

* `Log.append_result`, `Log.truncate_cases` — what the log may do;
* `Dir.Sound.extend`, `Dir.Sound.recast`, `Dir.Sound.emptied` — how a sound directory may change.
-/

set_option linter.dupNamespace false

namespace HypeLlm.Store

open HypeLlm.Words List

/-! ### Sequences -/

theorem toNat_maxSequence : maxSequence.toNat = u64Max := by decide

theorem toNat_next {sequence : UInt64} (h : sequence ≠ maxSequence) :
    (sequence + 1).toNat = sequence.toNat + 1 := by
  have hne : sequence.toNat ≠ maxSequence.toNat := fun heq => h (UInt64.toNat_inj.1 heq)
  have hlt := sequence.toNat_lt
  have hone : (1 : UInt64).toNat = 1 := rfl
  rw [toNat_maxSequence] at hne
  unfold u64Max at hne
  rw [UInt64.toNat_add]
  omega

theorem toNat_max (a b : UInt64) : (max a b).toNat = max a.toNat b.toNat := by
  rw [UInt64.max_def]
  split
  · rename_i h
    rw [UInt64.le_iff_toNat_le] at h
    exact (max_eq_right h).symm
  · rename_i h
    rw [UInt64.le_iff_toNat_le, not_le] at h
    exact (max_eq_left h.le).symm

/-! ### One append to the log -/

/-- What an append does to a log whose length is exact: nothing; or the frame is written and
acknowledged; or the beginning of it stays and the log is poisoned. -/
theorem Log.append_result (d : Digests) {log : Log}
    (hlen : log.poisoned = false → log.len = log.file.length) (kind : RecordKind) (sequence : UInt64)
    (payload macKey : List UInt8) (io : AppendIo) :
    log.append d kind sequence payload macKey io = (none, log) ∨
      log.poisoned = false ∧ payload.length ≤ maxPayloadLen ∧
        (log.append d kind sequence payload macKey io = (some log.len, { log with
            file := log.file ++ frameBytes d kind sequence payload macKey
            len := log.len + (frameBytes d kind sequence payload macKey).length }) ∨
          ∃ n log', log.append d kind sequence payload macKey io = (none, log') ∧
            log'.poisoned = true ∧
            log'.file = log.file ++ (frameBytes d kind sequence payload macKey).take n) := by
  by_cases hp : log.poisoned = false
  · rcases Tracked.append_cases d hp kind sequence payload macKey io with
      hrefused | ⟨hlarge, hwritten | ⟨n, hfailed⟩⟩
    · exact .inl hrefused
    · exact .inr ⟨hp, hlarge, .inl hwritten⟩
    · rcases Tracked.rollBack_cases (hlen hp) ((frameBytes d kind sequence payload macKey).take n) io
        with hback | ⟨hpoisoned, hfile | hfile⟩
      · left
        rw [hfailed, hback]
      · exact .inr ⟨hp, hlarge, .inr ⟨0, _, hfailed, hpoisoned, by simpa using hfile⟩⟩
      · exact .inr ⟨hp, hlarge, .inr ⟨n, _, hfailed, hpoisoned, hfile⟩⟩
  · left
    rw [Log.append, if_pos (by simpa using hp)]

/-- A cut fails with nothing done, succeeds, or fails with the file already cut. -/
theorem Log.truncate_cases (log : Log) (validLen : ℕ) (io : CutIo) :
    io.setLen = false ∧ log.truncate validLen io = (false, log) ∨
      log.truncate validLen io = (true, { log with
        file := Store.setLen log.file validLen, len := validLen, poisoned := false }) ∨
      io.setLen = true ∧ (io.syncAll = false ∨ io.seek = false) ∧
        log.truncate validLen io = (false, { log with file := Store.setLen log.file validLen }) := by
  rw [Log.truncate]
  cases io.setLen with
  | false => exact .inl ⟨rfl, rfl⟩
  | true =>
    right
    cases hdone : io.syncAll && io.seek with
    | true => exact .inl rfl
    | false => exact .inr ⟨rfl, Bool.and_eq_false_iff.1 hdone, rfl⟩

/-! ### The invariants -/

section

variable {E : Type} (hs : Hashes) (codec : EventCodec E) (macKey : List UInt8)

/-- The audit records among the records. -/
def auditsOf (rs : List Record) : List (AuditRecord E) :=
  rs.filterMap fun r =>
    if r.kind = .auditEvent then AuditRecord.fromPayload codec r.payload else none

/-- The payload of an audit record can be read. -/
def Readable (r : Record) : Prop :=
  r.kind = .auditEvent → (AuditRecord.fromPayload codec r.payload).isSome = true

/-- The highest sequence that opening finds, given the records behind the snapshot. -/
def recoveredSequence (snapshot : Option SnapshotState) (behind : List Record) : ℕ :=
  max (Record.lastSequence behind).toNat (coveredSequence snapshot).toNat

/-- The log file behind its whole records: nothing, or the beginning of one more record. -/
def TornTail (logged : List Record) (rest : List UInt8) : Prop :=
  rest = [] ∨ ∃ (r : Record) (n : ℕ), r.WellFormed ∧ (∀ x ∈ logged, x.sequence < r.sequence) ∧
    n < (r.bytes hs.toDigests macKey).length ∧ rest = (r.bytes hs.toDigests macKey).take n

/-- What holds of a state directory whenever a process may die. -/
structure Dir.Sound (dir : Dir) (snapshot : Option SnapshotState) : Prop where
  reads : readSnapshot hs macKey dir.snapshot = .ok snapshot
  taken : snapshot.map (·.payload) = dir.history.taken
  wellFormed : ∀ r ∈ dir.history.logged, r.WellFormed
  sorted : (dir.history.logged.map (·.sequence)).Pairwise (· < ·)
  log : ∃ rest, dir.log = Record.file hs.toDigests macKey dir.history.logged ++ rest ∧
    TornTail hs macKey dir.history.logged rest
  stale_le : ∀ r ∈ dir.history.stale, r.sequence ≤ coveredSequence snapshot
  behind_gt : ∀ r ∈ dir.history.behind, coveredSequence snapshot < r.sequence
  readable : ∀ r ∈ dir.history.behind, Readable codec r
  coveredHead : walk hs codec genesis (auditsOf codec dir.history.covered) =
    some (coveredChain snapshot).head
  coveredCount : (auditsOf codec dir.history.covered).length = (coveredChain snapshot).count
  chained : ∃ head, walk hs codec genesis (auditsOf codec dir.history.durable) = some head
  count_le : (auditsOf codec dir.history.durable).length ≤
    recoveredSequence snapshot dir.history.behind
  logged_written : ∀ r ∈ dir.history.logged, r.sequence ∈ dir.history.written
  written_le : ∀ m ∈ dir.history.written, m.toNat ≤ recoveredSequence snapshot dir.history.behind
  written_sorted : dir.history.written.Pairwise (· < ·)

/-- What an open store knows of its directory and its log. -/
structure Store.Exact (s : Store) (snapshot : Option SnapshotState) : Prop where
  dir : s.dir.Sound hs codec macKey snapshot
  key : s.macKey = macKey
  sequence : recoveredSequence snapshot s.history.behind ≤ s.sequence.toNat
  clean : s.log.poisoned = false → s.history.stray = none ∧
    s.log.file = Record.file hs.toDigests macKey s.history.logged ∧ s.log.len = s.log.file.length

/-- The running chain is the chain of what was acknowledged. -/
structure Store.Chained (s : Store) : Prop where
  head : walk hs codec genesis (auditsOf codec (s.history.covered ++ s.history.fresh)) =
    some s.audit.head
  count : (auditsOf codec (s.history.covered ++ s.history.fresh)).length = s.audit.count

end

variable {E : Type} {hs : Hashes} {codec : EventCodec E} {macKey : List UInt8}
  {snapshot : Option SnapshotState}

/-! ### Records behind the snapshot -/

theorem auditsOf_append (rs rs' : List Record) :
    auditsOf codec (rs ++ rs') = auditsOf codec rs ++ auditsOf codec rs' := filterMap_append

theorem length_auditsOf_snoc (codec : EventCodec E) (rs : List Record) (r : Record) :
    (auditsOf codec (rs ++ [r])).length ≤ (auditsOf codec rs).length + 1 := by
  rw [auditsOf_append, length_append]
  exact Nat.add_le_add_left (length_filterMap_le _ [r]) _

theorem recoveredSequence_snoc {rs : List Record} {r : Record}
    (h : recoveredSequence snapshot rs ≤ r.sequence.toNat) :
    recoveredSequence snapshot (rs ++ [r]) = r.sequence.toNat := by
  have hlast : Record.lastSequence (rs ++ [r]) = r.sequence := by
    simp [Record.lastSequence]
  have hcovered : (coveredSequence snapshot).toNat ≤ r.sequence.toNat := (le_max_right _ _).trans h
  rw [recoveredSequence, hlast, max_eq_left hcovered]

theorem file_snoc (rs : List Record) (r : Record) :
    Record.file hs.toDigests macKey (rs ++ [r]) =
      Record.file hs.toDigests macKey rs ++ r.bytes hs.toDigests macKey := by
  simp [Record.file]

namespace Dir.Sound

variable {dir : Dir}

theorem logged_le (h : dir.Sound hs codec macKey snapshot) {r : Record}
    (hr : r ∈ dir.history.logged) :
    r.sequence.toNat ≤ recoveredSequence snapshot dir.history.behind :=
  h.written_le _ (h.logged_written r hr)

/-- A new record behind the others, whole in the log file. -/
theorem extend (h : dir.Sound hs codec macKey snapshot) {r : Record} {history : History}
    (hwhole : dir.log = Record.file hs.toDigests macKey dir.history.logged) (hwell : r.WellFormed)
    (hnext : recoveredSequence snapshot dir.history.behind < r.sequence.toNat)
    (hread : Readable codec r)
    (hchain : ∃ head, walk hs codec genesis (auditsOf codec (dir.history.durable ++ [r])) = some head)
    (htaken : history.taken = dir.history.taken)
    (hcovered : history.covered = dir.history.covered) (hstale : history.stale = dir.history.stale)
    (hbehind : history.behind = dir.history.behind ++ [r])
    (hwritten : history.written = dir.history.written ++ [r.sequence]) :
    Dir.Sound hs codec macKey ⟨dir.snapshot, dir.log ++ r.bytes hs.toDigests macKey, history⟩
      snapshot := by
  have hlogged : history.logged = dir.history.logged ++ [r] := by
    rw [History.logged, hstale, hbehind, ← append_assoc]
    rfl
  have hdurable : history.durable = dir.history.durable ++ [r] := by
    rw [History.durable, hcovered, hbehind, ← append_assoc]
    rfl
  have hlast : recoveredSequence snapshot history.behind = r.sequence.toNat := by
    rw [hbehind, recoveredSequence_snoc hnext.le]
  refine ⟨h.reads, h.taken.trans htaken.symm, ?_, ?_, ?_, ?_, ?_, ?_, ?_, ?_, ?_, ?_, ?_, ?_, ?_⟩
  · show ∀ x ∈ history.logged, x.WellFormed
    rw [hlogged]
    intro x hx
    rcases mem_append.1 hx with hx | hx
    · exact h.wellFormed x hx
    · obtain rfl := mem_singleton.1 hx
      exact hwell
  · show (history.logged.map (·.sequence)).Pairwise (· < ·)
    rw [hlogged, map_append, pairwise_append]
    refine ⟨h.sorted, pairwise_singleton _ _, ?_⟩
    intro m hm m' hm'
    obtain ⟨x, hx, rfl⟩ := mem_map.1 hm
    obtain rfl := mem_singleton.1 hm'
    rw [UInt64.lt_iff_toNat_lt]
    exact (h.logged_le hx).trans_lt hnext
  · refine ⟨[], ?_, .inl rfl⟩
    show dir.log ++ r.bytes hs.toDigests macKey = Record.file hs.toDigests macKey history.logged ++ []
    rw [hlogged, file_snoc, append_nil, hwhole]
  · show ∀ x ∈ history.stale, x.sequence ≤ coveredSequence snapshot
    rw [hstale]
    exact h.stale_le
  · show ∀ x ∈ history.behind, coveredSequence snapshot < x.sequence
    rw [hbehind]
    intro x hx
    rcases mem_append.1 hx with hx | hx
    · exact h.behind_gt x hx
    · obtain rfl := mem_singleton.1 hx
      rw [UInt64.lt_iff_toNat_lt]
      exact (le_max_right _ _).trans_lt hnext
  · show ∀ x ∈ history.behind, Readable codec x
    rw [hbehind]
    intro x hx
    rcases mem_append.1 hx with hx | hx
    · exact h.readable x hx
    · obtain rfl := mem_singleton.1 hx
      exact hread
  · show walk hs codec genesis (auditsOf codec history.covered) = _
    rw [hcovered]
    exact h.coveredHead
  · show (auditsOf codec history.covered).length = _
    rw [hcovered]
    exact h.coveredCount
  · show ∃ head, walk hs codec genesis (auditsOf codec history.durable) = some head
    rw [hdurable]
    exact hchain
  · show (auditsOf codec history.durable).length ≤ recoveredSequence snapshot history.behind
    rw [hlast, hdurable]
    have hcount := h.count_le
    have hsnoc := length_auditsOf_snoc codec dir.history.durable r
    omega
  · show ∀ x ∈ history.logged, x.sequence ∈ history.written
    rw [hlogged, hwritten]
    intro x hx
    rcases mem_append.1 hx with hx | hx
    · exact mem_append_left _ (h.logged_written x hx)
    · obtain rfl := mem_singleton.1 hx
      exact mem_append_right _ mem_cons_self
  · show ∀ m ∈ history.written, m.toNat ≤ recoveredSequence snapshot history.behind
    rw [hlast, hwritten]
    intro m hm
    rcases mem_append.1 hm with hm | hm
    · exact (h.written_le m hm).trans hnext.le
    · obtain rfl := mem_singleton.1 hm
      exact le_rfl
  · show history.written.Pairwise (· < ·)
    rw [hwritten, pairwise_append]
    refine ⟨h.written_sorted, pairwise_singleton _ _, ?_⟩
    intro m hm m' hm'
    obtain rfl := mem_singleton.1 hm'
    rw [UInt64.lt_iff_toNat_lt]
    exact (h.written_le m hm).trans_lt hnext

/-- The log file may change behind its whole records, and an unacknowledged record may come to
count. -/
theorem recast (h : dir.Sound hs codec macKey snapshot) {history : History}
    (htaken : history.taken = dir.history.taken) (hcovered : history.covered = dir.history.covered)
    (hstale : history.stale = dir.history.stale)
    (hbehind : history.behind = dir.history.behind) (hwritten : history.written = dir.history.written)
    {rest : List UInt8} (hrest : TornTail hs macKey dir.history.logged rest) :
    Dir.Sound hs codec macKey ⟨dir.snapshot,
      Record.file hs.toDigests macKey dir.history.logged ++ rest, history⟩ snapshot := by
  have hlogged : history.logged = dir.history.logged := by
    rw [History.logged, hstale, hbehind]
    rfl
  have hdurable : history.durable = dir.history.durable := by
    rw [History.durable, hcovered, hbehind]
    rfl
  exact {
    reads := h.reads
    taken := h.taken.trans htaken.symm
    wellFormed := by simpa only [hlogged] using h.wellFormed
    sorted := by simpa only [hlogged] using h.sorted
    log := ⟨rest, by simp only [hlogged], by simpa only [hlogged] using hrest⟩
    stale_le := by simpa only [hstale] using h.stale_le
    behind_gt := by simpa only [hbehind] using h.behind_gt
    readable := by simpa only [hbehind] using h.readable
    coveredHead := by simpa only [hcovered] using h.coveredHead
    coveredCount := by simpa only [hcovered] using h.coveredCount
    chained := by simpa only [hdurable] using h.chained
    count_le := by simpa only [hdurable, hbehind] using h.count_le
    logged_written := by simpa only [hlogged, hwritten] using h.logged_written
    written_le := by simpa only [hwritten, hbehind] using h.written_le
    written_sorted := by simpa only [hwritten] using h.written_sorted }

/-- An empty log file under a snapshot that covers everything. -/
theorem emptied (h : dir.Sound hs codec macKey snapshot) (hbehind : dir.history.behind = []) :
    Dir.Sound hs codec macKey ⟨dir.snapshot, [], { dir.history with stale := [] }⟩ snapshot := by
  have hlogged : ({ dir.history with stale := [] } : History).logged = [] := hbehind
  refine { h with
    wellFormed := ?_, sorted := ?_, log := ⟨[], ?_, .inl rfl⟩, stale_le := ?_, logged_written := ?_ }
  · show ∀ r ∈ ({ dir.history with stale := [] } : History).logged, r.WellFormed
    rw [hlogged]
    intro r hr
    cases hr
  · show (({ dir.history with stale := [] } : History).logged.map (·.sequence)).Pairwise (· < ·)
    rw [hlogged]
    exact Pairwise.nil
  · show [] = Record.file hs.toDigests macKey ({ dir.history with stale := [] } : History).logged ++ []
    rw [hlogged]
    rfl
  · intro r hr
    cases hr
  · show ∀ r ∈ ({ dir.history with stale := [] } : History).logged, r.sequence ∈ dir.history.written
    rw [hlogged]
    intro r hr
    cases hr

end Dir.Sound

end HypeLlm.Store
