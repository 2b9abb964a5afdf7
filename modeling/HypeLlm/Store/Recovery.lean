import HypeLlm.Store.Compaction

/-!
# Opening a sound directory

Opening replays the whole records of the log file, leaves out those that the snapshot covers and
chains the audit records of the others on from the snapshot's head.  In a sound directory that is the
chain of all durable records, and nothing breaks.

* `open_cases` — opening recovers exactly the records behind the snapshot, unless the tail of the log
  embeds a frame or cutting it off fails;
* **`sound_after`** — every node that a proper run reaches is sound.
-/

set_option linter.dupNamespace false

namespace HypeLlm.Store

open HypeLlm.Words HypeLlm.Runs List

variable {E : Type} {hs : Hashes} {codec : EventCodec E} {macKey : List UInt8}
  {snapshot : Option SnapshotState} {dir : Dir}

/-! ### The replay -/

/-- The bytes of the log file behind its whole records. -/
def Dir.tail (d : Digests) (macKey : List UInt8) (dir : Dir) : List UInt8 :=
  dir.log.drop (Record.file d macKey dir.history.logged).length

/-- The tail of the log file embeds a whole frame of a higher sequence. -/
def Dir.Embeds (d : Digests) (macKey : List UInt8) (dir : Dir) : Prop :=
  ∃ sequence, Record.Embeds d macKey (dir.tail d macKey) (Record.lastSequence dir.history.logged) sequence

theorem reached_start (d : Digests) (macKey : List UInt8) (rs : List Record) :
    Record.reached d macKey Progress.start rs =
      ⟨rs.map Record.frame, (Record.file d macKey rs).length, rs.getLast?.map (·.sequence)⟩ := by
  simp [Record.reached, Progress.start]

/-- **Replaying the log of a sound directory** gives its whole records, and a tail to cut off if
there is one; only a tail that embeds a frame is refused. -/
theorem replay_cases (h : dir.Sound hs codec macKey snapshot) (split : ℕ → ℕ)
    (hsize : dir.log.length ≤ maxLogBytes) :
    (∃ truncatedAt stopReason, replayRetaining split hs.toDigests macKey (fun _ => true) dir.log =
        .ok ⟨dir.history.logged.map Record.frame, truncatedAt, stopReason,
          (Record.file hs.toDigests macKey dir.history.logged).length⟩ ∧
        (truncatedAt.isSome = false →
          dir.log = Record.file hs.toDigests macKey dir.history.logged)) ∨
      dir.Embeds hs.toDigests macKey ∧
        ∃ e, replayRetaining split hs.toDigests macKey (fun _ => true) dir.log = .error e := by
  obtain ⟨rest, hlog, htorn⟩ := h.log
  have htail : dir.tail hs.toDigests macKey = rest := by
    rw [Dir.tail, hlog, drop_left]
  have hreplay : replayRetaining split hs.toDigests macKey (fun _ => true) dir.log =
      replayFrom hs.toDigests macKey (fun _ => true) ⟨dir.history.logged.map Record.frame,
        (Record.file hs.toDigests macKey dir.history.logged).length,
        dir.history.logged.getLast?.map (·.sequence)⟩ rest := by
    rw [replayRetaining_eq _ _ _ _ hsize, hlog, Record.replayFrom_file h.wellFormed _ h.sorted
      (fun _ hnone => by cases hnone), reached_start]
  rw [hreplay]
  by_cases hempty : rest = []
  · left
    rw [hempty, replayFrom_nil]
    refine ⟨none, none, rfl, fun _ => ?_⟩
    rw [hlog, hempty, append_nil]
  · obtain ⟨r, n, hwell, -, hn, rfl⟩ := htorn.resolve_left hempty
    rw [Record.replayFrom_cut hwell _ hn hempty]
    have hthreshold : Progress.threshold ⟨dir.history.logged.map Record.frame,
        (Record.file hs.toDigests macKey dir.history.logged).length,
        dir.history.logged.getLast?.map (·.sequence)⟩ = Record.lastSequence dir.history.logged := rfl
    rw [hthreshold]
    cases hsurviving : survivingSequenceAfter hs.toDigests macKey
        ((r.bytes hs.toDigests macKey).take n) (Record.lastSequence dir.history.logged) with
    | none => exact .inl ⟨_, _, rfl, fun hnone => by cases hnone⟩
    | some sequence =>
      refine .inr ⟨⟨sequence, ?_⟩, _, rfl⟩
      rw [htail]
      exact embeds_of_surviving hsurviving

/-! ### The chain -/

theorem rechain_other {f : Frame} (hkind : f.kind ≠ .auditEvent)
    (result : AuditChain × Option UInt64) (fs : List Frame) :
    Store.rechain hs codec result (f :: fs) = Store.rechain hs codec result fs := by
  obtain ⟨chain, brokenAt⟩ := result
  rw [Store.rechain, if_pos hkind]

theorem rechain_unreadable {f : Frame} (hkind : f.kind = .auditEvent)
    (hpayload : AuditRecord.fromPayload codec f.payload = none) (chain : AuditChain)
    (brokenAt : Option UInt64) (fs : List Frame) :
    Store.rechain hs codec (chain, brokenAt) (f :: fs) =
      Store.rechain hs codec (chain, brokenAt.or (some f.sequence)) fs := by
  rw [Store.rechain, if_neg (not_not.2 hkind), hpayload]

theorem rechain_record {f : Frame} (hkind : f.kind = .auditEvent) {record : AuditRecord E}
    (hpayload : AuditRecord.fromPayload codec f.payload = some record) (chain : AuditChain)
    (brokenAt : Option UInt64) (fs : List Frame) :
    Store.rechain hs codec (chain, brokenAt) (f :: fs) =
      Store.rechain hs codec (⟨record.link hs codec, satAdd u64Max chain.count 1⟩,
        if record.previousLink ≠ chain.head then brokenAt.or (some f.sequence) else brokenAt) fs := by
  rw [Store.rechain, if_neg (not_not.2 hkind), hpayload]

/-- **Chaining on records that follow** breaks nowhere and ends at their head. -/
theorem rechain_of_walk {rs : List Record} (hread : ∀ r ∈ rs, Readable codec r) {chain : AuditChain}
    {final : Link} (hwalk : walk hs codec chain.head (auditsOf codec rs) = some final)
    (hcount : chain.count + (auditsOf codec rs).length ≤ u64Max) :
    Store.rechain hs codec (chain, none) (rs.map Record.frame) =
      (⟨final, chain.count + (auditsOf codec rs).length⟩, none) := by
  induction rs generalizing chain with
  | nil =>
    obtain rfl := Option.some.inj hwalk
    rfl
  | cons r rs ih =>
    have hrest : ∀ x ∈ rs, Readable codec x := fun x hx => hread x (mem_cons_of_mem r hx)
    by_cases hkind : r.kind = .auditEvent
    · obtain ⟨record, hrecord⟩ := Option.isSome_iff_exists.1 (hread r mem_cons_self hkind)
      have hcons : auditsOf codec (r :: rs) = record :: auditsOf codec rs := by
        simp [auditsOf, hkind, hrecord]
      rw [hcons, length_cons] at hcount ⊢
      rw [hcons, walk, HashChain.walk] at hwalk
      split at hwalk
      · rename_i hnames
        have hstep : Store.rechain hs codec (chain, none) (r.frame :: rs.map Record.frame) = _ :=
          rechain_record hkind hrecord _ _ _
        have hsat : satAdd u64Max chain.count 1 = chain.count + 1 := satAdd_eq (by omega)
        have hnext : walk hs codec (⟨record.link hs codec, chain.count + 1⟩ : AuditChain).head
            (auditsOf codec rs) = some final := hwalk
        rw [map_cons, hstep, if_neg (not_not.2 hnames), hsat, ih hrest hnext (by dsimp only; omega)]
        congr 2
        dsimp only
        omega
      · cases hwalk
    · have hcons : auditsOf codec (r :: rs) = auditsOf codec rs := by
        simp [auditsOf, hkind]
      have hstep : Store.rechain hs codec (chain, none) (r.frame :: rs.map Record.frame) = _ :=
        rechain_other hkind _ _
      rw [hcons] at hwalk hcount ⊢
      rw [map_cons, hstep]
      exact ih hrest hwalk hcount

/-! ### Opening -/

theorem frames_behind (h : dir.Sound hs codec macKey snapshot) :
    (dir.history.logged.map Record.frame).filter (fun f => coveredSequence snapshot < f.sequence) =
      dir.history.behind.map Record.frame := by
  have hstale : (dir.history.stale.map Record.frame).filter
      (fun f => coveredSequence snapshot < f.sequence) = [] := by
    rw [filter_eq_nil_iff]
    intro f hf
    obtain ⟨r, hr, rfl⟩ := mem_map.1 hf
    have hle := h.stale_le r hr
    rw [UInt64.le_iff_toNat_le] at hle
    simpa [Record.frame, UInt64.lt_iff_toNat_lt] using hle
  have hbehind : (dir.history.behind.map Record.frame).filter
      (fun f => coveredSequence snapshot < f.sequence) = dir.history.behind.map Record.frame := by
    rw [filter_eq_self]
    intro f hf
    obtain ⟨r, hr, rfl⟩ := mem_map.1 hf
    exact decide_eq_true (h.behind_gt r hr)
  rw [History.logged, map_append, filter_append, hstale, hbehind, nil_append]

theorem toNat_maxRecovered (snapshot : Option SnapshotState) (rs : List Record) :
    (Store.maxRecovered snapshot (rs.map Record.frame)).toNat = recoveredSequence snapshot rs := by
  have hlast : ((rs.map Record.frame).getLast?.map (·.sequence)).getD 0 = Record.lastSequence rs := by
    rw [Record.lastSequence, getLast?_map, Option.map_map]
    rfl
  rw [Store.maxRecovered, toNat_max, hlast, recoveredSequence]

/-- What opening a sound directory gives. -/
structure Recovers (hs : Hashes) (codec : EventCodec E) (macKey : List UInt8) (dir : Dir)
    (snapshot : Option SnapshotState) (s : Store) (recovery : Recovery) : Prop where
  exact : s.Exact hs codec macKey snapshot
  chained : s.Chained hs codec
  history : s.history = dir.history.reopened
  snapshot_eq : recovery.snapshot = snapshot
  frames : recovery.frames = dir.history.behind.map Record.frame
  unbroken : recovery.auditChainBrokenAt = none

theorem recovered_recovers (h : dir.Sound hs codec macKey snapshot) (checkpointInterval : ℕ)
    {replay : Replay} (hframes : replay.frames = dir.history.logged.map Record.frame) {log : Log}
    (hfile : log.file = Record.file hs.toDigests macKey dir.history.logged)
    (hlen : log.len = log.file.length) :
    Recovers hs codec macKey dir snapshot
      (Store.recovered hs codec macKey checkpointInterval dir snapshot replay log).1
      (Store.recovered hs codec macKey checkpointInterval dir snapshot replay log).2 := by
  obtain ⟨head, hwalk⟩ := h.chained
  have hdurable : auditsOf codec dir.history.durable =
      auditsOf codec dir.history.covered ++ auditsOf codec dir.history.behind := auditsOf_append _ _
  have hbehind : dir.history.reopened.behind = dir.history.behind := append_nil _
  have hlogged : dir.history.reopened.logged = dir.history.logged := by
    rw [History.logged, hbehind]
    rfl
  have hkept := frames_behind h
  rw [← hframes] at hkept
  have hchain : Store.rechain hs codec (coveredChain snapshot, none)
      (dir.history.behind.map Record.frame) =
      (⟨head, (coveredChain snapshot).count + (auditsOf codec dir.history.behind).length⟩, none) := by
    refine rechain_of_walk h.readable ?_ ?_
    · rw [← walk_append_of_eq h.coveredHead, ← hdurable]
      exact hwalk
    · have hle := h.count_le
      rw [hdurable, length_append, h.coveredCount] at hle
      refine hle.trans ?_
      have hlt := (Store.maxRecovered snapshot (dir.history.behind.map Record.frame)).toNat_lt
      rw [toNat_maxRecovered] at hlt
      unfold u64Max
      omega
  have hresult : Store.recovered hs codec macKey checkpointInterval dir snapshot replay log =
      ({ snapshotFile := dir.snapshot
         log := log
         sequence := Store.maxRecovered snapshot (dir.history.behind.map Record.frame)
         macKey := macKey
         audit := ⟨head, (coveredChain snapshot).count + (auditsOf codec dir.history.behind).length⟩
         auditSinceCheckpoint := 0
         checkpointInterval := checkpointInterval
         snapshotSequence := coveredSequence snapshot
         history := dir.history.reopened },
        ⟨snapshot, dir.history.behind.map Record.frame, replay.truncatedAt.isSome, none,
          replay.stopReason⟩) := by
    simp only [Store.recovered, hkept, hchain]
  rw [hresult]
  refine ⟨⟨?_, rfl, ?_, fun _ => ⟨rfl, ?_, hlen⟩⟩, ⟨?_, ?_⟩, rfl, rfl, rfl, rfl⟩
  · show Dir.Sound hs codec macKey ⟨dir.snapshot, log.file, dir.history.reopened⟩ snapshot
    rw [hfile, ← append_nil (Record.file _ _ _)]
    exact h.recast (rfl : dir.history.reopened.taken = _) rfl rfl hbehind rfl (.inl rfl)
  · show recoveredSequence snapshot dir.history.reopened.behind ≤ UInt64.toNat (Store.maxRecovered _ _)
    rw [hbehind, toNat_maxRecovered]
  · show log.file = Record.file hs.toDigests macKey dir.history.reopened.logged
    rw [hlogged]
    exact hfile
  · exact hwalk
  · show (auditsOf codec dir.history.durable).length = _
    rw [hdurable, length_append, h.coveredCount]

/-- Every call that cuts the file succeeds. -/
def CutIo.Fine (io : CutIo) : Prop := io.setLen = true ∧ io.syncAll = true ∧ io.seek = true

/-- **Opening a sound directory recovers it**, or leaves it sound.  It is refused only when the log is
too large, when its tail embeds a frame, or when the tail cannot be cut off. -/
theorem open_cases (h : dir.Sound hs codec macKey snapshot) (split : ℕ → ℕ) (checkpointInterval : ℕ)
    (io : CutIo) :
    (∃ s recovery, Store.open_ hs codec split macKey checkpointInterval dir io = .ok (s, recovery) ∧
        Recovers hs codec macKey dir snapshot s recovery) ∨
      (∃ e dir', Store.open_ hs codec split macKey checkpointInterval dir io = .error (e, dir') ∧
        dir'.Sound hs codec macKey snapshot ∧
        (maxLogBytes < dir.log.length ∨ dir.Embeds hs.toDigests macKey ∨ ¬ io.Fine)) := by
  rw [Store.open_, h.reads]
  dsimp only [Log.open_]
  by_cases hsize : dir.log.length ≤ maxLogBytes
  · rcases replay_cases h split hsize with ⟨truncatedAt, stopReason, hreplay, hwhole⟩ | ⟨hembeds, e, hreplay⟩
    · rw [hreplay]
      dsimp only
      have hcut : setLen dir.log (Record.file hs.toDigests macKey dir.history.logged).length =
          Record.file hs.toDigests macKey dir.history.logged := by
        obtain ⟨rest, hlog, -⟩ := h.log
        rw [hlog, setLen_append]
      cases htruncated : truncatedAt.isSome with
      | false =>
        left
        exact ⟨_, _, rfl, recovered_recovers h checkpointInterval rfl (hwhole htruncated) rfl⟩
      | true =>
        rw [if_pos rfl]
        rcases Log.truncate_cases ⟨dir.log, true, dir.log.length, false⟩
          (Record.file hs.toDigests macKey dir.history.logged).length io with
          ⟨hset, hfailed⟩ | hdone | ⟨-, hsync, hfailed⟩
        · rw [hfailed]
          refine .inr ⟨_, _, rfl, h, .inr (.inr fun hfine => ?_)⟩
          rw [hfine.1] at hset
          cases hset
        · rw [hdone]
          left
          refine ⟨_, _, rfl, recovered_recovers h checkpointInterval rfl hcut ?_⟩
          show (Record.file hs.toDigests macKey dir.history.logged).length = (setLen _ _).length
          rw [hcut]
        · rw [hfailed]
          refine .inr ⟨_, _, rfl, ?_, .inr (.inr fun hfine => ?_)⟩
          · show Dir.Sound hs codec macKey ⟨dir.snapshot, setLen dir.log _, dir.history⟩ snapshot
            rw [hcut, ← append_nil (Record.file _ _ _)]
            exact h.recast rfl rfl rfl rfl rfl (.inl rfl)
          · rcases hsync with hsync | hsync
            · rw [hfine.2.1] at hsync
              cases hsync
            · rw [hfine.2.2] at hsync
              cases hsync
    · rw [hreplay]
      exact .inr ⟨_, _, rfl, h, .inr (.inl hembeds)⟩
  · have hlarge := not_le.1 hsize
    rw [replayRetaining, if_pos hlarge]
    exact .inr ⟨_, _, rfl, h, .inl hlarge⟩

/-- Opening a log of whole records, whoever wrote them. -/
theorem open_of_file {rs : List Record} (hrs : ∀ r ∈ rs, r.WellFormed)
    (hsorted : (rs.map (·.sequence)).Pairwise (· < ·)) (dir : Dir)
    (hreads : readSnapshot hs macKey dir.snapshot = .ok snapshot)
    (hlog : dir.log = Record.file hs.toDigests macKey rs) (hsize : dir.log.length ≤ maxLogBytes)
    (split : ℕ → ℕ) (checkpointInterval : ℕ) (io : CutIo) :
    Store.open_ hs codec split macKey checkpointInterval dir io =
      .ok (Store.recovered hs codec macKey checkpointInterval dir snapshot
        ⟨rs.map Record.frame, none, none, dir.log.length⟩ (Log.open_ dir.log true)) := by
  have hreplay : replayRetaining split hs.toDigests macKey (fun _ => true) dir.log =
      .ok ⟨rs.map Record.frame, none, none, dir.log.length⟩ := by
    rw [replayRetaining_eq _ _ _ _ hsize, hlog, ← append_nil (Record.file _ _ rs),
      Record.replayFrom_file hrs _ hsorted (fun _ hnone => by cases hnone), reached_start,
      replayFrom_nil, append_nil]
    rfl
  have hfile : (Log.open_ dir.log true).file = dir.log := rfl
  rw [Store.open_, hreads]
  dsimp only
  rw [hfile, hreplay]
  rfl

/-! ### Runs -/

/-- What a run has to see to at a step: its operations are proper, and no compaction goes on after a
reset that failed half-way.  A process may die in one. -/
def Node.Proper (codec : EventCodec E) : Node → StoreEvent E → Prop
  | .up s, .op o => o.Proper codec ∧ s.CleanReset o
  | .up _, .die (some o) => o.Proper codec
  | _, _ => True

theorem sound_init : Node.init.Sound hs codec macKey := by
  refine ⟨none, rfl, rfl, ?_, Pairwise.nil, ⟨[], rfl, .inl rfl⟩, ?_, ?_, ?_, rfl, rfl, ⟨genesis, rfl⟩,
    Nat.zero_le _, ?_, ?_, Pairwise.nil⟩
  all_goals
    intro x hx
    cases hx

/-- **A step keeps the node sound.** -/
theorem sound_step (split : ℕ → ℕ) (node : Node) (event : StoreEvent E)
    (h : node.Sound hs codec macKey) (hproper : node.Proper codec event) :
    (node.step hs codec split macKey event).Sound hs codec macKey := by
  cases node with
  | up s =>
    obtain ⟨snapshot, hx, hc⟩ := h
    cases event with
    | op o => exact Store.apply_sound hx hc hproper.1 hproper.2
    | die during =>
      cases during with
      | none => exact ⟨snapshot, hx.dir⟩
      | some o => exact Store.apply_dir hx hc hproper
    | open_ checkpointInterval io => exact ⟨snapshot, hx, hc⟩
  | down dir =>
    obtain ⟨snapshot, hdir⟩ := h
    cases event with
    | op o => exact ⟨snapshot, hdir⟩
    | die during => cases during <;> exact ⟨snapshot, hdir⟩
    | open_ checkpointInterval io =>
      rw [Node.step]
      rcases open_cases hdir split checkpointInterval io with
        ⟨s, recovery, hopen, hrecovers⟩ | ⟨e, dir', hopen, hdir', -⟩
      · rw [hopen]
        exact ⟨snapshot, hrecovers.exact, hrecovers.chained⟩
      · rw [hopen]
        exact ⟨snapshot, hdir'⟩

theorem sound_after (hs : Hashes) (codec : EventCodec E) (macKey : List UInt8) (split : ℕ → ℕ)
    {events : List (StoreEvent E)}
    (hproper : StepsMeet (Node.step hs codec split macKey) (Node.Proper codec) Node.init events) :
    (run (Node.step hs codec split macKey) Node.init events).Sound hs codec macKey :=
  run_invariant_of_steps (sound_step split) sound_init events hproper

end HypeLlm.Store
