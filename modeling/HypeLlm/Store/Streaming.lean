import HypeLlm.Store.Window

/-!
# Streaming replay equals buffered replay

The argument is about the stream: the bytes in the window and those its source has still to give.
Reading and growing keep it, consuming drops from its front, and a decided answer on the window is
the answer on the stream.  When a refill brings nothing the source has ended, for a window as large
as the largest frame is never undecided.

* `scanForward_eq` — the forward scan finds the survivor of the stream;
* **`streaming_replay_eq_buffered`** — whatever the reader does, the streaming replay is the
  whole-file reference, with the frames that the caller's predicate accepts.
-/

namespace HypeLlm.Store

open List

variable (split : ℕ → ℕ)

/-! ### The window and the stream behind it -/

namespace Window

/-- Everything from the front of the window on. -/
def stream (w : Window) : List UInt8 := w.available ++ w.source

/-- What every window of a replay satisfies: the buffer holds its bytes, an exhausted source is
empty, and what was read and what is to come are within the limit. -/
structure Sound (w : Window) : Prop where
  room : w.start + w.available.length ≤ w.capacity
  start_of_empty : w.available = [] → w.start = 0
  capacity_ge : windowStartBytes ≤ w.capacity
  capacity_le : w.capacity ≤ maxFrameBytes
  source_of_exhausted : w.exhausted = true → w.source = []
  within : w.totalRead + w.source.length ≤ maxLogBytes
  overLimit : w.overLimit = false

theorem sound_new {bytes : List UInt8} (h : bytes.length ≤ maxLogBytes) : (new bytes).Sound where
  room := by simp [new]
  start_of_empty _ := rfl
  capacity_ge := le_rfl
  capacity_le := by
    show windowStartBytes ≤ maxFrameBytes
    decide
  source_of_exhausted h := by cases h
  within := by simpa [new] using h
  overLimit := rfl

variable {split} {w : Window}

theorem Sound.consume (h : w.Sound) (count : ℕ) : (w.consume count).Sound := by
  refine { h with room := ?_, start_of_empty := ?_ }
  · have hroom := h.room
    simp only [Window.consume]
    split
    · rename_i hempty
      rw [hempty]
      simp
    · rename_i hne
      have hlt : 0 < (w.available.drop count).length := length_pos_of_ne_nil hne
      rw [length_drop] at hlt ⊢
      omega
  · intro hempty
    simp only [Window.consume] at hempty ⊢
    rw [if_pos hempty]

theorem stream_consume {count : ℕ} (h : count ≤ w.available.length) :
    (w.consume count).stream = w.stream.drop count := by
  simp only [stream, Window.consume, drop_append_of_le_length h]

theorem Sound.roomy (h : w.Sound) (hgrow : w.available.length = w.capacity →
    w.capacity < maxFrameBytes) :
    w.roomy.Sound ∧ w.roomy.stream = w.stream ∧ w.roomy.available = w.available ∧
      w.roomy.available.length < w.roomy.capacity := by
  have hroom := h.room
  have hge := h.capacity_ge
  unfold Window.roomy
  dsimp only
  split
  · rename_i hfull
    have hlt := hgrow hfull
    have hbig : w.capacity < min (w.capacity * 2) maxFrameBytes := by
      unfold windowStartBytes at hge
      omega
    refine ⟨{ h with
      room := ?_, start_of_empty := fun _ => rfl, capacity_ge := ?_, capacity_le := ?_ }, rfl, rfl, ?_⟩
    · simp only [grow]
      omega
    · simp only [grow]
      omega
    · exact min_le_right _ _
    · simp only [grow]
      omega
  · rename_i hspace
    refine ⟨{ h with room := ?_, start_of_empty := fun _ => rfl }, rfl, rfl, ?_⟩
    · dsimp only
      omega
    · dsimp only
      omega

theorem stream_fed (w : Window) : (w.fed split).stream = w.stream := by
  simp only [stream, fed, append_assoc, take_append_drop]

theorem Sound.read (h : w.Sound) (split : ℕ → ℕ) (hspace : w.available.length < w.capacity)
    (hstart : w.start = 0) :
    (w.read split).2.Sound ∧ (w.read split).2.stream = w.stream ∧
      ((w.read split).1 = false →
        (w.read split).2.available = w.available ∧ (w.read split).2.exhausted = true) := by
  by_cases hread : w.nextRead split = 0
  · rw [read_eq_zero split hread]
    have hempty : w.source = [] := by
      rw [← length_eq_zero_iff]
      unfold nextRead at hread
      omega
    exact ⟨{ h with source_of_exhausted := fun _ => hempty }, rfl, fun _ => ⟨rfl, rfl⟩⟩
  · rw [read_pos split hread]
    have hle : w.nextRead split ≤ w.source.length ∧
        w.nextRead split ≤ w.capacity - w.available.length := by
      unfold nextRead
      omega
    have hwithin := h.within
    have htotal : ¬ maxLogBytes < (w.fed split).totalRead := by
      simp only [fed]
      omega
    rw [if_neg htotal]
    refine ⟨{ h with room := ?_, start_of_empty := ?_, source_of_exhausted := ?_, within := ?_ },
      stream_fed w, fun hfalse => by cases hfalse⟩
    · simp only [fed, length_append, length_take, hstart]
      omega
    · intro _
      exact hstart
    · intro hexhausted
      have hempty := h.source_of_exhausted hexhausted
      simp [fed, hempty]
    · simp only [fed, length_drop]
      omega

/-- **A refill keeps the stream**; when it brings nothing, the source has ended or the window holds
as much as the largest frame. -/
theorem Sound.refill (h : w.Sound) (split : ℕ → ℕ) :
    (w.refill split).2.Sound ∧ (w.refill split).2.stream = w.stream ∧
      ((w.refill split).1 = false → (w.refill split).2.available = w.available ∧
        ((w.refill split).2.exhausted = true ∨ maxFrameBytes ≤ w.available.length)) := by
  rcases refill_cases split w with ⟨hexhausted, heq⟩ | ⟨-, hfull, hmax, heq⟩ | ⟨-, hgrow, heq⟩
  · rw [heq]
    exact ⟨h, rfl, fun _ => ⟨rfl, .inl hexhausted⟩⟩
  · rw [heq]
    have hroom := h.room
    refine ⟨{ h with room := ?_, start_of_empty := fun _ => rfl }, rfl, fun _ => ⟨rfl, .inr ?_⟩⟩
    · dsimp only
      omega
    · omega
  · rw [heq]
    obtain ⟨hsound, hstream, havailable, hspace⟩ := h.roomy hgrow
    have hstart : w.roomy.start = 0 := by
      unfold Window.roomy
      dsimp only
      split <;> rfl
    obtain ⟨hsound', hstream', hend⟩ := hsound.read split hspace hstart
    refine ⟨hsound', hstream'.trans hstream, fun hfalse => ?_⟩
    obtain ⟨hsame, hexhausted⟩ := hend hfalse
    exact ⟨hsame.trans havailable, .inl hexhausted⟩

/-- Filling keeps the stream, and leaves a window that is full to the end of its buffer or whose
source has ended. -/
theorem Sound.fill (h : w.Sound) (split : ℕ → ℕ) :
    (w.fill split).Sound ∧ (w.fill split).stream = w.stream ∧
      ((w.fill split).exhausted = true ∨
        (w.fill split).capacity ≤ (w.fill split).start + (w.fill split).available.length) := by
  fun_induction Window.fill split w with
  | case1 w hroom w' hrefill ih =>
    obtain ⟨hsound, hstream, -⟩ := h.refill split
    rw [hrefill] at hsound hstream
    obtain ⟨hsound', hstream', hend⟩ := ih hsound
    exact ⟨hsound', hstream'.trans hstream, hend⟩
  | case2 w hroom w' hrefill =>
    obtain ⟨hsound, hstream, hend⟩ := h.refill split
    rw [hrefill] at hsound hstream hend
    obtain ⟨havailable, hexhausted | hmax⟩ := hend rfl
    · exact ⟨hsound, hstream, .inl hexhausted⟩
    · have hle := h.capacity_le
      omega
  | case3 w hroom =>
    refine ⟨h, rfl, ?_⟩
    rcases not_and_or.1 hroom with hfull | hend
    · exact .inr (not_lt.1 hfull)
    · exact .inl (by simpa using hend)

theorem fill_of_exhausted (h : w.exhausted = true) : w.fill split = w := by
  rw [Window.fill, if_neg]
  simp [h]

end Window

/-! ### The scan and the stream -/

section Scan

variable {d : Digests} {macKey : List UInt8} {threshold : UInt64}

theorem isPrefixOf_append {buf : List UInt8} (rest : List UInt8) (h : magic.length ≤ buf.length) :
    magic.isPrefixOf (buf ++ rest) = magic.isPrefixOf buf := by
  rw [Bool.eq_iff_iff, isPrefixOf_iff_prefix, isPrefixOf_iff_prefix]
  constructor
  · intro hmagic
    exact prefix_of_prefix_length_le hmagic (prefix_append buf rest) h
  · intro hmagic
    exact hmagic.trans (prefix_append buf rest)

/-- Fewer bytes than the magic are never a candidate. -/
theorem isPrefixOf_short {buf : List UInt8} (h : buf.length < magic.length) :
    magic.isPrefixOf buf = false := by
  rw [Bool.eq_false_iff]
  intro hmagic
  have hle := ( isPrefixOf_iff_prefix.1 hmagic).length_le
  omega

theorem survivingAt_of_not_isPrefixOf {buf : List UInt8} (h : magic.isPrefixOf buf = false) :
    survivingAt d macKey threshold buf = none := by
  simp [survivingAt, h]

/-- A candidate that is decided keeps its verdict. -/
theorem survivingAt_append {buf : List UInt8} (rest : List UInt8)
    (h : decode d buf macKey ≠ .error .incomplete) :
    survivingAt d macKey threshold (buf ++ rest) = survivingAt d macKey threshold buf := by
  have hlen : magic.length ≤ buf.length := by
    have hnot := mt (decode_incomplete_iff d).2 h
    rw [not_or] at hnot
    have hheader : headerLen ≤ buf.length := not_lt.1 hnot.1
    exact le_trans (by decide) hheader
  rw [survivingAt, survivingAt, isPrefixOf_append rest hlen, decode_append d rest h]

theorem survivor_cons_of_none {b : UInt8} {bs : List UInt8}
    (h : survivingAt d macKey threshold (b :: bs) = none) :
    survivor d macKey threshold (b :: bs) = survivor d macKey threshold bs := by
  rw [survivor, h, Option.none_or]

theorem survivor_cons_of_some {b : UInt8} {bs : List UInt8} {sequence : UInt64}
    (h : survivingAt d macKey threshold (b :: bs) = some sequence) :
    survivor d macKey threshold (b :: bs) = some sequence := by
  rw [survivor, h, Option.some_or]

/-- What a scan of an exhausted window comes to is the survivor of its bytes. -/
theorem scan_exhausted (buf : List UInt8) :
    scan d macKey threshold true buf =
      (survivor d macKey threshold buf).elim .clear .found := by
  induction buf with
  | nil => rfl
  | cons b bs ih =>
    have hlater : ((survivor d macKey threshold bs).elim ScanResult.clear .found).later =
        (survivor d macKey threshold bs).elim .clear .found := by
      cases survivor d macKey threshold bs <;> rfl
    rw [scan, ih, hlater]
    cases hmagic : magic.isPrefixOf (b :: bs) with
    | false =>
      rw [survivor_cons_of_none (survivingAt_of_not_isPrefixOf hmagic)]
      rfl
    | true =>
      simp only [Bool.not_true, Bool.false_eq_true, if_false, if_true, survivor, survivingAt, hmagic]
      cases hdecode : decode d (b :: bs) macKey with
      | ok decoded =>
        dsimp only
        split <;> simp
      | error e => cases e <;> simp

/-- What the result of scanning an open window says about any bytes that may follow: a find is the
survivor, an undecided candidate has only rejected bytes before it, and after a scan without either
only the last bytes, too few for the magic, have still to be judged. -/
def Scanned (d : Digests) (macKey : List UInt8) (threshold : UInt64) (buf rest : List UInt8) :
    ScanResult → Prop
  | .found sequence => survivor d macKey threshold (buf ++ rest) = some sequence
  | .undecided n => n < buf.length ∧ decode d (buf.drop n) macKey = .error .incomplete ∧
      survivor d macKey threshold (buf ++ rest) = survivor d macKey threshold (buf.drop n ++ rest)
  | .clear => survivor d macKey threshold (buf ++ rest) =
      survivor d macKey threshold (buf.drop (buf.length - (magic.length - 1)) ++ rest)

/-- A rejected first byte leaves the result of the scan behind it. -/
theorem scanned_later {b : UInt8} {bs rest : List UInt8} {r : ScanResult}
    (hlong : magic.length ≤ (b :: bs).length)
    (hnone : survivingAt d macKey threshold (b :: bs ++ rest) = none)
    (h : Scanned d macKey threshold bs rest r) :
    Scanned d macKey threshold (b :: bs) rest r.later := by
  rw [cons_append] at hnone
  have hsurvivor := survivor_cons_of_none hnone
  cases r with
  | found sequence => exact hsurvivor.trans h
  | undecided n =>
    obtain ⟨hn, hincomplete, hrest⟩ := h
    exact ⟨Nat.succ_lt_succ hn, hincomplete, hsurvivor.trans hrest⟩
  | clear =>
    have hmagicLen : magic.length = 4 := rfl
    have hsucc : (b :: bs).length - (magic.length - 1) = bs.length - (magic.length - 1) + 1 := by
      rw [length_cons] at hlong ⊢
      omega
    show survivor d macKey threshold (b :: (bs ++ rest)) = _
    rw [hsucc, drop_succ_cons, hsurvivor]
    exact h

/-- A window too short for the magic is clear. -/
theorem scan_short (exhausted : Bool) {buf : List UInt8} (h : buf.length < magic.length) :
    scan d macKey threshold exhausted buf = .clear := by
  induction buf with
  | nil => rfl
  | cons b bs ih =>
    rw [length_cons] at h
    rw [scan, isPrefixOf_short (by rw [length_cons]; omega), ih (by omega)]
    rfl

theorem scan_open (rest buf : List UInt8) :
    Scanned d macKey threshold buf rest (scan d macKey threshold false buf) := by
  induction buf with
  | nil => rfl
  | cons b bs ih =>
    by_cases hshort : (b :: bs).length < magic.length
    · have hmagicLen : magic.length = 4 := rfl
      have hzero : (b :: bs).length - (magic.length - 1) = 0 := by omega
      rw [scan_short false hshort, Scanned, hzero, drop_zero]
    have hlong := not_lt.1 hshort
    rw [scan]
    cases hmagic : magic.isPrefixOf (b :: bs) with
    | false =>
      refine scanned_later hlong (survivingAt_of_not_isPrefixOf ?_) ih
      rw [isPrefixOf_append rest hlong, hmagic]
    | true =>
      rw [if_neg (by simp)]
      -- A decided candidate keeps its verdict, whatever follows.
      have hkeep : decode d (b :: bs) macKey ≠ .error .incomplete →
          survivingAt d macKey threshold (b :: bs ++ rest) =
            survivingAt d macKey threshold (b :: bs) := survivingAt_append rest
      cases hdecode : decode d (b :: bs) macKey with
      | ok decoded =>
        have hhere : survivingAt d macKey threshold (b :: bs) =
            if threshold < decoded.frame.sequence then some decoded.frame.sequence else none := by
          rw [survivingAt, hmagic, hdecode]
          exact if_neg (by simp)
        rw [hdecode] at hkeep
        have hverdict := (hkeep (by simp)).trans hhere
        dsimp only at hverdict ⊢
        by_cases hhigher : threshold < decoded.frame.sequence
        · rw [if_pos hhigher] at hverdict ⊢
          exact survivor_cons_of_some hverdict
        · rw [if_neg hhigher] at hverdict ⊢
          exact scanned_later hlong hverdict ih
      | error e =>
        have hhere : survivingAt d macKey threshold (b :: bs) = none := by
          rw [survivingAt, hmagic, hdecode]
          exact if_neg (by simp)
        rw [hdecode] at hkeep
        by_cases hincomplete : e = .incomplete
        · subst hincomplete
          exact ⟨by simp, hdecode, rfl⟩
        · have hverdict := (hkeep (by simpa using hincomplete)).trans hhere
          cases e with
          | incomplete => exact absurd rfl hincomplete
          | _ => exact scanned_later hlong hverdict ih

/-- Where nothing survives, nothing survives further on. -/
theorem survivor_drop {buf : List UInt8} (h : survivor d macKey threshold buf = none) (n : ℕ) :
    survivor d macKey threshold (buf.drop n) = none := by
  induction n generalizing buf with
  | zero => exact h
  | succ n ih =>
    cases buf with
    | nil => rfl
    | cons b bs =>
      rw [survivor, Option.or_eq_none_iff] at h
      exact ih h.2

/-! ### The forward scan -/

variable {split} {w : Window}

/-- The last pass, over a window whose source has ended. -/
theorem scanForward_final (hsound : w.Sound) (hexhausted : w.exhausted = true) :
    scanForward split d macKey threshold true w = (survivor d macKey threshold w.stream, w) := by
  have hstream : w.stream = w.available := by
    rw [Window.stream, hsound.source_of_exhausted hexhausted, append_nil]
  rw [scanForward, Window.fill_of_exhausted hexhausted, hstream]
  by_cases hempty : w.available = []
  · rw [if_pos hempty, hempty]
    rfl
  · rw [if_neg hempty, hexhausted, scan_exhausted]
    cases survivor d macKey threshold w.available <;> rfl

/-- The window after a scan that found nothing, with what was judged dropped from its front. -/
theorem scanForward_next {r : ScanResult} (hsound : w.Sound)
    (hscanned : Scanned d macKey threshold w.available w.source r)
    (hnot : ∀ sequence, r ≠ .found sequence) :
    let dropped := w.consume (r.skip w.available)
    dropped.Sound ∧
      survivor d macKey threshold w.stream = survivor d macKey threshold dropped.stream ∧
      dropped.available.length < maxFrameBytes := by
  intro dropped
  refine ⟨hsound.consume _, ?_⟩
  cases r with
  | found sequence => exact absurd rfl (hnot sequence)
  | undecided n =>
    obtain ⟨-, hincomplete, hsurvivor⟩ := hscanned
    refine ⟨hsurvivor, ?_⟩
    by_contra hlarge
    exact decode_of_maxFrameBytes d macKey (not_lt.1 hlarge) hincomplete
  | clear =>
    refine ⟨hscanned, ?_⟩
    have hmagicLen : magic.length = 4 := rfl
    have hmax : 4 < maxFrameBytes := by decide
    simp only [dropped, ScanResult.skip, Window.consume, length_drop]
    omega

/-- A pass that found nothing is followed by another, the last one if nothing more arrives. -/
theorem scanForward_step {filled next : Window} {r : ScanResult} {more : Bool}
    (hfill : w.fill split = filled) (hne : filled.available ≠ [])
    (hscan : scan d macKey threshold filled.exhausted filled.available = r)
    (hnot : ∀ sequence, r ≠ .found sequence)
    (hrefill : (filled.consume (r.skip filled.available)).refill split = (more, next)) :
    scanForward split d macKey threshold false w =
      scanForward split d macKey threshold (!more) next := by
  rw [scanForward, hfill, if_neg hne, hscan]
  cases r with
  | found sequence => exact absurd rfl (hnot sequence)
  | undecided n =>
    dsimp only
    rw [if_neg (by simp)]
    split
    · rename_i h
      rw [hrefill] at h
      cases h
      rfl
    · rename_i h
      rw [hrefill] at h
      cases h
      rfl
  | clear =>
    dsimp only
    rw [if_neg (by simp)]
    split
    · rename_i h
      rw [hrefill] at h
      cases h
      rfl
    · rename_i h
      rw [hrefill] at h
      cases h
      rfl

/-- **The forward scan finds the survivor of the stream.** -/
theorem scanForward_eq (split : ℕ → ℕ) (d : Digests) (macKey : List UInt8) (threshold : UInt64)
    {w : Window} (hsound : w.Sound) :
    (scanForward split d macKey threshold false w).1 = survivor d macKey threshold w.stream ∧
      (scanForward split d macKey threshold false w).2.overLimit = false := by
  induction hn : w.source.length using Nat.strong_induction_on generalizing w with
  | _ n ih =>
    obtain ⟨hfilled, hstream, hfull⟩ := hsound.fill split
    have hle := w.fill_source_le split
    rw [← hstream]
    generalize hfill : w.fill split = filled at hfilled hstream hfull hle
    by_cases hempty : filled.available = []
    · -- Only a source that has ended leaves an empty window.
      have hexhausted : filled.exhausted = true := by
        refine hfull.resolve_right fun hcapacity => ?_
        have hge := hfilled.capacity_ge
        rw [hfilled.start_of_empty hempty, hempty] at hcapacity
        unfold windowStartBytes at hge
        simp only [length_nil] at hcapacity
        omega
      rw [scanForward, hfill, if_pos hempty, Window.stream, hempty,
        hfilled.source_of_exhausted hexhausted]
      exact ⟨rfl, hfilled.overLimit⟩
    have hscanned : Scanned d macKey threshold filled.available filled.source
        (scan d macKey threshold filled.exhausted filled.available) := by
      cases hexhausted : filled.exhausted with
      | false => exact scan_open filled.source filled.available
      | true =>
        have hsource := hfilled.source_of_exhausted hexhausted
        rw [scan_exhausted, hsource]
        cases hsurvivor : survivor d macKey threshold filled.available with
        | some sequence =>
          show survivor d macKey threshold (filled.available ++ []) = some sequence
          rw [append_nil, hsurvivor]
        | none =>
          show survivor d macKey threshold (filled.available ++ []) = _
          rw [append_nil, append_nil, hsurvivor, survivor_drop hsurvivor]
    generalize hscan : scan d macKey threshold filled.exhausted filled.available = r at hscanned
    by_cases hfound : ∃ sequence, r = .found sequence
    · obtain ⟨sequence, rfl⟩ := hfound
      rw [scanForward, hfill, if_neg hempty, hscan]
      exact ⟨hscanned.symm, hfilled.overLimit⟩
    have hnot : ∀ sequence, r ≠ .found sequence := fun sequence h => hfound ⟨sequence, h⟩
    obtain ⟨hdropped, hsurvivor, hsmall⟩ := scanForward_next hfilled hscanned hnot
    obtain ⟨hnextSound, hnextStream, hend⟩ := hdropped.refill split
    have hsource := (filled.consume (r.skip filled.available)).refill_source split
    cases hrefill : (filled.consume (r.skip filled.available)).refill split with
    | mk more next =>
      rw [hrefill] at hnextSound hnextStream hend hsource
      rw [hsurvivor, ← hnextStream, scanForward_step hfill hempty hscan hnot hrefill]
      cases more with
      | true =>
        have hdrop : next.source.length < filled.source.length := hsource.1 rfl
        exact ih _ (by omega) hnextSound rfl
      | false =>
        have hexhausted : next.exhausted = true := by
          obtain ⟨-, hexhausted | hlarge⟩ := hend rfl
          · exact hexhausted
          · omega
        rw [Bool.not_false, scanForward_final hnextSound hexhausted]
        exact ⟨rfl, hnextSound.overLimit⟩

/-! ### The replay -/

theorem stopStreaming_eq {p : Progress} {e : FrameError} (hsound : w.Sound)
    (hne : w.available ≠ []) :
    stopStreaming split d macKey p e w = match p.refusal e with
      | some refused => .error refused
      | none => p.stop e (survivingSequenceAfter d macKey w.stream p.threshold) := by
  rw [stopStreaming]
  cases p.refusal e with
  | some refused => rfl
  | none =>
    have hpos : 1 ≤ w.available.length := length_pos_of_ne_nil hne
    obtain ⟨hsurviving, hlimit⟩ := scanForward_eq split d macKey p.threshold (hsound.consume 1)
    rw [Window.stream_consume hpos] at hsurviving
    rw [survivingSequenceAfter, ← hsurviving]
    dsimp only [survivingSequenceStreaming]
    generalize scanForward split d macKey p.threshold false (w.consume 1) = result at hlimit ⊢
    cases hstop : p.stop e result.1 with
    | error damage => rfl
    | ok r =>
      dsimp only
      rw [Window.report, hlimit]
      rfl

/-- **The replay of a window is the replay of its stream.** -/
theorem replayWindow_eq (retain : Frame → Bool) (p : Progress) (hsound : w.Sound) :
    replayWindow split d macKey retain p w = replayFrom d macKey retain p w.stream := by
  fun_induction replayWindow split d macKey retain p w with
  | case1 p w decoded hdecode e haccept =>
    have hwhole := decode_append d w.source (by rw [hdecode]; simp : decode d w.available macKey ≠ .error .incomplete)
    rw [hdecode] at hwhole
    rw [Window.stream, replayFrom_ok hwhole, haccept]
  | case2 p w decoded hdecode p' haccept ih =>
    have hwhole := decode_append d w.source (by rw [hdecode]; simp : decode d w.available macKey ≠ .error .incomplete)
    rw [hdecode] at hwhole
    have hlength := (decode_length d hdecode).2
    rw [ih (hsound.consume _), Window.stream_consume hlength, Window.stream, replayFrom_ok hwhole,
      haccept]
  | case3 p w hdecode w' hrefill ih =>
    obtain ⟨hsound', hstream, -⟩ := hsound.refill split
    rw [hrefill] at hsound' hstream
    rw [ih hsound', hstream]
  | case4 p w hdecode w' hrefill hempty =>
    obtain ⟨hsound', hstream, hend⟩ := hsound.refill split
    rw [hrefill] at hsound' hstream hend
    obtain ⟨havailable, hended⟩ := hend rfl
    have hexhausted : w'.exhausted = true := by
      refine hended.resolve_right fun hlarge => ?_
      rw [← havailable] at hlarge
      rw [hempty] at hlarge
      exact absurd hlarge (by decide)
    have hnil : w.stream = [] := by
      rw [← hstream, Window.stream, hempty, hsound'.source_of_exhausted hexhausted, append_nil]
    rw [hnil, replayFrom_nil, Window.report, hsound'.overLimit]
    rfl
  | case5 p w hdecode w' hrefill hne =>
    obtain ⟨hsound', hstream, hend⟩ := hsound.refill split
    rw [hrefill] at hsound' hstream hend
    obtain ⟨havailable, hended⟩ := hend rfl
    -- A window as large as the largest frame is never undecided.
    have hexhausted : w'.exhausted = true := by
      refine hended.resolve_right fun hlarge => ?_
      exact decode_of_maxFrameBytes d macKey hlarge hdecode
    have hwhole : w'.stream = w.available := by
      rw [Window.stream, hsound'.source_of_exhausted hexhausted, append_nil]
      exact havailable
    have hne' : w.available ≠ [] := fun h => hne (havailable.trans h)
    refine (stopStreaming_eq hsound' hne).trans ?_
    rw [← hstream, hwhole]
    exact (replayFrom_error hne' hdecode).symm
  | case6 p w e hdecode hincomplete =>
    have hne : w.available ≠ [] := by
      intro hempty
      rw [hempty] at hincomplete
      cases hincomplete
      exact hdecode rfl
    have hwhole := decode_append d w.source
      (by rw [hincomplete]; simpa using hdecode : decode d w.available macKey ≠ .error .incomplete)
    rw [hincomplete] at hwhole
    have hne' : w.available ++ w.source ≠ [] := by simp [hne]
    refine (stopStreaming_eq hsound hne).trans ?_
    rw [Window.stream]
    exact (replayFrom_error hne' hwhole).symm

end Scan

/-- Within the limit, the window and the reader do not show. -/
theorem replayRetaining_eq (d : Digests) (split : ℕ → ℕ) (macKey : List UInt8)
    (retain : Frame → Bool) {bytes : List UInt8} (h : bytes.length ≤ maxLogBytes) :
    replayRetaining split d macKey retain bytes =
      replayFrom d macKey retain Progress.start bytes := by
  rw [replayRetaining, if_neg (not_lt.2 h), replayWindow_eq retain _ (Window.sound_new h)]
  rfl

/-- **Streaming replay equals buffered replay.**  For every log within the limit, every key, every
predicate and every way the reader splits the bytes, the outcome is that of the whole-file
reference, with the frames the predicate accepts. -/
theorem streaming_replay_eq_buffered (d : Digests) (split : ℕ → ℕ) (macKey : List UInt8)
    (retain : Frame → Bool) (bytes : List UInt8) (h : bytes.length ≤ maxLogBytes) :
    replayRetaining split d macKey retain bytes =
      (replayBuffered d macKey bytes).map (Replay.retaining retain) := by
  rw [replayRetaining_eq d split macKey retain h, replayBuffered, ← replayFrom_retaining]
  rfl

namespace Sample

/-- A log of one frame, of 28 bytes. -/
def oneFrame : List UInt8 := frameBytes storeDigests .usageAggregate 1 [] []

theorem oneFrame_length : oneFrame.length = 28 := length_frameBytes storeDigests .usageAggregate 1 [] []

theorem replayFrom_oneFrame (retain : Frame → Bool) :
    replayFrom storeDigests [] retain Progress.start oneFrame =
      .ok ⟨[⟨.usageAggregate, 1, [], false⟩].filter retain, none, none, 28⟩ := by
  have hstep : replayFrom storeDigests [] retain Progress.start
      (frameBytes storeDigests .usageAggregate 1 [] [] ++ []) = _ :=
    replayFrom_frameBytes (by decide) (by decide) []
  rw [append_nil] at hstep
  rw [oneFrame, hstep, ← oneFrame, oneFrame_length]
  cases hretain : retain ⟨.usageAggregate, 1, [], false⟩ with
  | true =>
    simp only [Progress.accept, Progress.start, Option.filter_none, RecordKind.isProtected, hretain,
      if_true, replayFrom_nil, Progress.finish, filter_cons, filter_nil]
    rfl
  | false =>
    simp only [Progress.accept, Progress.start, Option.filter_none, RecordKind.isProtected, hretain,
      Bool.false_eq_true, if_false, replayFrom_nil, Progress.finish, filter_cons, filter_nil]

end Sample

/-- A reader that gives a byte at a time replays the one frame. -/
theorem one_frame_replays_bytewise :
    replayRetaining (fun _ => 0) storeDigests [] (fun _ => true) Sample.oneFrame =
      (replayBuffered storeDigests [] Sample.oneFrame).map (Replay.retaining fun _ => true) := by
  have hlen : Sample.oneFrame.length ≤ maxLogBytes := by
    rw [Sample.oneFrame_length]
    decide
  exact streaming_replay_eq_buffered storeDigests (fun _ => 0) [] (fun _ => true) Sample.oneFrame hlen

/-- **The reference has no predicate**: a replay that keeps nothing is not the reference. -/
theorem keeping_nothing_is_not_the_reference :
    Sample.oneFrame.length ≤ maxLogBytes ∧
      replayRetaining (fun _ => 0) storeDigests [] (fun _ => false) Sample.oneFrame =
        .ok ⟨[], none, none, 28⟩ ∧
      replayBuffered storeDigests [] Sample.oneFrame =
        .ok ⟨[⟨.usageAggregate, 1, [], false⟩], none, none, 28⟩ := by
  have hlen : Sample.oneFrame.length ≤ maxLogBytes := by
    rw [Sample.oneFrame_length]
    decide
  refine ⟨hlen, ?_, Sample.replayFrom_oneFrame _⟩
  rw [replayRetaining_eq storeDigests _ [] _ hlen, Sample.replayFrom_oneFrame]
  rfl

end HypeLlm.Store
