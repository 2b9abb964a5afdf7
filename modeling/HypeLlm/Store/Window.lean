import HypeLlm.Store.Replay

/-!
# Replaying a log through a bounded window

The log is read through a window that holds little more than one frame.  It never parses a length
itself: it hands what it has to `decode`, and reads more, growing if it must, while the answer is
that the frame is incomplete.  After damage it scans forward for a surviving frame, and never drops
a candidate that it could not judge yet.

The reader gives between one byte and what fits, as it likes: `split` says how many bytes the n-th
read would give.  At the end of the file it gives none.
-/

namespace HypeLlm.Store

open List

/-- Initial size of the window. -/
def windowStartBytes : ℕ := 64 * 1024

structure Window where
  /-- What the source has still to give. -/
  source : List UInt8
  reads : ℕ
  /-- The bytes of the buffer that hold data, from `start` on. -/
  available : List UInt8
  start : ℕ
  /-- Size of the buffer. -/
  capacity : ℕ
  /-- Whether the source has reported its end. -/
  exhausted : Bool
  totalRead : ℕ
  overLimit : Bool
  deriving Repr, DecidableEq

variable (split : ℕ → ℕ)

namespace Window

def new (source : List UInt8) : Window := ⟨source, 0, [], 0, windowStartBytes, false, 0, false⟩

/-- Drop `count` bytes from the front. -/
def consume (w : Window) (count : ℕ) : Window :=
  { w with
    available := w.available.drop count
    start := if w.available.drop count = [] then 0 else w.start + count }

/-- The buffer twice as large, up to the largest frame. -/
def grow (w : Window) : Window := { w with capacity := min (w.capacity * 2) maxFrameBytes }

/-- How many bytes the next read gives. -/
def nextRead (w : Window) : ℕ :=
  min (split w.reads + 1) (min (w.capacity - w.available.length) w.source.length)

/-- Take what the next read gives; whether it gave anything. -/
def read (w : Window) : Bool × Window :=
  let read := w.nextRead split
  if read = 0 then (false, { w with reads := w.reads + 1, exhausted := true })
  else
    let w := { w with
      source := w.source.drop read
      reads := w.reads + 1
      available := w.available ++ w.source.take read
      totalRead := w.totalRead + read }
    (true, if maxLogBytes < w.totalRead then { w with overLimit := true, exhausted := true } else w)

/-- Make more bytes available, growing the buffer only when it is full; `false` when nothing more
can arrive. -/
def refill (w : Window) : Bool × Window :=
  if w.exhausted then (false, w)
  else
    let compact := { w with start := 0 }
    if compact.available.length = compact.capacity then
      if maxFrameBytes ≤ compact.capacity then (false, compact) else compact.grow.read split
    else compact.read split

theorem read_eq_zero {w : Window} (h : w.nextRead split = 0) :
    w.read split = (false, { w with reads := w.reads + 1, exhausted := true }) := by
  simp only [read, if_pos h]

/-- The window after a read that gave something, before the size is looked at. -/
def fed (w : Window) : Window :=
  { w with
    source := w.source.drop (w.nextRead split)
    reads := w.reads + 1
    available := w.available ++ w.source.take (w.nextRead split)
    totalRead := w.totalRead + w.nextRead split }

theorem read_pos {w : Window} (h : w.nextRead split ≠ 0) :
    w.read split = (true, if maxLogBytes < (w.fed split).totalRead then
      { w.fed split with overLimit := true, exhausted := true } else w.fed split) := by
  simp only [read, if_neg h]
  rfl

/-- The window a refill reads into: compacted, and grown when it was full. -/
def roomy (w : Window) : Window :=
  let compact := { w with start := 0 }
  if compact.available.length = compact.capacity then compact.grow else compact

/-- A refill reads into the roomy window, unless nothing more can arrive or the window is full and
as large as a frame can be. -/
theorem refill_cases (w : Window) :
    (w.exhausted = true ∧ w.refill split = (false, w)) ∨
      (w.exhausted = false ∧ w.available.length = w.capacity ∧ maxFrameBytes ≤ w.capacity ∧
        w.refill split = (false, { w with start := 0 })) ∨
      (w.exhausted = false ∧ (w.available.length = w.capacity → w.capacity < maxFrameBytes) ∧
        w.refill split = w.roomy.read split) := by
  unfold refill roomy
  cases w.exhausted with
  | true => simp
  | false =>
    simp only [Bool.false_eq_true, if_false, true_and, false_and, false_or]
    by_cases hfull : w.available.length = w.capacity
    · by_cases hmax : maxFrameBytes ≤ w.capacity
      · simp [hfull, hmax]
      · simp [hfull, hmax, not_le.1 hmax]
    · simp [hfull]

theorem roomy_source (w : Window) : w.roomy.source = w.source := by
  unfold roomy
  dsimp only
  split <;> rfl

/-- A refill takes from the source, and says so. -/
theorem refill_source (w : Window) :
    ((w.refill split).1 = true → (w.refill split).2.source.length < w.source.length) ∧
      ((w.refill split).1 = false → (w.refill split).2.source = w.source) := by
  rcases refill_cases split w with ⟨-, h⟩ | ⟨-, -, -, h⟩ | ⟨-, -, h⟩
  · simp [h]
  · simp [h]
  · rw [h]
    by_cases hread : w.roomy.nextRead split = 0
    · rw [read_eq_zero split hread]
      simp [roomy_source]
    · rw [read_pos split hread]
      refine ⟨fun _ => ?_, fun hfalse => by cases hfalse⟩
      have hle : w.roomy.nextRead split ≤ w.source.length := by
        rw [← roomy_source w]
        unfold nextRead
        omega
      have hfed : (w.roomy.fed split).source.length < w.source.length := by
        simp only [fed, length_drop, roomy_source]
        omega
      dsimp only
      split <;> exact hfed

/-- Fill the window as far as it will go. -/
def fill (w : Window) : Window :=
  if w.start + w.available.length < w.capacity ∧ w.exhausted = false then
    match _h : w.refill split with
    | (true, w') => fill w'
    | (false, w') => w'
  else w
termination_by w.source.length
decreasing_by
  have hlt := (refill_source split w).1 (by rw [_h])
  rw [_h] at hlt
  exact hlt

theorem fill_source_le (w : Window) : (w.fill split).source.length ≤ w.source.length := by
  fun_induction fill split w with
  | case1 w hroom w' hrefill ih =>
    have hlt := (refill_source split w).1 (by rw [hrefill])
    rw [hrefill] at hlt
    exact ih.trans hlt.le
  | case2 w hroom w' hrefill =>
    have hsame := (refill_source split w).2 (by rw [hrefill])
    rw [hrefill] at hsame
    rw [hsame]
  | case3 w hroom => exact le_rfl

end Window

/-- What a scan of the window comes to. -/
inductive ScanResult where
  | found (sequence : UInt64)
  /-- The window is too small to judge the candidate here. -/
  | undecided (at_ : ℕ)
  | clear
  deriving Repr, DecidableEq

/-- The same result, seen from one byte earlier. -/
def ScanResult.later : ScanResult → ScanResult
  | .undecided n => .undecided (n + 1)
  | r => r

variable (d : Digests) (macKey : List UInt8)

/-- Scan the window for a surviving frame.  An incomplete candidate is left undecided unless the
source has ended. -/
def scan (threshold : UInt64) (exhausted : Bool) : List UInt8 → ScanResult
  | [] => .clear
  | b :: bs =>
    if !magic.isPrefixOf (b :: bs) then (scan threshold exhausted bs).later
    else
      match decode d (b :: bs) macKey with
      | .ok decoded =>
        if threshold < decoded.frame.sequence then .found decoded.frame.sequence
        else (scan threshold exhausted bs).later
      | .error .incomplete =>
        if exhausted then (scan threshold exhausted bs).later else .undecided 0
      | .error _ => (scan threshold exhausted bs).later

/-- What is dropped after a scan without a find: everything before an undecided candidate, or all
but enough to catch a magic across the boundary. -/
def ScanResult.skip (available : List UInt8) : ScanResult → ℕ
  | .undecided n => n
  | _ => available.length - (magic.length - 1)

/-- Scan forward from the window until a frame survives or nothing more can arrive. -/
def scanForward (threshold : UInt64) (finalPass : Bool) (w : Window) : Option UInt64 × Window :=
  let filled := w.fill split
  if filled.available = [] then (none, filled)
  else
    match scan d macKey threshold filled.exhausted filled.available with
    | .found sequence => (some sequence, filled)
    | result =>
      if finalPass then (none, filled)
      else
        match _h : (filled.consume (result.skip filled.available)).refill split with
        | (true, next) => scanForward threshold false next
        | (false, next) => scanForward threshold true next
termination_by ((!finalPass).toNat, w.source.length)
decreasing_by
  · rename_i hfinal
    have hfalse : finalPass = false := by simpa using hfinal
    have hlt := ((filled.consume _).refill_source split).1 (by rw [_h])
    rw [_h] at hlt
    rw [hfalse]
    exact Prod.Lex.right _ (lt_of_lt_of_le hlt (w.fill_source_le split))
  · rename_i hfinal
    have hfalse : finalPass = false := by simpa using hfinal
    rw [hfalse]
    exact Prod.Lex.left _ _ (by decide)

/-- Whether damage at the front of the window is followed by a surviving frame. -/
def survivingSequenceStreaming (threshold : UInt64) (w : Window) : Option UInt64 × Window :=
  scanForward split d macKey threshold false (w.consume 1)

/-- Report a replay, unless the window stopped because it had read too much. -/
def Window.report (w : Window) (r : Replay) : Except LogError Replay :=
  if w.overLimit then .error (.tooLarge w.totalRead maxLogBytes) else .ok r

/-- Stop at a frame that does not decode. -/
def stopStreaming (p : Progress) (e : FrameError) (w : Window) : Except LogError Replay :=
  match p.refusal e with
  | some refused => .error refused
  | none =>
    let (surviving, w) := survivingSequenceStreaming split d macKey p.threshold w
    match p.stop e surviving with
    | .error damage => .error damage
    | .ok r => w.report r

/-- Replay what is left of the window and its source. -/
def replayWindow (retain : Frame → Bool) (p : Progress) (w : Window) : Except LogError Replay :=
  match _hd : decode d w.available macKey with
  | .ok decoded =>
    match p.accept retain decoded with
    | .error e => .error e
    | .ok p => replayWindow retain p (w.consume decoded.length)
  | .error .incomplete =>
    match _hr : w.refill split with
    | (true, w') => replayWindow retain p w'
    | (false, w') =>
      -- An empty window is a clean end of file, not a torn frame.
      if w'.available = [] then w'.report p.finish
      else stopStreaming split d macKey p .incomplete w'
  | .error e => stopStreaming split d macKey p e w
termination_by (w.source.length, w.available.length)
decreasing_by
  · have hlength := decode_length d _hd
    unfold headerLen at hlength
    refine Prod.Lex.right _ ?_
    simp only [Window.consume, length_drop]
    omega
  · have hlt := (w.refill_source split).1 (by rw [_hr])
    rw [_hr] at hlt
    exact Prod.Lex.left _ _ hlt

/-- Replay a log that holds `bytes`, keeping the frames `retain` accepts. -/
def replayRetaining (retain : Frame → Bool) (bytes : List UInt8) : Except LogError Replay :=
  if maxLogBytes < bytes.length then .error (.tooLarge bytes.length maxLogBytes)
  else replayWindow split d macKey retain Progress.start (Window.new bytes)

end HypeLlm.Store
