import HypeLlm.Store.Codec

/-!
# Replaying a log from one buffer

Replay decodes frame after frame and stops at the first that does not decode.  A tail that a crash
may leave is reported, to be cut off; a failed authentication code, a sequence that goes back, a
file of another format and damage with a valid frame of higher sequence after it are errors, since
going on would lose or trust what it must not.

`replayBuffered` has the whole file in memory.  It is the reference for the streaming replay.
-/

namespace HypeLlm.Store

open List

/-- The outcome of replaying a log. -/
structure Replay where
  /-- Frames that decoded cleanly, in order. -/
  frames : List Frame
  /-- Where the first frame stands that did not decode. -/
  truncatedAt : Option ℕ
  stopReason : Option FrameError
  validLen : ℕ
  deriving Repr, DecidableEq

inductive LogError where
  | integrity (offset : ℕ) (error : FrameError)
  | nonMonotonicSequence (previous found : UInt64)
  | unknownFormat (error : FrameError)
  | midFileDamage (offset : ℕ) (lastGoodSequence survivingSequence : UInt64)
  | tooLarge (bytes limit : ℕ)
  deriving Repr, DecidableEq

/-- The largest log that may be replayed: 256 MiB. -/
def maxLogBytes : ℕ := 256 * 1024 * 1024

/-- How far a replay has come. -/
structure Progress where
  frames : List Frame
  offset : ℕ
  previousSequence : Option UInt64
  deriving Repr, DecidableEq

namespace Progress

def start : Progress := ⟨[], 0, none⟩

/-- Go past a frame, and keep it if `retain` accepts it.  Its sequence must be higher than the one
before. -/
def accept (retain : Frame → Bool) (p : Progress) (decoded : DecodedFrame) :
    Except LogError Progress :=
  match p.previousSequence.filter fun previous => decoded.frame.sequence ≤ previous with
  | some previous => .error (.nonMonotonicSequence previous decoded.frame.sequence)
  | none => .ok {
      frames := if retain decoded.frame then p.frames ++ [decoded.frame] else p.frames
      offset := p.offset + decoded.length
      previousSequence := some decoded.frame.sequence }

/-- A clean end of file. -/
def finish (p : Progress) : Replay := ⟨p.frames, none, none, p.offset⟩

/-- The error that stops a replay whatever follows, if it is one: a record that was modified, or a
file whose very first frame is not one a torn write leaves. -/
def refusal (p : Progress) (e : FrameError) : Option LogError :=
  if e.isIntegrityViolation then some (.integrity p.offset e)
  else if p.offset = 0 ∧ e.isRecoverableTail = false then some (.unknownFormat e)
  else none

/-- Stop at a frame that does not decode, with a torn tail unless a frame survives after it. -/
def stop (p : Progress) (e : FrameError) (surviving : Option UInt64) : Except LogError Replay :=
  match surviving with
  | some surviving =>
    .error (.midFileDamage p.offset (p.previousSequence.getD 0) surviving)
  | none => .ok ⟨p.frames, some p.offset, some e, p.offset⟩

/-- The sequence a surviving frame has to exceed. -/
def threshold (p : Progress) : UInt64 := p.previousSequence.getD 0

end Progress

variable (d : Digests) (macKey : List UInt8)

/-- The sequence of a frame at the start of `candidate`, if it decodes and follows `threshold`. -/
def survivingAt (threshold : UInt64) (candidate : List UInt8) : Option UInt64 :=
  if !magic.isPrefixOf candidate then none
  else
    match decode d candidate macKey with
    | .ok decoded => if threshold < decoded.frame.sequence then some decoded.frame.sequence else none
    | .error _ => none

/-- The first surviving sequence, from the start of the bytes on. -/
def survivor (threshold : UInt64) : List UInt8 → Option UInt64
  | [] => none
  | b :: bs => (survivingAt d macKey threshold (b :: bs)).or (survivor threshold bs)

/-- The first sequence after damage that is higher than the last good one.  The damage is at the
first byte, so the scan starts behind it. -/
def survivingSequenceAfter (remaining : List UInt8) (threshold : UInt64) : Option UInt64 :=
  survivor d macKey threshold (remaining.drop 1)

/-- Replay what remains of a buffer. -/
def replayFrom (retain : Frame → Bool) (p : Progress) (remaining : List UInt8) :
    Except LogError Replay :=
  if remaining = [] then .ok p.finish
  else
    match _h : decode d remaining macKey with
    | .ok decoded =>
      match p.accept retain decoded with
      | .error e => .error e
      | .ok p => replayFrom retain p (remaining.drop decoded.length)
    | .error e =>
      match p.refusal e with
      | some refused => .error refused
      | none => p.stop e (survivingSequenceAfter d macKey remaining p.threshold)
termination_by remaining.length
decreasing_by
  have hlength := decode_length d _h
  unfold headerLen at hlength
  rw [length_drop]
  omega

/-- The whole-file reference, which keeps every frame. -/
def replayBuffered (buf : List UInt8) : Except LogError Replay :=
  replayFrom d macKey (fun _ => true) Progress.start buf

/-! ### One step of the reference -/

variable {d macKey} {retain : Frame → Bool} {p : Progress}

theorem replayFrom_nil : replayFrom d macKey retain p [] = .ok p.finish := by
  rw [replayFrom, if_pos rfl]

theorem replayFrom_ok {remaining : List UInt8} {decoded : DecodedFrame}
    (h : decode d remaining macKey = .ok decoded) :
    replayFrom d macKey retain p remaining = match p.accept retain decoded with
      | .error e => .error e
      | .ok p => replayFrom d macKey retain p (remaining.drop decoded.length) := by
  have hne : remaining ≠ [] := by
    rintro rfl
    cases h
  rw [replayFrom, if_neg hne]
  split
  · rename_i decoded' h'
    rw [h] at h'
    cases h'
    rfl
  · rename_i e h'
    rw [h] at h'
    cases h'

theorem replayFrom_error {remaining : List UInt8} {e : FrameError} (hne : remaining ≠ [])
    (h : decode d remaining macKey = .error e) :
    replayFrom d macKey retain p remaining = match p.refusal e with
      | some refused => .error refused
      | none => p.stop e (survivingSequenceAfter d macKey remaining p.threshold) := by
  rw [replayFrom, if_neg hne]
  split
  · rename_i decoded' h'
    rw [h] at h'
    cases h'
  · rename_i e' h'
    rw [h] at h'
    cases h'
    rfl

/-- An encoded frame is gone past, whatever follows it. -/
theorem replayFrom_frameBytes {kind : RecordKind} {sequence : UInt64} {payload : List UInt8}
    (hkind : kind.Canonical) (hlen : payload.length ≤ maxPayloadLen) (rest : List UInt8) :
    replayFrom d macKey retain p (frameBytes d kind sequence payload macKey ++ rest) =
      match p.accept retain ⟨⟨kind, sequence, payload, kind.isProtected⟩,
        (frameBytes d kind sequence payload macKey).length⟩ with
      | .error e => .error e
      | .ok p => replayFrom d macKey retain p rest := by
  rw [replayFrom_ok (decode_encoded d macKey hkind hlen rest)]
  dsimp only
  rw [drop_left]

/-! ### Keeping fewer frames -/

/-- The outcome with only the frames `retain` accepts. -/
def Replay.retaining (retain : Frame → Bool) (r : Replay) : Replay :=
  { r with frames := r.frames.filter retain }

/-- Replaying with a predicate keeps the frames of the reference that it accepts, and nothing else
changes. -/
theorem replayFrom_retaining (retain : Frame → Bool) (p : Progress) (remaining : List UInt8) :
    replayFrom d macKey retain { p with frames := p.frames.filter retain } remaining =
      (replayFrom d macKey (fun _ => true) p remaining).map (Replay.retaining retain) := by
  induction hn : remaining.length using Nat.strong_induction_on generalizing p remaining with
  | _ n ih =>
    by_cases hne : remaining = []
    · subst hne
      rw [replayFrom_nil, replayFrom_nil]
      rfl
    cases hdecode : decode d remaining macKey with
    | error e =>
      rw [replayFrom_error hne hdecode, replayFrom_error hne hdecode]
      have hrefusal : ({ p with frames := p.frames.filter retain } : Progress).refusal e =
          p.refusal e := rfl
      rw [hrefusal]
      cases p.refusal e with
      | some refused => rfl
      | none =>
        dsimp only
        have hthreshold : ({ p with frames := p.frames.filter retain } : Progress).threshold =
            p.threshold := rfl
        rw [hthreshold]
        cases survivingSequenceAfter d macKey remaining p.threshold <;> rfl
    | ok decoded =>
      rw [replayFrom_ok hdecode, replayFrom_ok hdecode]
      have hlength := decode_length d hdecode
      have hdrop : (remaining.drop decoded.length).length < n := by
        unfold headerLen at hlength
        rw [length_drop]
        omega
      simp only [Progress.accept]
      cases p.previousSequence.filter fun previous => decoded.frame.sequence ≤ previous with
      | some previous => rfl
      | none =>
        dsimp only
        rw [← ih _ hdrop _ _ rfl]
        congr 2
        cases hretain : retain decoded.frame <;> simp [hretain]

end HypeLlm.Store
