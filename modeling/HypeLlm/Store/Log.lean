import HypeLlm.Lib.Runs
import HypeLlm.Store.Codec

/-!
# The append-only log file

The log writes frames to a file opened for appending: a write lands at the real end of the file,
whatever length the log has recorded.  An append that fails is rolled back by cutting the file to
the recorded length; when that fails too the log is poisoned and refuses appends.  `truncate` and
`reset` cut the file and record the new length.

Every call of the operating system may fail: a write after any number of bytes, a sync, a change of
length, a seek.  A call that fails changes nothing else.  A step of a run carries the outcomes of
the calls it makes.

The ghost `expected` is what the caller was told: what the last successful cut left, and every frame
acknowledged since.

* **`log_appends_atomically_iff`** — the file is what was acknowledged and the recorded length is
  its length, in every state a run reaches, exactly when no `truncate` or `reset` of the run fails
  after it has already changed the file's length; and a poisoned log acknowledges nothing until a
  cut succeeds.
* `failed_reset_loses_the_length` — a `reset` whose sync fails leaves an empty file under the old
  length, and the next roll-back writes zeroes into it.
-/

namespace HypeLlm.Store

open HypeLlm.Runs List

/-- The file after its length was set: cut, or extended by zeroes. -/
def setLen (file : List UInt8) (n : ℕ) : List UInt8 := file.take n ++ replicate (n - file.length) 0

@[simp] theorem length_setLen (file : List UInt8) (n : ℕ) : (setLen file n).length = n := by
  simp only [setLen, length_append, length_take, length_replicate]
  omega

theorem setLen_append (file rest : List UInt8) : setLen (file ++ rest) file.length = file := by
  simp [setLen]

structure Log where
  file : List UInt8
  /-- Whether each append is followed by a sync. -/
  syncOnAppend : Bool
  /-- Bytes of the file known to hold complete, durable frames. -/
  len : ℕ
  poisoned : Bool
  deriving Repr, DecidableEq

/-- The outcomes of the calls an append makes.  `written` is `none` when the write succeeds, and
the number of bytes that were written when it fails. -/
structure AppendIo where
  written : Option ℕ
  sync : Bool
  setLen : Bool
  syncAll : Bool
  deriving Repr, DecidableEq

/-- The outcomes of the calls that cut the file. -/
structure CutIo where
  setLen : Bool
  syncAll : Bool
  seek : Bool
  deriving Repr, DecidableEq

namespace Log

/-- Open a log over what the file holds. -/
def open_ (file : List UInt8) (syncOnAppend : Bool) : Log := ⟨file, syncOnAppend, file.length, false⟩

/-- Write and, when configured, sync one encoded frame; whether both succeeded. -/
def writeFrame (log : Log) (bytes : List UInt8) (io : AppendIo) : Bool × Log :=
  match io.written with
  | some n => (false, { log with file := log.file ++ bytes.take n })
  | none => (!log.syncOnAppend || io.sync, { log with file := log.file ++ bytes })

/-- Cut the file back to `len` after a failed append, or poison the log. -/
def rollBack (log : Log) (io : AppendIo) : Log :=
  let log := if io.setLen then { log with file := Store.setLen log.file log.len } else log
  if io.setLen && io.syncAll then log else { log with poisoned := true }

/-- Append a frame; the offset it was written at when it is acknowledged. -/
def append (d : Digests) (log : Log) (kind : RecordKind) (sequence : UInt64)
    (payload macKey : List UInt8) (io : AppendIo) : Option ℕ × Log :=
  if log.poisoned then (none, log)
  else
    match encode d kind sequence payload macKey with
    | .error _ => (none, log)
    | .ok bytes =>
      let (ok, written) := log.writeFrame bytes io
      if ok then (some log.len, { written with len := log.len + bytes.length })
      else (none, written.rollBack io)

/-- Discard everything after `validLen`; whether it succeeded. -/
def truncate (log : Log) (validLen : ℕ) (io : CutIo) : Bool × Log :=
  if !io.setLen then (false, log)
  else
    let cut := { log with file := Store.setLen log.file validLen }
    if io.syncAll && io.seek then (true, { cut with len := validLen, poisoned := false })
    else (false, cut)

/-- Replace the log with an empty one; whether it succeeded. -/
def reset (log : Log) (io : CutIo) : Bool × Log := log.truncate 0 io

end Log

/-! ### Runs -/

inductive LogOp where
  | append (kind : RecordKind) (sequence : UInt64) (payload macKey : List UInt8) (io : AppendIo)
  | truncate (validLen : ℕ) (io : CutIo)
  | reset (io : CutIo)
  deriving Repr, DecidableEq

/-- A log, what its caller was told it holds, and how often an append and a cut succeeded. -/
structure Tracked where
  log : Log
  expected : List UInt8
  acknowledged : ℕ
  cuts : ℕ
  deriving Repr, DecidableEq

namespace Tracked

def init (file : List UInt8) (syncOnAppend : Bool) : Tracked :=
  ⟨Log.open_ file syncOnAppend, file, 0, 0⟩

/-- After a cut: a successful one starts the account again, from what it left. -/
def afterCut (t : Tracked) (cut : Bool × Log) : Tracked :=
  if cut.1 then { t with log := cut.2, expected := cut.2.file, cuts := t.cuts + 1 }
  else { t with log := cut.2 }

def step (d : Digests) (t : Tracked) : LogOp → Tracked
  | .append kind sequence payload macKey io =>
    match t.log.append d kind sequence payload macKey io with
    | (some _, log) =>
      { t with
        log := log
        expected := t.expected ++ frameBytes d kind sequence payload macKey
        acknowledged := t.acknowledged + 1 }
    | (none, log) => { t with log := log }
  | .truncate validLen io => t.afterCut (t.log.truncate validLen io)
  | .reset io => t.afterCut (t.log.reset io)

/-- Unless the log is poisoned, the file is what was acknowledged and its length is recorded. -/
def Exact (t : Tracked) : Prop :=
  t.log.poisoned = false → t.log.file = t.expected ∧ t.log.len = t.log.file.length

/-- The step does not fail with the file's length already changed under an unpoisoned log. -/
def CleanCut (t : Tracked) : LogOp → Prop
  | .append .. => True
  | .truncate validLen io =>
    t.log.poisoned = false → io.setLen = true → io.syncAll = false ∨ io.seek = false →
      validLen = t.log.file.length
  | .reset io =>
    t.log.poisoned = false → io.setLen = true → io.syncAll = false ∨ io.seek = false →
      t.log.file.length = 0

/-- What the caller of a log may rely on, in every state of a run: the file is exact, and once the
log is poisoned nothing is acknowledged until a cut succeeds. -/
def Reliable (d : Digests) (t : Tracked) (ops : List LogOp) : Prop :=
  ∀ es fs, ops = es ++ fs →
    Exact (run (step d) t es) ∧
      ((run (step d) t es).log.poisoned = true →
        (run (step d) t ops).cuts = (run (step d) t es).cuts →
        (run (step d) t ops).acknowledged = (run (step d) t es).acknowledged)

/-! ### One step -/

variable {d : Digests} {t : Tracked}

/-- What an append does to a log that is not poisoned: it refuses a payload that is too large, or
writes the frame and acknowledges it, or rolls back the beginning that was written. -/
theorem append_cases (d : Digests) {log : Log} (hclean : log.poisoned = false) (kind : RecordKind)
    (sequence : UInt64) (payload macKey : List UInt8) (io : AppendIo) :
    log.append d kind sequence payload macKey io = (none, log) ∨
      payload.length ≤ maxPayloadLen ∧
        (log.append d kind sequence payload macKey io = (some log.len, { log with
            file := log.file ++ frameBytes d kind sequence payload macKey
            len := log.len + (frameBytes d kind sequence payload macKey).length }) ∨
          ∃ n, log.append d kind sequence payload macKey io = (none, ({ log with
            file := log.file ++ (frameBytes d kind sequence payload macKey).take n } : Log).rollBack
              io)) := by
  rw [Log.append, if_neg (by simp [hclean])]
  by_cases hlarge : payload.length ≤ maxPayloadLen
  · rw [encode_eq d macKey hlarge]
    refine .inr ⟨hlarge, ?_⟩
    cases hwritten : io.written with
    | some n =>
      right
      refine ⟨n, ?_⟩
      simp [Log.writeFrame, hwritten]
    | none =>
      cases hok : !log.syncOnAppend || io.sync with
      | true =>
        left
        simp only [Log.writeFrame, hwritten, hok, if_true]
      | false =>
        right
        refine ⟨(frameBytes d kind sequence payload macKey).length, ?_⟩
        rw [take_length]
        simp [Log.writeFrame, hwritten, hok]
  · left
    rw [encode, if_pos (not_le.1 hlarge)]

/-- Rolling back cuts off what was written past the recorded length, or poisons the log and leaves
the file as it is or cut. -/
theorem rollBack_cases {log : Log} (hlen : log.len = log.file.length) (rest : List UInt8)
    (io : AppendIo) :
    ({ log with file := log.file ++ rest } : Log).rollBack io = log ∨
      (({ log with file := log.file ++ rest } : Log).rollBack io).poisoned = true ∧
        ((({ log with file := log.file ++ rest } : Log).rollBack io).file = log.file ∨
          (({ log with file := log.file ++ rest } : Log).rollBack io).file = log.file ++ rest) := by
  unfold Log.rollBack
  cases hset : io.setLen with
  | false =>
    right
    simp
  | true =>
    cases hsync : io.syncAll with
    | false =>
      right
      simp [hlen, setLen_append]
    | true =>
      left
      simp only [hlen, setLen_append, Bool.and_self, if_true]
      rw [← hlen]

theorem exact_append (h : t.Exact) (kind : RecordKind) (sequence : UInt64)
    (payload macKey : List UInt8) (io : AppendIo) :
    (t.step d (.append kind sequence payload macKey io)).Exact := by
  cases hpoisoned : t.log.poisoned with
  | true =>
    intro hclean
    simp [step, Log.append, hpoisoned] at hclean
  | false =>
    obtain ⟨hfile, hlen⟩ := h hpoisoned
    rcases append_cases d hpoisoned kind sequence payload macKey io with
      hrefused | ⟨-, hwritten | ⟨n, hfailed⟩⟩
    · simp only [step, hrefused]
      exact h
    · simp only [step, hwritten]
      intro _
      simp [hfile, hlen]
    · simp only [step, hfailed]
      intro hclean
      rcases rollBack_cases hlen ((frameBytes d kind sequence payload macKey).take n) io with
        hback | ⟨hback, -⟩
      · rw [hback]
        exact ⟨hfile, hlen⟩
      · rw [hback] at hclean
        cases hclean

theorem exact_truncate (h : t.Exact) (validLen : ℕ) (io : CutIo)
    (hcut : t.CleanCut (.truncate validLen io)) : (t.step d (.truncate validLen io)).Exact := by
  simp only [step, Log.truncate, afterCut]
  cases hset : io.setLen with
  | false => simpa using h
  | true =>
    by_cases hdone : io.syncAll = true ∧ io.seek = true
    · simp only [hdone.1, hdone.2, Bool.not_true, Bool.false_eq_true, if_false, Bool.and_self, if_true]
      intro _
      exact ⟨rfl, by simp⟩
    · have hfailed : io.syncAll = false ∨ io.seek = false := by
        rcases not_and_or.1 hdone with h | h
        · exact .inl (by simpa using h)
        · exact .inr (by simpa using h)
      have hand : (io.syncAll && io.seek) = false := by
        rcases hfailed with h | h <;> simp [h]
      simp only [hand, Bool.not_true, Bool.false_eq_true, if_false]
      intro hclean
      obtain ⟨hfile, hlen⟩ := h hclean
      have hsame : setLen t.log.file validLen = t.log.file := by
        rw [hcut hclean hset hfailed]
        simpa using setLen_append t.log.file []
      simp only [hsame]
      exact ⟨hfile, hlen⟩

theorem step_reset (d : Digests) (t : Tracked) (io : CutIo) :
    t.step d (.reset io) = t.step d (.truncate 0 io) := rfl

/-- **A step keeps the file exact** unless it fails with the length already changed. -/
theorem exact_step (t : Tracked) (op : LogOp) (h : t.Exact) (hcut : t.CleanCut op) :
    (t.step d op).Exact := by
  cases op with
  | append kind sequence payload macKey io => exact exact_append h kind sequence payload macKey io
  | truncate validLen io => exact exact_truncate h validLen io hcut
  | reset io =>
    rw [step_reset]
    exact exact_truncate h 0 io fun hclean hset hfailed => (hcut hclean hset hfailed).symm

/-- A cut that fails with the length already changed leaves the old length recorded. -/
theorem not_exact_of_truncate (h : t.Exact) {validLen : ℕ} {io : CutIo}
    (hcut : ¬ t.CleanCut (.truncate validLen io)) : ¬ (t.step d (.truncate validLen io)).Exact := by
  simp only [CleanCut, not_forall] at hcut
  obtain ⟨hclean, hset, hfailed, hne⟩ := hcut
  have hand : (io.syncAll && io.seek) = false := by
    rcases hfailed with h | h <;> simp [h]
  simp only [step, Log.truncate, afterCut, hset, hand, Bool.not_true, Bool.false_eq_true, if_false]
  intro hexact
  have hlen := (hexact hclean).2
  simp only [length_setLen] at hlen
  rw [(h hclean).2] at hlen
  exact hne hlen.symm

theorem not_exact_step (t : Tracked) (op : LogOp) (h : t.Exact) (hcut : ¬ t.CleanCut op) :
    ¬ (t.step d op).Exact := by
  cases op with
  | append kind sequence payload macKey io => exact absurd trivial hcut
  | truncate validLen io => exact not_exact_of_truncate h hcut
  | reset io =>
    rw [step_reset]
    refine not_exact_of_truncate h fun hclean => hcut fun hp hset hfailed => ?_
    exact (hclean hp hset hfailed).symm

/-- Cuts are counted up, and a poisoned log acknowledges nothing and stays poisoned unless a cut
succeeds. -/
theorem poisoned_step (d : Digests) (t : Tracked) (op : LogOp) :
    t.cuts ≤ (t.step d op).cuts ∧
      (t.log.poisoned = true → (t.step d op).cuts = t.cuts →
        (t.step d op).log.poisoned = true ∧ (t.step d op).acknowledged = t.acknowledged) := by
  have htruncate : ∀ validLen io, t.cuts ≤ (t.step d (.truncate validLen io)).cuts ∧
      (t.log.poisoned = true → (t.step d (.truncate validLen io)).cuts = t.cuts →
        (t.step d (.truncate validLen io)).log.poisoned = true ∧
          (t.step d (.truncate validLen io)).acknowledged = t.acknowledged) := by
    intro validLen io
    simp only [step, Log.truncate, afterCut]
    cases io.setLen with
    | false => exact ⟨le_rfl, fun hp _ => ⟨hp, rfl⟩⟩
    | true =>
      cases io.syncAll && io.seek with
      | false => exact ⟨le_rfl, fun hp _ => ⟨hp, rfl⟩⟩
      | true => exact ⟨Nat.le_succ _, fun _ hcuts => absurd hcuts (Nat.succ_ne_self _)⟩
  cases op with
  | append kind sequence payload macKey io =>
    constructor
    · simp only [step]
      split <;> exact le_rfl
    · intro hp _
      simp [step, Log.append, hp]
  | truncate validLen io => exact htruncate validLen io
  | reset io => exact htruncate 0 io

/-! ### Whole runs -/

theorem cuts_mono (d : Digests) (t : Tracked) (ops : List LogOp) :
    t.cuts ≤ (run (step d) t ops).cuts := by
  induction ops generalizing t with
  | nil => exact le_rfl
  | cons op ops ih => exact (poisoned_step d t op).1.trans (ih _)

/-- **A poisoned log acknowledges nothing until a cut succeeds.** -/
theorem poisoned_run (d : Digests) (t : Tracked) (ops : List LogOp) (hp : t.log.poisoned = true)
    (hcuts : (run (step d) t ops).cuts = t.cuts) :
    (run (step d) t ops).acknowledged = t.acknowledged := by
  induction ops generalizing t with
  | nil => rfl
  | cons op ops ih =>
    have hfirst := poisoned_step d t op
    have hrest := cuts_mono d (t.step d op) ops
    rw [run_cons] at hcuts ⊢
    have hsame : (t.step d op).cuts = t.cuts := by
      have := hfirst.1
      omega
    obtain ⟨hp', hack⟩ := hfirst.2 hp hsame
    rw [ih _ hp' (by rw [hcuts, hsame]), hack]

/-- Exactness in every state of a run is that every step is clean. -/
theorem exact_everywhere_iff (t : Tracked) (h : t.Exact) (ops : List LogOp) :
    (∀ es fs, ops = es ++ fs → (run (step d) t es).Exact) ↔ StepsMeet (step d) CleanCut t ops := by
  induction ops generalizing t with
  | nil =>
    refine ⟨fun _ => trivial, fun _ es fs hsplit => ?_⟩
    obtain ⟨rfl, -⟩ := append_eq_nil_iff.1 hsplit.symm
    exact h
  | cons op ops ih =>
    constructor
    · intro hall
      have hnext : (t.step d op).Exact := hall [op] ops rfl
      have hclean : t.CleanCut op := by
        by_contra hcut
        exact not_exact_step t op h hcut hnext
      refine ⟨hclean, (ih _ hnext).1 fun es fs hsplit => ?_⟩
      exact hall (op :: es) fs (by rw [hsplit, cons_append])
    · rintro ⟨hclean, hrest⟩ es fs hsplit
      cases es with
      | nil => exact h
      | cons e es =>
        obtain ⟨rfl, htail⟩ := cons.inj hsplit
        exact (ih _ (exact_step t op h hclean)).2 hrest es fs htail

/-- **Appends are atomic exactly in the runs without a half-done cut.** -/
theorem log_appends_atomically_iff (d : Digests) (file : List UInt8) (syncOnAppend : Bool)
    (ops : List LogOp) :
    Reliable d (init file syncOnAppend) ops ↔
      StepsMeet (step d) CleanCut (init file syncOnAppend) ops := by
  rw [← exact_everywhere_iff _ fun _ => ⟨rfl, rfl⟩]
  constructor
  · intro h es fs hsplit
    exact (h es fs hsplit).1
  · intro h es fs hsplit
    refine ⟨h es fs hsplit, fun hp hcuts => ?_⟩
    rw [hsplit, run_append] at hcuts ⊢
    exact poisoned_run d _ fs hp hcuts

end Tracked

namespace Sample

/-- Every call succeeds. -/
def fine : AppendIo := ⟨none, true, true, true⟩

/-- An append that succeeds, a `reset` whose sync fails, and an append whose write fails at once. -/
def halfReset : List LogOp :=
  [.append .usageAggregate 1 [] [] fine, .reset ⟨true, false, true⟩,
    .append .usageAggregate 2 [] [] ⟨some 0, true, true, true⟩]

end Sample

/-- **A `reset` whose sync fails loses the length.**  The log is not poisoned, the file is empty and
28 bytes are recorded; the roll-back of the next failed append fills the file with zeroes. -/
theorem failed_reset_loses_the_length :
    ¬ Tracked.Reliable storeDigests (.init [] true) Sample.halfReset ∧
      (run (Tracked.step storeDigests) (.init [] true) (Sample.halfReset.take 2)).log =
        ⟨[], true, 28, false⟩ ∧
      (run (Tracked.step storeDigests) (.init [] true) Sample.halfReset).log =
        ⟨replicate 28 0, true, 28, false⟩ := by
  have hstale : (run (Tracked.step storeDigests) (.init [] true) (Sample.halfReset.take 2)).log =
      ⟨[], true, 28, false⟩ := by decide +kernel
  refine ⟨fun hreliable => ?_, hstale, by decide +kernel⟩
  have hexact := (hreliable (Sample.halfReset.take 2) (Sample.halfReset.drop 2)
    (take_append_drop 2 _).symm).1
  rw [Tracked.Exact, hstale] at hexact
  exact absurd (hexact rfl).2 (by decide)

end HypeLlm.Store
