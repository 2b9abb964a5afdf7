import HypeLlm.Health.Breaker
import HypeLlm.Lib.Runs

/-!
# What a rolling window counts

The counts keep two buckets and rotate them when they are asked, so a bucket begins when it is first
looked at and not at a multiple of the window.  The samples that were recorded are therefore kept here
beside the counts, in three parts: those that are counted no more, and those of either bucket.

* `Tracks` — how the samples lie with respect to the start of the bucket;
* `Tracks.rotate`, `Tracks.record` — each step keeps it;
* **`totals_cover`** — what is counted is all of the last window and nothing of before the last three.
-/

namespace HypeLlm.Health

open HypeLlm.Words List

namespace RollingCounts

/-- One sample, as it was recorded. -/
structure Sample where
  success : Bool
  time : ℕ
  deriving Repr, DecidableEq

inductive Call where
  | record (success : Bool) (nowMs : ℕ)
  | totals (nowMs : ℕ)
  deriving Repr, DecidableEq

def Call.time : Call → ℕ
  | .record _ nowMs | .totals nowMs => nowMs

def Call.samples : Call → List Sample
  | .record success nowMs => [⟨success, nowMs⟩]
  | .totals _ => []

def step (c : RollingCounts) : Call → RollingCounts
  | .record success nowMs => c.record success nowMs
  | .totals nowMs => (c.totals nowMs).2

def samples (calls : List Call) : List Sample := calls.flatMap Call.samples

/-- The successes and the failures among some samples, as far as 32 bits go. -/
def tally (list : List Sample) : ℕ × ℕ :=
  (min (list.countP (·.success)) u32Max, min (list.countP fun x => !x.success) u32Max)

/-- Twice the window is cut at 64 bits, and then a bucket is taken for stale too early; but not if the
window is no longer than half of the range, nor before all of the range has gone by. -/
def Roomy (window elapsed : ℕ) : Prop := window ≤ 2 ^ 63 ∨ elapsed < u64Max

instance (window elapsed : ℕ) : Decidable (Roomy window elapsed) := by
  unfold Roomy
  infer_instance

/-- How the samples lie: those dropped, those of the previous bucket and those of the current one. -/
structure Tracks (window created now : ℕ) (c : RollingCounts) (dropped previous current : List Sample) : Prop where
  width : c.windowMillis = window
  notBefore : created ≤ c.currentStartMs
  started : c.currentStartMs ≤ now
  currentCounts : (c.currentSuccess, c.currentFailure) = tally current
  previousCounts : (c.previousSuccess, c.previousFailure) = tally previous
  inCurrent : ∀ x ∈ current, c.currentStartMs ≤ x.time ∧ x.time < c.currentStartMs + window
  inPrevious : ∀ x ∈ previous, x.time ≤ c.currentStartMs ∧ c.currentStartMs < x.time + 2 * window
  past : Roomy window (now - created) → ∀ x ∈ dropped, x.time + window ≤ now

theorem tally_concat (list : List Sample) (success : Bool) (time : ℕ) :
    tally (list ++ [⟨success, time⟩]) =
      if success then (satAdd u32Max (tally list).1 1, (tally list).2)
      else ((tally list).1, satAdd u32Max (tally list).2 1) := by
  simp only [tally, countP_append, countP_singleton, satAdd_min]
  cases success <;> rfl

/-- The counts of two buckets together. -/
theorem tally_append (list more : List Sample) :
    tally (list ++ more) =
      (satAdd u32Max (tally more).1 (tally list).1, satAdd u32Max (tally more).2 (tally list).2) := by
  simp only [tally, countP_append, satAdd]
  refine Prod.ext ?_ ?_ <;> dsimp only <;> omega

variable {window created now later : ℕ} {c : RollingCounts} {dropped previous current : List Sample}

theorem Roomy.mono {window elapsed more : ℕ} (h : Roomy window more) (hle : elapsed ≤ more) : Roomy window elapsed :=
  h.imp_right fun hlt => Nat.lt_of_le_of_lt hle hlt

theorem tracks_new (window created : ℕ) : Tracks window created created (new window created) [] [] [] where
  width := rfl
  notBefore := le_rfl
  started := le_rfl
  currentCounts := rfl
  previousCounts := rfl
  inCurrent := fun _ hx => absurd hx not_mem_nil
  inPrevious := fun _ hx => absurd hx not_mem_nil
  past := fun _ _ hx => absurd hx not_mem_nil

/-- Time goes by. -/
theorem Tracks.wait (h : Tracks window created now c dropped previous current) (hle : now ≤ later) :
    Tracks window created later c dropped previous current :=
  { h with
    started := h.started.trans hle
    past := fun hroomy x hx => (h.past (hroomy.mono (Nat.sub_le_sub_right hle _)) x hx).trans hle }

/-- What is in the previous bucket at a rotation is older than the window. -/
theorem Tracks.past_previous (h : Tracks window created now c dropped previous current)
    (hnow : c.currentStartMs + window ≤ now) : ∀ x ∈ previous, x.time + window ≤ now := fun x hx => by
  have hbefore := (h.inPrevious x hx).1
  omega

/-- **A rotation** drops nothing of the last window. -/
theorem Tracks.rotate (h : Tracks window created now c dropped previous current) (hpos : 0 < window)
    (hnow : now ≤ u64Max) :
    ∃ dropped' previous' current', dropped' ++ previous' ++ current' = dropped ++ previous ++ current ∧
      Tracks window created now (c.rotateIfNeeded now) dropped' previous' current' ∧
      now < (c.rotateIfNeeded now).currentStartMs + window := by
  have hstart := h.started
  have hcreated := h.notBefore
  have hpast := h.past
  rw [rotateIfNeeded, h.width]
  dsimp only
  split
  · rename_i hrecent
    exact ⟨dropped, previous, current, rfl, h, by omega⟩
  · rename_i hold
    have hpastPrevious := h.past_previous (show c.currentStartMs + window ≤ now by omega)
    by_cases hstale : satMul u64Max window 2 ≤ now - c.currentStartMs
    · -- everything is dropped; the product was cut only where the window is more than half of the range
      simp only [hstale, if_true]
      refine ⟨dropped ++ previous ++ current, [], [], by simp, ?_, Nat.lt_add_of_pos_right hpos⟩
      refine ⟨rfl, hcreated.trans hstart, le_rfl, rfl, rfl, fun _ hx => absurd hx not_mem_nil,
        fun _ hx => absurd hx not_mem_nil, fun hroomy x hx => ?_⟩
      obtain hx | hx := mem_append.1 hx
      · obtain hx | hx := mem_append.1 hx
        · exact hpast hroomy x hx
        · exact hpastPrevious x hx
      · have hlate := (h.inCurrent x hx).2
        unfold satMul u64Max at hstale
        unfold Roomy u64Max at hroomy
        omega
    · simp only [hstale, if_false]
      refine ⟨dropped ++ previous, current, [], by simp, ?_, Nat.lt_add_of_pos_right hpos⟩
      refine ⟨rfl, hcreated.trans hstart, le_rfl, rfl, h.currentCounts, fun _ hx => absurd hx not_mem_nil,
        fun x hx => ?_, fun hroomy x hx => ?_⟩
      · obtain ⟨hearly, hlate⟩ := h.inCurrent x hx
        have hwidth : window * 2 ≤ u64Max ∨ u64Max < window * 2 := le_or_gt _ _
        unfold satMul at hstale
        show x.time ≤ now ∧ now < x.time + 2 * window
        omega
      · obtain hx | hx := mem_append.1 hx
        · exact hpast hroomy x hx
        · exact hpastPrevious x hx

/-- A sample is counted in the current bucket. -/
theorem Tracks.record (h : Tracks window created now c dropped previous current)
    (hnow : now < c.currentStartMs + window) (success : Bool) :
    Tracks window created now
      (if success then { c with currentSuccess := satAdd u32Max c.currentSuccess 1 }
        else { c with currentFailure := satAdd u32Max c.currentFailure 1 })
      dropped previous (current ++ [⟨success, now⟩]) := by
  have hcounts := h.currentCounts
  have htimes : ∀ x ∈ current ++ [⟨success, now⟩],
      c.currentStartMs ≤ x.time ∧ x.time < c.currentStartMs + window := by
    intro x hx
    obtain hx | hx := mem_append.1 hx
    · exact h.inCurrent x hx
    · rw [mem_singleton.1 hx]
      exact ⟨h.started, hnow⟩
  have hsuccess : c.currentSuccess = (tally current).1 := congrArg Prod.fst hcounts
  have hfailure : c.currentFailure = (tally current).2 := congrArg Prod.snd hcounts
  cases success with
  | true =>
    refine ⟨h.width, h.notBefore, h.started, ?_, h.previousCounts, htimes, h.inPrevious, h.past⟩
    rw [tally_concat, if_pos rfl, ← hsuccess, ← hfailure]
    rfl
  | false =>
    refine ⟨h.width, h.notBefore, h.started, ?_, h.previousCounts, htimes, h.inPrevious, h.past⟩
    rw [tally_concat, if_neg Bool.false_ne_true, ← hsuccess, ← hfailure]
    rfl

/-! ### Runs -/

/-- The times of the calls, from when the counts were made until now. -/
def Ordered (created : ℕ) (calls : List Call) (now : ℕ) : Prop :=
  (created :: (calls.map Call.time ++ [now])).Pairwise (· ≤ ·)

instance (created : ℕ) (calls : List Call) (now : ℕ) : Decidable (Ordered created calls now) := by
  unfold Ordered
  infer_instance

theorem samples_concat (calls : List Call) (call : Call) :
    samples (calls ++ [call]) = samples calls ++ call.samples := by
  rw [samples, samples, flatMap_append, flatMap_singleton]

/-- After every run the samples lie as the counts say. -/
theorem tracks_run {calls : List Call} (hpos : 0 < window) (horder : Ordered created calls now)
    (hnow : now ≤ u64Max) :
    ∃ dropped previous current, dropped ++ previous ++ current = samples calls ∧
      Tracks window created now (Runs.run step (new window created) calls) dropped previous current := by
  induction calls using List.reverseRecOn generalizing now with
  | nil =>
    have hle : created ≤ now := rel_of_pairwise_cons horder (mem_append_right _ (mem_singleton_self now))
    exact ⟨[], [], [], rfl, (tracks_new window created).wait hle⟩
  | append_singleton calls call ih =>
    have hle : call.time ≤ now := by
      rw [Ordered, pairwise_cons, map_append, append_assoc] at horder
      exact rel_of_pairwise_cons (pairwise_append.1 horder.2).2.1 (mem_singleton_self now)
    have hbefore : Ordered created calls call.time := by
      rw [Ordered, map_append, map_singleton, append_assoc] at horder
      refine horder.sublist (Sublist.cons_cons _ ((Sublist.refl _).append ?_))
      simp
    obtain ⟨dropped, previous, current, hsplit, htracks⟩ := ih hbefore (hle.trans hnow)
    obtain ⟨dropped, previous, current, hsame, htracks, hrecent⟩ := htracks.rotate hpos (hle.trans hnow)
    rw [Runs.run_snoc, samples_concat, ← hsplit, ← hsame]
    cases call with
    | record success t =>
      refine ⟨dropped, previous, current ++ [⟨success, t⟩], (append_assoc ..).symm, ?_⟩
      exact (htracks.record hrecent success).wait hle
    | totals t => exact ⟨dropped, previous, current, (append_nil _).symm, htracks.wait hle⟩

/-- **What a rolling window counts.**  The samples that are counted are the last ones, each once; none of
them was recorded three windows ago or more; and every sample of the last window is among them, where twice
the window is not cut. -/
theorem totals_cover {calls : List Call} (hpos : 0 < window) (horder : Ordered created calls now)
    (hnow : now ≤ u64Max) :
    ∃ before counted, samples calls = before ++ counted ∧
      ((Runs.run step (new window created) calls).totals now).1 = tally counted ∧
      (∀ x ∈ counted, now < x.time + 3 * window) ∧
      (Roomy window (now - created) → ∀ x ∈ before, x.time + window ≤ now) := by
  obtain ⟨dropped, previous, current, hsplit, htracks⟩ := tracks_run hpos horder hnow
  obtain ⟨dropped, previous, current, hsame, htracks, hrecent⟩ := htracks.rotate hpos hnow
  refine ⟨dropped, previous ++ current, ?_, ?_, fun x hx => ?_, htracks.past⟩
  · rw [← append_assoc, hsame, hsplit]
  · rw [tally_append, ← htracks.currentCounts, ← htracks.previousCounts]
    rfl
  · obtain hx | hx := mem_append.1 hx
    · have hbounds := (htracks.inPrevious x hx).2
      omega
    · have hbounds := (htracks.inCurrent x hx).1
      omega

/-- A window of one second. -/
theorem totals_cover_second :
    ∃ before counted, samples [.record true 100, .record false 900, .totals 1500, .record true 1900] =
        before ++ counted ∧
      ((Runs.run step (new 1000 0) [.record true 100, .record false 900, .totals 1500, .record true 1900]).totals
        2000).1 = tally counted ∧
      (∀ x ∈ counted, 2000 < x.time + 3 * 1000) ∧
      (Roomy 1000 (2000 - 0) → ∀ x ∈ before, x.time + 1000 ≤ 2000) :=
  totals_cover (by decide) (by decide) (by decide)

/-- **A sample of the last window is not counted**, in a window of the whole range of 64 bits when all of
that range has gone by. -/
theorem totals_cut :
    ¬∀ window created calls now, 0 < window → window ≤ u64Max → Ordered created calls now → now ≤ u64Max →
      ∃ before counted, samples calls = before ++ counted ∧
        ((Runs.run step (new window created) calls).totals now).1 = tally counted ∧
        ∀ x ∈ before, x.time + window ≤ now := by
  intro h
  obtain ⟨before, counted, hsplit, hcounts, hpast⟩ :=
    h u64Max 0 [.record true 5] u64Max (by decide) le_rfl (by decide) le_rfl
  cases before with
  | nil =>
    obtain rfl : [⟨true, 5⟩] = counted := hsplit
    exact absurd hcounts (by decide)
  | cons x before =>
    obtain ⟨rfl, -⟩ := cons.inj hsplit
    exact absurd (hpast ⟨true, 5⟩ mem_cons_self) (by decide)

end RollingCounts

end HypeLlm.Health
