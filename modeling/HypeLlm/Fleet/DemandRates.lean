import HypeLlm.Fleet.Planning
import HypeLlm.Fleet.ActivationQueue
import HypeLlm.Health.Registry
import HypeLlm.Lib.Maps
import HypeLlm.Lib.Runs

/-!
# The rates the planner reads

Requests are counted in windows of ten seconds on a grid that starts with the first call.  A window is
closed by whichever call comes after its end, a read as well as a request, and all the windows that have
closed since are folded into the averages by that one call.  The capabilities that are folded are those
with an average, followed by those with requests in the window.  A capability with both is folded twice.

* `Tracks.roll` — what one call that closes windows folds, where no capability has both;
* **`rates_exact`** — as long as a capability has requests in one closed window at most, its average was
  fed one sample for each window since that one, and snapshots taken in between are not felt;
* `Sample.fed_twice`, `Sample.read_disturbs` — a busy window that follows another is counted twice, and
  the snapshots in between decide when.
-/

namespace HypeLlm.Fleet.DemandRates

open HypeLlm.Words HypeLlm.Runs HypeLlm.Routing
open HypeLlm.Health (Ewma)
open Std (TreeMap)

def demandWindowMs : ℕ := 10000

/-- The most closed windows folded in one roll. -/
def maxWindowsPerRoll : ℕ := 256

/-- A window's count, scaled to a minute. -/
def perMinute (count : ℕ) : ℕ := satMul u64Max count 60000 / demandWindowMs

structure TrackerState where
  /-- Smoothed arrivals per minute. -/
  rate : TreeMap Capability Ewma capabilityOrder
  /-- Arrivals in the current window. -/
  window : TreeMap Capability ℕ capabilityOrder
  /-- When the current window opened. -/
  windowStartedMs : Option ℕ
  /-- Requests waiting right now. -/
  queued : Capability → ℕ
  /-- When a deployment last served a request. -/
  lastServedMs : DeploymentId → Option ℕ

namespace TrackerState

def init : TrackerState := ⟨∅, ∅, none, fun _ => 0, fun _ => none⟩

/-- One capability's samples for the windows that have closed: the open window's count, then a zero for
each further one. -/
def close (ewma : Ewma) (count closed : ℕ) : Ewma :=
  (List.replicate (min closed maxWindowsPerRoll - 1) 0).foldl Ewma.observe (ewma.observe (perMinute count))

def rollWindow (s : TrackerState) (nowMs : ℕ) : TrackerState :=
  match s.windowStartedMs with
  | none => { s with windowStartedMs := some nowMs }
  | some started =>
    let elapsed := nowMs - started
    if elapsed < demandWindowMs then s
    else
      let closed := elapsed / demandWindowMs
      let seen := s.rate.keys ++ s.window.keys
      { s with
        rate := seen.foldl (fun rate c =>
          rate.insert c (close (rate[c]?.getD Ewma.smooth) (s.window[c]?.getD 0) closed)) s.rate
        window := ∅
        windowStartedMs := some (satAdd u64Max started (satMul u64Max closed demandWindowMs)) }

def recordRequest (s : TrackerState) (capability : Capability) (nowMs : ℕ) : TrackerState :=
  let s := s.rollWindow nowMs
  { s with window := s.window.insert capability (satAdd u64Max (s.window[capability]?.getD 0) 1) }

def recordServed (s : TrackerState) (deployment : DeploymentId) (nowMs : ℕ) : TrackerState :=
  { s with lastServedMs := Function.update s.lastServedMs deployment (some nowMs) }

def enterQueue (s : TrackerState) (capability : Capability) : TrackerState :=
  { s with queued := Function.update s.queued capability (satAdd u32Max (s.queued capability) 1) }

def leaveQueue (s : TrackerState) (capability : Capability) : TrackerState :=
  { s with queued := Function.update s.queued capability (s.queued capability - 1) }

/-- The rates of a snapshot, for the capabilities that have one: the average, or what the open window's
count would report where that is more. -/
def rates (s : TrackerState) (capability : Capability) : Option ℕ :=
  match s.rate[capability]?, s.window[capability]? with
  | none, none => none
  | ewma, count => some (max ((ewma.bind Ewma.value).getD 0) ((count.map perMinute).getD 0))

def snapshot (s : TrackerState) (nowMs : ℕ) : DemandSnapshot × TrackerState :=
  let s := s.rollWindow nowMs
  ({ ratePerMinute := fun c => (s.rates c).getD 0
     queued := s.queued
     idleMs := fun d => (s.lastServedMs d).map (nowMs - ·) }, s)

end TrackerState

/-! ### Runs -/

inductive Call where
  | recordRequest (capability : Capability) (nowMs : ℕ)
  | recordServed (deployment : DeploymentId) (nowMs : ℕ)
  | enterQueue (capability : Capability)
  | leaveQueue (capability : Capability)
  | snapshot (nowMs : ℕ)
  deriving DecidableEq

def step (s : TrackerState) : Call → TrackerState
  | .recordRequest c nowMs => s.recordRequest c nowMs
  | .recordServed d nowMs => s.recordServed d nowMs
  | .enterQueue c => s.enterQueue c
  | .leaveQueue c => s.leaveQueue c
  | .snapshot nowMs => (s.snapshot nowMs).2

/-- The tracker after some calls, oldest first. -/
def tracker (calls : List Call) : TrackerState := run step .init calls

/-- The time of a call that may close windows. -/
def Call.timeOf : Call → Option ℕ
  | .recordRequest _ nowMs | .snapshot nowMs => some nowMs
  | _ => none

def Call.isSnapshot : Call → Bool
  | .snapshot _ => true
  | _ => false

def times (calls : List Call) : List ℕ := calls.filterMap Call.timeOf

/-- Times do not go back, no gap is longer than the windows folded in one roll, and times fit their
type. -/
structure Proper (calls : List Call) : Prop where
  sorted : (times calls).Pairwise (· ≤ ·)
  gaps : (times calls).IsChain fun t u => u - t ≤ maxWindowsPerRoll * demandWindowMs
  fits : ∀ t ∈ times calls, t ≤ u64Max

instance (calls : List Call) : Decidable (Proper calls) :=
  decidable_of_iff (_ ∧ _ ∧ _) ⟨fun h => ⟨h.1, h.2.1, h.2.2⟩, fun h => ⟨h.1, h.2, h.3⟩⟩

/-! ### What should be counted -/

/-- When the grid of windows starts. -/
def start (calls : List Call) : ℕ := (times calls).headD 0

/-- The window of the grid a time lies in. -/
def windowOf (start t : ℕ) : ℕ := (t - start) / demandWindowMs

/-- The call is a request for the capability, in the window. -/
def Call.asks (start : ℕ) (c : Capability) (k : ℕ) : Call → Bool
  | .recordRequest capability nowMs => capability = c && windowOf start nowMs = k
  | _ => false

/-- How many requests for the capability came in a window. -/
def requests (start : ℕ) (calls : List Call) (c : Capability) (k : ℕ) : ℕ :=
  calls.countP (Call.asks start c k)

/-- How many windows have closed by the last call. -/
def closed (calls : List Call) : ℕ := windowOf (start calls) ((times calls).getLastD 0)

/-- One sample for each of the first `k` windows, from the first that was not empty on. -/
def samples (count : ℕ → ℕ) (k : ℕ) : List ℕ :=
  ((List.range k).dropWhile fun i => count i = 0).map fun i => perMinute (count i)

/-- An average fed some samples; none is kept of no samples. -/
def averaged : List ℕ → Option Ewma
  | [] => none
  | xs => some (xs.foldl Ewma.observe Ewma.smooth)

/-- No capability has requests in two of the first `k` windows. -/
def OneWindow (start : ℕ) (calls : List Call) (k : ℕ) : Prop :=
  ∀ c, ∀ i < k, ∀ j < k, requests start calls c i ≠ 0 → requests start calls c j ≠ 0 → i = j

/-! ### Samples, window by window -/

section Samples

variable {n m : ℕ → ℕ} {k : ℕ}

@[simp] theorem perMinute_zero : perMinute 0 = 0 := rfl

/-- A count that has stopped at the top reads like the true one. -/
theorem perMinute_min (count : ℕ) : perMinute (min count u64Max) = perMinute count := by
  have hm : satMul u64Max (min count u64Max) 60000 = satMul u64Max count 60000 := by
    unfold satMul
    omega
  rw [perMinute, perMinute, hm]

theorem samples_congr (h : ∀ i < k, n i = m i) : samples n k = samples m k := by
  unfold samples
  have hd : ((List.range k).dropWhile fun i => n i = 0) = (List.range k).dropWhile fun i => m i = 0 := by
    have hp : ∀ l : List ℕ, (∀ i ∈ l, n i = m i) →
        (l.dropWhile fun i => n i = 0) = l.dropWhile fun i => m i = 0 := by
      intro l hl
      induction l with
      | nil => rfl
      | cons i l ih =>
        have hi := hl i List.mem_cons_self
        have ih := ih fun j hj => hl j (List.mem_cons_of_mem i hj)
        simp only [List.dropWhile_cons, hi, ih]
    exact hp _ fun i hi => h i (List.mem_range.mp hi)
  rw [hd]
  refine List.map_congr_left fun i hi => ?_
  rw [h i (List.mem_range.mp ((List.dropWhile_sublist _).subset hi))]

theorem samples_succ :
    samples n (k + 1) = if samples n k = [] ∧ n k = 0 then [] else samples n k ++ [perMinute (n k)] := by
  unfold samples
  rw [List.range_succ, List.dropWhile_append]
  by_cases hd : ((List.range k).dropWhile fun i => n i = 0) = []
  · by_cases hk : n k = 0 <;> simp [hd, hk]
  · simp [hd]

theorem samples_eq_nil_iff : samples n k = [] ↔ ∀ i < k, n i = 0 := by
  simp [samples]

theorem samples_quiet (j : ℕ) (h : ∀ i, k ≤ i → i < k + j → n i = 0) :
    samples n (k + j) = if samples n k = [] then [] else samples n k ++ List.replicate j 0 := by
  induction j with
  | zero => split <;> simp_all
  | succ j ih =>
    rw [← Nat.add_assoc, samples_succ, ih fun i hi hj => h i hi (by omega), h (k + j) (by omega) (by omega)]
    by_cases hs : samples n k = []
    · simp [hs]
    · simp [hs, List.replicate_succ']

/-- The samples of windows that close together: the first of them has the requests. -/
theorem samples_close {k' : ℕ} (hk : k < k') (h : ∀ i, k < i → n i = 0) :
    samples n k' = if samples n k = [] ∧ n k = 0 then []
      else samples n k ++ perMinute (n k) :: List.replicate (k' - k - 1) 0 := by
  have hq := samples_quiet (n := n) (k := k + 1) (k' - k - 1) fun i hi _ => h i (by omega)
  rw [show k + 1 + (k' - k - 1) = k' by omega, samples_succ] at hq
  rw [hq]
  by_cases he : samples n k = [] ∧ n k = 0
  · simp [he]
  · rw [if_neg he, if_neg he, if_neg (by simp)]
    simp

theorem averaged_append (xs ys : List ℕ) (y : ℕ) :
    averaged (xs ++ y :: ys) = some ((y :: ys).foldl Ewma.observe ((averaged xs).getD Ewma.smooth)) := by
  cases xs with
  | nil => rfl
  | cons x xs => simp [averaged, List.foldl_append]

theorem averaged_eq_none {xs : List ℕ} : averaged xs = none ↔ xs = [] := by
  cases xs <;> simp [averaged]

end Samples

/-! ### What a tracker holds -/

theorem requests_append (start : ℕ) (calls calls' : List Call) (c : Capability) (k : ℕ) :
    requests start (calls ++ calls') c k = requests start calls c k + requests start calls' c k :=
  List.countP_append

theorem OneWindow.mono {start k k' : ℕ} {calls calls' : List Call} (h : OneWindow start (calls ++ calls') k')
    (hk : k ≤ k') : OneWindow start calls k := by
  intro c i hi j hj hin hjn
  refine h c i (by omega) j (by omega) ?_ ?_
  · rw [requests_append]
    omega
  · rw [requests_append]
    omega

/-- The tracker holds the averages of the first `k` windows and the counts of the next. -/
structure Tracks (start : ℕ) (calls : List Call) (k : ℕ) (s : TrackerState) : Prop where
  started : s.windowStartedMs = some (start + k * demandWindowMs)
  window : ∀ c, s.window[c]? =
    if requests start calls c k = 0 then none else some (min (requests start calls c k) u64Max)
  rate : ∀ c, s.rate[c]? = averaged (samples (requests start calls c) k)
  past : ∀ c i, k < i → requests start calls c i = 0

namespace Tracks

variable {start k : ℕ} {calls : List Call} {s : TrackerState}

theorem getD_window (h : Tracks start calls k s) (c : Capability) :
    perMinute (s.window[c]?.getD 0) = perMinute (requests start calls c k) := by
  rw [h.window c]
  split
  · next hr => rw [hr, Option.getD_none]
  · rw [Option.getD_some, perMinute_min]

theorem mem_rate_keys (h : Tracks start calls k s) (c : Capability) :
    c ∈ s.rate.keys ↔ samples (requests start calls c) k ≠ [] := by
  rw [TreeMap.mem_keys, TreeMap.mem_iff_isSome_getElem?, h.rate c, Option.isSome_iff_ne_none, ne_eq,
    averaged_eq_none]

theorem mem_window_keys (h : Tracks start calls k s) (c : Capability) :
    c ∈ s.window.keys ↔ requests start calls c k ≠ 0 := by
  rw [TreeMap.mem_keys, TreeMap.mem_iff_isSome_getElem?, h.window c]
  split
  · next hr => simp [hr]
  · next hr => simp [hr]

/-- A capability is among those that a closing call folds once, if it was asked for at all. -/
theorem count_seen (h : Tracks start calls k s) {k' : ℕ} (hk : k < k') (hone : OneWindow start calls k')
    (c : Capability) :
    (s.rate.keys ++ s.window.keys).count c =
      if samples (requests start calls c) k = [] ∧ requests start calls c k = 0 then 0 else 1 := by
  have hrate : s.rate.keys.count c = if c ∈ s.rate.keys then 1 else 0 := TreeMap.nodup_keys.count
  have hwindow : s.window.keys.count c = if c ∈ s.window.keys then 1 else 0 := TreeMap.nodup_keys.count
  rw [List.count_append, hrate, hwindow]
  simp only [h.mem_rate_keys c, h.mem_window_keys c]
  by_cases hs : samples (requests start calls c) k = []
  · by_cases hn : requests start calls c k = 0 <;> simp [hs, hn]
  · -- requests in a window before leave none for this one
    have hn : requests start calls c k = 0 := by
      rw [samples_eq_nil_iff] at hs
      push Not at hs
      obtain ⟨i, hi, hin⟩ := hs
      by_contra hn
      exact absurd (hone c i (by omega) k hk hin hn) (by omega)
    simp [hs, hn]

/-- **One call that closes windows.**  A capability with an average has no requests in the window, so
each is folded once. -/
theorem roll (h : Tracks start calls k s) {t : ℕ} (hk : start + k * demandWindowMs ≤ t) (ht : t ≤ u64Max)
    (hgap : windowOf start t ≤ k + maxWindowsPerRoll) (hone : OneWindow start calls (windowOf start t)) :
    Tracks start calls (windowOf start t) (s.rollWindow t) := by
  by_cases hlt : t - (start + k * demandWindowMs) < demandWindowMs
  · have hsame : windowOf start t = k := by
      unfold windowOf demandWindowMs at *
      omega
    have hroll : s.rollWindow t = s := by
      unfold TrackerState.rollWindow
      rw [h.started]
      exact if_pos hlt
    rw [hroll, hsame]
    exact h
  · set closed := (t - (start + k * demandWindowMs)) / demandWindowMs with hclosed
    have hk' : windowOf start t = k + closed := by
      unfold windowOf demandWindowMs at *
      omega
    have hpos : 1 ≤ closed := by
      unfold demandWindowMs at *
      omega
    have hmin : min closed maxWindowsPerRoll = closed := by omega
    have hend : closed * demandWindowMs ≤ t - (start + k * demandWindowMs) := Nat.div_mul_le_self _ _
    have hroll : s.rollWindow t =
        { s with
          rate := (s.rate.keys ++ s.window.keys).foldl (fun rate c => rate.insert c
            (TrackerState.close (rate[c]?.getD Ewma.smooth) (s.window[c]?.getD 0) closed)) s.rate
          window := ∅
          windowStartedMs :=
            some (satAdd u64Max (start + k * demandWindowMs) (satMul u64Max closed demandWindowMs)) } := by
      unfold TrackerState.rollWindow
      rw [h.started]
      exact if_neg hlt
    rw [hroll]
    refine ⟨?_, ?_, ?_, fun c i hi => h.past c i (by omega)⟩
    · show some _ = _
      rw [satMul, Nat.min_eq_left (by omega), satAdd_eq (by omega), hk', Nat.add_mul, Nat.add_assoc]
    · intro c
      rw [h.past c (windowOf start t) (by omega), if_pos rfl]
      exact TreeMap.getElem?_emptyc
    · intro c
      have hcount := h.count_seen (show k < windowOf start t by omega) hone c
      have hclose := samples_close (n := requests start calls c) (show k < windowOf start t by omega)
        fun i hi => h.past c i hi
      rw [hclose]
      refine (Maps.getElem?_foldl_insert
        (fun c e => TrackerState.close e (s.window[c]?.getD 0) closed) Ewma.smooth c _ _).trans ?_
      rw [hcount]
      split_ifs with hmem hnone hnone
      · rw [← List.count_pos_iff, hcount, if_pos hnone] at hmem
        exact absurd hmem (lt_irrefl 0)
      · rw [Function.iterate_one, averaged_append, h.rate c, List.foldl_cons, TrackerState.close,
          h.getD_window c, hmin, hk', Nat.add_sub_cancel_left]
      · rw [h.rate c, hnone.1]
      · rw [← List.count_pos_iff, hcount, if_neg hnone] at hmem
        exact absurd one_pos hmem

/-- Calls that are no requests for a window leave what is tracked. -/
theorem congr {calls' : List Call} {s' : TrackerState} (h : Tracks start calls k s)
    (hr : ∀ c i, requests start calls' c i = requests start calls c i)
    (hs : s'.windowStartedMs = s.windowStartedMs ∧ s'.window = s.window ∧ s'.rate = s.rate) :
    Tracks start calls' k s' := by
  have hf : ∀ c, requests start calls' c = requests start calls c := fun c => funext (hr c)
  refine ⟨hs.1.trans h.started, fun c => ?_, fun c => ?_, fun c i hi => (hr c i).trans (h.past c i hi)⟩
  · rw [hs.2.1, h.window c, hr]
  · rw [hs.2.2, h.rate c, hf]

theorem requests_record (calls : List Call) (a c : Capability) (t i : ℕ) :
    requests start (calls ++ [Call.recordRequest a t]) c i =
      requests start calls c i + if a = c ∧ windowOf start t = i then 1 else 0 := by
  rw [requests_append]
  congr 1
  simp [requests, Call.asks, List.countP_singleton]

/-- A request is counted in the window that is open. -/
theorem record (h : Tracks start calls k s) {t : ℕ} (ht : windowOf start t = k) (a : Capability) :
    Tracks start (calls ++ [Call.recordRequest a t]) k
      { s with window := s.window.insert a (satAdd u64Max (s.window[a]?.getD 0) 1) } := by
  refine ⟨h.started, fun c => ?_, fun c => ?_, fun c i hi => ?_⟩
  · show (s.window.insert a (satAdd u64Max (s.window[a]?.getD 0) 1))[c]? = _
    rw [Maps.getElem?_insert]
    by_cases hac : c = a
    · subst hac
      have hreq : requests start (calls ++ [Call.recordRequest c t]) c k = requests start calls c k + 1 := by
        rw [requests_record, if_pos ⟨rfl, ht⟩]
      rw [if_pos rfl, hreq, if_neg (Nat.succ_ne_zero _), h.window c]
      by_cases hn : requests start calls c k = 0
      · rw [if_pos hn, hn, Option.getD_none, satAdd]
      · rw [if_neg hn, Option.getD_some, satAdd_min]
    · have hreq : requests start (calls ++ [Call.recordRequest a t]) c k = requests start calls c k := by
        rw [requests_record, if_neg fun hc => hac hc.1.symm, Nat.add_zero]
      rw [if_neg hac, hreq]
      exact h.window c
  · refine (h.rate c).trans (congrArg averaged (samples_congr fun i hi => ?_))
    rw [requests_record, if_neg (by omega), Nat.add_zero]
  · rw [requests_record, h.past c i hi, if_neg (by omega)]

end Tracks

/-! ### Whole runs -/

theorem times_append (calls calls' : List Call) : times (calls ++ calls') = times calls ++ times calls' :=
  List.filterMap_append

/-- Before the first call that could close a window nothing was requested. -/
theorem requests_of_times_eq_nil {calls : List Call} (h : times calls = []) (start : ℕ) (c : Capability)
    (k : ℕ) : requests start calls c k = 0 := by
  refine List.countP_eq_zero.mpr fun call hcall => ?_
  have hnone := List.filterMap_eq_nil_iff.mp h call hcall
  cases call <;> simp_all [Call.timeOf, Call.asks]

theorem Proper.left {calls calls' : List Call} (h : Proper (calls ++ calls')) : Proper calls := by
  obtain ⟨hsorted, hgaps, hfits⟩ := h
  rw [times_append] at *
  exact ⟨(List.pairwise_append.mp hsorted).1, hgaps.left_of_append,
    fun t ht => hfits t (List.mem_append_left _ ht)⟩

/-- The tracker has not been called with a time yet. -/
structure Unstarted (s : TrackerState) : Prop where
  started : s.windowStartedMs = none
  window : ∀ c : Capability, s.window[c]? = none
  rate : ∀ c : Capability, s.rate[c]? = none

theorem Unstarted.roll {s : TrackerState} (h : Unstarted s) {calls : List Call} (hc : times calls = [])
    (t : ℕ) : Tracks t calls 0 (s.rollWindow t) := by
  have hroll : s.rollWindow t = { s with windowStartedMs := some t } := by
    unfold TrackerState.rollWindow
    rw [h.started]
  rw [hroll]
  refine ⟨?_, fun c => ?_, fun c => ?_, fun c i _ => requests_of_times_eq_nil hc t c i⟩
  · show some t = _
    rw [Nat.zero_mul, Nat.add_zero]
  · rw [requests_of_times_eq_nil hc, if_pos rfl]
    exact h.window c
  · exact h.rate c

/-- A call with a time closes windows, and counts if it is a request. -/
theorem Tracks.call {start t : ℕ} {calls : List Call} {s : TrackerState} {call : Call}
    (htime : call.timeOf = some t) (h : Tracks start calls (windowOf start t) (s.rollWindow t)) :
    Tracks start (calls ++ [call]) (windowOf start t) (step s call) := by
  cases call with
  | recordRequest c u =>
    cases htime
    exact h.record rfl c
  | snapshot u =>
    cases htime
    refine h.congr (fun c i => ?_) ⟨rfl, rfl, rfl⟩
    rw [requests_append]
    rfl
  | recordServed | enterQueue | leaveQueue => cases htime

/-- What the tracker of a whole run holds. -/
theorem tracked {calls : List Call} (hp : Proper calls)
    (hone : OneWindow (start calls) calls (closed calls)) :
    if times calls = [] then Unstarted (tracker calls)
    else Tracks (start calls) calls (closed calls) (tracker calls) := by
  induction calls using List.reverseRecOn with
  | nil => exact ⟨rfl, fun c => TreeMap.getElem?_emptyc, fun c => TreeMap.getElem?_emptyc⟩
  | append_singleton calls call ih =>
    have hrun : tracker (calls ++ [call]) = step (tracker calls) call := run_snoc step _ calls call
    cases htime : call.timeOf with
    | none =>
      have htimes : times (calls ++ [call]) = times calls := by
        simp [times, List.filterMap_append, htime]
      have hkept : (step (tracker calls) call).windowStartedMs = (tracker calls).windowStartedMs ∧
          (step (tracker calls) call).window = (tracker calls).window ∧
          (step (tracker calls) call).rate = (tracker calls).rate := by
        cases call <;> first | exact ⟨rfl, rfl, rfl⟩ | cases htime
      have hreq : ∀ start c i, requests start (calls ++ [call]) c i = requests start calls c i := by
        intro start c i
        rw [requests_append]
        cases call <;> first | rfl | cases htime
      have hstart : start (calls ++ [call]) = start calls := by rw [start, htimes, start]
      have hclosed : closed (calls ++ [call]) = closed calls := by rw [closed, hstart, htimes, closed]
      rw [hstart, hclosed] at hone ⊢
      rw [htimes, hrun]
      have ih := ih hp.left (hone.mono le_rfl)
      split_ifs with hn
      · rw [if_pos hn] at ih
        refine ⟨hkept.1.trans ih.started, fun c => ?_, fun c => ?_⟩
        · rw [hkept.2.1]
          exact ih.window c
        · rw [hkept.2.2]
          exact ih.rate c
      · rw [if_neg hn] at ih
        exact ih.congr (hreq _) hkept
    | some t =>
      have htimes : times (calls ++ [call]) = times calls ++ [t] := by
        simp [times, List.filterMap_append, htime]
      have hlast : closed (calls ++ [call]) = windowOf (start (calls ++ [call])) t := by
        rw [closed, htimes, List.getLastD_concat]
      rw [if_neg (by simp [htimes]), hrun, hlast]
      refine Tracks.call htime ?_
      by_cases hn : times calls = []
      · -- the call opens the grid
        have hstart : start (calls ++ [call]) = t := by simp [start, htimes, hn]
        have ih := ih hp.left fun c i _ j _ hi _ => absurd (requests_of_times_eq_nil hn _ c i) hi
        rw [if_pos hn] at ih
        rw [hstart, show windowOf t t = 0 by simp [windowOf]]
        exact ih.roll hn t
      · obtain ⟨l, u, hu⟩ := (List.eq_nil_or_concat (times calls)).resolve_left hn
        rw [List.concat_eq_append] at hu
        have hstart : start (calls ++ [call]) = start calls := by simp [start, htimes, hu]
        have hclosed : closed calls = windowOf (start calls) u := by
          rw [closed, hu, List.getLastD_concat]
        obtain ⟨hsu, hut, hgap, htop⟩ : start calls ≤ u ∧ u ≤ t ∧
            t - u ≤ maxWindowsPerRoll * demandWindowMs ∧ t ≤ u64Max := by
          obtain ⟨hsorted, hgaps, hfits⟩ := hp
          rw [htimes, hu] at hsorted hgaps hfits
          refine ⟨?_, ?_, ?_, hfits t (by simp)⟩
          · rw [start, hu]
            cases l with
            | nil => exact le_rfl
            | cons v l => exact (List.pairwise_cons.mp hsorted).1 u (by simp)
          · exact (List.pairwise_append.mp hsorted).2.2 u (by simp) t (by simp)
          · rw [List.append_assoc] at hgaps
            exact hgaps.right_of_append.rel
        have hle : closed calls ≤ windowOf (start calls) t := by
          rw [hclosed]
          exact Nat.div_le_div_right (by omega)
        rw [hlast, hstart] at hone
        rw [hstart]
        have ih := ih hp.left (hone.mono hle)
        rw [if_neg hn] at ih
        refine ih.roll ?_ htop ?_ (hone.mono le_rfl)
        · have hfloor := Nat.div_mul_le_self (u - start calls) demandWindowMs
          rw [hclosed, windowOf]
          omega
        · rw [hclosed]
          unfold windowOf maxWindowsPerRoll demandWindowMs at *
          omega

/-! ### Reads are not felt -/

/-- The calls of the second list are those of the first, with snapshots inserted. -/
def Inserted (calls calls' : List Call) : Prop :=
  calls.Sublist calls' ∧ calls'.filter (!·.isSnapshot) = calls.filter (!·.isSnapshot)

/-- Requests are counted on the calls that are no snapshots. -/
theorem requests_filter (start : ℕ) (calls : List Call) (c : Capability) (k : ℕ) :
    requests start (calls.filter (!·.isSnapshot)) c k = requests start calls c k := by
  unfold requests
  rw [List.countP_filter]
  refine List.countP_congr fun call _ => ?_
  cases call <;> simp [Call.asks, Call.isSnapshot]

theorem rollWindow_queued (s : TrackerState) (t : ℕ) :
    (s.rollWindow t).queued = s.queued ∧ (s.rollWindow t).lastServedMs = s.lastServedMs := by
  unfold TrackerState.rollWindow
  cases s.windowStartedMs with
  | none => exact ⟨rfl, rfl⟩
  | some started =>
    dsimp only
    split <;> exact ⟨rfl, rfl⟩

/-- Queues and service are kept by the calls that are no snapshots. -/
theorem queued_filter (calls : List Call) :
    (tracker calls).queued = (tracker (calls.filter (!·.isSnapshot))).queued ∧
      (tracker calls).lastServedMs = (tracker (calls.filter (!·.isSnapshot))).lastServedMs := by
  have hstep : ∀ (s s' : TrackerState) (call : Call),
      s.queued = s'.queued ∧ s.lastServedMs = s'.lastServedMs →
      (step s call).queued = (step s' call).queued ∧
        (step s call).lastServedMs = (step s' call).lastServedMs := by
    rintro s s' call ⟨hq, hl⟩
    cases call with
    | recordRequest c t =>
      have h := rollWindow_queued s t
      have h' := rollWindow_queued s' t
      exact ⟨h.1.trans (hq.trans h'.1.symm), h.2.trans (hl.trans h'.2.symm)⟩
    | snapshot t =>
      have h := rollWindow_queued s t
      have h' := rollWindow_queued s' t
      exact ⟨h.1.trans (hq.trans h'.1.symm), h.2.trans (hl.trans h'.2.symm)⟩
    | recordServed d t =>
      refine ⟨hq, ?_⟩
      show Function.update s.lastServedMs _ _ = Function.update s'.lastServedMs _ _
      rw [hl]
    | enterQueue c =>
      refine ⟨?_, hl⟩
      show Function.update s.queued _ _ = Function.update s'.queued _ _
      rw [hq]
    | leaveQueue c =>
      refine ⟨?_, hl⟩
      show Function.update s.queued _ _ = Function.update s'.queued _ _
      rw [hq]
  induction calls using List.reverseRecOn with
  | nil => exact ⟨rfl, rfl⟩
  | append_singleton calls call ih =>
    have hrun : tracker (calls ++ [call]) = step (tracker calls) call := run_snoc step _ calls call
    rw [List.filter_append, hrun]
    by_cases hs : call.isSnapshot
    · obtain ⟨t, rfl⟩ : ∃ t, call = .snapshot t := by
        cases call <;> first | exact ⟨_, rfl⟩ | cases hs
      have h := rollWindow_queued (tracker calls) t
      rw [List.filter_cons_of_neg (by simp [Call.isSnapshot]), List.filter_nil, List.append_nil]
      exact ⟨h.1.trans ih.1, h.2.trans ih.2⟩
    · rw [List.filter_cons_of_pos (by simp [hs]), List.filter_nil]
      have hrun' : tracker (calls.filter (!·.isSnapshot) ++ [call]) =
          step (tracker (calls.filter (!·.isSnapshot))) call := run_snoc step _ _ call
      rw [hrun']
      exact hstep _ _ call ih

/-- The grid starts with a request at the latest. -/
theorem start_recorded (before after : List Call) (c : Capability) (t : ℕ) :
    start (before ++ (.recordRequest c t :: after)) = start (before ++ [Call.recordRequest c t]) := by
  unfold start
  rw [times_append, times_append]
  cases times before <;> rfl

theorem Tracks.rates_eq {start k : ℕ} {calls calls' : List Call} {s s' : TrackerState}
    (h : Tracks start calls k s) (h' : Tracks start calls' k s')
    (hr : ∀ c, requests start calls' c = requests start calls c) : s'.rates = s.rates := by
  funext c
  have hrate : s'.rate[c]? = s.rate[c]? := by rw [h.rate, h'.rate, hr]
  have hwindow : s'.window[c]? = s.window[c]? := by rw [h.window, h'.window, hr]
  unfold TrackerState.rates
  rw [hrate, hwindow]

/-- **Demand rates.**  Times do not go back and no gap is longer than one roll folds.  As long as no
capability has requests in two closed windows, its average was fed one sample for each window closed
since the one it was first asked for in, and snapshots inserted after a request change no later one. -/
theorem rates_exact {calls : List Call} (hp : Proper calls)
    (hone : OneWindow (start calls) calls (closed calls)) :
    (∀ c, (tracker calls).rate[c]? = averaged (samples (requests (start calls) calls c) (closed calls))) ∧
      ∀ (before after after' : List Call) (c : Capability) (t now : ℕ),
        calls = before ++ .recordRequest c t :: after ++ [Call.snapshot now] → Inserted after after' →
        Proper (before ++ .recordRequest c t :: after' ++ [Call.snapshot now]) →
        let s := tracker (before ++ .recordRequest c t :: after)
        let s' := tracker (before ++ .recordRequest c t :: after')
        (s'.rollWindow now).rates = (s.rollWindow now).rates ∧ (s'.snapshot now).1 = (s.snapshot now).1 := by
  have htracked := tracked hp hone
  refine ⟨fun c => ?_, ?_⟩
  · split_ifs at htracked with hn
    · have hnone : samples (requests (start calls) calls c) (closed calls) = [] :=
        samples_eq_nil_iff.mpr fun i _ => requests_of_times_eq_nil hn _ c i
      rw [hnone]
      exact htracked.rate c
    · exact htracked.rate c
  · rintro before after after' c t now rfl hins hp' s s'
    set calls := before ++ .recordRequest c t :: after ++ [Call.snapshot now] with hcalls
    set calls' := before ++ .recordRequest c t :: after' ++ [Call.snapshot now] with hcalls'
    have hstart : start calls' = start calls := by
      rw [hcalls, hcalls', List.append_assoc, List.append_assoc]
      exact (start_recorded before _ c t).trans (start_recorded before _ c t).symm
    have hlast : ∀ l : List Call, (times (l ++ [Call.snapshot now])).getLastD 0 = now := fun l => by
      rw [times_append]
      exact List.getLastD_concat
    have hclosed : closed calls' = closed calls := by
      rw [closed, closed, hstart, hcalls, hcalls', hlast, hlast]
    have hfilter : calls'.filter (!·.isSnapshot) = calls.filter (!·.isSnapshot) := by
      rw [hcalls, hcalls']
      simp only [List.filter_append, List.filter_cons, hins.2]
    have hreq : ∀ u c, requests u calls' c = requests u calls c := fun u c => funext fun k => by
      rw [← requests_filter, hfilter, requests_filter]
    have hone' : OneWindow (start calls') calls' (closed calls') := by
      rw [hstart, hclosed]
      intro a i hi j hj
      rw [hreq]
      exact hone a i hi j hj
    have hne : ∀ l : List Call, times (l ++ [Call.snapshot now]) ≠ [] := fun l => by
      rw [times_append]
      exact List.append_ne_nil_of_right_ne_nil _ (List.cons_ne_nil _ _)
    have htracked' := tracked hp' hone'
    rw [if_neg (hne _)] at htracked htracked'
    rw [hstart, hclosed] at htracked'
    have hrun : tracker calls = s.rollWindow now := run_snoc step _ _ (.snapshot now)
    have hrun' : tracker calls' = s'.rollWindow now := run_snoc step _ _ (.snapshot now)
    have hrates : (s'.rollWindow now).rates = (s.rollWindow now).rates := by
      rw [← hrun, ← hrun']
      exact htracked.rates_eq htracked' (hreq _)
    have hkept : (s'.rollWindow now).queued = (s.rollWindow now).queued ∧
        (s'.rollWindow now).lastServedMs = (s.rollWindow now).lastServedMs := by
      have h := queued_filter calls
      have h' := queued_filter calls'
      rw [hfilter, ← h.1, ← h.2] at h'
      rw [← hrun, ← hrun']
      exact h'
    refine ⟨hrates, ?_⟩
    show DemandSnapshot.mk _ _ _ = DemandSnapshot.mk _ _ _
    rw [hrates, hkept.1, hkept.2]

namespace Sample

/-- A request, ten of them in the window after, and snapshots. -/
def busy (reads : List ℕ) : List Call :=
  .recordRequest .chat 0 :: (List.replicate 10 (Call.recordRequest .chat 10000) ++ reads.map Call.snapshot)

/-- The second window is folded twice: the average was fed three samples, for two windows.  And the
snapshot that closes it decides whether the empty windows are folded between. -/
theorem fed_twice :
    (Proper (busy [20000]) ∧ (tracker (busy [20000])).rate[Capability.chat]?.bind Ewma.value = some 16 ∧
      (averaged (samples (requests 0 (busy [20000]) .chat) 2)).bind Ewma.value = some 11) ∧
    Proper (busy [40000]) ∧ Proper (busy [20000, 40000]) ∧
    ((tracker (busy [])).snapshot 40000).1.ratePerMinute .chat = 11 ∧
    ((tracker (busy [20000])).snapshot 40000).1.ratePerMinute .chat = 13 := by
  refine ⟨⟨?_, ?_, ?_⟩, ?_, ?_, ?_, ?_⟩ <;> decide +kernel

/-- Two requests for one capability and one for another, each in a window of its own, with the reads
in between. -/
def apart (reads : List Call) : List Call :=
  .recordRequest .chat 0 :: (.recordRequest .chat 9999 :: reads ++ [Call.recordRequest .textToMusic 30000])

theorem apart_exact :
    let calls := apart [] ++ [Call.snapshot 60000]
    (tracker calls).rate[Capability.chat]? =
        averaged (samples (requests (start calls) calls .chat) (closed calls)) ∧
      ((tracker (apart [.snapshot 10000, .snapshot 21000])).snapshot 60000).1 =
        ((tracker (apart [])).snapshot 60000).1 := by
  intro calls
  have hone : OneWindow (start calls) calls (closed calls) := by
    intro c
    cases c <;> decide +kernel
  have h := rates_exact (by decide +kernel) hone
  exact ⟨h.1 .chat, (h.2 [] _ _ .chat 0 60000 rfl ⟨by decide, by decide⟩ (by decide +kernel)).2⟩

end Sample

end HypeLlm.Fleet.DemandRates
