import Mathlib

/-!
# Paging backwards through the audit chain

A request for audit rows fetches records in batches, newest first, keeps those that match a filter, and
answers with a page and the cursor to go on from.  It stops when the page is full, when it has
fetched as many batches as a request may, or when a batch comes short.

`AuditLog` is the chain as paging sees it, with the sequences in order by construction.

* `scanAudit_examines` — a request examines the records behind its cursor without a gap, and its cursor
  is where it stopped;
* `paging_loses_and_repeats_nothing` — the pages of all requests together are what the filter keeps of
  the chain, though records may be appended meanwhile.
-/

namespace HypeLlm.Admin

open List

/-- The bounds of one scan. -/
structure AuditScan where
  /-- The most records one fetch returns. -/
  batch : ℕ
  /-- The most fetches one request may make. -/
  maxBatches : ℕ
  /-- The page size. -/
  limit : ℕ
  deriving Repr, DecidableEq

section Code

variable {R V E : Type*}

/-- Go through a batch: the cursor, what is collected, and once the page is full, whether records of the
batch were left. -/
def scanBatch (keep : ℕ → R → Option V) (limit : ℕ) :
    List (ℕ × R) → Option ℕ → List V → Option ℕ × List V × Option Bool
  | [], cursor, collected => (cursor, collected, none)
  | (sequence, record) :: batch, _, collected =>
    match keep sequence record with
    | none => scanBatch keep limit batch (some sequence) collected
    | some row =>
      if limit ≤ (collected ++ [row]).length then
        (some sequence, collected ++ [row], some (!batch.isEmpty))
      else scanBatch keep limit batch (some sequence) (collected ++ [row])

/-- Go through batches, at most `n` of them. -/
def scanBatches (fetch : Option ℕ → Except E (List (ℕ × R))) (bounds : AuditScan)
    (keep : ℕ → R → Option V) :
    ℕ → Option ℕ → List V → Bool → Except E (List V × Option ℕ)
  | 0, cursor, collected, moreRemain => .ok (collected, if moreRemain then cursor else none)
  | n + 1, cursor, collected, _ =>
    match fetch cursor with
    | .error e => .error e
    | .ok batch =>
      let moreRemain : Bool := bounds.batch ≤ batch.length
      match scanBatch keep bounds.limit batch cursor collected with
      | (cursor, collected, some rest) =>
        .ok (collected, if moreRemain || rest then cursor else none)
      | (cursor, collected, none) =>
        if moreRemain then scanBatches fetch bounds keep n cursor collected moreRemain
        else .ok (collected, none)

/-- Page backwards through the audit chain, keeping what `keep` renders.  The cursor is `none` only when
the chain has been read to its oldest record. -/
def scanAudit (fetch : Option ℕ → Except E (List (ℕ × R))) (start : Option ℕ) (bounds : AuditScan)
    (keep : ℕ → R → Option V) : Except E (List V × Option ℕ) :=
  scanBatches fetch bounds keep bounds.maxBatches start [] true

end Code

/-! ### The chain -/

/-- Records under sequences in order, oldest first. -/
structure AuditLog (R : Type*) where
  rows : List (ℕ × R)
  ordered : (rows.map (·.1)).Pairwise (· < ·)

variable {R V E : Type*}

namespace AuditLog

/-- The records older than a cursor, newest first. -/
def older (log : AuditLog R) (cursor : Option ℕ) : List (ℕ × R) :=
  log.rows.reverse.filter fun r => cursor.all (r.1 < ·)

/-- The newest records older than a cursor, newest first, at most `batch` of them. -/
def fetch (log : AuditLog R) (batch : ℕ) (cursor : Option ℕ) : Except E (List (ℕ × R)) :=
  .ok ((log.older cursor).take batch)

theorem older_sorted (log : AuditLog R) (cursor : Option ℕ) :
    (log.older cursor).Pairwise fun a b => b.1 < a.1 := by
  have hrows : log.rows.Pairwise fun a b => a.1 < b.1 := pairwise_map.1 log.ordered
  exact (pairwise_reverse.2 hrows).filter _

/-- Behind a record come the records that are older than it. -/
theorem older_of_append {log : AuditLog R} {cursor : Option ℕ} {newer rest : List (ℕ × R)}
    {r : ℕ × R} (h : log.older cursor = newer ++ r :: rest) : log.older (some r.1) = rest := by
  have hsorted := log.older_sorted cursor
  rw [h, pairwise_append, pairwise_cons] at hsorted
  obtain ⟨-, ⟨hrest, -⟩, hnewer⟩ := hsorted
  have hbelow : r.1 ≤ cursor.getD (r.1 + 1) := by
    have hmem : r ∈ log.older cursor := by
      rw [h]
      exact mem_append_right _ mem_cons_self
    cases cursor with
    | none => exact Nat.le_succ _
    | some c => exact (of_decide_eq_true (mem_filter.1 hmem).2).le
  -- What is older than the record is older than the cursor.
  have hboth : log.older (some r.1) = (log.older cursor).filter (·.1 < r.1) := by
    rw [older, older, filter_filter]
    refine filter_congr fun x _ => ?_
    cases cursor with
    | none => simp
    | some c =>
      have hc : r.1 ≤ c := hbelow
      by_cases hx : x.1 < r.1
      · simp [hx, hx.trans_le hc]
      · simp [hx]
  rw [hboth, h, filter_append, filter_cons_of_neg (by simp)]
  have hnone : newer.filter (·.1 < r.1) = [] := by
    rw [filter_eq_nil_iff]
    intro x hx
    have := hnewer x hx r mem_cons_self
    simp only [decide_eq_true_eq]
    omega
  have hall : rest.filter (·.1 < r.1) = rest := by
    rw [filter_eq_self]
    intro x hx
    exact decide_eq_true (hrest x hx)
  rw [hnone, hall, nil_append]

/-- Newer records are not older than a record that was there. -/
theorem older_of_grown {log grown : AuditLog R} (h : log.rows <+: grown.rows) {r : ℕ × R}
    (hr : r ∈ log.rows) : grown.older (some r.1) = log.older (some r.1) := by
  obtain ⟨appended, happended⟩ := h
  have hordered := grown.ordered
  rw [← happended, map_append, pairwise_append] at hordered
  have hnone : appended.reverse.filter (fun x => (some r.1).all (x.1 < ·)) = [] := by
    rw [filter_eq_nil_iff]
    intro x hx
    have := hordered.2.2 r.1 (mem_map_of_mem hr) x.1 (mem_map_of_mem (mem_reverse.1 hx))
    simp only [Option.all_some, decide_eq_true_eq]
    omega
  rw [older, ← happended, reverse_append, filter_append, hnone, nil_append, older]

end AuditLog

/-! ### One request -/

section Request

variable {keep : ℕ → R → Option V}

/-- What the filter keeps of some records. -/
def kept (keep : ℕ → R → Option V) (rows : List (ℕ × R)) : List V :=
  rows.filterMap fun r => keep r.1 r.2

theorem kept_append (rows rows' : List (ℕ × R)) :
    kept keep (rows ++ rows') = kept keep rows ++ kept keep rows' := filterMap_append

/-- The cursor behind the records that were examined. -/
def cursorAfter (start : Option ℕ) (seen : List (ℕ × R)) : Option ℕ :=
  match seen.getLast? with
  | some r => some r.1
  | none => start

theorem cursorAfter_append (start : Option ℕ) (seen more : List (ℕ × R)) :
    cursorAfter (cursorAfter start seen) more = cursorAfter start (seen ++ more) := by
  rw [cursorAfter, cursorAfter, cursorAfter, getLast?_append]
  cases more.getLast? with
  | none => rfl
  | some r => rfl

/-- The records behind the cursor are those that were not examined. -/
theorem AuditLog.older_cursorAfter {log : AuditLog R} {start : Option ℕ} {seen rest : List (ℕ × R)}
    (h : log.older start = seen ++ rest) : log.older (cursorAfter start seen) = rest := by
  rcases eq_nil_or_concat seen with rfl | ⟨before, r, rfl⟩
  · exact h
  · rw [concat_eq_append] at h ⊢
    rw [cursorAfter, getLast?_concat]
    exact AuditLog.older_of_append (by rw [h, append_assoc, singleton_append])

theorem scanBatch_examines (keep : ℕ → R → Option V) {limit : ℕ} (batch : List (ℕ × R)) (cursor : Option ℕ)
    {collected : List V} (hroom : collected.length < limit) :
    ∃ seen rest, batch = seen ++ rest ∧ (collected ++ kept keep seen).length ≤ limit ∧
      (scanBatch keep limit batch cursor collected =
          (cursorAfter cursor seen, collected ++ kept keep seen, none) ∧
          rest = [] ∧ (collected ++ kept keep seen).length < limit ∨
        scanBatch keep limit batch cursor collected =
          (cursorAfter cursor seen, collected ++ kept keep seen, some (!rest.isEmpty)) ∧
          seen ≠ []) := by
  induction batch generalizing cursor collected with
  | nil =>
    refine ⟨[], [], rfl, ?_, .inl ⟨?_, rfl, ?_⟩⟩
    · simpa [kept] using hroom.le
    · simp [scanBatch, cursorAfter, kept]
    · simpa [kept] using hroom
  | cons r batch ih =>
    obtain ⟨sequence, record⟩ := r
    have hcursor : ∀ seen : List (ℕ × R), cursorAfter (some sequence) seen =
        cursorAfter cursor ((sequence, record) :: seen) := fun seen =>
      cursorAfter_append cursor [(sequence, record)] seen
    cases hkeep : keep sequence record with
    | none =>
      have hkept : ∀ seen, kept keep ((sequence, record) :: seen) = kept keep seen := fun seen => by
        simp only [kept, filterMap_cons, hkeep]
      obtain ⟨seen, rest, hsplit, hlength, hscan⟩ := ih (some sequence) hroom
      refine ⟨(sequence, record) :: seen, rest, by rw [hsplit, cons_append], ?_, ?_⟩
      · rw [hkept]
        exact hlength
      · rw [scanBatch, hkeep, hkept, ← hcursor]
        rcases hscan with ⟨hscan, hrest, hless⟩ | ⟨hscan, -⟩
        · exact .inl ⟨hscan, hrest, hless⟩
        · exact .inr ⟨hscan, cons_ne_nil _ _⟩
    | some row =>
      have hkept : ∀ seen, collected ++ kept keep ((sequence, record) :: seen) =
          (collected ++ [row]) ++ kept keep seen := fun seen => by
        simp only [kept, filterMap_cons, hkeep, append_assoc, singleton_append]
      by_cases hfull : limit ≤ (collected ++ [row]).length
      · refine ⟨[(sequence, record)], batch, rfl, ?_, .inr ⟨?_, cons_ne_nil _ _⟩⟩
        · rw [hkept]
          simpa [kept] using Nat.succ_le_of_lt hroom
        · rw [scanBatch, hkeep]
          simp only [hfull, if_true, hkept]
          simp [kept, cursorAfter]
      · obtain ⟨seen, rest, hsplit, hlength, hscan⟩ := ih (some sequence) (Nat.not_le.1 hfull)
        refine ⟨(sequence, record) :: seen, rest, by rw [hsplit, cons_append], ?_, ?_⟩
        · rw [hkept]
          exact hlength
        · rw [scanBatch, hkeep, hkept, ← hcursor]
          simp only [hfull, if_false]
          rcases hscan with ⟨hscan, hrest, hless⟩ | ⟨hscan, -⟩
          · exact .inl ⟨hscan, hrest, hless⟩
          · exact .inr ⟨hscan, cons_ne_nil _ _⟩

/-- How a request ends: with the cursor behind what it examined, or with none and nothing left. -/
def Ended (start next : Option ℕ) (seen rest : List (ℕ × R)) : Prop :=
  next = none ∧ rest = [] ∨ next = cursorAfter start seen ∧ seen ≠ []

theorem scanBatches_examines (log : AuditLog R) (start : Option ℕ) {bounds : AuditScan}
    (hbatch : 1 ≤ bounds.batch) (n : ℕ) {seen rest : List (ℕ × R)}
    (hsplit : log.older start = seen ++ rest) (hroom : (kept keep seen).length < bounds.limit)
    (hstarted : n = 0 → seen ≠ []) :
    ∃ seen' rest' next, log.older start = seen' ++ rest' ∧
      (kept keep seen').length ≤ bounds.limit ∧
      scanBatches (log.fetch (E := E) bounds.batch) bounds keep n (cursorAfter start seen)
        (kept keep seen) true = .ok (kept keep seen', next) ∧
      Ended start next seen' rest' := by
  induction n generalizing seen rest with
  | zero => exact ⟨seen, rest, _, hsplit, hroom.le, rfl, .inr ⟨rfl, hstarted rfl⟩⟩
  | succ n ih =>
    have holder := AuditLog.older_cursorAfter hsplit
    obtain ⟨seen', rest', hbatchSplit, hlength, hscan⟩ :=
      scanBatch_examines keep (rest.take bounds.batch) (cursorAfter start seen) hroom
    rw [← kept_append] at hlength hscan
    rw [cursorAfter_append] at hscan
    have hrest : rest = seen' ++ (rest' ++ rest.drop bounds.batch) := by
      rw [← append_assoc, ← hbatchSplit, take_append_drop]
    have hsplit' : log.older start = (seen ++ seen') ++ (rest' ++ rest.drop bounds.batch) := by
      rw [hsplit, append_assoc, ← hrest]
    rw [scanBatches, AuditLog.fetch, holder]
    rcases hscan with ⟨hscan, rfl, hless⟩ | ⟨hscan, hseen⟩
    · simp only [hscan]
      by_cases hmore : bounds.batch ≤ (rest.take bounds.batch).length
      · have hseen : seen' ≠ [] := by
          rintro rfl
          rw [hbatchSplit] at hmore
          exact absurd (hbatch.trans hmore) (by simp)
        simp only [hmore, decide_true, if_true]
        exact ih hsplit' hless fun _ => append_ne_nil_of_right_ne_nil _ hseen
      · have hend : rest.drop bounds.batch = [] := by
          rw [drop_eq_nil_iff]
          rw [length_take] at hmore
          omega
        simp only [hmore, decide_false, Bool.false_eq_true, if_false]
        exact ⟨_, _, _, hsplit', hlength, rfl, .inl ⟨rfl, by rw [hend, nil_append]⟩⟩
    · simp only [hscan]
      refine ⟨_, _, _, hsplit', hlength, rfl, ?_⟩
      by_cases hmore : bounds.batch ≤ (rest.take bounds.batch).length
      · simp only [hmore, decide_true, Bool.true_or, if_true]
        exact .inr ⟨rfl, append_ne_nil_of_right_ne_nil _ hseen⟩
      · have hend : rest.drop bounds.batch = [] := by
          rw [drop_eq_nil_iff]
          rw [length_take] at hmore
          omega
        simp only [hmore, decide_false, Bool.false_or]
        cases rest' with
        | nil => exact .inl ⟨by simp, by rw [hend, nil_append]⟩
        | cons x rest' =>
          exact .inr ⟨by simp, append_ne_nil_of_right_ne_nil _ hseen⟩

/-- **A request examines the records behind its cursor** without a gap, and stops where its own cursor
says. -/
theorem scanAudit_examines (keep : ℕ → R → Option V) (log : AuditLog R) (start : Option ℕ) {bounds : AuditScan}
    (hbatch : 1 ≤ bounds.batch) (hbatches : 1 ≤ bounds.maxBatches) (hlimit : 1 ≤ bounds.limit) :
    ∃ seen rest next, log.older start = seen ++ rest ∧ (kept keep seen).length ≤ bounds.limit ∧
      scanAudit (log.fetch (E := E) bounds.batch) start bounds keep = .ok (kept keep seen, next) ∧
      Ended start next seen rest := by
  have hsplit : log.older start = [] ++ log.older start := rfl
  exact scanBatches_examines log start hbatch bounds.maxBatches hsplit hlimit fun hzero =>
    absurd hbatches (by omega)

/-! ### All requests -/

/-- The pages of one request after the other, each from the cursor of the one before and over the chain
as it is by then, until a request answers with no cursor; nothing if that takes more than `n` requests. -/
def pagesFrom (logs : ℕ → AuditLog R) (bounds : AuditScan) (keep : ℕ → R → Option V) :
    ℕ → ℕ → Option ℕ → Option (List (List V))
  | 0, _, _ => none
  | n + 1, i, cursor =>
    match scanAudit ((logs i).fetch (E := Unit) bounds.batch) cursor bounds keep with
    | .error _ => none
    | .ok (page, none) => some [page]
    | .ok (page, some next) => (pagesFrom logs bounds keep n (i + 1) (some next)).map (page :: ·)

theorem pagesFrom_eq {logs : ℕ → AuditLog R} (hgrows : ∀ i, (logs i).rows <+: (logs (i + 1)).rows)
    {bounds : AuditScan} (hbatch : 1 ≤ bounds.batch) (hbatches : 1 ≤ bounds.maxBatches)
    (hlimit : 1 ≤ bounds.limit) (n i : ℕ) (cursor : Option ℕ)
    (hn : ((logs i).older cursor).length < n) :
    ∃ pages, pagesFrom logs bounds keep n i cursor = some pages ∧
      pages.flatten = kept keep ((logs i).older cursor) ∧
      ∀ page ∈ pages, page.length ≤ bounds.limit := by
  induction n generalizing i cursor with
  | zero => exact absurd hn (Nat.not_lt_zero _)
  | succ n ih =>
    obtain ⟨seen, rest, next, hsplit, hlength, hscan, hended⟩ :=
      scanAudit_examines (E := Unit) keep (logs i) cursor hbatch hbatches hlimit
    rw [pagesFrom, hscan]
    rcases hended with ⟨rfl, rfl⟩ | ⟨rfl, hseen⟩
    · refine ⟨[kept keep seen], rfl, ?_, ?_⟩
      · rw [hsplit, append_nil, flatten_singleton]
      · intro page hpage
        rw [mem_singleton.1 hpage]
        exact hlength
    · obtain ⟨before, r, rfl⟩ := (eq_nil_or_concat' seen).resolve_left hseen
      have hcursor : cursorAfter cursor (before ++ [r]) = some r.1 := by
        rw [cursorAfter, getLast?_concat]
      have hmem : r ∈ (logs i).rows := by
        have holder : r ∈ (logs i).older cursor := by
          rw [hsplit]
          exact mem_append_left _ (mem_append_right _ mem_cons_self)
        exact mem_reverse.1 (mem_filter.1 holder).1
      have hnext : (logs (i + 1)).older (some r.1) = rest := by
        rw [AuditLog.older_of_grown (hgrows i) hmem, ← hcursor]
        exact AuditLog.older_cursorAfter hsplit
      have hshorter : ((logs (i + 1)).older (some r.1)).length < n := by
        rw [hsplit, length_append, length_append, length_singleton] at hn
        rw [hnext]
        omega
      obtain ⟨pages, hpages, hflatten, hlimits⟩ := ih (i + 1) (some r.1) hshorter
      simp only [hcursor]
      refine ⟨kept keep (before ++ [r]) :: pages, by rw [hpages, Option.map_some], ?_, ?_⟩
      · rw [flatten_cons, hflatten, hnext, hsplit, kept_append (before ++ [r])]
      · intro page hpage
        rcases mem_cons.1 hpage with rfl | hpage
        · exact hlength
        · exact hlimits page hpage

/-- **Paging loses and repeats nothing.**  The requests come to an end, and their pages together are
what the filter keeps of the chain as it was at the first request, newest first, though newer records
are appended between the requests. -/
theorem paging_loses_and_repeats_nothing (logs : ℕ → AuditLog R)
    (hgrows : ∀ i, (logs i).rows <+: (logs (i + 1)).rows) (keep : ℕ → R → Option V)
    (bounds : AuditScan) (hbatch : 1 ≤ bounds.batch) (hbatches : 1 ≤ bounds.maxBatches)
    (hlimit : 1 ≤ bounds.limit) (start : Option ℕ) :
    ∃ pages, pagesFrom logs bounds keep (((logs 0).older start).length + 1) 0 start = some pages ∧
      pages.flatten = kept keep ((logs 0).older start) ∧
      ∀ page ∈ pages, page.length ≤ bounds.limit :=
  pagesFrom_eq hgrows hbatch hbatches hlimit _ 0 start (Nat.lt_succ_self _)

namespace AuditLog.Sample

/-- Ten records, and one more after each request. -/
def tenAndMore (i : ℕ) : AuditLog Unit where
  rows := (range (10 + i)).map fun n => (n, ())
  ordered := by
    rw [map_map]
    exact (pairwise_lt_range.map _ fun _ _ h => h)

theorem tenAndMore_grows (i : ℕ) : (tenAndMore i).rows <+: (tenAndMore (i + 1)).rows := by
  show (range (10 + i)).map _ <+: (range (10 + i + 1)).map _
  rw [range_succ, map_append]
  exact prefix_append _ _

/-- Pages of three in batches of two. -/
theorem tenAndMore_pages :
    ∃ pages, pagesFrom tenAndMore ⟨2, 4, 3⟩ (fun n _ => some n) 11 0 none = some pages ∧
      pages.flatten = [9, 8, 7, 6, 5, 4, 3, 2, 1, 0] ∧ ∀ page ∈ pages, page.length ≤ 3 :=
  paging_loses_and_repeats_nothing tenAndMore tenAndMore_grows (fun n _ => some n) ⟨2, 4, 3⟩
    (by decide) (by decide) (by decide) none

end AuditLog.Sample

end Request

end HypeLlm.Admin
