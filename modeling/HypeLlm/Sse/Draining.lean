import HypeLlm.Sse.Parse

/-!
# Draining the parser

A parser that is drained consumes all its waiting lines.  What they come to is `consume`, the lines
one after the other; taking events one at a time comes to the same.

* `drain_cases` — draining gives the events of all lines and leaves none waiting, or fails.
-/

namespace HypeLlm.Sse

open HypeLlm.Words List

namespace SseParser

variable {p : SseParser}

/-- The parser with other lines waiting. -/
def waiting (p : SseParser) (lines : List Line) : SseParser := { p with pending := lines }

/-- Consume all lines; the events that they end. -/
def consume (p : SseParser) : List Line → List SseEvent × SseParser
  | [] => ([], p)
  | line :: lines =>
    ((p.takeLine line).1.toList ++ ((p.takeLine line).2.consume lines).1,
      ((p.takeLine line).2.consume lines).2)

theorem takeLine_waiting (p : SseParser) (lines : List Line) (line : Line) :
    (p.waiting lines).takeLine line =
      ((p.takeLine line).1, (p.takeLine line).2.waiting lines) := by
  obtain ⟨limits, lineBuf, pending, current, sawData, pendingCr, bomPending, failed⟩ := p
  cases line with
  | comment => rfl
  | blank => cases sawData <;> rfl
  | field name value =>
    cases sawData <;> cases hparse : Decimal.parse u64Max value <;>
      simp only [takeLine, waiting, fail, hparse, Bool.false_eq_true, if_false, if_true] <;>
      split_ifs <;> rfl

theorem consume_waiting (p : SseParser) (lines ls : List Line) :
    (p.waiting lines).consume ls = ((p.consume ls).1, (p.consume ls).2.waiting lines) := by
  induction ls generalizing p with
  | nil => rfl
  | cons l ls ih => simp only [consume, takeLine_waiting, ih]

/-- Lines consumed are not those that wait. -/
theorem consume_pending (p : SseParser) (lines : List Line) :
    (p.consume lines).2.waiting p.pending = (p.consume lines).2 := by
  have hwaiting := consume_waiting p p.pending lines
  exact (congrArg Prod.snd hwaiting).symm

theorem consume_append (p : SseParser) (a b : List Line) :
    p.consume (a ++ b) =
      ((p.consume a).1 ++ ((p.consume a).2.consume b).1, ((p.consume a).2.consume b).2) := by
  induction a generalizing p with
  | nil => rfl
  | cons l a ih => simp only [cons_append, consume, ih, append_assoc]

/-- A failure stays. -/
theorem takeLine_failed (h : p.failed.isSome = true) (line : Line) :
    (p.takeLine line).2.failed.isSome = true := by
  cases line with
  | comment => exact h
  | blank =>
    rw [takeLine]
    split <;> exact h
  | field name value =>
    cases hparse : Decimal.parse u64Max value <;> simp only [takeLine, hparse] <;> split_ifs <;>
      first | exact h | rfl

theorem consume_failed (h : p.failed.isSome = true) (lines : List Line) :
    (p.consume lines).2.failed.isSome = true := by
  induction lines generalizing p with
  | nil => exact h
  | cons l lines ih => exact ih (takeLine_failed h l)

/-- Only a line that ends no event fails. -/
theorem takeLine_event_failed {line : Line} {e : SseEvent} (h : (p.takeLine line).1 = some e) :
    (p.takeLine line).2.failed = p.failed := by
  cases line with
  | comment => cases h
  | blank =>
    rw [takeLine] at h ⊢
    split at h
    next hsaw => rw [if_pos hsaw]
    next => cases h
  | field name value =>
    cases hparse : Decimal.parse u64Max value <;> simp only [takeLine, hparse] at h <;>
      split_ifs at h

/-- Taking the next event consumes lines up to one that fails or that ends it. -/
theorem takeLines_cases (lines : List Line) (hp : p.failed = none) :
    (∃ q, p.takeLines lines = (none, q) ∧ q.failed.isSome = true ∧
        (p.consume lines).2.failed.isSome = true) ∨
      (p.takeLines lines = (none, (p.consume lines).2.waiting []) ∧ (p.consume lines).1 = [] ∧
        (p.consume lines).2.failed = none) ∨
      ∃ (e : SseEvent) (q : SseParser) (rest : List Line),
        p.takeLines lines = (some e, q.waiting rest) ∧ q.failed = none ∧
          rest.length < lines.length ∧ p.consume lines = (e :: (q.consume rest).1, (q.consume rest).2) := by
  induction lines generalizing p with
  | nil => exact .inr (.inl ⟨rfl, rfl, hp⟩)
  | cons line lines ih =>
    have htake : { p with pending := lines }.takeLine line =
        ((p.takeLine line).1, (p.takeLine line).2.waiting lines) := takeLine_waiting p lines line
    cases hevent : (p.takeLine line).1 with
    | some e =>
      refine .inr (.inr ⟨e, (p.takeLine line).2, lines, ?_, ?_, Nat.lt_succ_self _, ?_⟩)
      · rw [takeLines, htake, hevent]
      · rw [takeLine_event_failed hevent, hp]
      · rw [consume, hevent]
        rfl
    | none =>
      have hconsume : p.consume (line :: lines) = (p.takeLine line).2.consume lines := by
        rw [consume, hevent]
        rfl
      cases hfailed : (p.takeLine line).2.failed with
      | some failure =>
        refine .inl ⟨(p.takeLine line).2.waiting lines, ?_, ?_, ?_⟩
        · rw [takeLines, htake, hevent]
          dsimp only
          rw [if_pos (by simp [waiting, hfailed])]
        · simp [waiting, hfailed]
        · rw [hconsume]
          exact consume_failed (by simp [hfailed]) lines
      | none =>
        have hnext : p.takeLines (line :: lines) =
            ((p.takeLine line).2.waiting lines).takeLines lines := by
          rw [takeLines, htake, hevent]
          dsimp only
          rw [if_neg (by simp [waiting, hfailed])]
        have hwaiting := consume_waiting (p.takeLine line).2 lines lines
        rw [hnext, hconsume]
        rcases ih (p := (p.takeLine line).2.waiting lines) hfailed with
          ⟨q, hq, hfail, hlast⟩ | ⟨hq, hnone, hlast⟩ | ⟨e, q, rest, hq, hfail, hlt, hrest⟩
        · rw [hwaiting] at hlast
          exact .inl ⟨q, hq, hfail, hlast⟩
        · rw [hwaiting] at hq hnone hlast
          exact .inr (.inl ⟨hq, hnone, hlast⟩)
        · rw [hwaiting] at hrest
          obtain ⟨hevents, hstate⟩ := Prod.mk.inj hrest
          have hkept := consume_waiting q (p.takeLine line).2.pending rest
          rw [← hstate] at hkept
          refine .inr (.inr ⟨e, q.waiting (p.takeLine line).2.pending, rest, hq, hfail,
            hlt.trans (Nat.lt_succ_self _), ?_⟩)
          rw [hkept]
          exact Prod.ext hevents (consume_pending _ lines).symm

/-- **Draining**: the events of all waiting lines, after which none waits, or a failure. -/
theorem drainUpTo_cases {fuel : ℕ} (hfuel : p.pending.length < fuel) (hp : p.failed = none) :
    ((p.consume p.pending).2.failed = none ∧ drainUpTo fuel p =
        (.ok (p.consume p.pending).1, (p.consume p.pending).2.waiting [])) ∨
      ((p.consume p.pending).2.failed.isSome = true ∧
        ∃ e q, drainUpTo fuel p = (.error e, q)) := by
  induction fuel generalizing p with
  | zero => omega
  | succ fuel ih =>
    rw [drainUpTo, nextEvent, hp]
    rcases takeLines_cases p.pending hp with
      ⟨q, hq, hfail, hlast⟩ | ⟨hq, hnone, hlast⟩ | ⟨e, q, rest, hq, hfail, hlt, hrest⟩
    · obtain ⟨failure, hfailure⟩ := Option.isSome_iff_exists.1 hfail
      refine .inr ⟨hlast, failure, q, ?_⟩
      simp only [hq, hfailure]
    · refine .inl ⟨hlast, ?_⟩
      have hfine : ((p.consume p.pending).2.waiting []).failed = none := hlast
      simp only [hq, hfine, hnone]
    · have hfine : (q.waiting rest).failed = none := hfail
      have hconsume := consume_waiting q rest rest
      simp only [hq, hfine, hrest]
      rcases ih (p := q.waiting rest) (by show rest.length < fuel; omega) hfail with
        ⟨hlast, hdrain⟩ | ⟨hlast, failure, q', hdrain⟩
      · have hpending : (q.waiting rest).pending = rest := rfl
        rw [hpending, hconsume] at hlast hdrain
        refine .inl ⟨hlast, ?_⟩
        rw [hdrain]
        rfl
      · have hpending : (q.waiting rest).pending = rest := rfl
        rw [hpending, hconsume] at hlast
        refine .inr ⟨hlast, failure, q', ?_⟩
        rw [hdrain]

theorem drain_cases (hp : p.failed = none) :
    ((p.consume p.pending).2.failed = none ∧
        p.drain = (.ok (p.consume p.pending).1, (p.consume p.pending).2.waiting [])) ∨
      ((p.consume p.pending).2.failed.isSome = true ∧ ∃ e q, p.drain = (.error e, q)) :=
  drainUpTo_cases (Nat.lt_succ_self _) hp

/-- **Draining gives the events of all lines.** -/
theorem drain_eq (hp : p.failed = none) (h : (p.consume p.pending).2.failed = none) :
    p.drain.1 = .ok (p.consume p.pending).1 := by
  rcases drain_cases hp with ⟨-, hdrain⟩ | ⟨hfail, -⟩
  · rw [hdrain]
  · rw [h] at hfail
    cases hfail

end SseParser

end HypeLlm.Sse
