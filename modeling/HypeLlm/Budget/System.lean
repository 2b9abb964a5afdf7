import HypeLlm.Lib.Runs
import HypeLlm.Budget.Ledger

/-!
# Runs of the budget ledger

The system is a ledger, the reservations it has handed out and the history of what was asked and
answered.  Its operations are those of the ledger, the four ways a reservation ends, and
`restart`: the process dies, its reservations with it, and a fresh ledger is built by replaying
into `restore` exactly the records whose commit succeeded, in order.

A reservation is addressed by its position in the order of grants.  A slot holds `none` once the
process that owned the reservation has died.  The history is ghost state, newest first; no
operation reads it.
-/

namespace HypeLlm.Budget

open HypeLlm.Words HypeLlm.Runs Std

/-- How a reservation ends. -/
inductive Finish where
  | settle (actual : ℕ)
  | retain
  | release
  | drop
  deriving Repr, DecidableEq

inductive Op where
  | reserve (key : KeyId) (tenant : TenantId) (tokens : ℕ)
  | finish (id : ℕ) (how : Finish)
  | set (key : KeyId) (tenant : TenantId) (expectedRevision limit : Option ℕ)
      (payment : Option PaymentInstructions)
  | credit (key : KeyId) (tenant : TenantId) (c : BudgetLedger.Credit)
  | flush
  | restart (drawTokens : ℕ)
  deriving Repr, DecidableEq

inductive Outcome where
  | reserved (result : Except BudgetRefusal BudgetReservation)
  | finished (reservation : BudgetReservation) (settlement : Option Settlement)
  /-- There is no such reservation, or it has ended: only its `Drop` is left, a no-op. -/
  | ignored
  | set (result : Except BudgetMutationError BudgetView)
  | credited (result : Except BudgetMutationError CreditOutcome)
  | flushed (failed : ℕ)
  | restarted
  deriving Repr

namespace Finish

/-- The call each way of ending makes.  `settle`, `retain` and `release` consume the reservation,
so its `Drop` runs after them on a finished one. -/
def apply (how : Finish) (r : BudgetReservation) (l : BudgetLedger) :
    Option Settlement × BudgetLedger :=
  match how with
  | .settle actual => (some (r.settle actual l).1, (r.settle actual l).2)
  | .retain => (some (r.retain l).1, (r.retain l).2)
  | .release => (some (r.release l).1, (r.release l).2)
  | .drop => r.drop l

/-- What each way of ending charges for a reservation of `tokens`. -/
def charged (how : Finish) (tokens : ℕ) : ℕ :=
  match how with
  | .settle actual => actual
  | .retain => tokens
  | .release => 0
  | .drop => tokens

/-- **One charge, whichever way it ends.**  Every way of ending a reservation is the ledger's
`finish` with the charge of that way. -/
theorem apply_eq (how : Finish) (r : BudgetReservation) (l : BudgetLedger)
    (h : r.finished = false) :
    how.apply r l = (some (l.finish r.key r.tokens (how.charged r.tokens)).1,
      (l.finish r.key r.tokens (how.charged r.tokens)).2) := by
  cases how with
  | settle actual => rfl
  | retain => rfl
  | release => rfl
  | drop => simp only [apply, BudgetReservation.drop, h, charged]; rfl

end Finish

structure System where
  ledger : BudgetLedger
  reservations : List (Option BudgetReservation)
  history : List (Op × Outcome)

namespace System

/-- A process that has just started on an empty journal. -/
def init (failing : ℕ → Bool) (drawTokens : ℕ) : System where
  ledger := BudgetLedger.new ⟨failing, 0, []⟩ drawTokens
  reservations := []
  history := []

/-- The ledger a process builds from the records `records`, oldest first. -/
def replay (fresh : BudgetLedger) (records : List BudgetRecord) : BudgetLedger :=
  records.foldl BudgetLedger.restore fresh

/-- The ledger of the process that starts after a crash of this one. -/
def restarted (l : BudgetLedger) (drawTokens : ℕ) : BudgetLedger :=
  replay (BudgetLedger.new l.journal drawTokens) l.journal.records

/-- The reservation in slot `id`, if its process is alive and nothing has ended it. -/
def live (s : System) (id : ℕ) : Option BudgetReservation :=
  s.reservations[id]?.join.filter fun r => !r.finished

/-- What one operation answers and leaves, before it is written to the history. -/
def apply (s : System) : Op → Outcome × System
  | .reserve key tenant tokens =>
    let (result, l) := s.ledger.reserve key tenant tokens
    let granted := match result with
      | .ok r => [some r]
      | .error _ => []
    (.reserved result, { s with ledger := l, reservations := s.reservations ++ granted })
  | .finish id how =>
    match s.live id with
    | none => (.ignored, s)
    | some r =>
      let (settlement, l) := how.apply r s.ledger
      (.finished r settlement, { s with
        ledger := l, reservations := s.reservations.set id (some { r with finished := true }) })
  | .set key tenant expectedRevision limit payment =>
    let (result, l) := s.ledger.set key tenant expectedRevision limit payment
    (.set result, { s with ledger := l })
  | .credit key tenant c =>
    let (result, l) := s.ledger.credit key tenant c
    (.credited result, { s with ledger := l })
  | .flush =>
    let (failed, l) := s.ledger.flush
    (.flushed failed, { s with ledger := l })
  | .restart drawTokens =>
    (.restarted, { s with
      ledger := restarted s.ledger drawTokens
      reservations := s.reservations.map fun _ => none })

def step (s : System) (op : Op) : System :=
  { (s.apply op).2 with history := (op, (s.apply op).1) :: s.history }

/-- Every state of every run: any operations, any failing commits, any number of restarts. -/
def after (failing : ℕ → Bool) (drawTokens : ℕ) (ops : List Op) : System :=
  run step (init failing drawTokens) ops

/-- Tokens a slot holds against `key`: those of an unfinished reservation of that key. -/
def slotTokens (key : KeyId) : Option BudgetReservation → ℕ
  | some r => if r.finished = false ∧ r.key = key then r.tokens else 0
  | none => 0

/-- The tokens of the unfinished reservations of `key`. -/
def outstanding (s : System) (key : KeyId) : ℕ := (s.reservations.map (slotTokens key)).sum

def undurable (s : System) (key : KeyId) : Bool := s.ledger.entries[key]?.any (·.undurable)

end System

end HypeLlm.Budget
