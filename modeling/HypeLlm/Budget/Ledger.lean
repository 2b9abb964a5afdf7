import HypeLlm.Lib.Words
import HypeLlm.Lib.Maps
import HypeLlm.Ids

/-!
# The token budget ledger

A router API key may carry a finite allowance of tokens that does not refill.  The ledger keeps,
for each key, what the key has been allowed, what it has spent, what its in-flight requests hold
and the receipts of the credits applied to it.  One durable number per key, the high-water mark
`drawn`, is raised before a reservation that would pass it is granted; after a crash `consumed`
is taken to be that mark.

The ledger performs no I/O.  It hands each record it needs committed to a journal, and a journal
that fails is modelled by the set of commits it refuses: `failing n` says whether the `n`-th
commit asked for fails, so an arbitrary predicate is an arbitrary subset of failing commits.

Every operation is a function from the ledger, journal included, to a result and the ledger it
leaves.  Quantities are natural numbers; the places where `u64` is felt are written with
`satAdd` and `checkedAdd`.
-/

namespace HypeLlm.Budget

open HypeLlm.Words Std

/-- The largest token quantity the ledger represents: `u64::MAX >> 1`. -/
def maxTokens : ℕ := u64Max / 2

/-- Operator-supplied directions to an external payment page. -/
structure PaymentInstructions where
  message : Option String
  paymentUrl : Option String
  deriving Repr, DecidableEq

/-- The receipt of one applied credit. -/
structure CreditReceipt where
  idempotencyKey : String
  requestDigest : String
  tokens : ℕ
  limitAfter : ℕ
  revisionAfter : ℕ
  atMillis : ℕ
  actor : String
  reason : Option String
  deriving Repr, DecidableEq

/-- One durable ledger record: a key's editable and high-water state, and the receipt of the
credit that produced it, if a credit did. -/
structure BudgetRecord where
  key : KeyId
  tenant : TenantId
  limit : Option ℕ
  drawn : ℕ
  revision : ℕ
  payment : Option PaymentInstructions
  receipt : Option CreditReceipt
  deriving Repr, DecidableEq

/-- Where the ledger's records become durable.  `records` holds what was committed, oldest first,
and `failing` says which of the commits asked for fail. -/
structure Journal where
  failing : ℕ → Bool
  attempts : ℕ
  records : List BudgetRecord

/-- Ask the journal to commit one record; the answer is whether it did. -/
def Journal.commit (j : Journal) (record : BudgetRecord) : Bool × Journal :=
  if j.failing j.attempts then (false, { j with attempts := j.attempts + 1 })
  else (true, { j with attempts := j.attempts + 1, records := j.records ++ [record] })

/-- A point-in-time view of one key's budget. -/
structure BudgetView where
  limit : Option ℕ
  consumed : ℕ
  reserved : ℕ
  revision : ℕ
  payment : Option PaymentInstructions
  deriving Repr, DecidableEq

/-- `max(0, limit - consumed - reserved)`, or `none` when unlimited. -/
def BudgetView.remaining (v : BudgetView) : Option ℕ :=
  v.limit.map fun limit => limit - v.consumed - v.reserved

/-- Why a reservation was not granted. -/
inductive BudgetRefusal where
  | exhausted (payment : Option PaymentInstructions)
  | unavailable
  deriving Repr, DecidableEq

/-- Why a limit change or credit was not applied. -/
inductive BudgetMutationError where
  | revisionChanged
  | unlimited
  | invalidAmount
  | overflow
  | idempotencyConflict
  | unavailable
  deriving Repr, DecidableEq

/-- The result of a credit. -/
structure CreditOutcome where
  receipt : CreditReceipt
  view : BudgetView
  replayed : Bool
  deriving Repr, DecidableEq

/-- What settling a reservation did. -/
structure Settlement where
  charged : ℕ
  overrun : ℕ
  durable : Bool
  deriving Repr, DecidableEq

/-- The ledger's state for one key. -/
structure Entry where
  tenant : TenantId
  limit : Option ℕ
  drawn : ℕ
  revision : ℕ
  payment : Option PaymentInstructions
  consumed : ℕ
  reserved : ℕ
  /-- The in-memory mark is above the durable one. -/
  undurable : Bool
  receipts : TreeMap String CreditReceipt compare

namespace Entry

def new (tenant : TenantId) : Entry where
  tenant := tenant
  limit := none
  drawn := 0
  revision := 0
  payment := none
  consumed := 0
  reserved := 0
  undurable := false
  receipts := ∅

def held (e : Entry) : ℕ := min (satAdd u64Max e.consumed e.reserved) maxTokens

def view (e : Entry) : BudgetView where
  limit := e.limit
  consumed := e.consumed
  reserved := e.reserved
  revision := e.revision
  payment := e.payment

def record (e : Entry) (key : KeyId) (drawn : ℕ) : BudgetRecord where
  key := key
  tenant := e.tenant
  limit := e.limit
  drawn := drawn
  revision := e.revision
  payment := e.payment
  receipt := none

/-- The body of `BudgetLedger::restore`: what a replayed record does to the key's entry. -/
def restore (e : Entry) (record : BudgetRecord) : Entry where
  tenant := record.tenant
  limit := record.limit.map fun limit => min limit maxTokens
  drawn := min record.drawn maxTokens
  revision := record.revision
  payment := record.payment
  consumed := min record.drawn maxTokens
  reserved := 0
  undurable := false
  receipts := match record.receipt with
    | some receipt => e.receipts.insert receipt.idempotencyKey receipt
    | none => e.receipts

/-- `tokens` more held by an in-flight request. -/
def grant (e : Entry) (tokens : ℕ) : Entry :=
  { e with reserved := satAdd u64Max e.reserved tokens }

/-- A reservation of `reserved` tokens replaced by a charge of `charged`. -/
def charge (e : Entry) (reserved charged : ℕ) : Entry :=
  { e with
    reserved := e.reserved - reserved
    consumed := min (satAdd u64Max e.consumed charged) maxTokens }

/-- The mark a draw raises: what is needed and a headroom, an eighth of what would remain at
most, so that a crash can cost a finite budget only a fraction of it. -/
def drawnFor (e : Entry) (drawTokens needed : ℕ) : ℕ :=
  let headroom := match e.limit with
    | some limit => min drawTokens ((limit - needed) / 8)
    | none => drawTokens
  max (min (satAdd u64Max needed headroom) maxTokens) e.drawn

end Entry

/-- The per-key token budget ledger, with the journal it writes to. -/
structure BudgetLedger where
  journal : Journal
  drawTokens : ℕ
  entries : TreeMap KeyId Entry compare

/-- Tokens held against a key for one upstream attempt. -/
structure BudgetReservation where
  key : KeyId
  tokens : ℕ
  finished : Bool
  deriving Repr, DecidableEq

namespace BudgetLedger

/-- An empty ledger. -/
def new (journal : Journal) (drawTokens : ℕ) : BudgetLedger where
  journal := journal
  drawTokens := min drawTokens maxTokens
  entries := ∅

/-- The entry of `key`, made for `tenant` when the ledger has none. -/
def entryFor (l : BudgetLedger) (key : KeyId) (tenant : TenantId) : Entry :=
  l.entries[key]?.getD (Entry.new tenant)

def put (l : BudgetLedger) (key : KeyId) (e : Entry) : BudgetLedger :=
  { l with entries := l.entries.insert key e }

def commit (l : BudgetLedger) (record : BudgetRecord) : Bool × BudgetLedger :=
  ((l.journal.commit record).1, { l with journal := (l.journal.commit record).2 })

/-- Apply a record read back from the journal at startup. -/
def restore (l : BudgetLedger) (record : BudgetRecord) : BudgetLedger :=
  l.put record.key ((l.entryFor record.key record.tenant).restore record)

/-- Reserve `tokens` against `key` before an upstream attempt. -/
def reserve (l : BudgetLedger) (key : KeyId) (tenant : TenantId) (tokens : ℕ) :
    Except BudgetRefusal BudgetReservation × BudgetLedger :=
  let entry := l.entryFor key tenant
  -- The entry stays behind also when the request is refused.
  let l := l.put key entry
  let held := entry.held
  let exhausted := BudgetRefusal.exhausted entry.payment
  match checkedAdd u64Max held tokens with
  | none => (.error exhausted, l)
  | some needed =>
    if maxTokens < needed then (.error exhausted, l)
    -- An exhausted budget funds nothing, a request whose estimate is zero included.
    else if entry.limit.any fun limit => limit ≤ held || limit < needed then (.error exhausted, l)
    else if entry.drawn < needed || entry.undurable then
      let drawn := entry.drawnFor l.drawTokens needed
      match l.commit (entry.record key drawn) with
      | (false, l) => (.error .unavailable, l)
      | (true, l) =>
        (.ok ⟨key, tokens, false⟩,
          l.put key ({ entry with drawn := drawn, undurable := false }.grant tokens))
    else (.ok ⟨key, tokens, false⟩, l.put key (entry.grant tokens))

/-- Replace a reservation by its charge. -/
def finish (l : BudgetLedger) (key : KeyId) (reserved charged : ℕ) : Settlement × BudgetLedger :=
  let overrun := charged - reserved
  match l.entries[key]? with
  | none => (⟨charged, overrun, false⟩, l)
  | some entry =>
    let entry := entry.charge reserved charged
    let held := entry.held
    if entry.drawn < held then
      let (durable, l) := l.commit (entry.record key held)
      (⟨charged, overrun, durable⟩, l.put key { entry with drawn := held, undurable := !durable })
    else (⟨charged, overrun, !entry.undurable⟩, l.put key entry)

/-- The budget of `key`; a key the ledger has never seen is unlimited with nothing consumed. -/
def view (l : BudgetLedger) (key : KeyId) : BudgetView :=
  match l.entries[key]? with
  | some entry => entry.view
  | none => ⟨none, 0, 0, 0, none⟩

/-- Set the absolute limit and the payment override. -/
def set (l : BudgetLedger) (key : KeyId) (tenant : TenantId) (expectedRevision : Option ℕ)
    (limit : Option ℕ) (payment : Option PaymentInstructions) :
    Except BudgetMutationError BudgetView × BudgetLedger :=
  if limit.any fun limit => maxTokens < limit then (.error .invalidAmount, l)
  else
    let entry := l.entryFor key tenant
    let l := l.put key entry
    if expectedRevision.any fun expected => expected ≠ entry.revision then
      (.error .revisionChanged, l)
    else match checkedAdd u64Max entry.revision 1 with
      | none => (.error .overflow, l)
      | some revision =>
        -- A record is being written anyway, so it carries the exact mark.
        let drawn := entry.held
        match l.commit ⟨key, entry.tenant, limit, drawn, revision, payment, none⟩ with
        | (false, l) => (.error .unavailable, l)
        | (true, l) =>
          let entry := { entry with
            limit := limit, payment := payment, revision := revision,
            drawn := drawn, undurable := false }
          (.ok entry.view, l.put key entry)

/-- The receipt already recorded under `idempotencyKey`, if any. -/
def receipt (l : BudgetLedger) (key : KeyId) (idempotencyKey : String) : Option CreditReceipt :=
  l.entries[key]?.bind fun entry => entry.receipts[idempotencyKey]?

/-- The arguments of a credit besides the key and its tenant. -/
structure Credit where
  expectedRevision : Option ℕ
  tokens : ℕ
  idempotencyKey : String
  requestDigest : String
  reason : Option String
  actor : String
  atMillis : ℕ
  deriving Repr, DecidableEq

/-- Add `tokens` to a finite limit, once per idempotency key. -/
def credit (l : BudgetLedger) (key : KeyId) (tenant : TenantId) (c : Credit) :
    Except BudgetMutationError CreditOutcome × BudgetLedger :=
  let entry := l.entryFor key tenant
  let l := l.put key entry
  match entry.receipts[c.idempotencyKey]? with
  | some receipt =>
    if receipt.requestDigest ≠ c.requestDigest then (.error .idempotencyConflict, l)
    else (.ok ⟨receipt, entry.view, true⟩, l)
  | none =>
    if c.expectedRevision.any fun expected => expected ≠ entry.revision then
      (.error .revisionChanged, l)
    else if c.tokens = 0 ∨ maxTokens < c.tokens then (.error .invalidAmount, l)
    else match entry.limit with
      | none => (.error .unlimited, l)
      | some limit =>
        match (checkedAdd u64Max limit c.tokens).filter (· ≤ maxTokens) with
        | none => (.error .overflow, l)
        | some limitAfter =>
          match checkedAdd u64Max entry.revision 1 with
          | none => (.error .overflow, l)
          | some revision =>
            let receipt : CreditReceipt := ⟨c.idempotencyKey, c.requestDigest, c.tokens,
              limitAfter, revision, c.atMillis, c.actor, c.reason⟩
            let drawn := entry.held
            match l.commit ⟨key, entry.tenant, some limitAfter, drawn, revision, entry.payment,
                some receipt⟩ with
            | (false, l) => (.error .unavailable, l)
            | (true, l) =>
              let entry := { entry with
                limit := some limitAfter, revision := revision, drawn := drawn,
                undurable := false,
                receipts := entry.receipts.insert receipt.idempotencyKey receipt }
              (.ok ⟨receipt, entry.view, false⟩, l.put key entry)

/-- Commit the exact mark of one key, if its durable mark is not exact. -/
def flushEntry (acc : ℕ × BudgetLedger) (p : KeyId × Entry) : ℕ × BudgetLedger :=
  let held := p.2.held
  if p.2.drawn = held && !p.2.undurable then acc
  else match acc.2.commit (p.2.record p.1 held) with
    | (true, l) => (acc.1, l.put p.1 { p.2 with drawn := held, undurable := false })
    | (false, l) => (satAdd u64Max acc.1 1, l)

/-- Commit the exact mark for every key, in key order; the result is how many keys could not be
committed. -/
def flush (l : BudgetLedger) : ℕ × BudgetLedger :=
  l.entries.toList.foldl flushEntry (0, l)

end BudgetLedger

namespace BudgetReservation

/-- The `Drop` implementation: a reservation nothing finished is retained. -/
def drop (r : BudgetReservation) (l : BudgetLedger) : Option Settlement × BudgetLedger :=
  if r.finished then (none, l)
  else ((l.finish r.key r.tokens r.tokens).1, (l.finish r.key r.tokens r.tokens).2)

/-- Settle against validated provider usage. -/
def settle (r : BudgetReservation) (actual : ℕ) (l : BudgetLedger) : Settlement × BudgetLedger :=
  l.finish r.key r.tokens actual

/-- Keep the whole reservation as the charge. -/
def retain (r : BudgetReservation) (l : BudgetLedger) : Settlement × BudgetLedger :=
  l.finish r.key r.tokens r.tokens

/-- Return the whole reservation. -/
def release (r : BudgetReservation) (l : BudgetLedger) : Settlement × BudgetLedger :=
  l.finish r.key r.tokens 0

end BudgetReservation

end HypeLlm.Budget
