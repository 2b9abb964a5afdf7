import HypeLlm.Budget.Credits

/-!
# No overdraft

* a reservation is granted only when everything consumed and reserved, itself included, fits the
  limit in force;
* over any stretch of a run in which the limit of a key is not written, the charges and what is
  still reserved exceed the limit, or what was reserved when the stretch began where that is
  more, by the overruns at most;
* the reserved counter is the sum of the tokens of the unfinished reservations;
* a reservation is charged once, whichever way it ends, and no counter is cut on the way: a
  reservation comes off the counter whole, and consumption stops at the largest quantity only.

A limit lowered below what is reserved is the reason for the second form: the work in flight
finishes within its reservation (`lowered_limit_is_outspent`).
-/

namespace HypeLlm.Budget

open HypeLlm.Words HypeLlm.Runs

namespace System

/-! ### Charges over a stretch of a run -/

/-- What an event charged `key`. -/
def eventCharge (key : KeyId) : Op × Outcome → ℕ
  | (_, .finished r (some settlement)) => if r.key = key then settlement.charged else 0
  | _ => 0

/-- By how much an event charged `key` above what was reserved for it. -/
def eventOverrun (key : KeyId) : Op × Outcome → ℕ
  | (_, .finished r (some settlement)) => if r.key = key then settlement.overrun else 0
  | _ => 0

/-- The charges of `key` over the run of `ops` from `s`. -/
def charges (key : KeyId) (s : System) : List Op → ℕ
  | [] => 0
  | op :: ops => eventCharge key (op, (s.apply op).1) + charges key (s.step op) ops

/-- The overruns of `key` over the run of `ops` from `s`. -/
def overruns (key : KeyId) (s : System) : List Op → ℕ
  | [] => 0
  | op :: ops => eventOverrun key (op, (s.apply op).1) + overruns key (s.step op) ops

/-- The operation leaves the limit of `key` as it is: it is no successful `set` or fresh credit of
that key. -/
def KeepsLimit (key : KeyId) (s : System) (op : Op) : Prop :=
  appliedSet key (op, (s.apply op).1) = none ∧ appliedCredit key (op, (s.apply op).1) = none

/-- How often the history says that reservation `id` was charged. -/
def timesCharged (id : ℕ) (history : List (Op × Outcome)) : ℕ :=
  history.countP fun
    | (.finish id' _, .finished _ (some _)) => id' = id
    | _ => false

/-- **A lowered limit is outspent** by the work in flight: 100 tokens are reserved, the limit is
lowered to 10, and the reservation is retained, which is no overrun. -/
theorem lowered_limit_is_outspent :
    ¬ ∀ failing drawTokens before ops key limit,
      ((after failing drawTokens before).ledger.view key).limit = some limit →
      StepsMeet step (KeepsLimit key) (after failing drawTokens before) ops →
      charges key (after failing drawTokens before) ops
        ≤ limit + overruns key (after failing drawTokens before) ops := by
  intro h
  have hcharges := h (fun _ => false) 0 [.set "k" "t" none (some 100) none, .reserve "k" "t" 100,
    .set "k" "t" none (some 10) none] [.finish 0 .retain] "k" 10 (by decide)
    ⟨⟨rfl, rfl⟩, trivial⟩
  revert hcharges
  decide

/-! ### What a stretch keeps -/

/-- The durable mark of a key: what a restart would take for its consumption. -/
def mark (l : BudgetLedger) (key : KeyId) : ℕ := (durableEntry l.journal.records key).drawn

/-- The account of `key` after charges of `charged` tokens, `overrun` of them above what was
reserved, in a stretch that began with `start` tokens reserved under `limit`. -/
structure Accounted (key : KeyId) (limit start charged overrun : ℕ) (l : BudgetLedger) : Prop where
  inForce : (l.entryFor key "").limit = some limit
  spent : charged ≤ (l.entryFor key "").consumed + overrun
  marked : charged + (l.entryFor key "").reserved ≤ mark l key + overrun
  bounded : charged + (l.entryFor key "").reserved ≤ max limit start + overrun

/-- A ledger with the same account of `key`, and its mark as it was or rewritten exact. -/
theorem Accounted.frame {key : KeyId} {limit start charged overrun : ℕ} {l l' : BudgetLedger}
    (h : Accounted key limit start charged overrun l) (hmark : mark l key ≤ maxTokens)
    (haccount : SameAccount (l.entryFor key "") (l'.entryFor key ""))
    (hmark' : mark l' key = mark l key ∨ mark l' key = (l.entryFor key "").held) :
    Accounted key limit start charged overrun l' := by
  refine ⟨by rw [haccount.limit, h.inForce], by rw [haccount.consumed]; exact h.spent, ?_,
    by rw [haccount.reserved]; exact h.bounded⟩
  rw [haccount.reserved]
  have hspent := h.spent
  have hmarked := h.marked
  have hheld := (l.entryFor key "").held_eq
  rcases hmark' with heq | heq <;> rw [heq] <;> omega

theorem mark_le {l : BudgetLedger} (h : Covered l) (key : KeyId) : mark l key ≤ maxTokens :=
  (h key "").mark_le

/-- An operation on another key frames the account. -/
theorem moved_other {l l' : BudgetLedger} {key key' : KeyId} {e' : Entry}
    {record : Option BudgetRecord} (hmoved : Moved l l' key' e' record)
    (hkey : ∀ r ∈ record, r.key = key') (hne : key ≠ key') :
    SameAccount (l.entryFor key "") (l'.entryFor key "") ∧ mark l' key = mark l key := by
  refine ⟨?_, ?_⟩
  · rw [hmoved.entryFor, if_neg hne]
    exact SameAccount.rfl' _
  · rw [mark, hmoved.records, durableEntry_append_ne _ _ key' key hkey hne]
    rfl

/-- An operation that refused, or answered from what it knew, frames the account. -/
theorem moved_same {l l' : BudgetLedger} {key key' : KeyId} {tenant : TenantId}
    (hmoved : Moved l l' key' (l.entryFor key' tenant) none) :
    SameAccount (l.entryFor key "") (l'.entryFor key "") ∧ mark l' key = mark l key := by
  refine ⟨?_, by rw [mark, hmoved.records]; simp [mark]⟩
  rw [hmoved.entryFor]
  split
  · rename_i hk
    subst hk
    simp only [BudgetLedger.entryFor]
    cases l.entries[key]? with
    | some e => exact SameAccount.rfl' e
    | none => exact ⟨rfl, rfl, rfl, rfl⟩
  · exact SameAccount.rfl' _

/-- Flushing writes the mark of a key exact, or leaves it. -/
theorem flush_mark (l : BudgetLedger) (key : KeyId) :
    mark l.flush.2 key = mark l key ∨ mark l.flush.2 key = (l.entryFor key "").held := by
  have hboth := BudgetLedger.flush_induction (P := fun l' =>
    SameAccount (l.entryFor key "") (l'.entryFor key "") ∧
      (mark l' key = mark l key ∨ mark l' key = (l.entryFor key "").held))
    ⟨SameAccount.rfl' _, .inl rfl⟩ ?_
  · exact hboth.2
  · rintro acc p hp ⟨haccount, hmark⟩
    refine ⟨haccount.trans (flushEntry_account acc p hp key ""), ?_⟩
    simp only [BudgetLedger.flushEntry]
    split
    · exact hmark
    cases hf : acc.2.fails with
    | true =>
      rw [BudgetLedger.commit_lost _ hf]
      exact hmark
    | false =>
      rw [BudgetLedger.commit_ok _ hf]
      have hkey : (p.2.record p.1 p.2.held).key = p.1 := rfl
      simp only [mark, BudgetLedger.put_journal, durableEntry_snoc, hkey]
      by_cases hk : p.1 = key
      · subst hk
        have hfor : acc.2.entryFor p.1 "" = p.2 := by simp [BudgetLedger.entryFor, hp]
        rw [hfor] at haccount
        refine .inr ?_
        rw [if_pos rfl]
        show min p.2.held maxTokens = _
        rw [Nat.min_eq_left p.2.held_le_maxTokens, Entry.held_eq, Entry.held_eq,
          haccount.consumed, haccount.reserved]
      · rw [if_neg hk]
        exact hmark

/-- **A grant keeps the account**: it fits the limit and its mark is durable. -/
theorem accounted_granted {key : KeyId} {limit start charged overrun : ℕ} {l l' : BudgetLedger}
    (h : Accounted key limit start charged overrun l) (hc : Covered l) (hc' : Covered l')
    {tenant : TenantId} {tokens : ℕ} {e' : Entry} {record : Option BudgetRecord}
    (hmoved : Moved l l' key e' record)
    (hgranted : Granted key l.drawTokens l.fails (l.entryFor key tenant) tokens e' record) :
    Accounted key limit start charged overrun l' := by
  have hentry : l'.entryFor key "" = e' := by rw [hmoved.entryFor, if_pos rfl]
  have hsame : SameAccount (l.entryFor key "") (l.entryFor key tenant) := by
    simp only [BudgetLedger.entryFor]
    cases l.entries[key]? <;> exact ⟨rfl, rfl, rfl, rfl⟩
  have hfits := hgranted.fits
  have hreserved := granted_reserved hgranted (hc key tenant)
  have hheld := granted_held hgranted (hc key tenant)
  have hconsumed : e'.consumed = (l.entryFor key tenant).consumed := by cases hgranted <;> rfl
  have hlimit : e'.limit = (l.entryFor key tenant).limit := by cases hgranted <;> rfl
  have hdurable : e'.undurable = false := by
    cases hgranted with
    | under _ durable _ => exact durable
    | drawn _ _ _ => rfl
  have hcovers := hc' key ""
  rw [hentry] at hcovers
  have hmark : mark l' key = e'.drawn := hcovers.mark hdurable
  have hunder := hcovers.held_le
  have hroom := hfits.total
  have hinForce : (l.entryFor key tenant).limit = some limit := by rw [hsame.limit, h.inForce]
  have hfit := hfits.limit limit hinForce
  have hlargest := (hc key tenant).limit_le limit hinForce
  have hsum := (l.entryFor key tenant).held_eq
  have hspent := h.spent
  rw [← hsame.consumed] at hspent
  refine ⟨?_, ?_, ?_, ?_⟩
  · rw [hentry, hlimit, hinForce]
  · rw [hentry, hconsumed]
    exact hspent
  · rw [hentry, hmark, hreserved]
    omega
  · rw [hentry, hreserved]
    omega

/-- **A charge keeps the account**, the overrun counted. -/
theorem accounted_charged {key : KeyId} {limit start charged overrun : ℕ} {l l' : BudgetLedger}
    (h : Accounted key limit start charged overrun l) (hc : Covered l) {tokens charge : ℕ}
    {e e' : Entry} {record : Option BudgetRecord} {durable : Bool}
    (he : l.entries[key]? = some e) (htokens : tokens ≤ e.reserved)
    (hmoved : Moved l l' key e' record)
    (hcharged : Charged key l.fails e tokens charge e' record durable) :
    Accounted key limit start (charge + charged) (charge - tokens + overrun) l' := by
  have hentry : l'.entryFor key "" = e' := by rw [hmoved.entryFor, if_pos rfl]
  have hfor : l.entryFor key "" = e := by simp [BudgetLedger.entryFor, he]
  obtain ⟨hlimit, hspent, hmarked, hbounded⟩ := h
  rw [hfor] at hlimit hspent hmarked hbounded
  have hmark := mark_le hc key
  have hlimit' : e'.limit = e.limit := by cases hcharged <;> rfl
  have hreserved : e'.reserved = e.reserved - tokens := charged_reserved hcharged
  have hconsumed : e'.consumed = min (e.consumed + charge) maxTokens := by
    cases hcharged <;> exact min_satAdd maxTokens_le_u64Max
  have hmark' : mark l' key = mark l key ∨ mark l' key = e'.held := by
    rw [mark, hmoved.records]
    cases hcharged with
    | under _ => exact .inl (by simp [mark])
    | overrun _ _ =>
      refine .inr ?_
      have hkey : ((e.charge tokens charge).record key (e.charge tokens charge).held).key = key :=
        rfl
      rw [Option.toList_some, durableEntry_snoc, if_pos hkey]
      exact Nat.min_eq_left (Entry.held_le_maxTokens _)
    | lost _ _ => exact .inl (by simp [mark])
  have hheld := e'.held_eq
  refine ⟨?_, ?_, ?_, ?_⟩
  · rw [hentry, hlimit', hlimit]
  · rw [hentry, hconsumed]
    omega
  · rw [hentry, hreserved]
    rcases hmark' with heq | heq <;> rw [heq] <;> omega
  · rw [hentry, hreserved]
    omega

/-- **One step keeps the account** of a key whose limit it does not write. -/
theorem accounted_step {s : System} (hs : Sound s) {key : KeyId} {limit start charged overrun : ℕ}
    (h : Accounted key limit start charged overrun s.ledger) (op : Op)
    (hkeeps : KeepsLimit key s op) :
    Accounted key limit start (eventCharge key (op, (s.apply op).1) + charged)
      (eventOverrun key (op, (s.apply op).1) + overrun) (s.step op).ledger := by
  have hmark := mark_le hs.covered key
  -- every case but a grant and a charge of `key` frames the account
  have hframe : ∀ {l' : BudgetLedger},
      SameAccount (s.ledger.entryFor key "") (l'.entryFor key "") ∧
        mark l' key = mark s.ledger key →
      Accounted key limit start (0 + charged) (0 + overrun) l' := by
    intro l' hsame
    rw [Nat.zero_add, Nat.zero_add]
    exact h.frame hmark hsame.1 (.inl hsame.2)
  cases op with
  | reserve key' tenant tokens =>
    show Accounted key limit start (0 + charged) (0 + overrun)
      (s.apply (.reserve key' tenant tokens)).2.ledger
    obtain ⟨refusal, herr, hmoved⟩ | ⟨e', record, hok, hmoved, hgranted⟩ :=
      s.ledger.reserve_move key' tenant tokens
    · rw [apply_reserve_error herr]
      exact hframe (moved_same hmoved)
    · have hcovered := covered_apply hs.covered (.reserve key' tenant tokens)
      rw [apply_reserve_ok hok] at hcovered ⊢
      by_cases hk : key = key'
      · subst hk
        rw [Nat.zero_add, Nat.zero_add]
        exact accounted_granted h hs.covered hcovered hmoved hgranted
      · exact hframe (moved_other hmoved (Move.reserve hgranted).record_key hk)
  | finish id how =>
    show Accounted key limit start _ _ (s.apply (.finish id how)).2.ledger
    cases hlive : s.live id with
    | none =>
      rw [apply_finish_none hlive]
      exact hframe ⟨SameAccount.rfl' _, rfl⟩
    | some r =>
      obtain ⟨e, he⟩ := hs.known id r hlive
      obtain ⟨e', record, durable, hsettle, hmoved, hcharged⟩ :=
        s.ledger.finish_move r.key r.tokens (how.charged r.tokens) e he
      rw [apply_finish_some hlive]
      by_cases hk : r.key = key
      · subst hk
        have hreserved := hs.reserved r.key ""
        rw [show s.ledger.entryFor r.key "" = e by simp [BudgetLedger.entryFor, he]] at hreserved
        have htokens : r.tokens ≤ e.reserved := hreserved ▸ tokens_le_outstanding hlive
        simp only [eventCharge, eventOverrun, finished, hsettle, if_true]
        exact accounted_charged h hs.covered he htokens hmoved hcharged
      · have hk' : key ≠ r.key := fun heq => hk heq.symm
        have hmove : Move r.key 0 s.ledger.fails e e' record := .finish hcharged
        simp only [eventCharge, eventOverrun, if_neg hk]
        exact hframe (moved_other hmoved hmove.record_key hk')
  | set key' tenant expectedRevision limit' payment =>
    show Accounted key limit start (0 + charged) (0 + overrun)
      (s.ledger.set key' tenant expectedRevision limit' payment).2
    obtain ⟨_, -, hsame | hmoved⟩ | ⟨record, hok, hmoved, hmove⟩ :=
      s.ledger.set_move key' tenant expectedRevision limit' payment
    · rw [hsame]
      exact hframe ⟨SameAccount.rfl' _, rfl⟩
    · exact hframe (moved_same hmoved)
    · refine hframe (moved_other hmoved hmove.record_key fun hk => ?_)
      -- a successful `set` of the key writes its limit
      have hset := hkeeps.1
      rw [show (s.apply (.set key' tenant expectedRevision limit' payment)).1
        = .set (s.ledger.set key' tenant expectedRevision limit' payment).1 from rfl, hok] at hset
      simp [appliedSet, hk] at hset
  | credit key' tenant c =>
    show Accounted key limit start (0 + charged) (0 + overrun) (s.ledger.credit key' tenant c).2
    cases hreceipt : (s.ledger.entryFor key' tenant).receipts[c.idempotencyKey]? with
    | some receipt =>
      exact hframe (moved_same (s.ledger.credit_known key' tenant c receipt hreceipt).2)
    | none =>
      obtain ⟨_, -, hmoved⟩ | ⟨_, _, record, -, -, hok, hmoved, hmove⟩ :=
        s.ledger.credit_move key' tenant c hreceipt
      · exact hframe (moved_same hmoved)
      · refine hframe (moved_other hmoved hmove.record_key fun hk => ?_)
        have hcredit := hkeeps.2
        rw [show (s.apply (.credit key' tenant c)).1
          = .credited (s.ledger.credit key' tenant c).1 from rfl, hok] at hcredit
        simp [appliedCredit, hk] at hcredit
  | flush =>
    show Accounted key limit start (0 + charged) (0 + overrun) s.ledger.flush.2
    rw [Nat.zero_add, Nat.zero_add]
    exact h.frame hmark (flush_account s.ledger key "") (flush_mark s.ledger key)
  | restart d =>
    show Accounted key limit start (0 + charged) (0 + overrun) (restarted s.ledger d)
    rw [Nat.zero_add, Nat.zero_add]
    have hcovers := hs.covered key ""
    have hmark' : mark (restarted s.ledger d) key = mark s.ledger key := by
      rw [mark, restarted_journal]
      rfl
    have hview : ((restarted s.ledger d).entryFor key "").view
        = (durableEntry s.ledger.journal.records key).view := by
      rw [← view_eq, restarted_view]
    have hconsumed : ((restarted s.ledger d).entryFor key "").consumed = mark s.ledger key :=
      (congrArg BudgetView.consumed hview).trans hcovers.spent
    have hreserved : ((restarted s.ledger d).entryFor key "").reserved = 0 :=
      (congrArg BudgetView.reserved hview).trans hcovers.idle
    have hlimit : ((restarted s.ledger d).entryFor key "").limit = some limit :=
      (congrArg BudgetView.limit hview).trans (hcovers.limit.trans h.inForce)
    have hmarked := h.marked
    have hbounded := h.bounded
    refine ⟨hlimit, ?_, ?_, ?_⟩
    · rw [hconsumed]
      omega
    · rw [hreserved, hmark']
      omega
    · rw [hreserved]
      omega

/-- **A stretch keeps the account.** -/
theorem accounted_run {s : System} (hs : Sound s) {key : KeyId} {limit start charged overrun : ℕ}
    (h : Accounted key limit start charged overrun s.ledger) (ops : List Op)
    (hkeeps : StepsMeet step (KeepsLimit key) s ops) :
    Accounted key limit start (charges key s ops + charged) (overruns key s ops + overrun)
      (run step s ops).ledger := by
  induction ops generalizing s charged overrun with
  | nil =>
    rw [charges, overruns, Nat.zero_add, Nat.zero_add]
    exact h
  | cons op ops ih =>
    have hstep := ih (sound_step op hs) (accounted_step hs h op hkeeps.1) hkeeps.2
    have hcharges : charges key s (op :: ops) + charged
        = charges key (s.step op) ops + (eventCharge key (op, (s.apply op).1) + charged) := by
      rw [charges]
      omega
    have hoverruns : overruns key s (op :: ops) + overrun
        = overruns key (s.step op) ops + (eventOverrun key (op, (s.apply op).1) + overrun) := by
      rw [overruns]
      omega
    rw [hcharges, hoverruns]
    exact hstep

/-- A stretch may begin in any reachable state. -/
theorem accounted_start {s : System} (hs : Sound s) {key : KeyId} {limit : ℕ}
    (hlimit : (s.ledger.view key).limit = some limit) :
    Accounted key limit (s.ledger.view key).reserved 0 0 s.ledger := by
  rw [view_eq _ _ ""] at hlimit ⊢
  have hmark : (s.ledger.entryFor key "").reserved ≤ mark s.ledger key :=
    (hs.covered key "").reserved_mark
  have hview : (s.ledger.entryFor key "").view.reserved = (s.ledger.entryFor key "").reserved := rfl
  refine ⟨hlimit, Nat.zero_le _, ?_, ?_⟩
  · omega
  · rw [hview]
    omega

/-! ### One charge for each reservation -/

/-- The history charges each slot as often as its state says. -/
structure ChargedOnce (s : System) : Prop where
  fresh : ∀ id, s.reservations.length ≤ id → timesCharged id s.history = 0
  slot : ∀ id r, s.reservations[id]? = some (some r) →
    timesCharged id s.history = if r.finished then 1 else 0
  once : ∀ id, timesCharged id s.history ≤ 1

/-- An event that is no end of a reservation charges nothing. -/
theorem timesCharged_cons {op : Op} (h : ∀ id how, op ≠ .finish id how) (outcome : Outcome)
    (id : ℕ) (history : List (Op × Outcome)) :
    timesCharged id ((op, outcome) :: history) = timesCharged id history := by
  cases op with
  | finish id' how => exact absurd rfl (h id' how)
  | _ => simp [timesCharged]

theorem timesCharged_finished (id id' : ℕ) (how : Finish) (r : BudgetReservation)
    (settlement : Settlement) (history : List (Op × Outcome)) :
    timesCharged id ((.finish id' how, .finished r (some settlement)) :: history)
      = timesCharged id history + if id' = id then 1 else 0 := by
  simp [timesCharged, List.countP_cons]

/-- The same slots and the same counts. -/
theorem ChargedOnce.frame {s s' : System} (h : ChargedOnce s)
    (hslots : s'.reservations = s.reservations)
    (hsame : ∀ id, timesCharged id s'.history = timesCharged id s.history) : ChargedOnce s' where
  fresh id hid := by
    rw [hsame]
    exact h.fresh id (hslots ▸ hid)
  slot id r hr := by
    rw [hsame]
    exact h.slot id r (hslots ▸ hr)
  once id := by
    rw [hsame]
    exact h.once id

theorem chargedOnce_step {s : System} (op : Op) (h : ChargedOnce s) : ChargedOnce (s.step op) := by
  have hother : (∀ id how, op ≠ .finish id how) → ∀ id,
      timesCharged id (s.step op).history = timesCharged id s.history :=
    fun hop id => timesCharged_cons hop _ id _
  cases op with
  | reserve key tenant tokens =>
    have hsame := hother (by simp)
    obtain ⟨refusal, herr, -⟩ | ⟨e', record, hok, -, -⟩ :=
      s.ledger.reserve_move key tenant tokens
    · exact h.frame (by simp only [step, apply_reserve_error herr]) hsame
    · have hslots : (s.step (.reserve key tenant tokens)).reservations
          = s.reservations ++ [some ⟨key, tokens, false⟩] := by
        simp only [step, apply_reserve_ok hok]
      refine ⟨fun id hid => ?_, fun id r hr => ?_, fun id => ?_⟩
      · rw [hsame]
        rw [hslots, List.length_append] at hid
        exact h.fresh id (by omega)
      · rw [hsame]
        rw [hslots] at hr
        rcases Nat.lt_or_ge id s.reservations.length with hlt | hge
        · rw [List.getElem?_append_left hlt] at hr
          exact h.slot id r hr
        · rw [List.getElem?_append_right hge] at hr
          have hmem := List.mem_of_getElem? hr
          obtain rfl : r = ⟨key, tokens, false⟩ := by simpa using hmem
          exact h.fresh id hge
      · rw [hsame]
        exact h.once id
  | finish id how =>
    cases hlive : s.live id with
    | none =>
      refine h.frame (by simp only [step, apply_finish_none hlive]) fun id' => ?_
      simp only [step, apply_finish_none hlive]
      simp [timesCharged]
    | some r =>
      obtain ⟨hslot, hunfinished⟩ := live_eq_some.mp hlive
      have hzero : timesCharged id s.history = 0 := by
        rw [h.slot id r hslot, hunfinished]
        rfl
      have hhistory : ∀ id', timesCharged id' (s.step (.finish id how)).history
          = timesCharged id' s.history + if id = id' then 1 else 0 := by
        intro id'
        simp only [step, apply_finish_some hlive]
        exact timesCharged_finished id' id how r _ _
      have hslots : (s.step (.finish id how)).reservations
          = s.reservations.set id (some { r with finished := true }) := by
        simp only [step, apply_finish_some hlive]
      have hlt : id < s.reservations.length := (List.getElem?_eq_some_iff.mp hslot).1
      refine ⟨fun id' hid => ?_, fun id' r' hr => ?_, fun id' => ?_⟩
      · rw [hslots, List.length_set] at hid
        rw [hhistory, h.fresh id' hid, if_neg (by omega)]
      · rw [hslots, List.getElem?_set] at hr
        rw [hhistory]
        by_cases hid : id = id'
        · subst hid
          rw [if_pos rfl, if_pos hlt] at hr
          obtain rfl : { r with finished := true } = r' := by simpa using hr
          rw [hzero]
          simp
        · rw [if_neg hid] at hr
          rw [h.slot id' r' hr, if_neg hid, Nat.add_zero]
      · rw [hhistory]
        by_cases hid : id = id'
        · subst hid
          rw [hzero, if_pos rfl]
        · rw [if_neg hid]
          exact h.once id'
  | restart d =>
    have hsame := hother (by simp)
    refine ⟨fun id hid => ?_, fun id r hr => ?_, fun id => ?_⟩
    · rw [hsame]
      refine h.fresh id ?_
      simpa [step, apply] using hid
    · have hmem := List.mem_of_getElem? hr
      simp [step, apply] at hmem
    · rw [hsame]
      exact h.once id
  | set => exact h.frame rfl (hother (by simp))
  | credit => exact h.frame rfl (hother (by simp))
  | flush => exact h.frame rfl (hother (by simp))

theorem chargedOnce_after (failing : ℕ → Bool) (drawTokens : ℕ) (ops : List Op) :
    ChargedOnce (after failing drawTokens ops) := by
  refine run_invariant (fun _ op h => chargedOnce_step op h) ?_ ops
  exact ⟨fun _ _ => rfl, fun _ _ h => by simp [init] at h, fun _ => Nat.zero_le _⟩

/-! ### The account of a key -/

/-- What holds of the account of `key` in `s`, and of what the next operations make of it. -/
structure NoOverdraft (s : System) (key : KeyId) : Prop where
  /-- A grant under a finite limit leaves consumption and reservations within it. -/
  granted : ∀ tenant tokens r limit, (s.ledger.reserve key tenant tokens).1 = .ok r →
    (s.ledger.view key).limit = some limit →
    ((s.ledger.reserve key tenant tokens).2.view key).consumed
      + ((s.ledger.reserve key tenant tokens).2.view key).reserved ≤ limit
  /-- While the limit is not written, charges stay within it but for the overruns, or within what
  was reserved at the start where that is more. -/
  charged : ∀ limit ops, (s.ledger.view key).limit = some limit →
    StepsMeet step (KeepsLimit key) s ops →
    charges key s ops + ((run step s ops).ledger.view key).reserved
      ≤ max limit (s.ledger.view key).reserved + overruns key s ops
  /-- The counter is the sum over the unfinished reservations. -/
  reserved : (s.ledger.view key).reserved = s.outstanding key
  /-- An unfinished reservation has not been charged, a finished one once; one that died with its
  process at most once. -/
  once : (∀ id r, s.reservations[id]? = some (some r) →
      timesCharged id s.history = if r.finished then 1 else 0) ∧
    ∀ id, timesCharged id s.history ≤ 1
  /-- Ending a reservation, in any of the four ways, charges what that way says: the reservation
  comes off the counter whole and the charge goes on consumption, cut at the largest quantity. -/
  ended : ∀ id how r, s.live id = some r → r.key = key →
    (∃ durable, (s.apply (.finish id how)).1 = .finished r (some
      ⟨how.charged r.tokens, how.charged r.tokens - r.tokens, durable⟩)) ∧
    ((s.step (.finish id how)).ledger.view key).reserved + r.tokens
      = (s.ledger.view key).reserved ∧
    ((s.step (.finish id how)).ledger.view key).consumed
      = min ((s.ledger.view key).consumed + how.charged r.tokens) maxTokens
  /-- No counter passes the largest quantity, so none wraps. -/
  representable : (s.ledger.view key).consumed ≤ maxTokens ∧
    (s.ledger.view key).reserved ≤ maxTokens

theorem granted_within {s : System} (hs : Sound s) {key : KeyId} {tenant : TenantId}
    {tokens limit : ℕ} {r : BudgetReservation}
    (hok : (s.ledger.reserve key tenant tokens).1 = .ok r)
    (hlimit : (s.ledger.view key).limit = some limit) :
    ((s.ledger.reserve key tenant tokens).2.view key).consumed
      + ((s.ledger.reserve key tenant tokens).2.view key).reserved ≤ limit := by
  obtain ⟨refusal, herr, -⟩ | ⟨e', record, -, hmoved, hgranted⟩ :=
    s.ledger.reserve_move key tenant tokens
  · rw [hok] at herr
    cases herr
  rw [view_eq _ _ tenant] at hlimit
  rw [view_eq _ _ tenant, hmoved.entryFor, if_pos rfl]
  have hcovers := hs.covered key tenant
  have hreserved := granted_reserved hgranted hcovers
  have hconsumed : e'.consumed = (s.ledger.entryFor key tenant).consumed := by
    cases hgranted <;> rfl
  have hfit := hgranted.fits.limit limit hlimit
  have hlargest := hcovers.limit_le limit hlimit
  have hsum := (s.ledger.entryFor key tenant).held_eq
  show e'.consumed + e'.reserved ≤ limit
  rw [hconsumed, hreserved]
  omega

theorem ended_exact {s : System} (hs : Sound s) {id : ℕ} (how : Finish) {r : BudgetReservation}
    (hlive : s.live id = some r) :
    (∃ durable, (s.apply (.finish id how)).1 = .finished r (some
      ⟨how.charged r.tokens, how.charged r.tokens - r.tokens, durable⟩)) ∧
    ((s.step (.finish id how)).ledger.view r.key).reserved + r.tokens
      = (s.ledger.view r.key).reserved ∧
    ((s.step (.finish id how)).ledger.view r.key).consumed
      = min ((s.ledger.view r.key).consumed + how.charged r.tokens) maxTokens := by
  obtain ⟨e, he⟩ := hs.known id r hlive
  obtain ⟨e', record, durable, hsettle, hmoved, hcharged⟩ :=
    s.ledger.finish_move r.key r.tokens (how.charged r.tokens) e he
  have hfor : s.ledger.entryFor r.key "" = e := by simp [BudgetLedger.entryFor, he]
  have hreserved := hs.reserved r.key ""
  rw [hfor] at hreserved
  have htokens := tokens_le_outstanding hlive
  have hview : (s.step (.finish id how)).ledger.view r.key = e'.view := by
    show ((s.apply (.finish id how)).2.ledger).view r.key = e'.view
    rw [apply_finish_some hlive, view_eq _ _ ""]
    show (BudgetLedger.entryFor (s.ledger.finish r.key r.tokens _).2 r.key "").view = _
    rw [hmoved.entryFor, if_pos rfl]
  rw [hview, view_eq s.ledger _ "", hfor]
  refine ⟨⟨durable, ?_⟩, ?_, ?_⟩
  · rw [apply_finish_some hlive, finished, hsettle]
  · show e'.reserved + r.tokens = e.reserved
    rw [charged_reserved hcharged]
    omega
  · show e'.consumed = min (e.consumed + how.charged r.tokens) maxTokens
    cases hcharged <;> exact min_satAdd maxTokens_le_u64Max

/-- **No overdraft**, at every point of every run, for every key. -/
theorem no_overdraft (failing : ℕ → Bool) (drawTokens : ℕ) (ops : List Op) (key : KeyId) :
    NoOverdraft (after failing drawTokens ops) key := by
  have hs := sound_after failing drawTokens ops
  have honce := chargedOnce_after failing drawTokens ops
  refine ⟨fun tenant tokens r limit hok hlimit => granted_within hs hok hlimit, ?_, ?_,
    ⟨honce.slot, honce.once⟩, ?_, ?_⟩
  · intro limit later hlimit hkeeps
    have hbounded := (accounted_run hs (accounted_start hs hlimit) later hkeeps).bounded
    rw [Nat.add_zero, Nat.add_zero] at hbounded
    rw [view_eq (run step _ later).ledger _ ""]
    exact hbounded
  · rw [view_eq _ _ ""]
    exact hs.reserved key ""
  · rintro id how r hlive rfl
    exact ended_exact hs how hlive
  · rw [view_eq _ _ ""]
    exact ⟨(hs.covered key "").consumed_le, (hs.covered key "").reserved_le⟩

end System

end HypeLlm.Budget
