import HypeLlm.Budget.CrashSafety

/-!
# A credit is applied once

For every run, journal failures and restarts included, an idempotency key of a key applies at
most one credit; every later call with it is answered from the receipt of that credit; and the
limit of a key is what its last successful `set` left plus the tokens of the credits applied
since, in the running ledger and in the one a restart would build.

The history is read newest first: `lastSet` and `creditsSince` scan back to the last successful
`set` of the key.
-/

namespace HypeLlm.Budget

open HypeLlm.Words HypeLlm.Runs

namespace System

/-! ### What the history says of a key -/

/-- The credit an event applied to `key` and the receipt it answered with, if it applied one: a
call that succeeded and was not a replay. -/
def appliedCredit (key : KeyId) : Op × Outcome → Option (BudgetLedger.Credit × CreditReceipt)
  | (.credit key' _ c, .credited (.ok out)) =>
    if key' = key ∧ out.replayed = false then some (c, out.receipt) else none
  | _ => none

/-- The limit an event set for `key`, if it was a successful `set` of it. -/
def appliedSet (key : KeyId) : Op × Outcome → Option (Option ℕ)
  | (.set key' _ _ limit _, .set (.ok _)) => if key' = key then some limit else none
  | _ => none

/-- The limit of the last successful `set` of `key`; unlimited before the first. -/
def lastSet (key : KeyId) : List (Op × Outcome) → Option ℕ
  | [] => none
  | event :: older => (appliedSet key event).getD (lastSet key older)

/-- The credits applied to `key` since its last successful `set`. -/
def creditsSince (key : KeyId) :
    List (Op × Outcome) → List (BudgetLedger.Credit × CreditReceipt)
  | [] => []
  | event :: older =>
    if (appliedSet key event).isSome then []
    else (appliedCredit key event).toList ++ creditsSince key older

/-- What the history makes of the limit of `key`. -/
def historyLimit (key : KeyId) (history : List (Op × Outcome)) : Option ℕ :=
  (lastSet key history).map fun limit =>
    limit + ((creditsSince key history).map fun p => p.1.tokens).sum

/-- Every credit the history has applied to `key`. -/
def appliedCredits (key : KeyId) (history : List (Op × Outcome)) :
    List (BudgetLedger.Credit × CreditReceipt) :=
  history.filterMap (appliedCredit key)

theorem appliedCredit_fresh (key : KeyId) (tenant : TenantId) (c : BudgetLedger.Credit)
    (receipt : CreditReceipt) (view : BudgetView) :
    appliedCredit key (.credit key tenant c, .credited (.ok ⟨receipt, view, false⟩))
      = some (c, receipt) := by
  simp [appliedCredit]

theorem appliedCredit_ne {key key' : KeyId} (h : key' ≠ key) (tenant : TenantId)
    (c : BudgetLedger.Credit) (result : Except BudgetMutationError CreditOutcome) :
    appliedCredit key (.credit key' tenant c, .credited result) = none := by
  cases result <;> simp [appliedCredit, h]

theorem historyLimit_set {key : KeyId} {event : Op × Outcome} {limit : Option ℕ}
    (h : appliedSet key event = some limit) (older : List (Op × Outcome)) :
    historyLimit key (event :: older) = limit := by
  simp [historyLimit, lastSet, creditsSince, h]

theorem historyLimit_credit {key : KeyId} {event : Op × Outcome}
    {p : BudgetLedger.Credit × CreditReceipt} (hset : appliedSet key event = none)
    (h : appliedCredit key event = some p) (older : List (Op × Outcome)) :
    historyLimit key (event :: older) = (historyLimit key older).map (· + p.1.tokens) := by
  simp only [historyLimit, lastSet, creditsSince, hset, h, Option.getD_none, Option.isSome_none,
    Bool.false_eq_true, if_false, Option.toList_some, List.singleton_append, List.map_cons,
    List.sum_cons, Option.map_map]
  congr 1
  funext limit
  simp only [Function.comp_apply]
  omega

theorem historyLimit_other {key : KeyId} {event : Op × Outcome}
    (hset : appliedSet key event = none) (h : appliedCredit key event = none)
    (older : List (Op × Outcome)) :
    historyLimit key (event :: older) = historyLimit key older := by
  simp [historyLimit, lastSet, creditsSince, hset, h]

/-! ### Receipts -/

/-- The receipt the ledger would answer from, for any tenant. -/
theorem receipt_eq (l : BudgetLedger) (key : KeyId) (tenant : TenantId) (k : String) :
    l.receipt key k = (l.entryFor key tenant).receipts[k]? := by
  simp only [BudgetLedger.receipt, BudgetLedger.entryFor]
  cases l.entries[key]? <;> simp [Entry.new]

theorem Move.receipts_persist {key : KeyId} {draw : ℕ} {fails : Bool} {e e' : Entry}
    {record : Option BudgetRecord} (h : Move key draw fails e e' record) {k : String}
    {receipt : CreditReceipt} (hk : e.receipts[k]? = some receipt) :
    e'.receipts[k]? = some receipt := by
  cases h with
  | stay => exact hk
  | reserve granted => cases granted <;> exact hk
  | finish charge => cases charge <;> exact hk
  | set => exact hk
  | credit limit r finite sum bounded fresh ok =>
    have hne : k ≠ r.idempotencyKey := fun heq => by
      rw [← heq, hk] at fresh
      cases fresh
    simp only [Maps.getElem?_insert, if_neg hne, hk]
  | flush => exact hk

theorem steps_receipt {l l' : BudgetLedger} (h : Relation.ReflTransGen BudgetLedger.Step l l')
    {key : KeyId} {k : String} {receipt : CreditReceipt} (hk : l.receipt key k = some receipt) :
    l'.receipt key k = some receipt := by
  induction h with
  | refl => exact hk
  | tail _ hstep ih =>
    obtain ⟨key', tenant, e', record, hmoved, hmove⟩ := hstep
    rw [receipt_eq _ _ tenant] at ih ⊢
    rw [hmoved.entryFor]
    split
    · rename_i heq
      subst heq
      exact Move.receipts_persist hmove ih
    · exact ih

/-- **Receipts persist**, through failed commits and restarts. -/
theorem receipt_apply {s : System} (h : Sound s) (op : Op) {key : KeyId} {k : String}
    {receipt : CreditReceipt} (hk : s.ledger.receipt key k = some receipt) :
    (s.apply op).2.ledger.receipt key k = some receipt := by
  by_cases hop : ∃ d, op = .restart d
  · obtain ⟨d, rfl⟩ := hop
    show (restarted s.ledger d).receipt key k = some receipt
    have hshadow := (h.covered key "").receipts k
    rw [receipt_eq _ _ ""] at hk ⊢
    rw [hk] at hshadow
    obtain heq | ⟨-, hnew⟩ := restarted_entryFor s.ledger d key ""
    · rw [heq, hshadow]
    · rw [hnew] at hshadow
      simp [Entry.new] at hshadow
  · exact steps_receipt (apply_steps s op fun d hd => hop ⟨d, hd⟩) hk

/-! ### Limits -/

theorem limit_eq (l : BudgetLedger) (key : KeyId) (tenant : TenantId) :
    (l.view key).limit = (l.entryFor key tenant).limit := by
  rw [view_eq l key tenant]
  rfl

theorem Moved.limit {l l' : BudgetLedger} {key : KeyId} {e' : Entry}
    {record : Option BudgetRecord} (h : Moved l l' key e' record) (k : KeyId) :
    (l'.view k).limit = if k = key then e'.limit else (l.view k).limit := by
  rw [limit_eq _ _ "", limit_eq _ _ "", h.entryFor]
  split <;> rfl

/-- A move that keeps the limit of its key keeps every limit. -/
theorem Moved.limit_same {l l' : BudgetLedger} {key : KeyId} {e' : Entry}
    {record : Option BudgetRecord} (h : Moved l l' key e' record) (tenant : TenantId)
    (hsame : e'.limit = (l.entryFor key tenant).limit) (k : KeyId) :
    (l'.view k).limit = (l.view k).limit := by
  rw [Moved.limit h]
  split
  · rename_i hk
    rw [hk, hsame, ← limit_eq]
  · rfl

/-- **One operation moves the limit as the history says.** -/
theorem limit_apply {s : System} (h : Sound s) (op : Op) (key : KeyId)
    (hlimit : (s.ledger.view key).limit = historyLimit key s.history) :
    ((s.apply op).2.ledger.view key).limit
      = historyLimit key ((op, (s.apply op).1) :: s.history) := by
  cases op with
  | reserve key' tenant tokens =>
    rw [historyLimit_other rfl rfl, ← hlimit]
    obtain ⟨refusal, herr, hmoved⟩ | ⟨e', record, hok, hmoved, hgranted⟩ :=
      s.ledger.reserve_move key' tenant tokens
    · rw [apply_reserve_error herr]
      exact Moved.limit_same hmoved tenant rfl key
    · rw [apply_reserve_ok hok]
      exact Moved.limit_same hmoved tenant (by cases hgranted <;> rfl) key
  | finish id how =>
    rw [historyLimit_other rfl rfl, ← hlimit]
    cases hlive : s.live id with
    | none => rw [apply_finish_none hlive]
    | some r =>
      obtain ⟨e, he⟩ := h.known id r hlive
      obtain ⟨e', record, durable, -, hmoved, hcharged⟩ :=
        s.ledger.finish_move r.key r.tokens (how.charged r.tokens) e he
      have hfor : s.ledger.entryFor r.key "" = e := by simp [BudgetLedger.entryFor, he]
      rw [apply_finish_some hlive]
      refine Moved.limit_same hmoved "" ?_ key
      rw [hfor]
      cases hcharged <;> rfl
  | set key' tenant expectedRevision limit payment =>
    show ((s.ledger.set key' tenant expectedRevision limit payment).2.view key).limit
      = historyLimit key ((_, .set (s.ledger.set key' tenant expectedRevision limit payment).1) :: _)
    obtain ⟨error, herr, hsame | hmoved⟩ | ⟨record, hok, hmoved, -⟩ :=
      s.ledger.set_move key' tenant expectedRevision limit payment
    · rw [herr, hsame, historyLimit_other rfl rfl, ← hlimit]
    · rw [herr, historyLimit_other rfl rfl, ← hlimit]
      exact Moved.limit_same hmoved tenant rfl key
    · rw [hok, Moved.limit hmoved]
      by_cases hk : key = key'
      · have hset : appliedSet key (.set key' tenant expectedRevision limit payment,
            .set (.ok (BudgetLedger.edited (s.ledger.entryFor key' tenant) limit payment).view))
            = some limit := by simp [appliedSet, hk]
        rw [if_pos hk, historyLimit_set hset]
        rfl
      · have hk' : key' ≠ key := fun h => hk h.symm
        rw [if_neg hk, historyLimit_other (by simp [appliedSet, hk']) rfl, ← hlimit]
  | credit key' tenant c =>
    show ((s.ledger.credit key' tenant c).2.view key).limit
      = historyLimit key ((_, .credited (s.ledger.credit key' tenant c).1) :: _)
    cases hreceipt : (s.ledger.entryFor key' tenant).receipts[c.idempotencyKey]? with
    | some receipt =>
      obtain ⟨hout, hmoved⟩ := s.ledger.credit_known key' tenant c receipt hreceipt
      have hnone : appliedCredit key (.credit key' tenant c,
          .credited (s.ledger.credit key' tenant c).1) = none := by
        rw [hout]
        split <;> simp [appliedCredit]
      rw [historyLimit_other rfl hnone, ← hlimit]
      exact Moved.limit_same hmoved tenant rfl key
    | none =>
      obtain ⟨error, herr, hmoved⟩ | ⟨limit, receipt, record, rfl, hfinite, hok, hmoved, -⟩ :=
        s.ledger.credit_move key' tenant c hreceipt
      · rw [herr, historyLimit_other rfl rfl, ← hlimit]
        exact Moved.limit_same hmoved tenant rfl key
      · rw [hok, Moved.limit hmoved]
        by_cases hk : key = key'
        · subst hk
          rw [if_pos rfl, historyLimit_credit rfl (appliedCredit_fresh key tenant c _ _), ← hlimit,
            limit_eq _ _ tenant, hfinite]
          rfl
        · have hk' : key' ≠ key := fun h => hk h.symm
          rw [if_neg hk, historyLimit_other rfl (appliedCredit_ne hk' _ _ _), ← hlimit]
  | flush =>
    rw [historyLimit_other rfl rfl, ← hlimit]
    show (s.ledger.flush.2.view key).limit = _
    rw [limit_eq _ _ "", limit_eq _ _ "", (flush_account s.ledger key "").limit]
  | restart d =>
    rw [historyLimit_other rfl rfl, ← hlimit]
    show ((restarted s.ledger d).view key).limit = _
    rw [restarted_view, limit_eq s.ledger key ""]
    exact (h.covered key "").limit

theorem limit_after (failing : ℕ → Bool) (drawTokens : ℕ) (ops : List Op) (key : KeyId) :
    ((after failing drawTokens ops).ledger.view key).limit
      = historyLimit key (after failing drawTokens ops).history := by
  induction ops using List.reverseRecOn with
  | nil => rfl
  | append_singleton ops op ih =>
    rw [after, run_snoc]
    exact limit_apply (sound_after failing drawTokens ops) op key ih

/-! ### Once -/

/-- An operation that applies a credit found no receipt under its idempotency key, and leaves
there the receipt it answers with. -/
theorem appliedCredit_apply {s : System} {op : Op} {key : KeyId}
    {p : BudgetLedger.Credit × CreditReceipt}
    (h : appliedCredit key (op, (s.apply op).1) = some p) :
    s.ledger.receipt key p.1.idempotencyKey = none ∧
      (s.apply op).2.ledger.receipt key p.1.idempotencyKey = some p.2 ∧
      p.2.requestDigest = p.1.requestDigest := by
  cases op with
  | credit key' tenant c =>
    have happly : s.apply (.credit key' tenant c) = (.credited (s.ledger.credit key' tenant c).1,
        { s with ledger := (s.ledger.credit key' tenant c).2 }) := rfl
    rw [happly] at h ⊢
    by_cases hk : key' = key
    · subst hk
      cases hreceipt : (s.ledger.entryFor key' tenant).receipts[c.idempotencyKey]? with
      | some receipt =>
        rw [(s.ledger.credit_known key' tenant c receipt hreceipt).1] at h
        split at h <;> simp [appliedCredit] at h
      | none =>
        obtain ⟨error, herr, -⟩ | ⟨limit, receipt, record, rfl, -, hok, hmoved, -⟩ :=
          s.ledger.credit_move key' tenant c hreceipt
        · rw [herr] at h
          cases h
        · rw [hok, appliedCredit_fresh, Option.some.injEq] at h
          subst h
          refine ⟨?_, ?_, rfl⟩
          · rw [receipt_eq _ _ tenant]
            exact hreceipt
          · rw [receipt_eq _ _ tenant, hmoved.entryFor, if_pos rfl]
            simp [BudgetLedger.credited, BudgetLedger.receiptFor]
    · rw [appliedCredit_ne hk] at h
      cases h
  | reserve => cases h
  | finish => cases h
  | set => cases h
  | flush => cases h
  | restart => cases h

/-- Every credit in the history has its receipt in the ledger, and no two share a receipt. -/
structure Receipted (s : System) : Prop where
  receipt : ∀ key, ∀ p ∈ appliedCredits key s.history,
    s.ledger.receipt key p.1.idempotencyKey = some p.2 ∧ p.2.requestDigest = p.1.requestDigest
  once : ∀ key, ((appliedCredits key s.history).map fun p => p.1.idempotencyKey).Nodup

theorem receipted_step {s : System} (hsound : Sound s) (op : Op) (h : Receipted s) :
    Receipted (s.step op) := by
  have hpersist : ∀ key, ∀ p ∈ appliedCredits key s.history,
      (s.step op).ledger.receipt key p.1.idempotencyKey = some p.2 ∧
        p.2.requestDigest = p.1.requestDigest := by
    intro key p hp
    obtain ⟨hreceipt, hdigest⟩ := h.receipt key p hp
    exact ⟨receipt_apply hsound op hreceipt, hdigest⟩
  have hhistory : ∀ key, appliedCredits key (s.step op).history
      = (appliedCredit key (op, (s.apply op).1)).toList ++ appliedCredits key s.history := by
    intro key
    show List.filterMap _ ((op, (s.apply op).1) :: s.history) = _
    cases happlied : appliedCredit key (op, (s.apply op).1) with
    | none => rw [List.filterMap_cons_none happlied]; rfl
    | some p => rw [List.filterMap_cons_some happlied]; rfl
  constructor
  · intro key p hp
    rw [hhistory] at hp
    rcases List.mem_append.mp hp with hnew | hold
    · have happlied : appliedCredit key (op, (s.apply op).1) = some p := by simpa using hnew
      exact (appliedCredit_apply happlied).2
    · exact hpersist key p hold
  · intro key
    rw [hhistory]
    cases happlied : appliedCredit key (op, (s.apply op).1) with
    | none => exact h.once key
    | some p =>
      rw [Option.toList_some, List.singleton_append, List.map_cons, List.nodup_cons]
      refine ⟨fun hmem => ?_, h.once key⟩
      -- a second credit under the key would have found the receipt of the first
      obtain ⟨q, hq, heq⟩ := List.mem_map.mp hmem
      have hnone := (appliedCredit_apply happlied).1
      have hsome := (h.receipt key q hq).1
      rw [heq, hnone] at hsome
      cases hsome

theorem receipted_after (failing : ℕ → Bool) (drawTokens : ℕ) (ops : List Op) :
    Receipted (after failing drawTokens ops) := by
  have hboth : Sound (after failing drawTokens ops) ∧ Receipted (after failing drawTokens ops) := by
    refine run_invariant (P := fun s => Sound s ∧ Receipted s) ?_ ⟨sound_init _ _, ?_⟩ ops
    · exact fun s op hs => ⟨sound_step op hs.1, receipted_step hs.1 op hs.2⟩
    · exact ⟨fun key p hp => absurd hp List.not_mem_nil, fun key => List.nodup_nil⟩
  exact hboth.2

/-- **Credits are applied exactly once.**  At every point of every run, with the journal failing
on any subset of the commits and any number of restarts behind it: no idempotency key of a key
has applied two credits; a call that repeats the idempotency key of an applied credit is answered
with the receipt of that credit, or with a conflict when the digest differs, whatever else it
asks for; and the limit of a key is that of its last successful `set` and the credits since,
here and in the ledger a restart at this point would build. -/
theorem credits_are_applied_once (failing : ℕ → Bool) (drawTokens : ℕ) (ops : List Op)
    (key : KeyId) :
    ((appliedCredits key (after failing drawTokens ops).history).map
      fun p => p.1.idempotencyKey).Nodup ∧
    (∀ p ∈ appliedCredits key (after failing drawTokens ops).history,
      ∀ tenant (c : BudgetLedger.Credit), c.idempotencyKey = p.1.idempotencyKey →
      ((after failing drawTokens ops).ledger.credit key tenant c).1
        = if c.requestDigest = p.1.requestDigest
          then .ok ⟨p.2, (after failing drawTokens ops).ledger.view key, true⟩
          else .error .idempotencyConflict) ∧
    ((after failing drawTokens ops).ledger.view key).limit
      = historyLimit key (after failing drawTokens ops).history ∧
    (∀ d, ((restarted (after failing drawTokens ops).ledger d).view key).limit
      = historyLimit key (after failing drawTokens ops).history) := by
  have hreceipted := receipted_after failing drawTokens ops
  have hlimit := limit_after failing drawTokens ops key
  refine ⟨hreceipted.once key, fun p hp tenant c hc => ?_, hlimit, fun d => ?_⟩
  · obtain ⟨hreceipt, hdigest⟩ := hreceipted.receipt key p hp
    rw [receipt_eq _ _ tenant, ← hc] at hreceipt
    rw [(BudgetLedger.credit_known _ key tenant c p.2 hreceipt).1, hdigest, view_eq _ _ tenant]
    simp only [eq_comm]
  · rw [← hlimit, restarted_view, limit_eq _ _ ""]
    exact ((sound_after failing drawTokens ops).covered key "").limit

end System

end HypeLlm.Budget
