import HypeLlm.Budget.System

/-!
# What one ledger operation can do

Every operation of the ledger touches one key at a time (`flush` one key after the other), and
there are six kinds of thing it can do to the entry of that key and to the journal.  `Move` lists them,
guards included, and the lemmas `reserve_move`, `finish_move`, `set_move`, `credit_move` and
`flush_moves` say that the operations do nothing else.  Every invariant of the ledger is then an
invariant of `Move`.
-/

namespace HypeLlm.Budget

open HypeLlm.Words HypeLlm.Runs

theorem maxTokens_le_u64Max : maxTokens ≤ u64Max := Nat.div_le_self _ _

theorem Entry.held_eq (e : Entry) : e.held = min (e.consumed + e.reserved) maxTokens :=
  min_satAdd maxTokens_le_u64Max

/-- `tokens` more fit the largest quantity and, where there is one, the limit. -/
structure Fits (e : Entry) (tokens : ℕ) : Prop where
  total : e.held + tokens ≤ maxTokens
  limit : ∀ limit, e.limit = some limit → e.held < limit ∧ e.held + tokens ≤ limit

/-- What a successful `reserve` does to the key's entry: the request fits, and either it fits
under a durable mark or the mark was raised by a commit that succeeded.  `draw` is the headroom
the ledger draws and `fails` whether the commit asked for would fail. -/
inductive Granted (key : KeyId) (draw : ℕ) (fails : Bool) (e : Entry) (tokens : ℕ) :
    Entry → Option BudgetRecord → Prop
  | under (fits : Fits e tokens) (durable : e.undurable = false)
      (under : e.held + tokens ≤ e.drawn) : Granted key draw fails e tokens (e.grant tokens) none
  | drawn (fits : Fits e tokens) (above : e.drawn < e.held + tokens ∨ e.undurable = true)
      (ok : fails = false) :
      Granted key draw fails e tokens
        ({ e with drawn := e.drawnFor draw (e.held + tokens), undurable := false }.grant tokens)
        (some (e.record key (e.drawnFor draw (e.held + tokens))))

/-- What `finish` does to the key's entry, and whether the settlement is durable. -/
inductive Charged (key : KeyId) (fails : Bool) (e : Entry) (reserved charged : ℕ) :
    Entry → Option BudgetRecord → Bool → Prop
  | under (under : (e.charge reserved charged).held ≤ e.drawn) :
      Charged key fails e reserved charged (e.charge reserved charged) none (!e.undurable)
  | overrun (above : e.drawn < (e.charge reserved charged).held) (ok : fails = false) :
      Charged key fails e reserved charged
        { e.charge reserved charged with
          drawn := (e.charge reserved charged).held, undurable := false }
        (some ((e.charge reserved charged).record key (e.charge reserved charged).held)) true
  | lost (above : e.drawn < (e.charge reserved charged).held) (lost : fails = true) :
      Charged key fails e reserved charged
        { e.charge reserved charged with
          drawn := (e.charge reserved charged).held, undurable := true } none false

/-- The entry of a key before and after one operation, and the record the operation committed. -/
inductive Move (key : KeyId) (draw : ℕ) (fails : Bool) (e : Entry) :
    Entry → Option BudgetRecord → Prop
  | stay : Move key draw fails e e none
  | reserve {tokens : ℕ} {e' : Entry} {record : Option BudgetRecord}
      (granted : Granted key draw fails e tokens e' record) : Move key draw fails e e' record
  | finish {reserved charged : ℕ} {e' : Entry} {record : Option BudgetRecord} {durable : Bool}
      (charge : Charged key fails e reserved charged e' record durable) :
      Move key draw fails e e' record
  | set (limit : Option ℕ) (payment : Option PaymentInstructions) (revision : ℕ)
      (bounded : ∀ l, limit = some l → l ≤ maxTokens) (ok : fails = false) :
      Move key draw fails e
        { e with
          limit := limit, payment := payment, revision := revision, drawn := e.held,
          undurable := false }
        (some ⟨key, e.tenant, limit, e.held, revision, payment, none⟩)
  | credit (limit : ℕ) (receipt : CreditReceipt) (finite : e.limit = some limit)
      (sum : receipt.limitAfter = limit + receipt.tokens)
      (bounded : receipt.limitAfter ≤ maxTokens)
      (fresh : e.receipts[receipt.idempotencyKey]? = none) (ok : fails = false) :
      Move key draw fails e
        { e with
          limit := some receipt.limitAfter, revision := receipt.revisionAfter, drawn := e.held,
          undurable := false,
          receipts := e.receipts.insert receipt.idempotencyKey receipt }
        (some ⟨key, e.tenant, some receipt.limitAfter, e.held, receipt.revisionAfter, e.payment,
          some receipt⟩)
  | flush (ok : fails = false) :
      Move key draw fails e { e with drawn := e.held, undurable := false }
        (some (e.record key e.held))

theorem Granted.fits {key : KeyId} {draw tokens : ℕ} {fails : Bool} {e e' : Entry}
    {record : Option BudgetRecord} (h : Granted key draw fails e tokens e' record) :
    Fits e tokens := by
  cases h with
  | under fits _ _ => exact fits
  | drawn fits _ _ => exact fits

theorem Move.record_key {key : KeyId} {draw : ℕ} {fails : Bool} {e e' : Entry}
    {record : Option BudgetRecord} (h : Move key draw fails e e' record) :
    ∀ r ∈ record, r.key = key := by
  cases h with
  | stay => simp
  | reserve granted => cases granted <;> simp [Entry.record]
  | finish charge => cases charge <;> simp [Entry.record]
  | set => simp
  | credit => simp
  | flush => simp [Entry.record]

/-- `l'` is `l` with the entry of `key` replaced and `record` committed. -/
structure Moved (l l' : BudgetLedger) (key : KeyId) (e' : Entry) (record : Option BudgetRecord) :
    Prop where
  entries : ∀ k, l'.entries[k]? = if k = key then some e' else l.entries[k]?
  records : l'.journal.records = l.journal.records ++ record.toList
  failing : l'.journal.failing = l.journal.failing
  drawTokens : l'.drawTokens = l.drawTokens

namespace BudgetLedger

/-- Whether the next commit the ledger asks for fails. -/
def fails (l : BudgetLedger) : Bool := l.journal.failing l.journal.attempts

theorem commit_ok {l : BudgetLedger} (r : BudgetRecord) (h : l.fails = false) :
    l.commit r = (true, { l with journal := { l.journal with
      attempts := l.journal.attempts + 1, records := l.journal.records ++ [r] } }) := by
  have h' : l.journal.failing l.journal.attempts = false := h
  simp [commit, Journal.commit, h']

theorem commit_lost {l : BudgetLedger} (r : BudgetRecord) (h : l.fails = true) :
    l.commit r = (false, { l with journal := { l.journal with
      attempts := l.journal.attempts + 1 } }) := by
  have h' : l.journal.failing l.journal.attempts = true := h
  simp [commit, Journal.commit, h']

@[simp] theorem put_fails (l : BudgetLedger) (key : KeyId) (e : Entry) :
    (l.put key e).fails = l.fails := rfl

@[simp] theorem put_journal (l : BudgetLedger) (key : KeyId) (e : Entry) :
    (l.put key e).journal = l.journal := rfl

theorem put_entries (l : BudgetLedger) (key k : KeyId) (e : Entry) :
    (l.put key e).entries[k]? = if k = key then some e else l.entries[k]? :=
  Maps.getElem?_insert _ _ _ _

theorem put_moved (l : BudgetLedger) (key : KeyId) (e : Entry) : Moved l (l.put key e) key e none where
  entries k := put_entries l key k e
  records := by simp
  failing := rfl
  drawTokens := rfl

/-- The common tail of every operation that writes: the entry is put once before the commit and
once, changed, after it. -/
theorem put_commit_moved (l : BudgetLedger) (key : KeyId) (e e' : Entry) (r : BudgetRecord)
    (attempts : ℕ) :
    Moved l (BudgetLedger.put { l.put key e with journal := { l.journal with
        attempts := attempts, records := l.journal.records ++ [r] } } key e') key e' (some r) where
  entries k := by
    rw [put_entries]
    split
    · rfl
    · rename_i hk
      show (l.put key e).entries[k]? = _
      rw [put_entries, if_neg hk]
  records := by simp
  failing := rfl
  drawTokens := rfl

/-- A failed commit leaves the entry as it was put before. -/
theorem put_lost_moved (l : BudgetLedger) (key : KeyId) (e : Entry) (attempts : ℕ) :
    Moved l { l.put key e with journal := { l.journal with attempts := attempts } } key e none where
  entries k := put_entries l key k e
  records := by simp
  failing := rfl
  drawTokens := rfl

/-- **What `reserve` does.**  It refuses and leaves the key's entry as it was, or it grants. -/
theorem reserve_move (l : BudgetLedger) (key : KeyId) (tenant : TenantId) (tokens : ℕ) :
    (∃ refusal, (l.reserve key tenant tokens).1 = .error refusal ∧
      Moved l (l.reserve key tenant tokens).2 key (l.entryFor key tenant) none) ∨
    (∃ e' record, (l.reserve key tenant tokens).1 = .ok ⟨key, tokens, false⟩ ∧
      Moved l (l.reserve key tenant tokens).2 key e' record ∧
      Granted key l.drawTokens l.fails (l.entryFor key tenant) tokens e' record) := by
  set e := l.entryFor key tenant with he
  have hput : Moved l (l.put key e) key e none := put_moved l key e
  simp only [reserve, ← he]
  split
  · exact .inl ⟨_, rfl, hput⟩
  rename_i needed hneeded
  obtain ⟨rfl, -⟩ := checkedAdd_eq_some.mp hneeded
  split
  · exact .inl ⟨_, rfl, hput⟩
  rename_i htotal
  split
  · exact .inl ⟨_, rfl, hput⟩
  rename_i hlimit
  have hfits : Fits e tokens := by
    refine ⟨by omega, fun limit hl => ?_⟩
    simp only [hl, Option.any_some, Bool.or_eq_true, decide_eq_true_eq, not_or] at hlimit
    omega
  split
  · rename_i hover
    have hover' : e.drawn < e.held + tokens ∨ e.undurable = true := by simpa using hover
    cases hf : l.fails with
    | true =>
      rw [commit_lost _ (by simpa using hf)]
      exact .inl ⟨_, rfl, put_lost_moved l key e _⟩
    | false =>
      rw [commit_ok _ (by simpa using hf)]
      refine .inr ⟨_, _, rfl, put_commit_moved l key e _ _ _, ?_⟩
      exact .drawn hfits hover' rfl
  · rename_i hunder
    simp only [Bool.or_eq_true, decide_eq_true_eq, not_or, Bool.not_eq_true, not_lt] at hunder
    refine .inr ⟨_, none, rfl, ?_, .under hfits hunder.2 hunder.1⟩
    refine ⟨fun k => ?_, by simp, rfl, rfl⟩
    rw [put_entries, put_entries]
    split <;> rfl

/-- **What `finish` does** to a key the ledger knows. -/
theorem finish_move (l : BudgetLedger) (key : KeyId) (reserved charged : ℕ) (e : Entry)
    (he : l.entries[key]? = some e) :
    ∃ e' record durable,
      (l.finish key reserved charged).1 = ⟨charged, charged - reserved, durable⟩ ∧
      Moved l (l.finish key reserved charged).2 key e' record ∧
      Charged key l.fails e reserved charged e' record durable := by
  simp only [finish, he]
  have hdrawn : (e.charge reserved charged).drawn = e.drawn := rfl
  split
  · rename_i hover
    rw [hdrawn] at hover
    cases hf : l.fails with
    | true =>
      rw [commit_lost _ hf]
      refine ⟨_, none, false, rfl, ⟨fun k => put_entries _ key k _, by simp, rfl, rfl⟩, ?_⟩
      exact .lost hover rfl
    | false =>
      rw [commit_ok _ hf]
      refine ⟨_, some ((e.charge reserved charged).record key (e.charge reserved charged).held),
        true, rfl, ⟨fun k => put_entries _ key k _, by simp, rfl, rfl⟩, ?_⟩
      exact .overrun hover rfl
  · rename_i hunder
    rw [hdrawn] at hunder
    exact ⟨_, none, _, rfl, put_moved l key _, .under (by omega)⟩

/-- An operation that wrote nothing back to the entries did not move them. -/
theorem stay_moved {l l' : BudgetLedger} {key : KeyId} {e : Entry} (h : l.entries[key]? = some e)
    (hentries : l'.entries = l.entries) (hrecords : l'.journal.records = l.journal.records)
    (hfailing : l'.journal.failing = l.journal.failing) (hdraw : l'.drawTokens = l.drawTokens) :
    Moved l l' key e none where
  entries k := by
    rw [hentries]
    split
    · rename_i hk
      rw [hk, h]
    · rfl
  records := by simp [hrecords]
  failing := hfailing
  drawTokens := hdraw

/-- What a successful `set` leaves of the key's entry. -/
def edited (e : Entry) (limit : Option ℕ) (payment : Option PaymentInstructions) : Entry :=
  { e with
    limit := limit, payment := payment, revision := e.revision + 1, drawn := e.held,
    undurable := false }

/-- **What `set` does.**  It refuses and leaves every entry as it was, or it commits the new
limit with the exact mark. -/
theorem set_move (l : BudgetLedger) (key : KeyId) (tenant : TenantId)
    (expectedRevision limit : Option ℕ) (payment : Option PaymentInstructions) :
    (∃ error, (l.set key tenant expectedRevision limit payment).1 = .error error ∧
      ((l.set key tenant expectedRevision limit payment).2 = l ∨
        Moved l (l.set key tenant expectedRevision limit payment).2 key (l.entryFor key tenant)
          none)) ∨
    (∃ record,
      (l.set key tenant expectedRevision limit payment).1
        = .ok (edited (l.entryFor key tenant) limit payment).view ∧
      Moved l (l.set key tenant expectedRevision limit payment).2 key
        (edited (l.entryFor key tenant) limit payment) (some record) ∧
      Move key l.drawTokens l.fails (l.entryFor key tenant)
        (edited (l.entryFor key tenant) limit payment) (some record)) := by
  set e := l.entryFor key tenant with he
  simp only [set, ← he]
  split
  · exact .inl ⟨_, rfl, .inl rfl⟩
  rename_i hbound
  split
  · exact .inl ⟨_, rfl, .inr (put_moved l key e)⟩
  split
  · exact .inl ⟨_, rfl, .inr (put_moved l key e)⟩
  rename_i revision hrevision
  obtain ⟨rfl, -⟩ := checkedAdd_eq_some.mp hrevision
  cases hf : l.fails with
  | true =>
    rw [commit_lost _ (by simpa using hf)]
    exact .inl ⟨_, rfl, .inr (put_lost_moved l key e _)⟩
  | false =>
    rw [commit_ok _ (by simpa using hf)]
    refine .inr ⟨_, rfl, put_commit_moved l key e _ _ _, .set limit payment _ ?_ rfl⟩
    intro L hL
    simpa [hL] using hbound

/-- What a fresh credit leaves of the key's entry. -/
def credited (e : Entry) (receipt : CreditReceipt) : Entry :=
  { e with
    limit := some receipt.limitAfter, revision := receipt.revisionAfter, drawn := e.held,
    undurable := false,
    receipts := e.receipts.insert receipt.idempotencyKey receipt }

/-- The receipt a credit makes for a key of limit `limit` at revision `revision`. -/
def receiptFor (c : Credit) (limit revision : ℕ) : CreditReceipt :=
  ⟨c.idempotencyKey, c.requestDigest, c.tokens, limit + c.tokens, revision + 1, c.atMillis,
    c.actor, c.reason⟩

/-- **What `credit` does** on an idempotency key that has a receipt: it answers from the receipt
and leaves the entry as it was. -/
theorem credit_known (l : BudgetLedger) (key : KeyId) (tenant : TenantId) (c : Credit)
    (receipt : CreditReceipt)
    (h : (l.entryFor key tenant).receipts[c.idempotencyKey]? = some receipt) :
    (l.credit key tenant c).1 =
        (if receipt.requestDigest = c.requestDigest
          then .ok ⟨receipt, (l.entryFor key tenant).view, true⟩
          else .error .idempotencyConflict) ∧
      Moved l (l.credit key tenant c).2 key (l.entryFor key tenant) none := by
  simp only [credit, h]
  by_cases hd : receipt.requestDigest = c.requestDigest
  · simp only [hd, ne_eq, not_true_eq_false, if_false, if_true]
    exact ⟨trivial, put_moved l key _⟩
  · simp only [hd, ne_eq, not_false_eq_true, if_true, if_false]
    exact ⟨trivial, put_moved l key _⟩

/-- **What `credit` does** on an idempotency key without a receipt: it refuses and leaves the
entry as it was, or it commits the raised limit and the receipt in one record. -/
theorem credit_move (l : BudgetLedger) (key : KeyId) (tenant : TenantId) (c : Credit)
    (h : (l.entryFor key tenant).receipts[c.idempotencyKey]? = none) :
    (∃ error, (l.credit key tenant c).1 = .error error ∧
      Moved l (l.credit key tenant c).2 key (l.entryFor key tenant) none) ∨
    (∃ limit receipt record,
      receipt = receiptFor c limit (l.entryFor key tenant).revision ∧
      (l.entryFor key tenant).limit = some limit ∧
      (l.credit key tenant c).1
        = .ok ⟨receipt, (credited (l.entryFor key tenant) receipt).view, false⟩ ∧
      Moved l (l.credit key tenant c).2 key (credited (l.entryFor key tenant) receipt)
        (some record) ∧
      Move key l.drawTokens l.fails (l.entryFor key tenant)
        (credited (l.entryFor key tenant) receipt) (some record)) := by
  set e := l.entryFor key tenant with he
  have hput : Moved l (l.put key e) key e none := put_moved l key e
  simp only [credit, ← he, h]
  split
  · exact .inl ⟨_, rfl, hput⟩
  split
  · exact .inl ⟨_, rfl, hput⟩
  cases hlimit : e.limit with
  | none => exact .inl ⟨_, rfl, hput⟩
  | some limit =>
    simp only
    split
    · exact .inl ⟨_, rfl, hput⟩
    rename_i limitAfter hsum
    obtain ⟨hsum, hbound⟩ := Option.filter_eq_some_iff.mp hsum
    obtain ⟨rfl, -⟩ := checkedAdd_eq_some.mp hsum
    split
    · exact .inl ⟨_, rfl, hput⟩
    rename_i revision hrevision
    obtain ⟨rfl, -⟩ := checkedAdd_eq_some.mp hrevision
    cases hf : l.fails with
    | true =>
      rw [commit_lost _ (by simpa using hf)]
      exact .inl ⟨_, rfl, put_lost_moved l key e _⟩
    | false =>
      rw [commit_ok _ (by simpa using hf)]
      refine .inr ⟨limit, _, _, rfl, rfl, rfl, put_commit_moved l key e _ _ _, ?_⟩
      have hbound' : limit + c.tokens ≤ maxTokens := by simpa using hbound
      exact .credit limit (receiptFor c limit e.revision) hlimit rfl hbound' h rfl

/-- One entry moved, whatever the operation. -/
def Step (l l' : BudgetLedger) : Prop :=
  ∃ key tenant e' record, Moved l l' key e' record ∧
    Move key l.drawTokens l.fails (l.entryFor key tenant) e' record

theorem flushEntry_step (acc : ℕ × BudgetLedger) (p : KeyId × Entry)
    (h : acc.2.entries[p.1]? = some p.2) : Step acc.2 (flushEntry acc p).2 := by
  have hp : acc.2.entryFor p.1 "" = p.2 := by simp [entryFor, h]
  have hstay : Move p.1 acc.2.drawTokens acc.2.fails (acc.2.entryFor p.1 "") p.2 none := by
    rw [hp]
    exact .stay
  simp only [flushEntry]
  split
  · exact ⟨p.1, "", p.2, none, stay_moved h rfl rfl rfl rfl, hstay⟩
  · cases hf : acc.2.fails with
    | true =>
      rw [commit_lost _ hf]
      rw [hf] at hstay
      exact ⟨p.1, "", p.2, none, stay_moved h rfl rfl rfl rfl, hf ▸ hstay⟩
    | false =>
      rw [commit_ok _ hf]
      refine ⟨p.1, "", _, some (p.2.record p.1 p.2.held),
        ⟨fun k => put_entries _ p.1 k _, by simp, rfl, rfl⟩, ?_⟩
      rw [hp, hf]
      exact .flush rfl

/-- Flushing one key leaves the entries of the others. -/
theorem flushEntry_entries (acc : ℕ × BudgetLedger) (p : KeyId × Entry) (k : KeyId)
    (hk : k ≠ p.1) : (flushEntry acc p).2.entries[k]? = acc.2.entries[k]? := by
  simp only [flushEntry]
  split
  · rfl
  · cases hf : acc.2.fails with
    | true => rw [commit_lost _ hf]
    | false =>
      rw [commit_ok _ hf]
      simp only [put_entries, if_neg hk]

/-- **The rule for `flush`.**  What flushing one key keeps, the whole iteration keeps: when a key's
turn comes it still has the entry it had when the iteration began. -/
theorem flush_induction {P : BudgetLedger → Prop} {l : BudgetLedger} (h : P l)
    (hstep : ∀ acc p, acc.2.entries[p.1]? = some p.2 → P acc.2 → P (flushEntry acc p).2) :
    P l.flush.2 := by
  have hfold : ∀ (ps : List (KeyId × Entry)) (acc : ℕ × BudgetLedger),
      (ps.map Prod.fst).Nodup → (∀ p ∈ ps, acc.2.entries[p.1]? = some p.2) → P acc.2 →
      P (ps.foldl flushEntry acc).2 := by
    intro ps
    induction ps with
    | nil => exact fun _ _ _ hp => hp
    | cons p ps ih =>
      intro acc hnodup hentries hp
      rw [List.map_cons, List.nodup_cons] at hnodup
      refine ih _ hnodup.2 (fun q hq => ?_) (hstep acc p (hentries p List.mem_cons_self) hp)
      have hne : q.1 ≠ p.1 := fun h => hnodup.1 (h ▸ List.mem_map_of_mem hq)
      rw [flushEntry_entries acc p q.1 hne]
      exact hentries q (List.mem_cons_of_mem p hq)
  refine hfold l.entries.toList (0, l) ?_ (fun p hp => ?_) h
  · rw [Std.TreeMap.map_fst_toList_eq_keys]
    exact Std.TreeMap.nodup_keys
  · exact Std.TreeMap.mem_toList_iff_getElem?_eq_some.mp hp

/-- **What `flush` does**: one move after the other. -/
theorem flush_moves (l : BudgetLedger) : Relation.ReflTransGen Step l l.flush.2 :=
  flush_induction .refl fun acc p hp h => h.tail (flushEntry_step acc p hp)

end BudgetLedger

end HypeLlm.Budget
