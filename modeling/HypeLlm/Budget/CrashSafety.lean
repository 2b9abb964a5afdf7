import HypeLlm.Budget.Invariant

/-!
# A crash never restores spent credit

For every run of the ledger, whatever commits fail and wherever the process dies:

* a key that is not marked undurable restarts with at least what it had consumed and reserved;
* a key is marked undurable only by a settlement that overran its reservation and whose commit
  failed;
* no reservation is granted on an undurable key: a grant either finds the mark durable or has
  made it so, by a commit that covers everything held.
-/

namespace HypeLlm.Budget

open HypeLlm.Words HypeLlm.Runs

namespace System

theorem undurable_eq (s : System) (key : KeyId) (tenant : TenantId) :
    s.undurable key = (s.ledger.entryFor key tenant).undurable := by
  simp only [undurable, BudgetLedger.entryFor]
  cases s.ledger.entries[key]? <;> rfl

theorem view_eq (l : BudgetLedger) (key : KeyId) (tenant : TenantId) :
    l.view key = (l.entryFor key tenant).view := by
  simp only [BudgetLedger.view, BudgetLedger.entryFor]
  cases l.entries[key]? <;> rfl

/-- What a key holds: consumption and reservations, cut at the largest quantity. -/
def held (s : System) (key : KeyId) : ℕ :=
  min ((s.ledger.view key).consumed + (s.ledger.view key).reserved) maxTokens

theorem held_eq (s : System) (key : KeyId) (tenant : TenantId) :
    s.held key = (s.ledger.entryFor key tenant).held := by
  rw [held, view_eq _ _ tenant, Entry.held_eq]
  rfl

/-- `op` settles a reservation of `key` above what it reserved, and the commit of the raised mark
fails. -/
def OverrunLost (s : System) (op : Op) (key : KeyId) : Prop :=
  ∃ id how r settlement, op = .finish id how ∧ s.live id = some r ∧ r.key = key ∧
    (s.apply op).1 = .finished r (some settlement) ∧ 0 < settlement.overrun ∧
    settlement.durable = false ∧ s.ledger.fails = true

end System

/-- Charging at most what was reserved never raises what is held. -/
theorem Entry.charge_held_le {e : Entry} {reserved charged : ℕ} (hr : reserved ≤ e.reserved)
    (hc : charged ≤ reserved) : (e.charge reserved charged).held ≤ e.held := by
  simp only [Entry.held_eq, Entry.charge, min_satAdd maxTokens_le_u64Max]
  omega

namespace System

/-- Flushing marks nothing undurable. -/
theorem flush_undurable (l : BudgetLedger) (key : KeyId) (tenant : TenantId)
    (h : (l.entryFor key tenant).undurable = false) :
    (l.flush.2.entryFor key tenant).undurable = false := by
  refine BudgetLedger.flush_induction
    (P := fun l' => (l'.entryFor key tenant).undurable = false) h fun acc p hp hacc => ?_
  by_cases hk : key = p.1
  · subst hk
    have hfor : acc.2.entryFor p.1 tenant = p.2 := by simp [BudgetLedger.entryFor, hp]
    simp only [BudgetLedger.flushEntry]
    split
    · exact hacc
    · cases hf : acc.2.fails with
      | true =>
        rw [BudgetLedger.commit_lost _ hf]
        exact hacc
      | false =>
        rw [BudgetLedger.commit_ok _ hf]
        simp [BudgetLedger.entryFor, BudgetLedger.put_entries]
  · simpa only [BudgetLedger.entryFor, BudgetLedger.flushEntry_entries acc p key hk] using hacc

/-- A move to an entry that is not undurable, or of another key, marks nothing undurable. -/
theorem undurable_of_moved {s : System} {l' : BudgetLedger} {key' : KeyId} {e' : Entry}
    {record : Option BudgetRecord} (hmoved : Moved s.ledger l' key' e' record) {key : KeyId}
    {tenant : TenantId} (h : (s.ledger.entryFor key tenant).undurable = false)
    (he : key = key' → e'.undurable = false) : (l'.entryFor key tenant).undurable = false := by
  rw [hmoved.entryFor]
  split
  · rename_i hk
    exact he hk
  · exact h

/-- **Only a lost overrun marks a key undurable.** -/
theorem undurable_step {s : System} (h : Sound s) (op : Op) (key : KeyId)
    (hbefore : s.undurable key = false) (hafter : (s.step op).undurable key = true) :
    OverrunLost s op key := by
  rw [undurable_eq _ _ ""] at hbefore hafter
  -- an entry of `key` made for any tenant is durable before the operation
  have hany : ∀ tenant, (s.ledger.entryFor key tenant).undurable = false := by
    intro tenant
    rw [← undurable_eq, undurable_eq _ _ "", hbefore]
  have hno : ((s.apply op).2.ledger.entryFor key "").undurable = false → OverrunLost s op key := by
    intro hfalse
    rw [show ((s.step op).ledger.entryFor key "") = (s.apply op).2.ledger.entryFor key "" from rfl,
      hfalse] at hafter
    simp at hafter
  cases op with
  | reserve key' tenant tokens =>
    apply hno
    obtain ⟨refusal, herr, hmoved⟩ | ⟨e', record, hok, hmoved, hgranted⟩ :=
      s.ledger.reserve_move key' tenant tokens
    · rw [apply_reserve_error herr]
      exact undurable_of_moved hmoved hbefore fun hk => hk ▸ hany tenant
    · rw [apply_reserve_ok hok]
      refine undurable_of_moved hmoved hbefore fun _ => ?_
      cases hgranted with
      | under _ durable _ => exact durable
      | drawn _ _ _ => rfl
  | finish id how =>
    cases hlive : s.live id with
    | none =>
      apply hno
      rw [apply_finish_none hlive]
      exact hbefore
    | some r =>
      obtain ⟨e, he⟩ := h.known id r hlive
      obtain ⟨e', record, durable, hsettle, hmoved, hcharged⟩ :=
        s.ledger.finish_move r.key r.tokens (how.charged r.tokens) e he
      have hfor : s.ledger.entryFor r.key "" = e := by simp [BudgetLedger.entryFor, he]
      by_cases hk : r.key = key
      · cases hcharged with
        | under _ =>
          apply hno
          rw [apply_finish_some hlive]
          refine undurable_of_moved hmoved hbefore fun hk' => ?_
          rw [← hk, hfor] at hbefore
          exact hbefore
        | overrun _ _ =>
          apply hno
          rw [apply_finish_some hlive]
          exact undurable_of_moved hmoved hbefore fun _ => rfl
        | lost above lost =>
          refine ⟨id, how, r, (s.finished r how).1, rfl, hlive, hk, ?_, ?_, ?_, lost⟩
          · rw [apply_finish_some hlive]
          · -- a charge within the reservation would have stayed under the mark
            rw [finished, hsettle]
            show 0 < how.charged r.tokens - r.tokens
            by_contra hle
            have hreserved := h.reserved r.key ""
            rw [hfor] at hreserved
            have htokens := tokens_le_outstanding hlive
            have hcharge : (e.charge r.tokens (how.charged r.tokens)).held ≤ e.held :=
              Entry.charge_held_le (hreserved ▸ htokens) (by omega)
            have hheld := (h.covered r.key "").held_le
            rw [hfor] at hheld
            omega
          · rw [finished, hsettle]
      · apply hno
        rw [apply_finish_some hlive]
        exact undurable_of_moved hmoved hbefore fun hk' => absurd hk'.symm hk
  | set key' tenant expectedRevision limit payment =>
    apply hno
    show ((s.ledger.set key' tenant expectedRevision limit payment).2.entryFor key "").undurable
      = false
    obtain ⟨_, -, hsame | hmoved⟩ | ⟨record, -, hmoved, -⟩ :=
      s.ledger.set_move key' tenant expectedRevision limit payment
    · rw [hsame]
      exact hbefore
    · exact undurable_of_moved hmoved hbefore fun hk => hk ▸ hany tenant
    · exact undurable_of_moved hmoved hbefore fun _ => rfl
  | credit key' tenant c =>
    apply hno
    show ((s.ledger.credit key' tenant c).2.entryFor key "").undurable = false
    cases hreceipt : (s.ledger.entryFor key' tenant).receipts[c.idempotencyKey]? with
    | some receipt =>
      exact undurable_of_moved (s.ledger.credit_known key' tenant c receipt hreceipt).2 hbefore
        fun hk => hk ▸ hany tenant
    | none =>
      obtain ⟨_, -, hmoved⟩ | ⟨_, _, record, -, -, -, hmoved, -⟩ :=
        s.ledger.credit_move key' tenant c hreceipt
      · exact undurable_of_moved hmoved hbefore fun hk => hk ▸ hany tenant
      · exact undurable_of_moved hmoved hbefore fun _ => rfl
  | flush =>
    apply hno
    exact flush_undurable s.ledger key "" hbefore
  | restart d =>
    apply hno
    show ((restarted s.ledger d).entryFor key "").undurable = false
    obtain heq | ⟨heq, -⟩ := restarted_entryFor s.ledger d key ""
    · rw [heq]
      exact (h.covered key "").settled
    · rw [heq]
      rfl

/-- What a successful `reserve` leaves: a durable key, and where the key was not durable or the
mark too low, a commit that covers everything held. -/
theorem reserve_durable {s : System} (h : Sound s) {key : KeyId} {tenant : TenantId} {tokens : ℕ}
    {r : BudgetReservation} (hok : (s.ledger.reserve key tenant tokens).1 = .ok r) :
    (s.step (.reserve key tenant tokens)).undurable key = false ∧
      (s.undurable key = true → ∃ record : BudgetRecord, record.key = key ∧
        (s.step (.reserve key tenant tokens)).ledger.journal.records
          = s.ledger.journal.records ++ [record] ∧
        (s.step (.reserve key tenant tokens)).held key ≤ record.drawn) := by
  obtain ⟨refusal, herr, -⟩ | ⟨e', record, hok', hmoved, hgranted⟩ :=
    s.ledger.reserve_move key tenant tokens
  · rw [hok] at herr
    cases herr
  have hledger : (s.step (.reserve key tenant tokens)).ledger
      = (s.ledger.reserve key tenant tokens).2 := by
    simp only [step, apply_reserve_ok hok']
  have hentry : (s.step (.reserve key tenant tokens)).ledger.entryFor key tenant = e' := by
    rw [hledger, hmoved.entryFor, if_pos rfl]
  have hheld := granted_held hgranted (h.covered key tenant)
  rw [undurable_eq _ _ tenant, undurable_eq _ _ tenant, held_eq _ _ tenant, hentry, hledger,
    hmoved.records]
  cases hgranted with
  | under fits durable under => exact ⟨durable, fun hu => by rw [durable] at hu; simp at hu⟩
  | drawn fits above ok =>
    refine ⟨rfl, fun _ => ⟨_, rfl, rfl, ?_⟩⟩
    rw [hheld]
    exact Entry.le_drawnFor _ _ _ fits.total

/-- **Crash safety.**  At every point of every run, with the journal failing on any subset of the
commits: a restart gives a key that is not marked undurable at least what it held; a key that is
marked undurable has met a settlement whose overrun could not be committed; and whenever a
reservation is granted the key is not undurable any more, its mark having been covered by a
commit if it was. -/
theorem crash_never_restores_spent_credit (failing : ℕ → Bool) (drawTokens : ℕ) (ops : List Op)
    (key : KeyId) :
    (∀ d, (after failing drawTokens ops).undurable key = false →
      (after failing drawTokens ops).held key
        ≤ ((restarted (after failing drawTokens ops).ledger d).view key).consumed) ∧
    ((after failing drawTokens ops).undurable key = true →
      ∃ before op later, ops = before ++ op :: later ∧
        OverrunLost (after failing drawTokens before) op key) ∧
    (∀ tenant tokens r,
      ((after failing drawTokens ops).ledger.reserve key tenant tokens).1 = .ok r →
      ((after failing drawTokens ops).step (.reserve key tenant tokens)).undurable key = false ∧
      ((after failing drawTokens ops).undurable key = true → ∃ record : BudgetRecord,
        record.key = key ∧
        ((after failing drawTokens ops).step (.reserve key tenant tokens)).ledger.journal.records
          = (after failing drawTokens ops).ledger.journal.records ++ [record] ∧
        ((after failing drawTokens ops).step (.reserve key tenant tokens)).held key
          ≤ record.drawn)) := by
  have hsound := sound_after failing drawTokens ops
  refine ⟨fun d hdurable => ?_, ?_, fun tenant tokens r hok => reserve_durable hsound hok⟩
  · have hcovers := hsound.covered key ""
    rw [undurable_eq _ _ ""] at hdurable
    rw [held_eq _ _ "", restarted_view]
    show _ ≤ (durableEntry _ key).consumed
    rw [hcovers.spent, hcovers.mark hdurable]
    exact hcovers.held_le
  · clear hsound
    -- the last operation marked the key, or an earlier one did
    induction ops using List.reverseRecOn with
    | nil => simp [after, init, undurable, BudgetLedger.new]
    | append_singleton ops op ih =>
      intro hmarked
      rw [after, run_snoc] at hmarked
      cases hbefore : (after failing drawTokens ops).undurable key with
      | true =>
        obtain ⟨before, op', later, rfl, hlost⟩ := ih hbefore
        exact ⟨before, op', later ++ [op], by simp, hlost⟩
      | false =>
        exact ⟨ops, op, [], by simp,
          undurable_step (sound_after failing drawTokens ops) op key hbefore hmarked⟩

end System

end HypeLlm.Budget
