import HypeLlm.Budget.Moves

/-!
# The durable shadow of the ledger

Replaying the committed records builds, for each key, an entry that the running ledger never
looks at: its *durable shadow*.  `Covers e r` is the relation the ledger keeps between an entry
`e` and its shadow `r`: everything held is under the mark, the mark of a key that is not
undurable is the shadow's, and the shadow agrees on everything an operator can edit.  Every move
keeps it (`Move.covers`), so every reachable ledger has it (`covered_after`), restarts included.
-/

namespace HypeLlm.Budget

open HypeLlm.Words HypeLlm.Runs

/-- What replaying `records` makes of the entry of `key`.  A key without a record has the entry
of a key the ledger has never seen; its tenant is not read by anything. -/
def durableEntry (records : List BudgetRecord) (key : KeyId) : Entry :=
  records.foldl (fun e r => if r.key = key then e.restore r else e) (Entry.new "")

@[simp] theorem durableEntry_nil (key : KeyId) : durableEntry [] key = Entry.new "" := rfl

theorem durableEntry_snoc (records : List BudgetRecord) (r : BudgetRecord) (key : KeyId) :
    durableEntry (records ++ [r]) key
      = if r.key = key then (durableEntry records key).restore r
        else durableEntry records key := by
  simp only [durableEntry, List.foldl_append, List.foldl_cons, List.foldl_nil]

theorem durableEntry_append (records : List BudgetRecord) (record : Option BudgetRecord)
    (key : KeyId) (h : ∀ r ∈ record, r.key = key) :
    durableEntry (records ++ record.toList) key
      = record.elim (durableEntry records key) (durableEntry records key).restore := by
  cases record with
  | none => simp
  | some r =>
    have hr : r.key = key := h r rfl
    simp only [Option.toList_some, durableEntry_snoc, hr, if_true, Option.elim_some]

theorem durableEntry_append_ne (records : List BudgetRecord) (record : Option BudgetRecord)
    (key k : KeyId) (h : ∀ r ∈ record, r.key = key) (hk : k ≠ key) :
    durableEntry (records ++ record.toList) k = durableEntry records k := by
  cases record with
  | none => simp
  | some r =>
    have hr : r.key ≠ k := fun hrk => hk (hrk ▸ h r rfl)
    simp only [Option.toList_some, durableEntry_snoc, hr, if_false]

theorem durableEntry_of_none {records : List BudgetRecord} {key : KeyId}
    (h : records.any (fun r => decide (r.key = key)) = false) :
    durableEntry records key = Entry.new "" := by
  induction records using List.reverseRecOn with
  | nil => rfl
  | append_singleton records q ih =>
    simp only [List.any_append, List.any_cons, List.any_nil, Bool.or_false,
      Bool.or_eq_false_iff, decide_eq_false_iff_not] at h
    rw [durableEntry_snoc, if_neg h.2]
    exact ih h.1

/-- Replaying builds the shadow of every key that has a record, and nothing for the others. -/
theorem replay_entries (l : BudgetLedger) (hl : l.entries = ∅) (records : List BudgetRecord)
    (key : KeyId) :
    (System.replay l records).entries[key]?
      = if records.any (fun r => decide (r.key = key)) then some (durableEntry records key)
        else none := by
  induction records using List.reverseRecOn with
  | nil => simp [System.replay, hl]
  | append_singleton records r ih =>
    have hsnoc : System.replay l (records ++ [r]) = (System.replay l records).restore r := by
      simp only [System.replay, List.foldl_append, List.foldl_cons, List.foldl_nil]
    rw [hsnoc, BudgetLedger.restore, BudgetLedger.put_entries, durableEntry_snoc, List.any_append]
    by_cases hk : key = r.key
    · subst hk
      simp only [if_true, List.any_cons, decide_true, Bool.true_or, Bool.or_true]
      congr 1
      -- a restore reads only the receipts of the entry it is applied to
      rw [BudgetLedger.entryFor, ih]
      split
      · rfl
      · rename_i hnone
        rw [durableEntry_of_none (by simpa using hnone)]
        rfl
    · have hk' : r.key ≠ key := fun h => hk h.symm
      simp only [if_neg hk, if_neg hk', List.any_cons, decide_eq_false hk', List.any_nil,
        Bool.or_false, ih]

/-- The budget a restarted process reports is the shadow's. -/
theorem restarted_view (l : BudgetLedger) (drawTokens : ℕ) (key : KeyId) :
    (System.restarted l drawTokens).view key = (durableEntry l.journal.records key).view := by
  rw [BudgetLedger.view, System.restarted, replay_entries _ rfl]
  cases h : l.journal.records.any fun r => decide (r.key = key) with
  | true => rfl
  | false => rw [durableEntry_of_none h]; rfl

/-- The running entry `e` is covered by its durable shadow `r`. -/
structure Covers (e r : Entry) : Prop where
  consumed_le : e.consumed ≤ maxTokens
  reserved_le : e.reserved ≤ maxTokens
  drawn_le : e.drawn ≤ maxTokens
  limit_le : ∀ limit, e.limit = some limit → limit ≤ maxTokens
  held_le : e.held ≤ e.drawn
  mark : e.undurable = false → r.drawn = e.drawn
  mark_le : r.drawn ≤ maxTokens
  reserved_mark : e.reserved ≤ r.drawn
  spent : r.consumed = r.drawn
  idle : r.reserved = 0
  settled : r.undurable = false
  limit : r.limit = e.limit
  revision : r.revision = e.revision
  payment : r.payment = e.payment
  receipts : ∀ k : String, r.receipts[k]? = e.receipts[k]?

theorem covers_new (tenant tenant' : TenantId) : Covers (Entry.new tenant) (Entry.new tenant') where
  consumed_le := Nat.zero_le _
  reserved_le := Nat.zero_le _
  drawn_le := Nat.zero_le _
  limit_le := by simp [Entry.new]
  held_le := by simp [Entry.held_eq, Entry.new]
  mark := fun _ => rfl
  mark_le := Nat.zero_le _
  reserved_mark := Nat.zero_le _
  spent := rfl
  idle := rfl
  settled := rfl
  limit := rfl
  revision := rfl
  payment := rfl
  receipts := fun _ => rfl

/-- A shadow covers itself, which is what a restart needs. -/
theorem Covers.shadow {e r : Entry} (h : Covers e r) : Covers r r where
  consumed_le := h.spent ▸ h.mark_le
  reserved_le := by rw [h.idle]; exact Nat.zero_le _
  drawn_le := h.mark_le
  limit_le := by rw [h.limit]; exact h.limit_le
  held_le := by rw [Entry.held_eq, h.spent, h.idle, Nat.add_zero]; exact Nat.min_le_left _ _
  mark := fun _ => rfl
  mark_le := h.mark_le
  reserved_mark := by rw [h.idle]; exact Nat.zero_le _
  spent := h.spent
  idle := h.idle
  settled := h.settled
  limit := rfl
  revision := rfl
  payment := rfl
  receipts := fun _ => rfl

theorem Entry.held_le_maxTokens (e : Entry) : e.held ≤ maxTokens := Nat.min_le_right _ _

theorem Entry.reserved_le_held {e : Entry} (h : e.reserved ≤ maxTokens) : e.reserved ≤ e.held := by
  rw [Entry.held_eq]
  omega

/-- A record written from an entry, with that entry's editable state, covers it again. -/
theorem covers_of_record {e' r : Entry} {record : BudgetRecord}
    (hconsumed : e'.consumed ≤ maxTokens) (hreserved : e'.reserved ≤ maxTokens)
    (hdrawn : e'.drawn ≤ maxTokens) (hlimit : ∀ limit, e'.limit = some limit → limit ≤ maxTokens)
    (hheld : e'.held ≤ e'.drawn) (hmark : record.drawn = e'.drawn)
    (hrlimit : record.limit = e'.limit) (hrevision : record.revision = e'.revision)
    (hpayment : record.payment = e'.payment)
    (hreceipts : ∀ k : String, (r.restore record).receipts[k]? = e'.receipts[k]?) :
    Covers e' (r.restore record) where
  consumed_le := hconsumed
  reserved_le := hreserved
  drawn_le := hdrawn
  limit_le := hlimit
  held_le := hheld
  mark := fun _ => by simp only [Entry.restore, hmark]; omega
  mark_le := Nat.min_le_right _ _
  reserved_mark := by
    have hle := Entry.reserved_le_held hreserved
    simp only [Entry.restore, hmark]
    omega
  spent := rfl
  idle := rfl
  settled := rfl
  limit := by
    simp only [Entry.restore, hrlimit]
    cases hl : e'.limit with
    | none => rfl
    | some limit => simp only [Option.map_some, Nat.min_eq_left (hlimit limit hl)]
  revision := hrevision
  payment := hpayment
  receipts := hreceipts

theorem Entry.drawnFor_le (e : Entry) (draw needed : ℕ) (h : e.drawn ≤ maxTokens) :
    e.drawnFor draw needed ≤ maxTokens := by
  simp only [Entry.drawnFor]
  omega

theorem Entry.le_drawnFor (e : Entry) (draw needed : ℕ) (h : needed ≤ maxTokens) :
    needed ≤ e.drawnFor draw needed := by
  simp only [Entry.drawnFor, min_satAdd maxTokens_le_u64Max]
  omega

/-- What `grant` does to a covered entry that has room: no counter is cut. -/
theorem Covers.grant_reserved {e r : Entry} {tokens : ℕ} (h : Covers e r) (fits : Fits e tokens) :
    (e.grant tokens).reserved = e.reserved + tokens ∧ e.reserved + tokens ≤ maxTokens ∧
      (e.grant tokens).held = e.held + tokens := by
  have hheld := e.held_eq
  have htotal := fits.total
  have hconsumed := h.consumed_le
  have hreserved := h.reserved_le
  have hroom : e.reserved + tokens ≤ maxTokens := by omega
  have hgrant : (e.grant tokens).reserved = e.reserved + tokens :=
    satAdd_eq (hroom.trans maxTokens_le_u64Max)
  refine ⟨hgrant, hroom, ?_⟩
  rw [Entry.held_eq, hgrant]
  show min (e.consumed + (e.reserved + tokens)) maxTokens = _
  omega

/-- **Granting keeps the cover.** -/
theorem Granted.covers {key : KeyId} {draw tokens : ℕ} {fails : Bool} {e e' r : Entry}
    {record : Option BudgetRecord} (h : Granted key draw fails e tokens e' record)
    (hc : Covers e r) : Covers e' (record.elim r r.restore) := by
  have hg := hc.grant_reserved h.fits
  cases h with
  | under fits durable under =>
    exact { hc with
      reserved_le := by rw [hg.1]; exact hg.2.1
      held_le := by rw [hg.2.2]; exact under
      reserved_mark := by
        have hle := Entry.reserved_le_held hc.reserved_le
        rw [hg.1]
        show e.reserved + tokens ≤ r.drawn
        rw [hc.mark durable]
        omega }
  | drawn fits above ok =>
    have hreserved : (e.grant tokens).reserved ≤ maxTokens := by
      rw [hg.1]
      exact hg.2.1
    have hheld : (e.grant tokens).held ≤ e.drawnFor draw (e.held + tokens) := by
      rw [hg.2.2]
      exact e.le_drawnFor draw (e.held + tokens) fits.total
    exact covers_of_record hc.consumed_le hreserved (e.drawnFor_le draw _ hc.drawn_le)
      hc.limit_le hheld rfl rfl rfl rfl hc.receipts

/-- **Charging keeps the cover.** -/
theorem Charged.covers {key : KeyId} {reserved charged : ℕ} {fails durable : Bool}
    {e e' r : Entry} {record : Option BudgetRecord}
    (h : Charged key fails e reserved charged e' record durable) (hc : Covers e r) :
    Covers e' (record.elim r r.restore) := by
  have hconsumed : (e.charge reserved charged).consumed ≤ maxTokens := Nat.min_le_right _ _
  have hreserved : (e.charge reserved charged).reserved ≤ maxTokens :=
    (Nat.sub_le _ _).trans hc.reserved_le
  have hmark : (e.charge reserved charged).reserved ≤ r.drawn :=
    (Nat.sub_le _ _).trans hc.reserved_mark
  have hheld := (e.charge reserved charged).held_le_maxTokens
  cases h with
  | under under =>
    exact { hc with
      consumed_le := hconsumed, reserved_le := hreserved, held_le := under,
      reserved_mark := hmark }
  | overrun above ok =>
    exact covers_of_record hconsumed hreserved hheld hc.limit_le le_rfl rfl rfl rfl rfl
      hc.receipts
  | lost above lost =>
    exact { hc with
      consumed_le := hconsumed, reserved_le := hreserved, drawn_le := hheld,
      held_le := le_rfl, mark := fun h => by simp at h, reserved_mark := hmark }

/-- **Every move keeps the cover**, with the shadow restored from the record it committed. -/
theorem Move.covers {key : KeyId} {draw : ℕ} {fails : Bool} {e e' r : Entry}
    {record : Option BudgetRecord} (h : Move key draw fails e e' record) (hc : Covers e r) :
    Covers e' (record.elim r r.restore) := by
  cases h with
  | stay => exact hc
  | reserve granted => exact granted.covers hc
  | finish charge => exact charge.covers hc
  | set limit payment revision bounded ok =>
    exact covers_of_record hc.consumed_le hc.reserved_le e.held_le_maxTokens bounded le_rfl
      rfl rfl rfl rfl hc.receipts
  | credit limit receipt finite sum bounded fresh ok =>
    refine covers_of_record hc.consumed_le hc.reserved_le e.held_le_maxTokens ?_ le_rfl
      rfl rfl rfl rfl fun k => ?_
    · intro l hl
      obtain rfl : receipt.limitAfter = l := by simpa using hl
      exact bounded
    · simp only [Entry.restore, Maps.getElem?_insert, hc.receipts]
  | flush ok =>
    exact covers_of_record hc.consumed_le hc.reserved_le e.held_le_maxTokens hc.limit_le le_rfl
      rfl rfl rfl rfl hc.receipts

/-- Every entry is covered by its shadow. -/
def Covered (l : BudgetLedger) : Prop :=
  ∀ key tenant, Covers (l.entryFor key tenant) (durableEntry l.journal.records key)

theorem Moved.entryFor {l l' : BudgetLedger} {key : KeyId} {e' : Entry}
    {record : Option BudgetRecord} (h : Moved l l' key e' record) (k : KeyId)
    (tenant : TenantId) :
    l'.entryFor k tenant = if k = key then e' else l.entryFor k tenant := by
  simp only [BudgetLedger.entryFor, h.entries]
  split <;> rfl

theorem BudgetLedger.Step.covered {l l' : BudgetLedger} (h : l.Step l') (hc : Covered l) :
    Covered l' := by
  obtain ⟨key, tenant, e', record, hmoved, hmove⟩ := h
  intro k t
  rw [hmoved.entryFor, hmoved.records]
  by_cases hk : k = key
  · subst hk
    rw [if_pos rfl, durableEntry_append _ _ _ hmove.record_key]
    exact hmove.covers (hc k tenant)
  · rw [if_neg hk, durableEntry_append_ne _ _ key k hmove.record_key hk]
    exact hc k t

theorem BudgetLedger.steps_covered {l l' : BudgetLedger}
    (h : Relation.ReflTransGen BudgetLedger.Step l l') (hc : Covered l) : Covered l' := by
  induction h with
  | refl => exact hc
  | tail _ hstep ih => exact hstep.covered ih

end HypeLlm.Budget
