import HypeLlm.Lib.Lists
import HypeLlm.Budget.Durable

/-!
# The invariant of every reachable system

`Sound` holds of every state of every run (`sound_after`): every entry is covered by its durable
shadow, the reserved counter of a key is the sum of the tokens of its unfinished reservations,
and the ledger knows the key of every unfinished reservation.  The sum is what makes finishing
exact: the saturating subtraction in `finish` never saturates.
-/

namespace HypeLlm.Budget

open HypeLlm.Words HypeLlm.Runs

namespace System

theorem live_eq_some {s : System} {id : ℕ} {r : BudgetReservation} :
    s.live id = some r ↔ s.reservations[id]? = some (some r) ∧ r.finished = false := by
  simp only [live, Option.filter_eq_some_iff, Option.join_eq_some_iff, Bool.not_eq_true']

structure Sound (s : System) : Prop where
  covered : Covered s.ledger
  reserved : ∀ key tenant, (s.ledger.entryFor key tenant).reserved = s.outstanding key
  known : ∀ id r, s.live id = some r → ∃ e, s.ledger.entries[r.key]? = some e

theorem sound_init (failing : ℕ → Bool) (drawTokens : ℕ) : Sound (init failing drawTokens) where
  covered key tenant := by
    simp only [BudgetLedger.entryFor, init, BudgetLedger.new, durableEntry_nil]
    exact covers_new _ _
  reserved key tenant := by
    simp [BudgetLedger.entryFor, init, BudgetLedger.new, outstanding, Entry.new]
  known id r h := by simp [live, init] at h

/-- Two entries with the same account: everything but the mark. -/
structure SameAccount (e e' : Entry) : Prop where
  consumed : e'.consumed = e.consumed
  reserved : e'.reserved = e.reserved
  limit : e'.limit = e.limit
  receipts : e'.receipts = e.receipts

theorem SameAccount.rfl' (e : Entry) : SameAccount e e := ⟨rfl, rfl, rfl, rfl⟩

theorem SameAccount.trans {e e' e'' : Entry} (h : SameAccount e e') (h' : SameAccount e' e'') :
    SameAccount e e'' :=
  ⟨h'.consumed.trans h.consumed, h'.reserved.trans h.reserved, h'.limit.trans h.limit,
    h'.receipts.trans h.receipts⟩

theorem flushEntry_account (acc : ℕ × BudgetLedger) (p : KeyId × Entry)
    (h : acc.2.entries[p.1]? = some p.2) (key : KeyId) (tenant : TenantId) :
    SameAccount (acc.2.entryFor key tenant)
      ((BudgetLedger.flushEntry acc p).2.entryFor key tenant) := by
  by_cases hk : key = p.1
  · subst hk
    have hp : acc.2.entryFor p.1 tenant = p.2 := by simp [BudgetLedger.entryFor, h]
    rw [hp]
    simp only [BudgetLedger.flushEntry]
    split
    · rw [hp]
      exact .rfl' _
    · cases hf : acc.2.fails with
      | true =>
        rw [BudgetLedger.commit_lost _ hf]
        show SameAccount p.2 (acc.2.entryFor p.1 tenant)
        rw [hp]
        exact .rfl' _
      | false =>
        rw [BudgetLedger.commit_ok _ hf]
        simp only [BudgetLedger.entryFor, BudgetLedger.put_entries, if_true, Option.getD_some]
        exact ⟨rfl, rfl, rfl, rfl⟩
  · simp only [BudgetLedger.entryFor, BudgetLedger.flushEntry_entries acc p key hk]
    exact .rfl' _

/-- Flushing moves marks and nothing else. -/
theorem flush_account (l : BudgetLedger) (key : KeyId) (tenant : TenantId) :
    SameAccount (l.entryFor key tenant) (l.flush.2.entryFor key tenant) :=
  BudgetLedger.flush_induction (P := fun l' => SameAccount (l.entryFor key tenant)
    (l'.entryFor key tenant)) (.rfl' _)
    fun acc p hp h => h.trans (flushEntry_account acc p hp key tenant)

/-! ### One operation -/

theorem apply_reserve_error {s : System} {key : KeyId} {tenant : TenantId} {tokens : ℕ}
    {refusal : BudgetRefusal} (h : (s.ledger.reserve key tenant tokens).1 = .error refusal) :
    s.apply (.reserve key tenant tokens)
      = (.reserved (.error refusal), { s with ledger := (s.ledger.reserve key tenant tokens).2 }) := by
  simp only [apply, h, List.append_nil]

theorem apply_reserve_ok {s : System} {key : KeyId} {tenant : TenantId} {tokens : ℕ}
    {r : BudgetReservation} (h : (s.ledger.reserve key tenant tokens).1 = .ok r) :
    s.apply (.reserve key tenant tokens)
      = (.reserved (.ok r), { s with
          ledger := (s.ledger.reserve key tenant tokens).2
          reservations := s.reservations ++ [some r] }) := by
  simp only [apply, h]

theorem apply_finish_none {s : System} {id : ℕ} {how : Finish} (h : s.live id = none) :
    s.apply (.finish id how) = (.ignored, s) := by
  simp only [apply, h]

/-- The ledger after a live reservation ends. -/
def finished (s : System) (r : BudgetReservation) (how : Finish) : Settlement × BudgetLedger :=
  s.ledger.finish r.key r.tokens (how.charged r.tokens)

theorem apply_finish_some {s : System} {id : ℕ} {how : Finish} {r : BudgetReservation}
    (h : s.live id = some r) :
    s.apply (.finish id how)
      = (.finished r (some (s.finished r how).1), { s with
          ledger := (s.finished r how).2
          reservations := s.reservations.set id (some { r with finished := true }) }) := by
  simp only [apply, h, how.apply_eq r s.ledger (live_eq_some.mp h).2, finished]

/-- **Every operation but a restart is a sequence of moves of the ledger.** -/
theorem apply_steps (s : System) (op : Op) (hop : ∀ d, op ≠ .restart d) :
    Relation.ReflTransGen BudgetLedger.Step s.ledger (s.apply op).2.ledger := by
  cases op with
  | reserve key tenant tokens =>
    refine .single ?_
    obtain ⟨refusal, herr, hmoved⟩ | ⟨e', record, hok, hmoved, hgranted⟩ :=
      s.ledger.reserve_move key tenant tokens
    · rw [apply_reserve_error herr]
      exact ⟨key, tenant, _, none, hmoved, .stay⟩
    · rw [apply_reserve_ok hok]
      exact ⟨key, tenant, e', record, hmoved, .reserve hgranted⟩
  | finish id how =>
    cases hlive : s.live id with
    | none => rw [apply_finish_none hlive]
    | some r =>
      rw [apply_finish_some hlive]
      show Relation.ReflTransGen _ _ (s.finished r how).2
      cases he : s.ledger.entries[r.key]? with
      | none =>
        have hsame : (s.finished r how).2 = s.ledger := by
          simp only [finished, BudgetLedger.finish, he]
        rw [hsame]
      | some e =>
        obtain ⟨e', record, durable, -, hmoved, hcharged⟩ :=
          s.ledger.finish_move r.key r.tokens (how.charged r.tokens) e he
        have hfor : s.ledger.entryFor r.key "" = e := by simp [BudgetLedger.entryFor, he]
        exact .single ⟨r.key, "", e', record, hmoved, hfor ▸ .finish hcharged⟩
  | set key tenant expectedRevision limit payment =>
    obtain ⟨_, -, hsame | hmoved⟩ | ⟨record, -, hmoved, hmove⟩ :=
      s.ledger.set_move key tenant expectedRevision limit payment
    · show Relation.ReflTransGen _ _ (s.ledger.set key tenant expectedRevision limit payment).2
      rw [hsame]
    · exact .single ⟨key, tenant, _, none, hmoved, .stay⟩
    · exact .single ⟨key, tenant, _, some record, hmoved, hmove⟩
  | credit key tenant c =>
    refine .single ?_
    cases hreceipt : (s.ledger.entryFor key tenant).receipts[c.idempotencyKey]? with
    | some receipt =>
      exact ⟨key, tenant, _, none, (s.ledger.credit_known key tenant c receipt hreceipt).2, .stay⟩
    | none =>
      obtain ⟨_, -, hmoved⟩ | ⟨_, _, record, -, -, -, hmoved, hmove⟩ :=
        s.ledger.credit_move key tenant c hreceipt
      · exact ⟨key, tenant, _, none, hmoved, .stay⟩
      · exact ⟨key, tenant, _, some record, hmoved, hmove⟩
  | flush => exact s.ledger.flush_moves
  | restart d => exact absurd rfl (hop d)

/-- A restarted ledger has the shadow of every key for its entry, up to the tenant of a key
without a record. -/
theorem restarted_entryFor (l : BudgetLedger) (drawTokens : ℕ) (key : KeyId)
    (tenant : TenantId) :
    (restarted l drawTokens).entryFor key tenant = durableEntry l.journal.records key ∨
      (restarted l drawTokens).entryFor key tenant = Entry.new tenant ∧
        durableEntry l.journal.records key = Entry.new "" := by
  rw [BudgetLedger.entryFor, restarted, replay_entries _ rfl]
  cases h : l.journal.records.any fun r => decide (r.key = key) with
  | true => exact .inl rfl
  | false => exact .inr ⟨rfl, durableEntry_of_none h⟩

theorem replay_journal (l : BudgetLedger) (records : List BudgetRecord) :
    (replay l records).journal = l.journal := by
  induction records generalizing l with
  | nil => rfl
  | cons r records ih =>
    show (replay (l.restore r) records).journal = l.journal
    rw [ih]
    rfl

theorem restarted_journal (l : BudgetLedger) (drawTokens : ℕ) :
    (restarted l drawTokens).journal = l.journal := replay_journal _ _

theorem covered_restarted {l : BudgetLedger} (h : Covered l) (drawTokens : ℕ) :
    Covered (restarted l drawTokens) := by
  intro key tenant
  rw [restarted_journal]
  obtain heq | ⟨heq, hnew⟩ := restarted_entryFor l drawTokens key tenant
  · rw [heq]
    exact (h key tenant).shadow
  · rw [heq, hnew]
    exact covers_new _ _

theorem covered_apply {s : System} (h : Covered s.ledger) (op : Op) :
    Covered (s.apply op).2.ledger := by
  by_cases hop : ∃ d, op = .restart d
  · obtain ⟨d, rfl⟩ := hop
    exact covered_restarted h d
  · exact BudgetLedger.steps_covered (apply_steps s op fun d hd => hop ⟨d, hd⟩) h

/-! ### The reserved counter -/

theorem outstanding_append (s : System) (l : BudgetLedger) (r : BudgetReservation) (key : KeyId) :
    outstanding { s with ledger := l, reservations := s.reservations ++ [some r] } key
      = s.outstanding key + slotTokens key (some r) := by
  simp [outstanding]

/-- Ending a reservation takes its tokens out of the sum of its key, and of no other. -/
theorem outstanding_finish {s : System} {id : ℕ} {r : BudgetReservation} (h : s.live id = some r)
    (l : BudgetLedger) (key : KeyId) :
    outstanding { s with
        ledger := l, reservations := s.reservations.set id (some { r with finished := true }) } key
      + (if r.key = key then r.tokens else 0) = s.outstanding key := by
  obtain ⟨hslot, hlive⟩ := live_eq_some.mp h
  have hsum := Lists.sum_map_set (slotTokens key) s.reservations id (some r)
    (some { r with finished := true }) hslot
  simpa [outstanding, slotTokens, hlive] using hsum

/-- A live reservation's tokens are part of its key's sum. -/
theorem tokens_le_outstanding {s : System} {id : ℕ} {r : BudgetReservation}
    (h : s.live id = some r) : r.tokens ≤ s.outstanding r.key := by
  have := outstanding_finish h s.ledger r.key
  rw [if_pos rfl] at this
  omega

theorem granted_reserved {key : KeyId} {draw tokens : ℕ} {fails : Bool} {e e' r : Entry}
    {record : Option BudgetRecord} (h : Granted key draw fails e tokens e' record)
    (hc : Covers e r) : e'.reserved = e.reserved + tokens := by
  have hg := (hc.grant_reserved h.fits).1
  cases h with
  | under => exact hg
  | drawn => exact hg

theorem granted_held {key : KeyId} {draw tokens : ℕ} {fails : Bool} {e e' r : Entry}
    {record : Option BudgetRecord} (h : Granted key draw fails e tokens e' record)
    (hc : Covers e r) : e'.held = e.held + tokens := by
  have hg := (hc.grant_reserved h.fits).2.2
  cases h with
  | under => exact hg
  | drawn => exact hg

theorem charged_reserved {key : KeyId} {reserved charged : ℕ} {fails durable : Bool}
    {e e' : Entry} {record : Option BudgetRecord}
    (h : Charged key fails e reserved charged e' record durable) :
    e'.reserved = e.reserved - reserved := by
  cases h <;> rfl

/-- A move that leaves the reserved counter of its key leaves every counter at its sum. -/
theorem Sound.reserved_of_moved {s : System} (h : Sound s) {l' : BudgetLedger} {key' : KeyId}
    {e' : Entry} {record : Option BudgetRecord} (hmoved : Moved s.ledger l' key' e' record)
    (tenant' : TenantId) (hsame : e'.reserved = (s.ledger.entryFor key' tenant').reserved)
    (key : KeyId) (tenant : TenantId) :
    (l'.entryFor key tenant).reserved = s.outstanding key := by
  rw [hmoved.entryFor]
  split
  · rename_i hk
    rw [hk, hsame]
    exact h.reserved key' tenant'
  · exact h.reserved key tenant

theorem reserved_apply {s : System} (h : Sound s) (op : Op) (key : KeyId) (tenant : TenantId) :
    ((s.apply op).2.ledger.entryFor key tenant).reserved = (s.apply op).2.outstanding key := by
  cases op with
  | reserve key' tenant' tokens =>
    obtain ⟨refusal, herr, hmoved⟩ | ⟨e', record, hok, hmoved, hgranted⟩ :=
      s.ledger.reserve_move key' tenant' tokens
    · rw [apply_reserve_error herr]
      exact h.reserved_of_moved hmoved tenant' rfl key tenant
    · rw [apply_reserve_ok hok, outstanding_append, hmoved.entryFor]
      split
      · rename_i hk
        rw [hk, granted_reserved hgranted (h.covered key' tenant'), h.reserved]
        simp [slotTokens]
      · rename_i hk
        have hk' : key' ≠ key := fun h => hk h.symm
        rw [h.reserved]
        simp [slotTokens, hk']
  | finish id how =>
    cases hlive : s.live id with
    | none =>
      rw [apply_finish_none hlive]
      exact h.reserved key tenant
    | some r =>
      obtain ⟨e, he⟩ := h.known id r hlive
      obtain ⟨e', record, durable, -, hmoved, hcharged⟩ :=
        s.ledger.finish_move r.key r.tokens (how.charged r.tokens) e he
      have hmoved' : Moved s.ledger (s.finished r how).2 r.key e' record := hmoved
      have hsum := outstanding_finish hlive (s.finished r how).2 key
      rw [apply_finish_some hlive]
      simp only [hmoved'.entryFor]
      by_cases hk : key = r.key
      · have hfor : s.ledger.entryFor key tenant = e := by simp [BudgetLedger.entryFor, hk, he]
        have hres := h.reserved key tenant
        rw [hfor] at hres
        rw [if_pos hk.symm] at hsum
        rw [if_pos hk, charged_reserved hcharged, hres]
        omega
      · rw [if_neg fun hk' => hk hk'.symm, Nat.add_zero] at hsum
        rw [if_neg hk, h.reserved, hsum]
  | set key' tenant' expectedRevision limit payment =>
    show ((s.ledger.set key' tenant' expectedRevision limit payment).2.entryFor key tenant).reserved
      = s.outstanding key
    obtain ⟨_, -, hsame | hmoved⟩ | ⟨record, -, hmoved, -⟩ :=
      s.ledger.set_move key' tenant' expectedRevision limit payment
    · rw [hsame]
      exact h.reserved key tenant
    · exact h.reserved_of_moved hmoved tenant' rfl key tenant
    · exact h.reserved_of_moved hmoved tenant' rfl key tenant
  | credit key' tenant' c =>
    show ((s.ledger.credit key' tenant' c).2.entryFor key tenant).reserved = s.outstanding key
    cases hreceipt : (s.ledger.entryFor key' tenant').receipts[c.idempotencyKey]? with
    | some receipt =>
      exact h.reserved_of_moved (s.ledger.credit_known key' tenant' c receipt hreceipt).2 tenant'
        rfl key tenant
    | none =>
      obtain ⟨_, -, hmoved⟩ | ⟨_, _, record, -, -, -, hmoved, -⟩ :=
        s.ledger.credit_move key' tenant' c hreceipt
      · exact h.reserved_of_moved hmoved tenant' rfl key tenant
      · exact h.reserved_of_moved hmoved tenant' rfl key tenant
  | flush =>
    show (s.ledger.flush.2.entryFor key tenant).reserved = s.outstanding key
    rw [(flush_account s.ledger key tenant).reserved]
    exact h.reserved key tenant
  | restart d =>
    show ((restarted s.ledger d).entryFor key tenant).reserved = _
    have hzero : (s.apply (.restart d)).2.outstanding key = 0 := by
      simp [apply, outstanding, slotTokens]
    rw [hzero]
    obtain heq | ⟨heq, -⟩ := restarted_entryFor s.ledger d key tenant
    · rw [heq]
      exact (h.covered key tenant).idle
    · rw [heq]
      rfl

/-! ### The keys of live reservations -/

/-- Entries are never removed while the process lives. -/
theorem steps_known {l l' : BudgetLedger} (h : Relation.ReflTransGen BudgetLedger.Step l l')
    (key : KeyId) (hk : ∃ e, l.entries[key]? = some e) : ∃ e, l'.entries[key]? = some e := by
  induction h with
  | refl => exact hk
  | tail _ hstep ih =>
    obtain ⟨e, he⟩ := ih
    obtain ⟨key', _, e', _, hmoved, -⟩ := hstep
    rw [hmoved.entries]
    split
    · exact ⟨e', rfl⟩
    · exact ⟨e, he⟩

theorem known_apply {s : System} (h : Sound s) (op : Op) (id : ℕ) (r : BudgetReservation)
    (hr : (s.apply op).2.live id = some r) :
    ∃ e, (s.apply op).2.ledger.entries[r.key]? = some e := by
  by_cases hop : ∃ d, op = .restart d
  · obtain ⟨d, rfl⟩ := hop
    obtain ⟨hslot, -⟩ := live_eq_some.mp hr
    have hmem := List.mem_of_getElem? hslot
    simp [apply] at hmem
  have hsteps := apply_steps s op fun d hd => hop ⟨d, hd⟩
  -- a live reservation was live before the operation, or the operation granted it
  have hold : (∃ id', s.live id' = some r) →
      ∃ e, (s.apply op).2.ledger.entries[r.key]? = some e := by
    rintro ⟨id', hid'⟩
    exact steps_known hsteps r.key (h.known id' r hid')
  cases op with
  | reserve key tenant tokens =>
    obtain ⟨refusal, herr, -⟩ | ⟨e', record, hok, hmoved, -⟩ :=
      s.ledger.reserve_move key tenant tokens
    · rw [apply_reserve_error herr] at hr
      exact hold ⟨id, hr⟩
    · rw [apply_reserve_ok hok] at hr ⊢
      obtain ⟨hslot, hfin⟩ := live_eq_some.mp hr
      rcases Nat.lt_or_ge id s.reservations.length with hlt | hge
      · have hslot' : s.reservations[id]? = some (some r) := by
          simpa only [List.getElem?_append_left hlt] using hslot
        obtain ⟨e, he⟩ := h.known id r (live_eq_some.mpr ⟨hslot', hfin⟩)
        exact steps_known (apply_reserve_ok hok ▸ hsteps) r.key ⟨e, he⟩
      · simp only [List.getElem?_append_right hge] at hslot
        have hmem := List.mem_of_getElem? hslot
        obtain rfl : r = ⟨key, tokens, false⟩ := by simpa using hmem
        exact ⟨e', by simp [hmoved.entries]⟩
  | finish id' how =>
    cases hlive : s.live id' with
    | none =>
      rw [apply_finish_none hlive] at hr
      exact hold ⟨id, hr⟩
    | some r' =>
      have hr' := hr
      rw [apply_finish_some hlive] at hr'
      obtain ⟨hslot, hfin⟩ := live_eq_some.mp hr'
      simp only [List.getElem?_set] at hslot
      split at hslot
      · split at hslot
        · obtain rfl : { r' with finished := true } = r := by simpa using hslot
          simp at hfin
        · simp at hslot
      · exact hold ⟨id, live_eq_some.mpr ⟨hslot, hfin⟩⟩
  | set => exact hold ⟨id, hr⟩
  | credit => exact hold ⟨id, hr⟩
  | flush => exact hold ⟨id, hr⟩
  | restart d => exact absurd ⟨d, rfl⟩ hop

/-- **One operation keeps the invariant.** -/
theorem sound_step {s : System} (op : Op) (h : Sound s) : Sound (s.step op) where
  covered := covered_apply h.covered op
  reserved := reserved_apply h op
  known := known_apply h op

/-- **Every reachable state is sound.** -/
theorem sound_after (failing : ℕ → Bool) (drawTokens : ℕ) (ops : List Op) :
    Sound (after failing drawTokens ops) :=
  run_invariant (fun _ op h => sound_step op h) (sound_init failing drawTokens) ops

end System

end HypeLlm.Budget
