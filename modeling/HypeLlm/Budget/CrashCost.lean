import HypeLlm.Budget.CrashSafety

/-!
# What a crash costs

With a journal that never fails, what a restart charges a key beyond what it held is the unused
part of its mark.  A monitor beside the system keeps, for each key, the level at which the mark
was last written and what remained of the limit at the last draw:

* `release_costs_more_than_a_draw` — a released reservation leaves the mark where it was, so a
  crash may cost the whole reservation;
* `crash_cost_bounded_while_level_kept` — as long as no reservation ends below the level at which
  the mark of its key was last written, a crash costs at most `drawTokens`, and at most an eighth
  of what remained of a finite limit at the last draw.
-/

namespace HypeLlm.Budget

open HypeLlm.Words HypeLlm.Runs

/-- A journal that commits every record. -/
def reliable : ℕ → Bool := fun _ => false

/-- How many marks of `key` the journal has committed. -/
def BudgetLedger.marks (l : BudgetLedger) (key : KeyId) : ℕ :=
  l.journal.records.countP fun r => r.key = key

/-- The system with, for each key, `level`, what the key held when its mark was last written (by a
commit, or by the restart that took the mark for its consumption), and `remained`, what was left
of its limit at its last draw. -/
structure Watched where
  system : System
  level : KeyId → ℕ
  remained : KeyId → ℕ

namespace Watched

def init (drawTokens : ℕ) : Watched where
  system := System.init reliable drawTokens
  level := fun _ => 0
  remained := fun _ => 0

/-- The operation wrote the mark of `key`. -/
def wrote (s s' : System) (op : Op) (key : KeyId) : Bool :=
  match op with
  | .restart _ => true
  | _ => s'.ledger.marks key ≠ s.ledger.marks key

/-- The operation was a reservation that drew: it wrote the mark of its key. -/
def drew (s s' : System) (op : Op) (key : KeyId) : Bool :=
  match op with
  | .reserve key' _ _ => key' = key ∧ wrote s s' op key
  | _ => false

def step (w : Watched) (op : Op) : Watched where
  system := w.system.step op
  level key := if wrote w.system (w.system.step op) op key then (w.system.step op).held key
    else w.level key
  remained key := if drew w.system (w.system.step op) op key
    then ((w.system.step op).ledger.view key).remaining.getD 0 else w.remained key

def after (drawTokens : ℕ) (ops : List Op) : Watched := run step (init drawTokens) ops

/-- What a crash here would cost `key`, beyond what the key has consumed and reserved. -/
def cost (w : Watched) (key : KeyId) (drawTokens : ℕ) : ℕ :=
  ((System.restarted w.system.ledger drawTokens).view key).consumed
    - ((w.system.ledger.view key).consumed + (w.system.ledger.view key).reserved)

/-- A crash costs `key` at most the headroom of a draw and, where its limit is finite, an eighth
of what remained at the last draw. -/
def CostBounded (w : Watched) (key : KeyId) : Prop :=
  ∀ d, w.cost key d ≤ w.system.ledger.drawTokens ∧
    ((w.system.ledger.view key).limit.isSome → 8 * w.cost key d ≤ w.remained key)

/-- A reservation ends with a charge that keeps what its key holds at or above the level at which
the mark was last written.  Every other operation meets it. -/
def KeepsLevel (w : Watched) : Op → Prop
  | .finish id how => ∀ r, w.system.live id = some r →
    w.level r.key + r.tokens ≤ (w.system.ledger.view r.key).consumed
      + (w.system.ledger.view r.key).reserved + how.charged r.tokens
  | _ => True

/-- **A release costs more than a draw.**  Half of a limit of 8000 is reserved and given back, with
draws of 10 tokens: a crash then costs 4010. -/
theorem release_costs_more_than_a_draw :
    let w := after 10 [.set "k" "t" none (some 8000) none, .reserve "k" "t" 4000,
      .finish 0 .release]
    w.cost "k" 10 = 4010 ∧ w.remained "k" = 4000 ∧ ¬ CostBounded w "k" := by
  refine ⟨by decide, by decide, fun h => ?_⟩
  have hcost := (h 10).1
  revert hcost
  decide

/-! ### Marks -/

theorem marks_moved {l l' : BudgetLedger} {key : KeyId} {e' : Entry}
    {record : Option BudgetRecord} (h : Moved l l' key e' record)
    (hkey : ∀ r ∈ record, r.key = key) (k : KeyId) :
    l'.marks k = l.marks k + if k = key ∧ record.isSome then 1 else 0 := by
  rw [BudgetLedger.marks, h.records, List.countP_append]
  cases record with
  | none => simp [BudgetLedger.marks]
  | some r =>
    have hr : r.key = key := hkey r rfl
    by_cases hk : k = key
    · simp [BudgetLedger.marks, hk, hr]
    · have hk' : key ≠ k := fun h => hk h.symm
      simp [BudgetLedger.marks, hk, hr, hk']

/-! ### The level of one key -/

/-- The entry of a key at level `level`: durable, held at or above the level, with a mark that
the headroom of one draw separates from it. -/
structure Level (draw : ℕ) (e : Entry) (level remained : ℕ) : Prop where
  durable : e.undurable = false
  level_le : level ≤ e.held
  drawn_le : e.drawn ≤ level + draw
  eighth : e.limit.isSome → 8 * (e.drawn - level) ≤ remained

/-- A mark written exact starts a new level. -/
theorem level_exact {draw : ℕ} {e : Entry} (remained : ℕ) (hdurable : e.undurable = false)
    (hexact : e.drawn = e.held) : Level draw e e.held remained where
  durable := hdurable
  level_le := le_rfl
  drawn_le := by omega
  eighth := fun _ => by omega

/-- An entry whose mark was not written stays at its level while it holds as much. -/
theorem Level.keep {draw level remained : ℕ} {e e' : Entry} (h : Level draw e level remained)
    (hdurable : e'.undurable = e.undurable) (hdrawn : e'.drawn = e.drawn)
    (hlimit : e'.limit = e.limit) (hheld : level ≤ e'.held) : Level draw e' level remained where
  durable := by rw [hdurable, h.durable]
  level_le := hheld
  drawn_le := by rw [hdrawn]; exact h.drawn_le
  eighth := by rw [hdrawn, hlimit]; exact h.eighth

/-- A draw starts a new level, with a headroom of `draw` and an eighth of what remains. -/
theorem level_drawn {key : KeyId} {draw tokens : ℕ} {fails : Bool} {e e' r : Entry}
    {record : Option BudgetRecord} (h : Granted key draw fails e tokens e' record)
    (hc : Covers e r) (hdurable : e.undurable = false) (hrecord : record.isSome) :
    Level draw e' e'.held (e'.view.remaining.getD 0) := by
  have hheld := System.granted_held h hc
  have hremaining : e'.view.remaining
      = e.limit.map fun limit => limit - e.consumed - (e.reserved + tokens) := by
    rw [← System.granted_reserved h hc]
    cases h <;> rfl
  cases h with
  | under => simp at hrecord
  | drawn fits above ok =>
    have habove : e.drawn < e.held + tokens := by
      rcases above with habove | hundurable
      · exact habove
      · rw [hdurable] at hundurable
        simp at hundurable
    refine ⟨rfl, le_rfl, ?_, fun hfinite => ?_⟩
    · rw [hheld]
      show e.drawnFor draw (e.held + tokens) ≤ e.held + tokens + draw
      simp only [Entry.drawnFor, min_satAdd maxTokens_le_u64Max]
      cases e.limit <;> simp only <;> omega
    · obtain ⟨limit, hlimit⟩ := Option.isSome_iff_exists.mp hfinite
      have hlimit' : e.limit = some limit := hlimit
      have hsum := e.held_eq
      have htotal := fits.total
      have hfit := fits.limit limit hlimit'
      have hbound := hc.limit_le limit hlimit'
      rw [hheld, hremaining, hlimit', Option.map_some, Option.getD_some]
      show 8 * (e.drawnFor draw (e.held + tokens) - (e.held + tokens)) ≤ _
      simp only [Entry.drawnFor, min_satAdd maxTokens_le_u64Max, hlimit']
      omega

/-! ### The level of every key -/

/-- Every key is at its level, and the journal is reliable. -/
structure Levelled (w : Watched) : Prop where
  reliable : w.system.ledger.journal.failing = reliable
  level : ∀ key, Level w.system.ledger.drawTokens (w.system.ledger.entryFor key "")
    (w.level key) (w.remained key)

theorem levelled_init (drawTokens : ℕ) : Levelled (init drawTokens) where
  reliable := rfl
  level key := by
    have hentry : (init drawTokens).system.ledger.entryFor key "" = Entry.new "" := by
      simp [init, System.init, BudgetLedger.new, BudgetLedger.entryFor]
    rw [hentry]
    exact level_exact 0 rfl (by simp [Entry.new, Entry.held_eq])

theorem steps_config {l l' : BudgetLedger} (h : Relation.ReflTransGen BudgetLedger.Step l l') :
    l'.journal.failing = l.journal.failing ∧ l'.drawTokens = l.drawTokens := by
  induction h with
  | refl => exact ⟨rfl, rfl⟩
  | tail _ hstep ih =>
    obtain ⟨_, _, _, _, hmoved, -⟩ := hstep
    rw [hmoved.failing, hmoved.drawTokens]
    exact ih

theorem failing_apply (s : System) (op : Op) :
    (s.apply op).2.ledger.journal.failing = s.ledger.journal.failing := by
  by_cases hop : ∃ d, op = .restart d
  · obtain ⟨d, rfl⟩ := hop
    show (System.restarted s.ledger d).journal.failing = _
    rw [System.restarted_journal]
  · exact (steps_config (System.apply_steps s op fun d hd => hop ⟨d, hd⟩)).1

/-- The level of a key does not depend on the tenant a missing entry is made for. -/
theorem Level.tenant {l : BudgetLedger} {key : KeyId} {draw level remained : ℕ}
    (h : Level draw (l.entryFor key "") level remained) (tenant : TenantId) :
    Level draw (l.entryFor key tenant) level remained := by
  simp only [BudgetLedger.entryFor] at h ⊢
  cases hentry : l.entries[key]? with
  | some e =>
    rw [hentry] at h
    exact h
  | none =>
    rw [hentry] at h
    exact h.keep rfl rfl rfl h.level_le

theorem wrote_eq {s s' : System} {op : Op} (hop : ∀ d, op ≠ .restart d) (key : KeyId) :
    wrote s s' op key = decide (s'.ledger.marks key ≠ s.ledger.marks key) := by
  cases op with
  | restart d => exact absurd rfl (hop d)
  | _ => rfl

/-- An operation that leaves the ledger as it was leaves every level. -/
theorem levelled_stay {w : Watched} (h : Levelled w) {op : Op} (hop : ∀ d, op ≠ .restart d)
    (hreserve : ∀ key tenant tokens, op ≠ .reserve key tenant tokens)
    (hstay : (w.step op).system.ledger = w.system.ledger) : Levelled (w.step op) where
  reliable := by rw [hstay, h.reliable]
  level key := by
    have hstay' : (w.system.step op).ledger = w.system.ledger := hstay
    have hlevel : (w.step op).level key = w.level key := by
      simp [step, wrote_eq hop, hstay']
    have hremained : (w.step op).remained key = w.remained key := by
      cases op with
      | reserve key tenant tokens => exact absurd rfl (hreserve key tenant tokens)
      | _ => rfl
    rw [hstay, hlevel, hremained]
    exact h.level key

/-- **The rule for an operation that moves one key.**  Where it writes no mark the key has to stay
at its level; where it writes one the key has to be at the level it holds. -/
theorem levelled_moved {w : Watched} (h : Levelled w) {op : Op} (hop : ∀ d, op ≠ .restart d)
    {key : KeyId} {e' : Entry} {record : Option BudgetRecord}
    (hmoved : Moved w.system.ledger (w.step op).system.ledger key e' record)
    (hkey : ∀ r ∈ record, r.key = key)
    (hkeep : record = none → Level w.system.ledger.drawTokens e' (w.level key) (w.remained key))
    (hnew : record.isSome →
      Level w.system.ledger.drawTokens e' e'.held ((w.step op).remained key)) :
    Levelled (w.step op) where
  reliable := by rw [hmoved.failing, h.reliable]
  level k := by
    have hmarks := marks_moved hmoved hkey k
    have hwrote : wrote w.system (w.step op).system op k = decide (k = key ∧ record.isSome) := by
      rw [wrote_eq hop, hmarks]
      split <;> rename_i hk <;> simp [hk]
    have hremained : wrote w.system (w.step op).system op k = false →
        (w.step op).remained k = w.remained k := by
      intro hw
      have hdrew : drew w.system (w.step op).system op k = false := by
        cases op with
        | reserve key' tenant tokens => simp only [drew, hw]; simp
        | _ => rfl
      exact if_neg (by rw [show w.system.step op = (w.step op).system from rfl, hdrew]; simp)
    have hlevel : (w.step op).level k = if k = key ∧ record.isSome then
        (w.step op).system.held k else w.level k := by
      show (if wrote w.system (w.step op).system op k then _ else _) = _
      rw [hwrote]
      simp only [decide_eq_true_eq]
      rfl
    rw [hmoved.drawTokens, hmoved.entryFor, hlevel]
    by_cases hk : k = key
    · subst hk
      rw [if_pos rfl]
      cases record with
      | none =>
        rw [if_neg (by simp), hremained (by rw [hwrote]; simp)]
        exact hkeep rfl
      | some r =>
        rw [if_pos ⟨rfl, rfl⟩, System.held_eq _ _ "", hmoved.entryFor, if_pos rfl]
        exact hnew rfl
    · rw [if_neg hk, if_neg fun hand => hk hand.1, hremained (by rw [hwrote]; simp [hk])]
      exact h.level k

/-- **What a reliable `flush` does to one key**: nothing, or it writes the exact mark. -/
theorem flush_key (l : BudgetLedger) (hl : l.journal.failing = reliable) (key : KeyId) :
    (l.flush.2.marks key = l.marks key ∧
      l.flush.2.entryFor key "" = l.entryFor key "") ∨
    (l.marks key < l.flush.2.marks key ∧
      l.flush.2.entryFor key ""
        = { l.entryFor key "" with drawn := (l.entryFor key "").held, undurable := false }) := by
  have hboth := BudgetLedger.flush_induction (P := fun l' => l'.journal.failing = reliable ∧
    ((l'.marks key = l.marks key ∧ l'.entryFor key "" = l.entryFor key "") ∨
    (l.marks key < l'.marks key ∧ l'.entryFor key ""
      = { l.entryFor key "" with drawn := (l.entryFor key "").held, undurable := false })))
    ⟨hl, .inl ⟨rfl, rfl⟩⟩ ?_
  · exact hboth.2
  · rintro acc p hp ⟨hfailing, hacc⟩
    have hfails : acc.2.fails = false := by rw [BudgetLedger.fails, hfailing]; rfl
    simp only [BudgetLedger.flushEntry]
    split
    · exact ⟨hfailing, hacc⟩
    rename_i hinexact
    rw [BudgetLedger.commit_ok _ hfails]
    refine ⟨hfailing, ?_⟩
    by_cases hk : p.1 = key
    · subst hk
      have hfor : acc.2.entryFor p.1 "" = p.2 := by simp [BudgetLedger.entryFor, hp]
      rw [hfor] at hacc
      rcases hacc with ⟨hmarks, hentry⟩ | ⟨-, hentry⟩
      · refine .inr ⟨?_, ?_⟩
        · rw [← hmarks]
          simp [BudgetLedger.marks, Entry.record]
        · rw [← hentry]
          simp [BudgetLedger.entryFor, BudgetLedger.put_entries]
      · -- the mark was written before in this flush, and is exact
        exfalso
        apply hinexact
        rw [hentry]
        simp [Entry.held]
    · have hk' : key ≠ p.1 := fun h => hk h.symm
      simpa [BudgetLedger.marks, Entry.record, hk, BudgetLedger.entryFor,
        BudgetLedger.put_entries, hk'] using hacc

/-- **A reservation step keeps the levels.** -/
theorem levelled_reserve {w : Watched} (hs : System.Sound w.system) (h : Levelled w)
    (key : KeyId) (tenant : TenantId) (tokens : ℕ) :
    Levelled (w.step (.reserve key tenant tokens)) := by
  have hlevel := (h.level key).tenant tenant
  obtain ⟨refusal, herr, hmoved⟩ | ⟨e', record, hok, hmoved, hgranted⟩ :=
    w.system.ledger.reserve_move key tenant tokens
  · have hledger : (w.step (.reserve key tenant tokens)).system.ledger
        = (w.system.ledger.reserve key tenant tokens).2 := by
      simp only [step, System.step, System.apply_reserve_error herr]
    exact levelled_moved h (by simp) (hledger ▸ hmoved) (by simp) (fun _ => hlevel) (by simp)
  · have hledger : (w.step (.reserve key tenant tokens)).system.ledger
        = (w.system.ledger.reserve key tenant tokens).2 := by
      simp only [step, System.step, System.apply_reserve_ok hok]
    rw [← hledger] at hmoved
    have hkey := (Move.reserve hgranted).record_key
    have hheld := System.granted_held hgranted (hs.covered key tenant)
    refine levelled_moved h (by simp) hmoved hkey (fun hnone => ?_) fun hsome => ?_
    · -- no draw: the mark stays and more is held under it
      cases hgranted with
      | under fits durable under =>
        refine hlevel.keep rfl rfl rfl ?_
        rw [hheld]
        exact hlevel.level_le.trans (Nat.le_add_right _ _)
      | drawn => simp at hnone
    · have hmarks := marks_moved hmoved hkey key
      have hwrote : wrote w.system (w.step (.reserve key tenant tokens)).system
          (.reserve key tenant tokens) key = true := by
        simp [wrote, hmarks, hsome]
      have hview : (w.step (.reserve key tenant tokens)).system.ledger.view key = e'.view := by
        rw [System.view_eq _ _ tenant, hmoved.entryFor, if_pos rfl]
      have hremained : (w.step (.reserve key tenant tokens)).remained key
          = e'.view.remaining.getD 0 := by
        rw [← hview]
        refine if_pos ?_
        simp only [drew, decide_eq_true_eq, true_and]
        exact hwrote
      rw [hremained]
      exact level_drawn hgranted (hs.covered key tenant) hlevel.durable hsome

/-- **A reservation that ends at or above the level of its key keeps the levels.** -/
theorem levelled_finish {w : Watched} (hs : System.Sound w.system) (h : Levelled w) (id : ℕ)
    (how : Finish) (hkeeps : KeepsLevel w (.finish id how)) :
    Levelled (w.step (.finish id how)) := by
  cases hlive : w.system.live id with
  | none =>
    refine levelled_stay h (by simp) (by simp) ?_
    simp only [step, System.step, System.apply_finish_none hlive]
  | some r =>
    obtain ⟨e, he⟩ := hs.known id r hlive
    obtain ⟨e', record, durable, -, hmoved, hcharged⟩ :=
      w.system.ledger.finish_move r.key r.tokens (how.charged r.tokens) e he
    have hfor : w.system.ledger.entryFor r.key "" = e := by simp [BudgetLedger.entryFor, he]
    have hledger : (w.step (.finish id how)).system.ledger
        = (w.system.ledger.finish r.key r.tokens (how.charged r.tokens)).2 := by
      simp only [step, System.step, System.apply_finish_some hlive, System.finished]
    have hlevel := h.level r.key
    rw [hfor] at hlevel
    have hmove : Move r.key 0 w.system.ledger.fails e e' record := .finish hcharged
    refine levelled_moved h (by simp) (hledger ▸ hmoved) hmove.record_key (fun hnone => ?_)
      fun hsome => ?_
    · cases hcharged with
      | under under =>
        refine hlevel.keep rfl rfl rfl ?_
        -- the level is below what is held after the charge, cut at the largest quantity or not
        have hkeep := hkeeps r hlive
        rw [System.view_eq _ _ "", hfor] at hkeep
        have hheld := hlevel.level_le
        have hcut := e.held_le_maxTokens
        simp only [Entry.held_eq, Entry.charge, min_satAdd maxTokens_le_u64Max]
        simp only [Entry.view] at hkeep
        omega
      | overrun => simp at hnone
      | lost above lost =>
        rw [BudgetLedger.fails, h.reliable] at lost
        cases lost
    · cases hcharged with
      | under => simp at hsome
      | overrun => exact level_exact _ rfl rfl
      | lost => simp at hsome

theorem levelled_flush {w : Watched} (h : Levelled w) : Levelled (w.step .flush) where
  reliable := by
    show (w.system.apply .flush).2.ledger.journal.failing = _
    rw [failing_apply, h.reliable]
  level key := by
    have hdraw : w.system.ledger.flush.2.drawTokens = w.system.ledger.drawTokens :=
      (steps_config w.system.ledger.flush_moves).2
    have hlevel : (w.step .flush).level key
        = if w.system.ledger.flush.2.marks key ≠ w.system.ledger.marks key
          then (w.system.step .flush).held key else w.level key := by
      simp only [step, wrote, decide_eq_true_eq]
      rfl
    show Level w.system.ledger.flush.2.drawTokens (w.system.ledger.flush.2.entryFor key "")
      ((w.step .flush).level key) (w.remained key)
    rw [hdraw, hlevel]
    rcases flush_key w.system.ledger h.reliable key with ⟨hmarks, hentry⟩ | ⟨hmarks, hentry⟩
    · rw [if_neg (by simp [hmarks]), hentry]
      exact h.level key
    · rw [if_pos hmarks.ne', System.held_eq _ _ ""]
      show Level _ _ (w.system.ledger.flush.2.entryFor key "").held _
      rw [hentry]
      exact level_exact _ rfl rfl

/-- A restart takes every mark for the consumption of its key. -/
theorem levelled_restart {w : Watched} (hs : System.Sound w.system) (h : Levelled w) (d : ℕ) :
    Levelled (w.step (.restart d)) where
  reliable := by
    show (w.system.apply (.restart d)).2.ledger.journal.failing = _
    rw [failing_apply, h.reliable]
  level key := by
    have hlevel : (w.step (.restart d)).level key
        = ((System.restarted w.system.ledger d).entryFor key "").held :=
      System.held_eq (w.system.step (.restart d)) key ""
    rw [hlevel]
    show Level _ ((System.restarted w.system.ledger d).entryFor key "") _ _
    have hcovers := hs.covered key ""
    obtain heq | ⟨heq, -⟩ := System.restarted_entryFor w.system.ledger d key ""
    · rw [heq]
      refine level_exact _ hcovers.settled ?_
      rw [Entry.held_eq, hcovers.spent, hcovers.idle, Nat.add_zero]
      exact (Nat.min_eq_left hcovers.mark_le).symm
    · rw [heq]
      exact level_exact _ rfl (by simp [Entry.new, Entry.held_eq])

/-- **One step keeps the levels**, when it keeps to its own. -/
theorem levelled_step {w : Watched} (hs : System.Sound w.system) (op : Op) (h : Levelled w)
    (hkeeps : KeepsLevel w op) : Levelled (w.step op) := by
  cases op with
  | reserve key tenant tokens => exact levelled_reserve hs h key tenant tokens
  | finish id how => exact levelled_finish hs h id how hkeeps
  | set key tenant expectedRevision limit payment =>
    have hlevel := (h.level key).tenant tenant
    obtain ⟨_, -, hsame | hmoved⟩ | ⟨record, -, hmoved, hmove⟩ :=
      w.system.ledger.set_move key tenant expectedRevision limit payment
    · exact levelled_stay h (by simp) (by simp) hsame
    · exact levelled_moved h (by simp) hmoved (by simp) (fun _ => hlevel) (by simp)
    · exact levelled_moved h (by simp) hmoved hmove.record_key (by simp)
        fun _ => level_exact _ rfl rfl
  | credit key tenant c =>
    have hlevel := (h.level key).tenant tenant
    cases hreceipt : (w.system.ledger.entryFor key tenant).receipts[c.idempotencyKey]? with
    | some receipt =>
      exact levelled_moved h (by simp)
        (w.system.ledger.credit_known key tenant c receipt hreceipt).2 (by simp)
        (fun _ => hlevel) (by simp)
    | none =>
      obtain ⟨_, -, hmoved⟩ | ⟨_, _, record, -, -, -, hmoved, hmove⟩ :=
        w.system.ledger.credit_move key tenant c hreceipt
      · exact levelled_moved h (by simp) hmoved (by simp) (fun _ => hlevel) (by simp)
      · exact levelled_moved h (by simp) hmoved hmove.record_key (by simp)
          fun _ => level_exact _ rfl rfl
  | flush => exact levelled_flush h
  | restart d => exact levelled_restart hs h d

/-- A crash at the level costs at most the headroom between the mark and the level. -/
theorem costBounded_of_levelled {w : Watched} (hs : System.Sound w.system) (h : Levelled w)
    (key : KeyId) : CostBounded w key := by
  intro d
  have hlevel := h.level key
  have hcovers := hs.covered key ""
  have hrestored : ((System.restarted w.system.ledger d).view key).consumed
      = (w.system.ledger.entryFor key "").drawn := by
    rw [restarted_view]
    show (durableEntry _ key).consumed = _
    rw [hcovers.spent, hcovers.mark hlevel.durable]
  have hcost : w.cost key d ≤ (w.system.ledger.entryFor key "").drawn - w.level key := by
    have hle := hlevel.level_le
    have hheld := (w.system.ledger.entryFor key "").held_eq
    rw [cost, hrestored, System.view_eq _ _ ""]
    show _ - ((w.system.ledger.entryFor key "").consumed
      + (w.system.ledger.entryFor key "").reserved) ≤ _
    omega
  refine ⟨?_, fun hfinite => ?_⟩
  · have hdrawn := hlevel.drawn_le
    omega
  · rw [System.view_eq _ _ ""] at hfinite
    have height := hlevel.eighth hfinite
    omega

/-- **What a crash costs, while the levels are kept.**  In every run on a reliable journal in which
every reservation ends at or above the level at which the mark of its key was last written, a
crash at any point costs a key at most the headroom of a draw and, for a finite limit, an eighth
of what remained at the last draw. -/
theorem crash_cost_bounded_while_level_kept (drawTokens : ℕ) (ops : List Op)
    (h : StepsMeet step KeepsLevel (init drawTokens) ops) :
    ∀ before later, ops = before ++ later → ∀ key, CostBounded (after drawTokens before) key := by
  rintro before later rfl key
  have hboth : System.Sound (after drawTokens before).system ∧
      Levelled (after drawTokens before) := by
    refine run_invariant_of_steps (P := fun w => System.Sound w.system ∧ Levelled w)
      (C := KeepsLevel) ?_ ⟨System.sound_init _ _, levelled_init _⟩ before h.append_left
    intro w op hw hkeeps
    exact ⟨System.sound_step op hw.1, levelled_step hw.1 op hw.2 hkeeps⟩
  exact costBounded_of_levelled hboth.1 hboth.2 key

/-- A run that draws, settles what it reserved, draws again and settles above. -/
theorem crash_cost_bounded_on_settled_run :
    CostBounded (after 10 [.set "k" "t" none (some 8000) none, .reserve "k" "t" 4000,
      .finish 0 (.settle 4000), .reserve "k" "t" 100, .finish 1 (.settle 150)]) "k" :=
  crash_cost_bounded_while_level_kept 10 _ (by
    refine ⟨trivial, trivial, fun r hr => ?_, trivial, fun r hr => ?_, trivial⟩
    · obtain rfl : r = ⟨"k", 4000, false⟩ := by
        have hlive : some r = some ⟨"k", 4000, false⟩ := hr.symm.trans (by decide)
        exact Option.some.inj hlive
      decide
    · obtain rfl : r = ⟨"k", 100, false⟩ := by
        have hlive : some r = some ⟨"k", 100, false⟩ := hr.symm.trans (by decide)
        exact Option.some.inj hlive
      decide) _ [] (List.append_nil _).symm "k"

end Watched

end HypeLlm.Budget
