import HypeLlm.Lib.Tables
import HypeLlm.Machine.Accounts

/-!
# Places in line for a machine

Work that a machine has no memory for leaves a claim, and a claim is a place in line: it ranks by class
and, within a class, by its first arrival.  A place is kept as long as the claim is renewed before it
lapses, whatever class and size a renewal brings.

The arrivals are counted here beside the ledger (`Line`): which claim of all that were ever recorded
each live one is, however often it was renewed since.  The ledger's own number, which a word holds, says
the same until as many claims have been recorded as a word can count.

* `Line.numbered_step` — an operation keeps the numbers of the places;
* **`Line.claims_keep_their_place`** — over every run, no hold passes a claim that is before it.
-/

namespace HypeLlm.Machine

open HypeLlm.Words HypeLlm.Runs HypeLlm.Tables

/-- The live claim of a key. -/
def liveClaim (s : LedgerState) (key : String) (nowMs : ℕ) : Option Claim :=
  (s.expire nowMs).claims.find? fun c => c.key = key

/-- The books, and the order in which the claims arrived. -/
structure Line where
  books : Books
  /-- How many claims have been recorded. -/
  arrivals : ℕ
  /-- Which of them a key's claim is. -/
  born : String → ℕ

/-- The keys in line, each with the number its claim has. -/
def places (s : LedgerState) : List (String × ℕ) := s.claims.map fun c => (c.key, c.seq)

/-! ### What the operations do to the places -/

theorem expire_claims (s : LedgerState) (nowMs : ℕ) :
    (s.expire nowMs).claims = s.claims.filter fun c => nowMs < c.expiresMs := by
  simp only [LedgerState.expire]
  split <;> rfl

theorem withoutClaim_claims (s : LedgerState) (key : String) :
    (s.withoutClaim key).claims = s.claims.filter fun c => c.key ≠ key := by
  simp only [LedgerState.withoutClaim]
  split <;> rfl

/-- Places are left and none is taken. -/
structure Thinned (s s' : LedgerState) : Prop where
  places : (places s').Sublist (places s)
  nextSeq : s'.nextSeq = s.nextSeq

theorem Thinned.refl (s : LedgerState) : Thinned s s := ⟨.refl _, rfl⟩

theorem Thinned.trans {s s' s'' : LedgerState} (h : Thinned s s') (h' : Thinned s' s'') : Thinned s s'' :=
  ⟨h'.places.trans h.places, h'.nextSeq.trans h.nextSeq⟩

theorem expire_thinned (s : LedgerState) (nowMs : ℕ) : Thinned s (s.expire nowMs) where
  places := by
    rw [places, expire_claims]
    exact List.filter_sublist.map _
  nextSeq := by
    simp only [LedgerState.expire]
    split <;> rfl

theorem withoutClaim_thinned (s : LedgerState) (key : String) : Thinned s (s.withoutClaim key) where
  places := by
    rw [places, withoutClaim_claims]
    exact List.filter_sublist.map _
  nextSeq := by
    simp only [LedgerState.withoutClaim]
    split <;> rfl

theorem consume_thinned (s : LedgerState) (key : Option String) : Thinned s (s.consume key) := by
  cases key with
  | none => exact .refl s
  | some key => exact withoutClaim_thinned s key

namespace MachineLedger

theorem tryHold_thinned (m : MachineLedger) (target : TargetId) (bytes : ℕ) (priority : PriorityClass)
    (key : Option String) (nowMs : ℕ) : Thinned m.state (m.tryHold target bytes priority key nowMs).2.state := by
  have hexpire := expire_thinned m.state nowMs
  simp only [tryHold]
  split
  · exact hexpire
  · have htaken : Thinned (m.state.expire nowMs)
        (if 0 < bytes then take (m.state.expire nowMs) target bytes else m.state.expire nowMs) := by
      split
      · exact ⟨.refl _, rfl⟩
      · exact .refl _
    have hconsumed := hexpire.trans (htaken.trans (consume_thinned _ key))
    exact ⟨hconsumed.places, hconsumed.nextSeq⟩

theorem giveBack_thinned (m : MachineLedger) (target : TargetId) (bytes : ℕ) :
    Thinned m.state (m.giveBack target bytes).state := by
  simp only [giveBack]
  split
  · split
    · split <;> exact ⟨.refl _, rfl⟩
    · exact ⟨.refl _, rfl⟩
  · exact ⟨.refl _, rfl⟩

/-- A claim is renewed in place. -/
structure Renewed (s : LedgerState) (key : String) (priority : PriorityClass) (bytes nowMs : ℕ) (c : Claim)
    (s' : LedgerState) : Prop where
  places : places s' = Machine.places (s.expire nowMs)
  nextSeq : s'.nextSeq = s.nextSeq
  claim : { c with priority := priority, bytes := bytes, expiresMs := satAdd u64Max nowMs claimTtlMs } ∈ s'.claims

/-- **What `claim` does.**  It records nothing, renews the live claim of the key, or takes the last place. -/
theorem claim_cases (m : MachineLedger) (key : String) (priority : PriorityClass) (bytes nowMs : ℕ) :
    ((m.claim key priority bytes nowMs).1 = false ∧ (bytes = 0 ∨ liveClaim m.state key nowMs = none) ∧
      Thinned m.state (m.claim key priority bytes nowMs).2.state) ∨
    (∃ c, liveClaim m.state key nowMs = some c ∧ (m.claim key priority bytes nowMs).1 = true ∧
      Renewed m.state key priority bytes nowMs c (m.claim key priority bytes nowMs).2.state) ∨
    (liveClaim m.state key nowMs = none ∧ (m.claim key priority bytes nowMs).1 = true ∧
      (m.state.expire nowMs).claims.length < maxClaims ∧
      (m.claim key priority bytes nowMs).2.state.nextSeq = satAdd u64Max m.state.nextSeq 1 ∧
      places (m.claim key priority bytes nowMs).2.state =
        places (m.state.expire nowMs) ++ [(key, m.state.nextSeq)]) := by
  have hexpire := expire_thinned m.state nowMs
  simp only [claim]
  split
  · rename_i hzero
    exact .inl ⟨rfl, .inl hzero, .refl _⟩
  split
  · rename_i i hi
    obtain ⟨hlt, hkey, hfirst⟩ := List.findIdx?_eq_some_iff_getElem.mp hi
    refine .inr (.inl ⟨(m.state.expire nowMs).claims[i], ?_, rfl, ⟨?_, hexpire.nextSeq, ?_⟩⟩)
    · rw [liveClaim, List.find?_eq_some_iff_getElem]
      exact ⟨hkey, i, hlt, rfl, fun j hj => by simpa using hfirst j hj⟩
    · refine List.ext_getElem? fun j => ?_
      simp only [places, List.getElem?_map, List.getElem?_modify]
      cases (m.state.expire nowMs).claims[j]? with
      | none => rfl
      | some c =>
        simp only [Option.map_some]
        split <;> rfl
    · refine List.mem_of_getElem? (i := i) ?_
      simp only [List.getElem?_modify, List.getElem?_eq_getElem hlt]
      rfl
  · rename_i hnone
    have hfresh : liveClaim m.state key nowMs = none := by
      rw [liveClaim, List.find?_eq_none]
      rw [List.findIdx?_eq_none_iff] at hnone
      intro c hc
      simpa using hnone c hc
    split
    · exact .inl ⟨rfl, .inr hfresh, hexpire⟩
    · rename_i hroom
      refine .inr (.inr ⟨hfresh, rfl, Nat.lt_of_not_le hroom, ?_, ?_⟩)
      · exact congrArg (satAdd u64Max · 1) hexpire.nextSeq
      · simp only [places, List.map_append, List.map_cons, List.map_nil, hexpire.nextSeq]

end MachineLedger

/-- Memory is granted past no claim that ranks before. -/
theorem MachineLedger.tryHold_passes {m : MachineLedger} {target : TargetId} {bytes : ℕ} {priority : PriorityClass}
    {key : Option String} {nowMs : ℕ} {hold : MachineHold} (hpos : 0 < bytes)
    (hok : (m.tryHold target bytes priority key nowMs).1 = .ok hold) {c : Claim} (hc : c ∈ m.state.claims)
    (hlive : nowMs < c.expiresMs) (hother : some c.key ≠ key) (hfits : c.bytes ≤ m.state.capacityBytes) :
    priority.rank ≤ c.priority.rank ∧
      (c.priority = priority → ((key.bind (liveClaim m.state · nowMs)).map (·.seq)).getD u64Max ≤ c.seq) := by
  have hmem : c ∈ (m.state.expire nowMs).claims := by
    rw [expire_claims, List.mem_filter]
    exact ⟨hc, by simpa using hlive⟩
  have hcapacity := (expire_same m.state nowMs).capacity
  simp only [tryHold] at hok
  split at hok
  · cases hok
  rename_i hgranted
  simp only [hpos, decide_true, Bool.true_and, Bool.or_eq_true, Bool.not_eq_true', not_or, Bool.not_eq_false,
    Bool.not_eq_true] at hgranted
  have hrank := (List.any_eq_false.mp hgranted.2) c hmem
  simp only [ranksBefore, Bool.and_eq_true, Bool.or_eq_true, decide_eq_true_eq, not_and, not_or, not_lt,
    hcapacity] at hrank
  obtain ⟨hclass, hseq⟩ := hrank ⟨hother, hfits⟩
  exact ⟨hclass, fun hsame => hseq (congrArg PriorityClass.rank hsame)⟩

/-! ### The line -/

namespace Line

def init (capacityBytes : ℕ) : Line := ⟨Books.init capacityBytes, 0, fun _ => 0⟩

/-- A claim that is recorded for a key that has none is an arrival. -/
def step (l : Line) (op : Op) : Line :=
  match op with
  | .claim key priority bytes nowMs =>
    if (l.books.ledger.claim key priority bytes nowMs).1 ∧ liveClaim l.books.ledger.state key nowMs = none then
      ⟨l.books.step op, l.arrivals + 1, Function.update l.born key l.arrivals⟩
    else { l with books := l.books.step op }
  | _ => { l with books := l.books.step op }

def after (capacityBytes : ℕ) (ops : List Op) : Line := run step (init capacityBytes) ops

theorem step_books (l : Line) (op : Op) : (l.step op).books = l.books.step op := by
  cases op with
  | claim key priority bytes nowMs =>
    simp only [step]
    split <;> rfl
  | _ => rfl

/-- The arrivals are counted beside the books and change nothing about them. -/
theorem after_books (capacityBytes : ℕ) (ops : List Op) :
    (after capacityBytes ops).books = Books.after capacityBytes ops := by
  induction ops using List.reverseRecOn with
  | nil => rfl
  | append_singleton ops op ih =>
    rw [after, run_snoc, step_books, Books.after, run_snoc]
    exact congrArg (Books.step · op) ih

/-- Each live claim has a key and a place of its own, numbered by its arrival. -/
structure Numbered (l : Line) : Prop where
  keys : ((places l.books.ledger.state).map Prod.fst).Nodup
  few : (places l.books.ledger.state).length ≤ maxClaims
  nextSeq : l.books.ledger.state.nextSeq = min l.arrivals u64Max
  numbered : ∀ p ∈ places l.books.ledger.state, l.born p.1 < l.arrivals ∧ p.2 = min (l.born p.1) u64Max

theorem numbered_init (capacityBytes : ℕ) : (init capacityBytes).Numbered :=
  ⟨List.nodup_nil, Nat.zero_le _, rfl, fun _ h => absurd h List.not_mem_nil⟩

/-- Places that are left leave the others as they were. -/
theorem Numbered.thinned {l : Line} (h : l.Numbered) {b : Books}
    (ht : Thinned l.books.ledger.state b.ledger.state) : ({ l with books := b } : Line).Numbered where
  keys := (ht.places.map Prod.fst).nodup h.keys
  few := ht.places.length_le.trans h.few
  nextSeq := ht.nextSeq.trans h.nextSeq
  numbered p hp := h.numbered p (ht.places.subset hp)

/-- A new claim takes the last place. -/
theorem Numbered.joined {l : Line} (h : l.Numbered) {b : Books} {key : String} {nowMs : ℕ}
    (hnone : liveClaim l.books.ledger.state key nowMs = none)
    (hroom : (l.books.ledger.state.expire nowMs).claims.length < maxClaims)
    (hseq : b.ledger.state.nextSeq = satAdd u64Max l.books.ledger.state.nextSeq 1)
    (hplaces : places b.ledger.state =
      places (l.books.ledger.state.expire nowMs) ++ [(key, l.books.ledger.state.nextSeq)]) :
    (⟨b, l.arrivals + 1, Function.update l.born key l.arrivals⟩ : Line).Numbered := by
  have hthin := expire_thinned l.books.ledger.state nowMs
  have habsent : ∀ p ∈ places (l.books.ledger.state.expire nowMs), p.1 ≠ key := by
    intro p hp
    obtain ⟨c, hc, rfl⟩ := List.mem_map.1 hp
    simpa using List.find?_eq_none.mp hnone c hc
  refine ⟨?_, ?_, ?_, fun p hp => ?_⟩
  · show ((places b.ledger.state).map Prod.fst).Nodup
    rw [hplaces, List.map_append, List.nodup_append]
    refine ⟨(hthin.places.map Prod.fst).nodup h.keys, List.nodup_singleton _, fun k hk k' hk' => ?_⟩
    obtain ⟨p, hp, rfl⟩ := List.mem_map.1 hk
    rw [List.mem_singleton.1 hk']
    exact habsent p hp
  · show (places b.ledger.state).length ≤ maxClaims
    rw [hplaces, List.length_append, places, List.length_map]
    exact hroom
  · show b.ledger.state.nextSeq = min (l.arrivals + 1) u64Max
    rw [hseq, h.nextSeq, satAdd_min]
  · have hp' : p ∈ places (l.books.ledger.state.expire nowMs) ++ [(key, l.books.ledger.state.nextSeq)] := hplaces ▸ hp
    rcases List.mem_append.1 hp' with hold | hnew
    · obtain ⟨hlt, hnumber⟩ := h.numbered p (hthin.places.subset hold)
      have hborn := Function.update_of_ne (habsent p hold) l.arrivals l.born
      show Function.update l.born key l.arrivals p.1 < l.arrivals + 1 ∧
        p.2 = min (Function.update l.born key l.arrivals p.1) u64Max
      rw [hborn]
      exact ⟨Nat.lt_succ_of_lt hlt, hnumber⟩
    · obtain rfl := List.mem_singleton.1 hnew
      have hborn := Function.update_self key l.arrivals l.born
      show Function.update l.born key l.arrivals key < l.arrivals + 1 ∧
        l.books.ledger.state.nextSeq = min (Function.update l.born key l.arrivals key) u64Max
      rw [hborn]
      exact ⟨Nat.lt_succ_self _, h.nextSeq⟩

/-- **An operation keeps the numbers.** -/
theorem numbered_step (l : Line) (op : Op) (h : l.Numbered) : (l.step op).Numbered := by
  cases op with
  | tryHold target bytes priority key nowMs =>
    have hthin := l.books.ledger.tryHold_thinned target bytes priority key nowMs
    refine h.thinned ?_
    simp only [Books.step]
    split
    · rename_i hout
      rw [hout] at hthin
      exact hthin
    · rename_i hout
      rw [hout] at hthin
      exact hthin
  | claim key priority bytes nowMs =>
    simp only [step]
    rcases l.books.ledger.claim_cases key priority bytes nowMs with
      ⟨hfalse, -, hthin⟩ | ⟨c, hc, -, hrenewed⟩ | ⟨hnone, htrue, hroom, hseq, hplaces⟩
    · rw [if_neg (by simp [hfalse])]
      exact h.thinned hthin
    · rw [if_neg (by simp [hc])]
      refine h.thinned ⟨?_, hrenewed.nextSeq⟩
      show (places (l.books.ledger.claim key priority bytes nowMs).2.state).Sublist _
      rw [hrenewed.places]
      exact (expire_thinned _ _).places
    · rw [if_pos ⟨htrue, hnone⟩]
      exact h.joined hnone hroom hseq hplaces
  | dropClaim key => exact h.thinned (withoutClaim_thinned _ key)
  | reconfigure capacityBytes => exact h.thinned ⟨.refl _, rfl⟩
  | view nowMs => exact h.thinned (expire_thinned _ nowMs)
  | release id =>
    refine h.thinned ?_
    simp only [Books.step]
    split
    · simp only [MachineHold.release]
      split
      · exact .refl _
      · exact l.books.ledger.giveBack_thinned _ _
    · exact .refl _

theorem numbered_after (capacityBytes : ℕ) (ops : List Op) : (after capacityBytes ops).Numbered :=
  run_invariant numbered_step (numbered_init capacityBytes) ops

/-! ### Nobody passes -/

/-- Memory is granted past nobody of its class: where another claim of the class fits the machine, the key
has a live claim and arrived first. -/
def KeepsTurns (l : Line) : Prop :=
  ∀ target bytes priority key nowMs hold, 0 < bytes →
    (l.books.ledger.tryHold target bytes priority key nowMs).1 = .ok hold →
    ∀ c ∈ l.books.ledger.state.claims, nowMs < c.expiresMs → some c.key ≠ key →
      c.bytes ≤ l.books.ledger.state.capacityBytes → c.priority = priority →
      ∃ k own, key = some k ∧ liveClaim l.books.ledger.state k nowMs = some own ∧ l.born k ≤ l.born c.key

/-- What the line keeps. -/
structure Orderly (l : Line) : Prop where
  unique : (l.books.ledger.state.claims.map (·.key)).Nodup
  few : l.books.ledger.state.claims.length ≤ maxClaims
  /-- A claim that is renewed before it lapses keeps its place among the others. -/
  renewed : ∀ key priority bytes nowMs c, 0 < bytes → liveClaim l.books.ledger.state key nowMs = some c →
    (l.books.ledger.claim key priority bytes nowMs).1 = true ∧
      (l.step (.claim key priority bytes nowMs)).born = l.born ∧
      MachineLedger.Renewed l.books.ledger.state key priority bytes nowMs c
        (l.books.ledger.claim key priority bytes nowMs).2.state
  higher : ∀ target bytes priority key nowMs hold, 0 < bytes →
    (l.books.ledger.tryHold target bytes priority key nowMs).1 = .ok hold →
    ∀ c ∈ l.books.ledger.state.claims, nowMs < c.expiresMs → some c.key ≠ key →
      c.bytes ≤ l.books.ledger.state.capacityBytes → priority.rank ≤ c.priority.rank
  turns : l.arrivals ≤ u64Max → KeepsTurns l

/-- A live claim's number is the count of its arrival, while a word holds the count. -/
theorem Numbered.seq {l : Line} (h : l.Numbered) (hcount : l.arrivals ≤ u64Max) {c : Claim}
    (hc : c ∈ l.books.ledger.state.claims) : c.seq = l.born c.key ∧ c.seq < u64Max := by
  obtain ⟨hlt, hseq⟩ := h.numbered (c.key, c.seq) (List.mem_map_of_mem hc)
  have hfits : l.born c.key < u64Max := hlt.trans_le hcount
  simp only at hseq
  omega

theorem Numbered.turns {l : Line} (h : l.Numbered) (hcount : l.arrivals ≤ u64Max) : KeepsTurns l := by
  intro target bytes priority key nowMs hold hpos hok c hc hlive hother hfits hclass
  obtain ⟨-, hseq⟩ := MachineLedger.tryHold_passes hpos hok hc hlive hother hfits
  have hle := hseq hclass
  obtain ⟨hcSeq, hcLt⟩ := h.seq hcount hc
  cases hown : key.bind (liveClaim l.books.ledger.state · nowMs) with
  | none =>
    rw [hown, Option.map_none, Option.getD_none] at hle
    omega
  | some own =>
    obtain ⟨k, rfl, hlive'⟩ := Option.bind_eq_some_iff.mp hown
    rw [hown, Option.map_some, Option.getD_some] at hle
    have hkey : own.key = k := key_of_find? hlive'
    have hmem : own ∈ l.books.ledger.state.claims := by
      have hmem := List.mem_of_find?_eq_some hlive'
      rw [expire_claims] at hmem
      exact (List.mem_filter.mp hmem).1
    obtain ⟨hownSeq, -⟩ := h.seq hcount hmem
    refine ⟨k, own, rfl, hlive', ?_⟩
    rw [← hkey, ← hownSeq, ← hcSeq]
    exact hle

theorem Numbered.orderly {l : Line} (h : l.Numbered) : Orderly l where
  unique := by
    have hkeys := h.keys
    rw [places, List.map_map] at hkeys
    exact hkeys
  few := by
    have hfew := h.few
    rw [places, List.length_map] at hfew
    exact hfew
  renewed key priority bytes nowMs c hpos hlive := by
    rcases l.books.ledger.claim_cases key priority bytes nowMs with
      ⟨-, hzero | hnone, -⟩ | ⟨c', hc', htrue, hrenewed⟩ | ⟨hnone, -⟩
    · omega
    · cases hlive.symm.trans hnone
    · obtain rfl := Option.some.inj (hlive.symm.trans hc')
      refine ⟨htrue, ?_, hrenewed⟩
      simp only [step]
      rw [if_neg (by simp [hlive])]
    · cases hlive.symm.trans hnone
  higher target bytes priority key nowMs hold hpos hok c hc hlive hother hfits :=
    (MachineLedger.tryHold_passes hpos hok hc hlive hother hfits).1
  turns := h.turns

/-- **Machine claims keep their place**, over every run of the operations. -/
theorem claims_keep_their_place (capacityBytes : ℕ) (ops : List Op) : Orderly (after capacityBytes ops) :=
  (numbered_after capacityBytes ops).orderly

/-! ### When a word can count no further -/

/-- A claim is made and given up. -/
def comeAndGo : List Op := [.claim "w" .standard 1 0, .dropClaim "w"]

/-- Nobody waits and nothing is held, and as many claims were made as a word can say. -/
structure Spent (l : Line) (arrivals : ℕ) : Prop where
  claims : l.books.ledger.state.claims = []
  arrivals_eq : l.arrivals = arrivals
  nextSeq : l.books.ledger.state.nextSeq = min arrivals u64Max
  held : l.books.ledger.state.heldBytes = 0
  capacity : l.books.ledger.state.capacityBytes = 1

theorem expire_of_live {s : LedgerState} {nowMs : ℕ} (h : ∀ c ∈ s.claims, nowMs < c.expiresMs) :
    s.expire nowMs = s := by
  have hall : s.claims.filter (fun c => nowMs < c.expiresMs) = s.claims :=
    List.filter_eq_self.mpr fun c hc => by simpa using h c hc
  simp only [LedgerState.expire, hall]
  rw [if_neg (by simp)]

/-- The ledger after a claim of one byte, made at time zero. -/
def recorded (m : MachineLedger) (key : String) : MachineLedger :=
  { m with state := { m.state with
    nextSeq := satAdd u64Max m.state.nextSeq 1
    claims := m.state.claims ++ [⟨key, .standard, m.state.nextSeq, 1, 0, claimTtlMs⟩] } }

theorem recorded_held (m : MachineLedger) (key : String) : (recorded m key).state.heldBytes = m.state.heldBytes := rfl

theorem recorded_capacity (m : MachineLedger) (key : String) :
    (recorded m key).state.capacityBytes = m.state.capacityBytes := rfl

/-- A claim made at time zero while everybody in line is live and the key is not in it. -/
theorem step_claim_at_zero {l : Line} {key : String} (hlive : ∀ c ∈ l.books.ledger.state.claims, 0 < c.expiresMs)
    (hnew : ∀ c ∈ l.books.ledger.state.claims, c.key ≠ key)
    (hroom : l.books.ledger.state.claims.length < maxClaims) :
    l.step (.claim key .standard 1 0) = ⟨{ l.books with ledger := recorded l.books.ledger key }, l.arrivals + 1,
      Function.update l.born key l.arrivals⟩ := by
  have hnone : (l.books.ledger.state.claims.findIdx? fun c => c.key = key) = none := by
    rw [List.findIdx?_eq_none_iff]
    intro c hc
    simpa using hnew c hc
  have hexpires : satAdd u64Max 0 claimTtlMs = claimTtlMs := by decide
  have hclaim : l.books.ledger.claim key .standard 1 0 = (true, recorded l.books.ledger key) := by
    simp only [MachineLedger.claim, expire_of_live hlive, hnone, hexpires, if_neg (Nat.not_le_of_lt hroom),
      Nat.one_ne_zero, if_false]
    rfl
  have hfresh : liveClaim l.books.ledger.state key 0 = none := by
    rw [liveClaim, expire_of_live hlive, List.find?_eq_none]
    intro c hc
    simpa using hnew c hc
  simp only [step, Books.step, hclaim, hfresh, and_self, if_true]

theorem spent_step {l : Line} {n : ℕ} (h : Spent l n) : Spent (run step l comeAndGo) (n + 1) := by
  have hclaim : l.step (.claim "w" .standard 1 0) = _ :=
    step_claim_at_zero (by simp [h.claims]) (by simp [h.claims]) (by rw [h.claims]; decide)
  rw [comeAndGo, run_cons, run_cons, run_nil, hclaim]
  have hseq := h.nextSeq
  refine ⟨?_, congrArg (· + 1) h.arrivals_eq, ?_, ?_, ?_⟩
  · show ((recorded l.books.ledger "w").state.withoutClaim "w").claims = []
    rw [withoutClaim_claims, recorded, h.claims]
    rfl
  · show ((recorded l.books.ledger "w").state.withoutClaim "w").nextSeq = min (n + 1) u64Max
    rw [(withoutClaim_thinned _ _).nextSeq]
    show satAdd u64Max l.books.ledger.state.nextSeq 1 = min (n + 1) u64Max
    rw [hseq, satAdd_min]
  · exact (withoutClaim_same _ _).held.trans h.held
  · exact (withoutClaim_same _ _).capacity.trans h.capacity

theorem spent_after (n : ℕ) : Spent (after 1 (List.replicate n comeAndGo).flatten) n := by
  induction n with
  | zero => exact ⟨rfl, rfl, rfl, rfl, rfl⟩
  | succ n ih =>
    rw [List.replicate_succ', List.flatten_concat, after, run_append]
    exact spent_step ih

/-- The one byte there is goes to a key whose number nobody in its class is below. -/
theorem tryHold_tied {m : MachineLedger} {a b : Claim} (hclaims : m.state.claims = [a, b]) (hkey : a.key ≠ b.key)
    (hlive : ∀ c ∈ m.state.claims, 0 < c.expiresMs) (hheld : m.state.heldBytes = 0)
    (hcapacity : m.state.capacityBytes = 1) (hclass : a.priority = b.priority) (hseq : b.seq ≤ a.seq) :
    (m.tryHold "t" 1 b.priority (some b.key) 0).1 = .ok ⟨"t", 1, false⟩ := by
  have hfound : (m.state.claims.find? fun c => c.key = b.key) = some b := by
    rw [hclaims, List.find?_cons_of_neg (by simpa using hkey), List.find?_cons_of_pos (by simp)]
  have hfits : checkedAdd u64Max m.state.heldBytes 1 = some 1 := by
    rw [hheld]
    rfl
  have hfree : m.state.outranked b.priority b.seq (some b.key) = false := by
    rw [LedgerState.outranked, hclaims, List.any_eq_false]
    intro c hc
    rcases List.mem_pair.mp hc with hc | hc
    · have hnot : ranksBefore a.priority a.seq b.priority b.seq = false := by
        simp [ranksBefore, hclass, hseq]
      rw [hc]
      simp [hnot]
    · rw [hc]
      simp
  simp only [MachineLedger.tryHold, expire_of_live hlive, Option.bind_some, hfound, Option.map_some, Option.getD_some,
    hfits, hfree, Option.any_some, hcapacity, le_refl, decide_true, Bool.not_true, Bool.or_false, Bool.and_false,
    Bool.false_eq_true, if_false]

/-- The later of two claims with one number is served first. -/
theorem not_keepsTurns {l : Line} {a b : Claim} (hclaims : l.books.ledger.state.claims = [a, b])
    (hkey : a.key ≠ b.key) (hlive : ∀ c ∈ l.books.ledger.state.claims, 0 < c.expiresMs)
    (hheld : l.books.ledger.state.heldBytes = 0) (hcapacity : l.books.ledger.state.capacityBytes = 1)
    (hbytes : a.bytes ≤ 1) (hclass : a.priority = b.priority) (hseq : b.seq ≤ a.seq)
    (hborn : l.born a.key < l.born b.key) : ¬KeepsTurns l := by
  intro h
  have hmem : a ∈ l.books.ledger.state.claims := by
    rw [hclaims]
    exact List.mem_cons_self
  obtain ⟨k, own, hk, -, hle⟩ := h "t" 1 b.priority (some b.key) 0 _ Nat.one_pos
    (tryHold_tied hclaims hkey hlive hheld hcapacity hclass hseq) a hmem (hlive a hmem)
    (fun hsame => hkey (Option.some.inj hsame)) (hcapacity ▸ hbytes) hclass
  obtain rfl := Option.some.inj hk
  exact absurd hborn (Nat.not_lt_of_le hle)

/-- Two claims arrive one after the other. -/
def twoClaims : List Op := [.claim "a" .standard 1 0, .claim "b" .standard 1 0]

theorem spent_twoClaims {l : Line} {n : ℕ} (h : Spent l n) (hn : u64Max ≤ n) : ¬KeepsTurns (run step l twoClaims) := by
  obtain ⟨hclaims, -, hseq, hheld, hcapacity⟩ := h
  rw [Nat.min_eq_right hn] at hseq
  rw [twoClaims]
  have ha : l.step (.claim "a" .standard 1 0) = _ :=
    step_claim_at_zero (by simp [hclaims]) (by simp [hclaims]) (by rw [hclaims]; decide)
  have hwaiting : (recorded l.books.ledger "a").state.claims = [⟨"a", .standard, u64Max, 1, 0, claimTtlMs⟩] := by
    show l.books.ledger.state.claims ++
      [(⟨"a", .standard, l.books.ledger.state.nextSeq, 1, 0, claimTtlMs⟩ : Claim)] = _
    rw [hclaims, hseq, List.nil_append]
  have hb : step ⟨{ l.books with ledger := recorded l.books.ledger "a" }, l.arrivals + 1,
      Function.update l.born "a" l.arrivals⟩ (.claim "b" .standard 1 0) = _ :=
    step_claim_at_zero (by simp [hwaiting, claimTtlMs]) (by simp [hwaiting]) (by rw [hwaiting]; decide)
  rw [run_cons, ha, run_cons, hb, run_nil]
  have hline : (recorded (recorded l.books.ledger "a") "b").state.claims =
      [⟨"a", .standard, u64Max, 1, 0, claimTtlMs⟩, ⟨"b", .standard, u64Max, 1, 0, claimTtlMs⟩] := by
    have htop : satAdd u64Max u64Max 1 = u64Max := Nat.min_eq_right (Nat.le_succ _)
    show (recorded l.books.ledger "a").state.claims ++
      [(⟨"b", .standard, satAdd u64Max l.books.ledger.state.nextSeq 1, 1, 0, claimTtlMs⟩ : Claim)] = _
    rw [hwaiting, hseq, htop, List.singleton_append]
  have hheld' : (recorded (recorded l.books.ledger "a") "b").state.heldBytes = 0 := by
    rw [recorded_held, recorded_held, hheld]
  have hcapacity' : (recorded (recorded l.books.ledger "a") "b").state.capacityBytes = 1 := by
    rw [recorded_capacity, recorded_capacity, hcapacity]
  refine not_keepsTurns hline (by decide) (by simp [hline, claimTtlMs]) hheld' hcapacity' le_rfl rfl le_rfl ?_
  have hold := (Function.update_of_ne (show "a" ≠ "b" by decide) (l.arrivals + 1)
    (Function.update l.born "a" l.arrivals)).trans (Function.update_self "a" l.arrivals l.born)
  have hnew := Function.update_self "b" (l.arrivals + 1) (Function.update l.born "a" l.arrivals)
  exact hold.trans_lt ((Nat.lt_succ_self _).trans_eq hnew.symm)

/-- **The last number is given out again.**  After as many claims as a word can count, one that arrives
later is served before one that is waiting. -/
theorem turns_are_lost : ¬∀ capacityBytes ops, KeepsTurns (after capacityBytes ops) := by
  intro h
  have hkeeps := h 1 ((List.replicate u64Max comeAndGo).flatten ++ twoClaims)
  rw [after, run_append] at hkeeps
  exact spent_twoClaims (spent_after u64Max) le_rfl hkeeps

end Line

end HypeLlm.Machine
