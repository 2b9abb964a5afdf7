import HypeLlm.Machine.Accounts
import HypeLlm.Admission.Controller

/-!
# A failed admission leaves nothing behind

Whichever scope of the chain refuses, or the machine after all of them, every scope is as it was:
the same requests in flight, the same line, the same difference of its two counters, and buckets
that have at most been refilled to the time of the call.  Every machine holds what it held.

The proof follows the loop.  One scope either refuses, having only refilled, or acquires; undoing an
acquisition restores the scope even after later acquisitions have been made and undone
(`Acquired.rollback`), so the scopes of a chain need not even be distinct.
-/

namespace HypeLlm.Admission

open HypeLlm.Words HypeLlm.Machine

/-! ### Buckets in slots -/

/-- The bucket in a slot as it was, or refilled to `nowMs`. -/
def Refilled (nowMs : ℕ) (slot slot' : Option TokenBucket) : Prop :=
  slot' = slot ∨ slot' = slot.map (·.refill nowMs)

/-- `amount` was taken from the bucket in a slot, if there is one. -/
structure Took (amount nowMs : ℕ) (slot slot' : Option TokenBucket) : Prop where
  granted : ∀ bucket, slot = some bucket → (bucket.tryTake amount nowMs).1 = true
  taken : slot' = slot.map fun bucket => (bucket.tryTake amount nowMs).2

theorem map_refill_refill (nowMs : ℕ) (slot : Option TokenBucket) :
    (slot.map (·.refill nowMs)).map (·.refill nowMs) = slot.map (·.refill nowMs) := by
  cases slot with
  | none => rfl
  | some bucket => exact congrArg some (bucket.refill_refill nowMs)

/-- Read at the same time, a bucket and the refilled bucket are the same. -/
theorem Refilled.refill_eq {nowMs : ℕ} {slot slot' : Option TokenBucket}
    (h : Refilled nowMs slot slot') : slot'.map (·.refill nowMs) = slot.map (·.refill nowMs) := by
  rcases h with rfl | rfl
  · rfl
  · exact map_refill_refill nowMs slot

/-- A take succeeds, or has only refilled. -/
theorem withBucket_tryTake (slot : Option TokenBucket) (amount nowMs : ℕ) :
    ((withBucket slot (·.tryTake amount nowMs)).1 = true ∧
      Took amount nowMs slot (withBucket slot (·.tryTake amount nowMs)).2) ∨
    ((withBucket slot (·.tryTake amount nowMs)).1 = false ∧
      Refilled nowMs slot (withBucket slot (·.tryTake amount nowMs)).2) := by
  cases slot with
  | none => exact .inl ⟨rfl, fun bucket h => (nomatch h), rfl⟩
  | some bucket =>
    cases htaken : (bucket.tryTake amount nowMs).1 with
    | true =>
      refine .inl ⟨htaken, fun bucket' h => ?_, rfl⟩
      cases h
      exact htaken
    | false => exact .inr ⟨htaken, .inr (congrArg some (TokenBucket.tryTake_refused htaken))⟩

theorem Took.refund {amount nowMs : ℕ} {slot slot' : Option TokenBucket}
    (h : Took amount nowMs slot slot') :
    slot'.map (·.refund amount) = slot.map (·.refill nowMs) := by
  rw [h.taken]
  cases slot with
  | none => rfl
  | some bucket => exact congrArg some (TokenBucket.refund_tryTake (h.granted bucket rfl))

/-- A bucket that was taken from at `nowMs` has been refilled to `nowMs`. -/
theorem Took.eq_of_refilled {amount nowMs : ℕ} {slot slot' slot'' : Option TokenBucket}
    (h : Took amount nowMs slot slot') (h' : Refilled nowMs slot' slot'') : slot'' = slot' := by
  rcases h' with rfl | rfl
  · rfl
  · rw [h.taken]
    cases slot with
    | none => rfl
    | some bucket => exact congrArg some (bucket.refill_tryTake amount nowMs)

/-! ### One scope -/

namespace Scope

/-- As before, with the buckets refilled to `nowMs` at most. -/
structure Restored (nowMs : ℕ) (s s' : Scope) : Prop where
  name : s'.name = s.name
  limits : s'.limits = s.limits
  inFlight : s'.inFlight = s.inFlight
  queue : s'.queue = s.queue
  balance : s'.acquired - s'.released = s.acquired - s.released
  requestBucket : Refilled nowMs s.requestBucket s'.requestBucket
  tokenBucket : Refilled nowMs s.tokenBucket s'.tokenBucket

theorem Restored.refl (nowMs : ℕ) (s : Scope) : Restored nowMs s s :=
  ⟨rfl, rfl, rfl, rfl, rfl, .inl rfl, .inl rfl⟩

/-- The length of the line is kept with the line. -/
theorem Restored.queued {nowMs : ℕ} {s s' : Scope} (h : Restored nowMs s s') :
    s'.queued = s.queued := by
  rw [s'.queued_eq, s.queued_eq, h.queue]

/-- What an acquisition leaves of the scope `s` it found. -/
structure Acquired (tokens nowMs : ℕ) (ticket : Option ℕ) (s s' : Scope) : Prop where
  turn : s.mustYield ticket = false
  room : s.hasCapacity = true
  name : s'.name = s.name
  limits : s'.limits = s.limits
  inFlight : s'.inFlight = s.inFlight + 1
  queue : s'.queue = s.queue
  acquired : s'.acquired = s.acquired + 1
  released : s'.released = s.released
  requestBucket : Took 1 nowMs s.requestBucket s'.requestBucket
  tokenBucket : Took tokens nowMs s.tokenBucket s'.tokenBucket

theorem rollBudget_restored (s : Scope) (nowMs : ℕ) : Restored nowMs s (s.rollBudget nowMs) := by
  simp only [rollBudget, spendInPeriod]
  split
  · split <;> exact ⟨rfl, rfl, rfl, rfl, rfl, .inl rfl, .inl rfl⟩
  · exact .refl nowMs s

theorem rollBudget_frame (s : Scope) (nowMs : ℕ) :
    (s.rollBudget nowMs).acquired = s.acquired ∧ (s.rollBudget nowMs).released = s.released ∧
      (s.rollBudget nowMs).requestBucket = s.requestBucket ∧
      (s.rollBudget nowMs).tokenBucket = s.tokenBucket := by
  simp only [rollBudget, spendInPeriod]
  split
  · split <;> exact ⟨rfl, rfl, rfl, rfl⟩
  · exact ⟨rfl, rfl, rfl, rfl⟩

/-- **What `tryAcquireAs` does.**  It refuses and restores the scope, or it acquires. -/
theorem tryAcquireAs_cases (s : Scope) (tokens nowMs : ℕ) (ticket : Option ℕ) :
    (∃ rejection, (s.tryAcquireAs tokens nowMs ticket).1 = .error rejection ∧
      Restored nowMs s (s.tryAcquireAs tokens nowMs ticket).2) ∨
    ((s.tryAcquireAs tokens nowMs ticket).1 = .ok () ∧
      Acquired tokens nowMs ticket s (s.tryAcquireAs tokens nowMs ticket).2) := by
  have hroll := s.rollBudget_restored nowMs
  obtain ⟨hacquired, hreleased, hrequest, htoken⟩ := s.rollBudget_frame nowMs
  simp only [tryAcquireAs]
  split
  · exact .inl ⟨_, rfl, hroll⟩
  split
  · exact .inl ⟨_, rfl, hroll⟩
  rename_i hturn
  split
  · exact .inl ⟨_, rfl, hroll⟩
  rename_i hroom
  have hback : (s.rollBudget nowMs).inFlight + 1 - 1 = s.inFlight := by
    rw [UInt32.add_sub_cancel, hroll.inFlight]
  -- The slot is taken; each bucket in turn may refuse.
  rw [hrequest, htoken]
  rcases withBucket_tryTake s.requestBucket 1 nowMs with ⟨hgranted, htook⟩ | ⟨hrefused, hrefill⟩
  · rcases withBucket_tryTake s.tokenBucket tokens nowMs with ⟨hgranted', htook'⟩ | ⟨hrefused', hrefill'⟩
    · simp only [hgranted, hgranted', Bool.not_true, Bool.false_eq_true, if_false]
      refine .inr ⟨trivial, by simpa using hturn, by simpa using hroom, hroll.name, hroll.limits, ?_,
        hroll.queue, ?_, hreleased, htook, htook'⟩
      · exact congrArg (· + 1) hroll.inFlight
      · exact congrArg (· + 1) hacquired
    · simp only [hgranted, hrefused', Bool.not_true, Bool.not_false, Bool.false_eq_true, if_false,
        if_true]
      exact .inl ⟨_, rfl, hroll.name, hroll.limits, hback, hroll.queue, hroll.balance,
        .inr htook.refund, hrefill'⟩
  · simp only [hrefused, Bool.not_false, if_true]
    exact .inl ⟨_, rfl, hroll.name, hroll.limits, hback, hroll.queue, hroll.balance, hrefill,
      .inl rfl⟩

/-- **Undoing an acquisition restores the scope**, also when later acquisitions of the same scope
have been made and undone in between. -/
theorem Acquired.rollback {tokens nowMs : ℕ} {ticket : Option ℕ} {s s' s'' : Scope}
    (h : Acquired tokens nowMs ticket s s') (hlater : Restored nowMs s' s'') :
    Restored nowMs s (s''.rollback tokens) where
  name := hlater.name.trans h.name
  limits := hlater.limits.trans h.limits
  inFlight := by
    show s''.inFlight - 1 = s.inFlight
    rw [hlater.inFlight, h.inFlight, UInt32.add_sub_cancel]
  queue := hlater.queue.trans h.queue
  balance := by
    have hbalance := hlater.balance
    rw [h.acquired, h.released] at hbalance
    show s''.acquired - (s''.released + 1) = s.acquired - s.released
    grind
  requestBucket := by
    refine .inr ?_
    rw [← h.requestBucket.refund, ← h.requestBucket.eq_of_refilled hlater.requestBucket]
    rfl
  tokenBucket := by
    refine .inr ?_
    rw [← h.tokenBucket.refund, ← h.tokenBucket.eq_of_refilled hlater.tokenBucket]
    rfl

end Scope

/-! ### The chain -/

/-- Every scope is restored. -/
def Restoration (nowMs : ℕ) (scopes scopes' : Heap Scope) : Prop :=
  scopes'.next = scopes.next ∧ ∀ i, Scope.Restored nowMs (scopes.cell i) (scopes'.cell i)

/-- The scopes of a chain were acquired one after the other. -/
inductive Acquisitions (tokens nowMs : ℕ) (ticketAt : String → Option ℕ) :
    List ScopeRef → Heap Scope → Heap Scope → Prop
  | nil (scopes : Heap Scope) : Acquisitions tokens nowMs ticketAt [] scopes scopes
  | cons {i : ScopeRef} {rest : List ScopeRef} {scopes scopes' : Heap Scope} {scope' : Scope}
      (head : Scope.Acquired tokens nowMs (ticketAt (scopes.cell i).name) (scopes.cell i) scope')
      (tail : Acquisitions tokens nowMs ticketAt rest (scopes.set i scope') scopes') :
      Acquisitions tokens nowMs ticketAt (i :: rest) scopes scopes'

variable {tokens nowMs : ℕ} {ticketAt : String → Option ℕ}

theorem restoration_set {scopes : Heap Scope} {i : ScopeRef} {scope' : Scope}
    (h : Scope.Restored nowMs (scopes.cell i) scope') :
    Restoration nowMs scopes (scopes.set i scope') := by
  refine ⟨rfl, fun j => ?_⟩
  rw [Heap.set_cell]
  split
  · rename_i hj
    rw [hj]
    exact h
  · exact .refl nowMs _

/-- One acquisition undone, after everything later was. -/
theorem restoration_undo {ticket : Option ℕ} {scopes later : Heap Scope} {i : ScopeRef}
    {scope' : Scope} (h : Scope.Acquired tokens nowMs ticket (scopes.cell i) scope')
    (hlater : Restoration nowMs (scopes.set i scope') later) :
    Restoration nowMs scopes (later.modify i (·.rollback tokens)) := by
  refine ⟨hlater.1, fun j => ?_⟩
  have hj := hlater.2 j
  rw [Heap.set_cell] at hj
  rw [Heap.modify_cell]
  split
  · rename_i heq
    subst heq
    rw [if_pos rfl] at hj
    exact h.rollback hj
  · rename_i hne
    rwa [if_neg hne] at hj

/-- **The loop unwinds.**  A refusal undoes the acquisitions of the loop, and what is left to undo
is what was held when it began; without one the whole chain is acquired. -/
theorem acquireAll_cases (chain held : List ScopeRef) (scopes : Heap Scope) :
    (∃ refusal restored, Restoration nowMs scopes restored ∧
      acquireAll tokens nowMs ticketAt chain held scopes
        = (.error refusal, rollbackAll tokens held restored)) ∨
    (∃ scopes', Acquisitions tokens nowMs ticketAt chain scopes scopes' ∧
      acquireAll tokens nowMs ticketAt chain held scopes
        = (.ok (held.reverse ++ chain), scopes')) := by
  induction chain generalizing held scopes with
  | nil => exact .inr ⟨scopes, .nil scopes, by rw [acquireAll, List.append_nil]⟩
  | cons i rest ih =>
    have hcases := (scopes.cell i).tryAcquireAs_cases tokens nowMs (ticketAt (scopes.cell i).name)
    simp only [acquireAll]
    generalize (scopes.cell i).tryAcquireAs tokens nowMs (ticketAt (scopes.cell i).name) = outcome
      at hcases ⊢
    obtain ⟨result, scope'⟩ := outcome
    simp only at hcases
    rcases hcases with ⟨rejection, rfl, hrestored⟩ | ⟨rfl, hacquired⟩
    · exact .inl ⟨_, scopes.set i scope', restoration_set hrestored, rfl⟩
    · rcases ih (i :: held) (scopes.set i scope') with
        ⟨refusal, restored, hrestored, hloop⟩ | ⟨scopes', hrest, hloop⟩
      · exact .inl ⟨refusal, restored.modify i (·.rollback tokens),
          restoration_undo hacquired hrestored, hloop⟩
      · refine .inr ⟨scopes', .cons hacquired hrest, hloop.trans ?_⟩
        rw [List.reverse_cons, List.append_assoc, List.singleton_append]

/-- Undoing a whole chain restores every scope. -/
theorem Acquisitions.undo {chain : List ScopeRef} {scopes scopes' : Heap Scope}
    (h : Acquisitions tokens nowMs ticketAt chain scopes scopes') :
    Restoration nowMs scopes (rollbackAll tokens chain.reverse scopes') := by
  induction h with
  | nil scopes => exact ⟨rfl, fun i => .refl nowMs _⟩
  | cons head tail ih =>
    have hundo := restoration_undo head ih
    rw [List.reverse_cons, rollbackAll, List.foldl_append]
    exact hundo

namespace Controller

/-- A ledger entry keeps its books. -/
def SameLedgers (ledgers ledgers' : Heap MachineLedger) : Prop :=
  ∀ l, SameBooks (ledgers.cell l).state (ledgers'.cell l).state

theorem SameLedgers.refl (ledgers : Heap MachineLedger) : SameLedgers ledgers ledgers :=
  fun _ => ⟨rfl, rfl, rfl, rfl, rfl⟩

/-- **What `acquireMemory` does** with the chain acquired: the reservation, or everything undone. -/
theorem acquireMemory_cases {c : Controller} {chain : List ScopeRef} {scopes : Heap Scope}
    (h : Acquisitions tokens nowMs ticketAt chain scopes c.scopes) (route : Route)
    (memory : MemoryAsk) :
    (∃ machine ledgers, c.acquireMemory route tokens chain memory nowMs
      = (.ok ⟨chain, tokens, false, route.target, machine⟩, { c with ledgers := ledgers })) ∨
    (∃ refusal restored ledgers, Restoration nowMs scopes restored ∧ SameLedgers c.ledgers ledgers ∧
      c.acquireMemory route tokens chain memory nowMs
        = (.error refusal, { c with scopes := restored, ledgers := ledgers })) := by
  cases memory with
  | held ledger hold => exact .inl ⟨_, c.ledgers, rfl⟩
  | take priority key =>
    simp only [acquireMemory]
    split
    · exact .inl ⟨none, c.ledgers, rfl⟩
    rename_i ledger bytes priority' _
    have hcases := (c.ledgers.cell ledger).tryHold_cases route.target bytes priority' key nowMs
    generalize (c.ledgers.cell ledger).tryHold route.target bytes priority' key nowMs = outcome
      at hcases ⊢
    obtain ⟨result, m⟩ := outcome
    simp only at hcases
    rcases hcases with ⟨rfl, hsame⟩ | ⟨rfl, -⟩
    · refine .inr ⟨_, _, c.ledgers.set ledger m, h.undo, fun l => ?_, rfl⟩
      rw [Heap.set_cell]
      split
      · rename_i hl
        rw [hl]
        exact hsame
      · exact SameLedgers.refl c.ledgers l
    · exact .inl ⟨_, _, rfl⟩

/-- **What `acquireChain` does** after the lookups that leave the controller `c₁`: it admits at every
scope of the chain, or restores every scope. -/
theorem acquireChain_cases (c : Controller) (route : Route) (tokens : ℕ)
    (holder : Option (ScopeRef × ℕ)) (memory : MemoryAsk) (clock : Readings) :
    (∃ scopes machine ledgers, Acquisitions tokens clock.now
        ((c.chain route clock).2.ticketAt holder) (c.chain route clock).1
        (c.chain route clock).2.scopes scopes ∧
      c.acquireChain route tokens holder memory clock
        = (.ok ⟨(c.chain route clock).1, tokens, false, route.target, machine⟩,
          { (c.chain route clock).2 with scopes := scopes, ledgers := ledgers })) ∨
    (∃ refusal scopes ledgers, Restoration clock.now (c.chain route clock).2.scopes scopes ∧
      (∀ priority key, memory = .take priority key →
        SameLedgers (c.chain route clock).2.ledgers ledgers) ∧
      c.acquireChain route tokens holder memory clock
        = (.error refusal, { (c.chain route clock).2 with scopes := scopes, ledgers := ledgers })) := by
  simp only [acquireChain]
  rcases @acquireAll_cases tokens clock.now ((c.chain route clock).2.ticketAt holder)
    (c.chain route clock).1 [] (c.chain route clock).2.scopes with
    ⟨refusal, restored, hrestored, hloop⟩ | ⟨scopes, hchain, hloop⟩
  · simp only [hloop]
    refine .inr ⟨refusal, restored,
      ({ (c.chain route clock).2 with scopes := restored }.dropAsk memory).ledgers, hrestored, ?_, ?_⟩
    · rintro priority key rfl
      exact .refl _
    · cases memory <;> rfl
  · simp only [hloop, List.reverse_nil, List.nil_append]
    rcases acquireMemory_cases (c := { (c.chain route clock).2 with scopes := scopes }) hchain route
      memory with ⟨machine, ledgers, hmemory⟩ | ⟨refusal, restored, ledgers, hrestored, hsame, hmemory⟩
    · exact .inl ⟨scopes, machine, ledgers, hchain, hmemory⟩
    · exact .inr ⟨refusal, restored, ledgers, hrestored, fun _ _ _ => hsame, hmemory⟩

/-! ### The lookups -/

/-- A scope as it is created. -/
def Created (s : Scope) : Prop := ∃ name limits ms, s = Scope.new name limits ms

/-- The lookups of a chain create scopes and touch nothing else. -/
abbrev Looked : Heap Scope → Heap Scope → Prop := Heap.Grows Eq Created

theorem Looked.trans {h h' h'' : Heap Scope} (g : Looked h h') (g' : Looked h' h'') :
    Looked h h'' := by
  refine Heap.Grows.trans (fun _ _ _ => Eq.trans) ?_ g g'
  rintro s _ hs rfl
  exact hs

theorem tenantScope_looked (c : Controller) (tenant : TenantId) (ms : ℕ) :
    Looked c.scopes (c.tenantScope tenant ms).2.scopes := by
  simp only [tenantScope]
  split
  · exact .refl (fun _ => rfl) _
  · exact .alloc (fun _ => rfl) _ _ ⟨_, _, _, rfl⟩

theorem principalScope_looked (c : Controller) (principal : PrincipalId) (ms : ℕ) :
    Looked c.scopes (c.principalScope principal ms).2.scopes := by
  simp only [principalScope]
  split
  · exact .refl (fun _ => rfl) _
  · exact .alloc (fun _ => rfl) _ _ ⟨_, _, _, rfl⟩

theorem chain_looked (c : Controller) (route : Route) (clock : Readings) :
    Looked c.scopes (c.chain route clock).2.scopes :=
  (c.tenantScope_looked _ _).trans (principalScope_looked _ _ _)

theorem chain_ledgers (c : Controller) (route : Route) (clock : Readings) :
    (c.chain route clock).2.ledgers = c.ledgers := by
  have htenant : (c.tenantScope route.tenant clock.tenant).2.ledgers = c.ledgers := by
    simp only [tenantScope]
    split <;> rfl
  refine Eq.trans ?_ htenant
  simp only [chain, principalScope]
  split <;> rfl

/-- **A failed admission is a no-op.**  Whichever layer or machine refused: every scope that existed
has the same requests in flight, line and balance, and each of its buckets is as it was or refilled
to the clock reading; a scope the call created is as created, up to the same refill; every machine
holds the same bytes for the same holders. -/
theorem failed_admission_restores_everything (c c' : Controller) (route : Route) (tokens : ℕ)
    (holder : Option (ScopeRef × ℕ)) (priority : PriorityClass) (key : Option String)
    (clock : Readings) (refusal : Rejection × String)
    (h : c.acquireChain route tokens holder (.take priority key) clock = (.error refusal, c')) :
    (∀ i, i < c.scopes.next →
      Scope.Restored clock.now (c.scopes.cell i) (c'.scopes.cell i) ∧
      (c'.scopes.cell i).queued = (c.scopes.cell i).queued ∧
      (c'.scopes.cell i).requestBucket.map (·.refill clock.now)
        = (c.scopes.cell i).requestBucket.map (·.refill clock.now) ∧
      (c'.scopes.cell i).tokenBucket.map (·.refill clock.now)
        = (c.scopes.cell i).tokenBucket.map (·.refill clock.now)) ∧
    (∀ i, c.scopes.next ≤ i → i < c'.scopes.next → ∃ name limits ms,
      Scope.Restored clock.now (Scope.new name limits ms) (c'.scopes.cell i)) ∧
    (∀ l, (c'.ledgers.cell l).state.heldBytes = (c.ledgers.cell l).state.heldBytes ∧
      (c'.ledgers.cell l).state.holders = (c.ledgers.cell l).state.holders) := by
  have hlooked := c.chain_looked route clock
  rcases c.acquireChain_cases route tokens holder (.take priority key) clock with
    ⟨_, _, _, _, hok⟩ | ⟨refusal', scopes, ledgers, hrestored, hsame, herror⟩
  · rw [hok] at h
    cases h
  · rw [herror] at h
    obtain ⟨-, rfl⟩ := Prod.mk.inj h
    have hledgers := hsame priority key rfl
    rw [chain_ledgers] at hledgers
    refine ⟨fun i hi => ?_, fun i hlo hhi => ?_, fun l => ⟨(hledgers l).held, (hledgers l).holders⟩⟩
    · have hi' := hrestored.2 i
      rw [← hlooked.old i hi] at hi'
      exact ⟨hi', hi'.queued, hi'.requestBucket.refill_eq, hi'.tokenBucket.refill_eq⟩
    · have hi' := hrestored.2 i
      obtain ⟨name, limits, ms, hnew⟩ := hlooked.fresh i hlo (hhi.trans_eq hrestored.1)
      rw [hnew] at hi'
      exact ⟨name, limits, ms, hi'⟩

/-- A target for one request at a time, behind a global rate of one token a second. -/
def narrowPlan : AdmissionPlan :=
  { AdmissionPlan.new { ScopeLimits.unlimited with tokensPerMinute := 60, tokenBurst := 10 } with
    targets := .ofList [("t", { ScopeLimits.unlimited with maxConcurrency := 1 })] }

def narrowRoute : Route := ⟨"acme", "svc", none, "t"⟩

/-- The controller of `narrowPlan` with its target taken. -/
def takenTarget : Controller :=
  ((fromPlan narrowPlan 0 0).reserveFor narrowRoute 1 ⟨0, 0, 0⟩).2

theorem oversized_take_is_undone :
    ∃ c', takenTarget.acquireChain narrowRoute 50 none (.take .standard none) ⟨1000, 1000, 1000⟩
        = (.error (.concurrencyExhausted, "target:t"), c') ∧
      Scope.Restored 1000 (takenTarget.scopes.cell 0) (c'.scopes.cell 0) := by
  have herror : takenTarget.acquireChain narrowRoute 50 none (.take .standard none)
      ⟨1000, 1000, 1000⟩ = (.error (.concurrencyExhausted, "target:t"),
        (takenTarget.acquireChain narrowRoute 50 none (.take .standard none)
          ⟨1000, 1000, 1000⟩).2) := Prod.ext (by rfl) rfl
  have hrestored := failed_admission_restores_everything _ _ _ _ _ _ _ _ _ herror
  exact ⟨_, herror, (hrestored.1 0 (by decide)).1⟩

end Controller

end HypeLlm.Admission
