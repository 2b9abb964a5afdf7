import HypeLlm.Admission.Moves
import HypeLlm.Admission.Turns

/-!
# Places in line

A request that has waited presents its ticket at the scope it waited at.  The ticket should be good
there and nowhere else: whoever is admitted at a scope with a line is the head of that line, with a
ticket of that very scope.

The controller finds the scope by its *name*.  A publication can drop a target or alias from the maps
and a later one can name it again; then there are two scopes of one name, the tickets of both begin
at zero, and a request that still waits at the first is admitted past the line of the second
(`old_ticket_passes_new_line`).  As long as no publication names a target or alias again while a
request waits at the scope it had before, every line is honoured (`lines_are_honoured`).
-/

namespace HypeLlm.Admission

open HypeLlm.Words HypeLlm.Machine HypeLlm.Runs

/-! ### Lines -/

/-- A line that is not empty has a head. -/
theorem QueueState.head_of_waiting {q : QueueState} (h : q.waiting ≠ []) :
    ∃ ticket, q.head = some ticket := by
  cases hfirst : QueueState.first q.waiting with
  | none => exact absurd ((QueueState.first_eq_none _).mp hfirst) h
  | some w => exact ⟨w.seq, by rw [QueueState.head, hfirst]; rfl⟩

/-- Who need not yield where a line has formed presents the ticket of its head. -/
theorem Scope.head_of_turn {s : Scope} {ticket : Option ℕ} (hturn : s.mustYield ticket = false)
    (hline : s.queue.waiting ≠ []) : ∃ t, ticket = some t ∧ s.queue.head = some t := by
  obtain ⟨head, hhead⟩ := QueueState.head_of_waiting hline
  have hqueued : 0 < s.queued := by
    have hlength := List.length_pos_iff.mpr hline
    have hmax : 0 < u32Max := by decide
    rw [s.queued_eq]
    omega
  simp only [Scope.mustYield, hhead, hqueued, decide_true, Bool.or_true, Bool.true_and,
    decide_eq_false_iff_not, ne_eq, not_not] at hturn
  exact ⟨head, hturn, hhead⟩

/-- The tickets a scope has issued: those below its next one, all of them once it has saturated. -/
def Scope.Issued (s : Scope) (ticket : ℕ) : Prop :=
  ticket < s.queue.nextSeq ∨ s.queue.nextSeq = u64Max

theorem Scope.Issued.steady {s s' : Scope} {ticket : ℕ} (h : s.Issued ticket) (hs : Steady s s') :
    s'.Issued ticket := by
  have hle := hs.nextSeq
  have htop := s'.queue.nextSeq_le
  rcases h with h | h
  · exact .inl (h.trans_le hle)
  · exact .inr (by omega)

theorem Scope.joinQueue_issued {s s' : Scope} {priority : PriorityClass} {tenant : TenantId}
    {ticket : ℕ} (h : s.joinQueue priority tenant = (.ok ticket, s')) : s'.Issued ticket := by
  simp only [Scope.joinQueue] at h
  split at h
  · cases h
  split at h
  · cases h
  · cases h
    show s.queue.nextSeq < min (s.queue.nextSeq + 1) u64Max ∨ min (s.queue.nextSeq + 1) u64Max = u64Max
    omega

/-! ### Places -/

/-- The place a request holds in a line that it may still present. -/
def Phase.place : Phase → Option (ScopeRef × ℕ)
  | .waiting scope ticket _ => some (scope, ticket)
  | .woken scope ticket _ => some (scope, ticket)
  | _ => none

namespace Controller

/-- Among the scopes a request can meet, `q` is the only one of its name. -/
structure Own (c : Controller) (route : Route) (q : ScopeRef) : Prop where
  lt : q < c.scopes.next
  tenant : ∃ i, c.tenants[route.tenant]? = some i
  principal : ∃ i, c.principals[route.principal]? = some i
  only : ∀ j, Candidate c route j → (c.scopes.cell j).name = (c.scopes.cell q).name → j = q

/-- The scopes of a request whose tenant and principal have theirs stay the same where entries are
only added. -/
theorem Candidate.of_extends {c c' : Controller} (h : Extends c c') {route : Route} {j : ScopeRef}
    (htenant : ∃ i, c.tenants[route.tenant]? = some i)
    (hprincipal : ∃ i, c.principals[route.principal]? = some i) (hj : Candidate c' route j) :
    Candidate c route j := by
  obtain ⟨i, hi⟩ := htenant
  obtain ⟨i', hi'⟩ := hprincipal
  cases hj with
  | global hj => exact .global (hj.trans h.global)
  | tenant hj =>
    rw [h.tenants _ _ hi] at hj
    exact .tenant (hi.trans hj)
  | principal hj =>
    rw [h.principals _ _ hi'] at hj
    exact .principal (hi'.trans hj)
  | aliased key hkey hj => exact .aliased key hkey (h.aliases ▸ hj)
  | target hj => exact .target (h.targets ▸ hj)

theorem Own.extends {c c' : Controller} (hw : Wired c) (h : Extends c c') {route : Route}
    {q : ScopeRef} (ho : Own c route q) : Own c' route q := by
  obtain ⟨hlt, htenant, hprincipal, honly⟩ := ho
  refine ⟨hlt.trans_le h.steady.next_le, ?_, ?_, fun j hj hname => ?_⟩
  · obtain ⟨i, hi⟩ := htenant
    exact ⟨i, h.tenants _ _ hi⟩
  · obtain ⟨i, hi⟩ := hprincipal
    exact ⟨i, h.principals _ _ hi⟩
  · have hj' := Candidate.of_extends h htenant hprincipal hj
    refine honly j hj' ?_
    rw [← (h.steady.old j (hj'.lt hw)).name, ← (h.steady.old q hlt).name]
    exact hname

/-- The publication of `plan` names no target or alias of `route` again while `q` is the scope it had
before. -/
structure Spares (c : Controller) (plan : AdmissionPlan) (route : Route) (q : ScopeRef) : Prop where
  target : plan.targets.contains route.target →
    (c.scopes.cell q).name = targetName route.target → c.targets[route.target]? = some q
  aliased : ∀ key, route.AliasedBy key → plan.aliases.contains key →
    (c.scopes.cell q).name = aliasName key → c.aliases[key]? = some q

theorem Own.published {c c' : Controller} (hw : Wired c) {plan : AdmissionPlan}
    (h : Published plan c c') {route : Route} {q : ScopeRef} (ho : Own c route q)
    (hspares : Spares c plan route q) : Own c' route q := by
  obtain ⟨hlt, ⟨i, hi⟩, ⟨i', hi'⟩, honly⟩ := ho
  have hw' := h.wired hw
  have hqname := (h.quiet.old q hlt).name
  -- A scope that was there before is the only one of its name by what held before.
  have hbefore : ∀ j, Candidate c route j → (c'.scopes.cell j).name = (c'.scopes.cell q).name →
      j = q := by
    intro j hj hname
    refine honly j hj ?_
    rw [← (h.quiet.old j (hj.lt hw)).name, ← hqname]
    exact hname
  refine ⟨hlt.trans_le h.quiet.next_le, ⟨i, h.tenants _ _ hi⟩, ⟨i', h.principals _ _ hi'⟩,
    fun j hj hname => ?_⟩
  cases hj with
  | global hj => exact hbefore j (.global (hj.trans h.global)) hname
  | tenant hj =>
    rw [h.tenants _ _ hi] at hj
    exact hbefore j (.tenant (hi.trans hj)) hname
  | principal hj =>
    rw [h.principals _ _ hi'] at hj
    exact hbefore j (.principal (hi'.trans hj)) hname
  | aliased key hkey hj =>
    rcases h.aliases key j hj with hold | ⟨hplanned, hnone⟩
    · exact hbefore j (.aliased key hkey hold) hname
    · rw [(hw'.aliases key j hj).2, hqname] at hname
      rw [hspares.aliased key hkey hplanned hname.symm] at hnone
      cases hnone
  | target hj =>
    rcases h.targets route.target j hj with hold | ⟨hplanned, hnone⟩
    · exact hbefore j (.target hold) hname
    · rw [(hw'.targets _ j hj).2, hqname] at hname
      rw [hspares.target hplanned hname.symm] at hnone
      cases hnone

/-- A scope of a request's chain is the only one of its name the request can meet. -/
theorem own_of_chain {c : Controller} (hw : Wired c) (route : Route) (clock : Readings)
    {q : ScopeRef} (hq : q ∈ (c.chain route clock).1) : Own (c.chain route clock).2 route q := by
  have hw' := (c.chain_extends route clock).wired hw
  have hcandidate := c.chain_candidate route clock hq
  obtain ⟨tenant, principal, -, -, -, htenant, hprincipal, -⟩ := c.chain_eq route clock
  exact ⟨hcandidate.lt hw', ⟨tenant, htenant⟩, ⟨principal, hprincipal⟩,
    fun j hj hname => hj.eq_of_name hw' hcandidate hname⟩

/-- The place a request holds is at the scope that issued it, and at the only one of that name. -/
def Holds (c : Controller) (route : Route) (place : ScopeRef × ℕ) : Prop :=
  Own c route place.1 ∧ (c.scopes.cell place.1).Issued place.2

theorem Holds.extends {c c' : Controller} (hw : Wired c) (h : Extends c c') {route : Route}
    {place : ScopeRef × ℕ} (hp : Holds c route place) : Holds c' route place :=
  ⟨hp.1.extends hw h, hp.2.steady (h.steady.old _ hp.1.lt)⟩

theorem joinAt_holds {c : Controller} (hw : Wired c) {a : Ask} {name : String} {i : ScopeRef}
    (hown : Own c a.route i) {place : ScopeRef × ℕ} (h : (c.joinAt a name i).1.place = some place) :
    Holds (c.joinAt a name i).2 a.route place := by
  have hextends := (c.joinAt_calm a name i).toExtends
  have hissued := @Scope.joinQueue_issued (c.scopes.cell i)
  simp only [joinAt] at h hextends ⊢
  split
  · rename_i hskip
    rw [if_pos hskip] at h
    cases h
  rename_i hskip
  rw [if_neg hskip] at h hextends
  cases hjoin : (c.scopes.cell i).joinQueue a.priority a.route.tenant with
  | mk result scope' =>
    rw [hjoin] at h hextends
    cases result with
    | error rejection => cases h
    | ok ticket =>
      cases h
      refine ⟨hown.extends hw hextends, ?_⟩
      simp only [Heap.set_cell, if_true]
      exact hissued hjoin

theorem joinLine_holds {c : Controller} (hw : Wired c) {a : Ask} {name : String} {clock : Readings}
    {place : ScopeRef × ℕ} (h : (c.joinLine a name clock).1.place = some place) :
    Holds (c.joinLine a name clock).2 a.route place := by
  have hw' := (c.chain_extends a.route clock).wired hw
  simp only [joinLine, scopeNamed] at h ⊢
  split
  · rename_i hfind
    rw [hfind] at h
    cases h
  · rename_i i hfind
    rw [hfind] at h
    exact joinAt_holds hw' (own_of_chain hw a.route clock (List.mem_of_find?_eq_some hfind)) h

end Controller

/-! ### Places along a run -/

namespace Phase

theorem afterFirst_place (result : Except (Rejection × String) Reservation) :
    (afterFirst result).place = none := by
  unfold afterFirst
  split <;> rfl

theorem afterHeld_place (result : Except (Rejection × String) Reservation) :
    (afterHeld result).place = none := by
  unfold afterHeld
  split <;> rfl

theorem afterWait_place {s : Scope} {scope : ScopeRef} {ticket : ℕ} {name : String} {timedOut : Bool}
    {place : ScopeRef × ℕ} (h : (afterWait s scope ticket name timedOut).place = some place) :
    some (scope, ticket) = some place := by
  unfold afterWait at h
  split at h
  · exact h
  split at h
  · cases h
  · exact h

theorem afterRetry_place {scope : ScopeRef} {ticket : ℕ} {name : String} {timedOut : Bool}
    {result : Except (Rejection × String) Reservation} {place : ScopeRef × ℕ}
    (h : (afterRetry scope ticket name timedOut result).place = some place) :
    some (scope, ticket) = some place := by
  unfold afterRetry at h
  split at h
  · cases h
  split at h
  · split at h
    · cases h
    · exact h
  · cases h

end Phase

namespace Controller

theorem awaitMemory_place (c : Controller) (a : Ask) (name : String) (nowMs : ℕ) :
    (c.awaitMemory a name nowMs).1.place = none := by
  simp only [awaitMemory]
  split
  · rfl
  · split <;> split <;> rfl

theorem attemptMemory_place (c : Controller) (a : Ask) (ledger : LedgerRef) (bytes : ℕ)
    (priority : PriorityClass) (key name : String) (timedOut : Bool) (nowMs : ℕ) :
    (c.attemptMemory a ledger bytes priority key name timedOut nowMs).1.place = none := by
  simp only [attemptMemory]
  split
  · rfl
  · split
    · rfl
    · split <;> rfl

end Controller

namespace System

/-- What a run that spares the lines keeps. -/
structure Placed (s : System) : Prop where
  wired : s.controller.Wired
  places : ∀ client ∈ s.clients, ∀ place, client.phase.place = some place →
    s.controller.Holds client.ask.route place

/-- A publication names no target or alias again while a request waits at the scope it had before. -/
def SparesLines (s : System) : Op → Prop
  | .apply plan _ => ∀ client ∈ s.clients, ∀ place, client.phase.place = some place →
    s.controller.Spares plan client.ask.route place.1
  | _ => True

/-- The place of a request after a step is the one it had, or one it has just been given. -/
def Carried (s s' : System) : Prop :=
  ∀ client ∈ s'.clients, ∀ place, client.phase.place = some place →
    (∃ old ∈ s.clients, old.ask = client.ask ∧ old.phase.place = some place) ∨
    s'.controller.Holds client.ask.route place

theorem carried_same {s s' : System} (h : s'.clients = s.clients) : Carried s s' :=
  fun client hclient _ hplace => .inl ⟨client, h ▸ hclient, rfl, hplace⟩

/-- One client has moved on to `phase`. -/
theorem carried_set {s s' : System} {id : ℕ} {ask : Ask} {old phase : Phase}
    (hclient : s.clients[id]? = some ⟨ask, old⟩) (hset : s'.clients = s.clients.set id ⟨ask, phase⟩)
    (hphase : ∀ place, phase.place = some place →
      old.place = some place ∨ s'.controller.Holds ask.route place) : Carried s s' := by
  intro client hmem place hplace
  rw [hset] at hmem
  rcases List.mem_or_eq_of_mem_set hmem with hmem | rfl
  · exact .inl ⟨client, hmem, rfl, hplace⟩
  · rcases hphase place hplace with hold | hholds
    · exact .inl ⟨_, List.mem_of_getElem? hclient, rfl, hold⟩
    · exact .inr hholds

theorem carried_advance {s : System} (h : s.controller.Wired) {id : ℕ} {ask : Ask} {phase : Phase}
    (hclient : s.clients[id]? = some ⟨ask, phase⟩) (timedOut : Bool) (clock : Readings) :
    Carried s (s.advance id ask timedOut clock phase) := by
  cases phase with
  | memoryRefused name =>
    refine carried_set hclient rfl fun place hplace => ?_
    rw [Controller.awaitMemory_place] at hplace
    cases hplace
  | concurrencyRefused name =>
    exact carried_set hclient rfl fun place hplace => .inr (Controller.joinLine_holds h hplace)
  | waiting scope ticket name =>
    exact carried_set hclient rfl fun place hplace => .inl (Phase.afterWait_place hplace)
  | woken scope ticket name =>
    have hclients := (s.acquire_cases (ask.retryCall scope ticket clock)).1
    have hset : (s.advance id ask timedOut clock (.woken scope ticket name)).clients
        = s.clients.set id ⟨ask, .afterRetry scope ticket name timedOut
          (s.acquire (ask.retryCall scope ticket clock)).1⟩ := by
      simp only [advance, setPhase, hclients]
    exact carried_set hclient hset fun place hplace => .inl (Phase.afterRetry_place hplace)
  | leaving scope ticket refusal =>
    exact carried_set hclient rfl fun place hplace => by cases hplace
  | waitingMemory ledger bytes priority key name =>
    refine carried_set hclient rfl fun place hplace => ?_
    rw [Controller.attemptMemory_place] at hplace
    cases hplace
  | holding ledger hold =>
    have hclients := (s.acquire_cases (ask.heldCall ledger hold clock)).1
    have hset : (s.advance id ask timedOut clock (.holding ledger hold)).clients
        = s.clients.set id ⟨ask, .afterHeld (s.acquire (ask.heldCall ledger hold clock)).1⟩ := by
      simp only [advance, setPhase, hclients]
    refine carried_set hclient hset fun place hplace => ?_
    rw [Phase.afterHeld_place] at hplace
    cases hplace
  | returned refusal => exact carried_same rfl

theorem carried_step {s : System} (h : s.controller.Wired) (e : Op) : Carried s (s.step e) := by
  cases e with
  | reserveFor route estimatedTokens clock => exact carried_same (s.acquire_cases _).1
  | request ask clock =>
    have hclients := (s.acquire_cases (ask.firstCall clock)).1
    intro client hmem place hplace
    simp only [step, hclients, List.mem_append, List.mem_singleton] at hmem
    rcases hmem with hmem | rfl
    · exact .inl ⟨client, hmem, rfl, hplace⟩
    · rw [Phase.afterFirst_place] at hplace
      cases hplace
  | advance id timedOut clock =>
    simp only [step]
    cases hclient : s.clients[id]? with
    | none => exact carried_same rfl
    | some client => exact carried_advance h hclient timedOut clock
  | commit id actualTokens nowMs =>
    refine carried_same ?_
    simp only [step, finish]
    split <;> rfl
  | releaseUnused id nowMs =>
    refine carried_same ?_
    simp only [step, finish]
    split <;> rfl
  | drop id nowMs =>
    refine carried_same ?_
    simp only [step, finish]
    split <;> rfl
  | _ => exact carried_same rfl

theorem placed_step (s : System) (e : Op) (h : Placed s) (hspares : SparesLines s e) :
    Placed (s.step e) := by
  refine ⟨s.wired_step e h.wired, fun client hclient place hplace => ?_⟩
  rcases carried_step h.wired e client hclient place hplace with ⟨old, hold, hask, hwas⟩ | hholds
  · have hheld := h.places old hold place hwas
    rw [← hask]
    rcases s.step_extends e with ⟨plan, nowMs, rfl⟩ | hextends
    · have hpublished := s.controller.apply_published plan nowMs
      exact ⟨hheld.1.published h.wired hpublished (hspares old hold place hwas),
        hheld.2.steady (hpublished.quiet.old _ hheld.1.lt).toSteady⟩
    · exact hheld.extends h.wired hextends
  · exact hholds

theorem placed_init (global : ScopeLimits) (nowMs : ℕ) : Placed (init global nowMs) :=
  ⟨wired_init global nowMs, fun _ hclient => absurd hclient List.not_mem_nil⟩

/-! ### Honouring the lines -/

/-- Whoever the step admits at a scope with a line holds the ticket of its head, issued by that very
scope.  A scope that the step creates has no line. -/
def HonoursLines (s : System) (e : Op) : Prop :=
  ∀ k, s.callOf e = some k → ∀ r c', s.controller.call k = (.ok r, c') →
    ∀ i ∈ r.scopes, i < s.controller.scopes.next → (s.controller.scopes.cell i).queue.waiting ≠ [] →
      ∃ ticket, k.holder = some (i, ticket) ∧
        (s.controller.scopes.cell i).queue.head = some ticket ∧
        (s.controller.scopes.cell i).Issued ticket

/-- Only a request that was woken presents a place, and it is its own. -/
theorem holder_of_call {s : System} {e : Op} {k : Call} (hcall : s.callOf e = some k)
    {place : ScopeRef × ℕ} (hholder : k.holder = some place) :
    ∃ client ∈ s.clients, client.ask.route = k.route ∧ client.phase.place = some place := by
  cases e with
  | reserveFor route estimatedTokens clock =>
    cases hcall
    cases hholder
  | request ask clock =>
    cases hcall
    cases hholder
  | advance id timedOut clock =>
    simp only [callOf] at hcall
    split at hcall
    · rename_i ask scope ticket name hclient
      cases hcall
      exact ⟨_, List.mem_of_getElem? hclient, rfl, hholder⟩
    · cases hcall
      cases hholder
    · cases hcall
  | _ => cases hcall

theorem honoursLines_of_placed {s : System} (h : Placed s) (e : Op) : s.HonoursLines e := by
  intro k hcall r c' hgranted i hi hlt hline
  have hchain := s.controller.chain_extends k.route k.clock
  have hlook := (s.controller.chain_looked k.route k.clock).old i hlt
  rcases s.controller.acquireChain_cases k.route k.estimatedTokens k.holder k.memory k.clock with
    ⟨scopes, machine, ledgers, hacquired, hok⟩ | ⟨refusal, scopes, ledgers, -, -, herror⟩
  · obtain rfl := Except.ok.inj (congrArg Prod.fst (hgranted.symm.trans hok))
    have hnodup := Controller.chain_nodup h.wired k.route k.clock
    have hacquired := (hacquired.cell hnodup i).2 hi
    rw [← hlook] at hacquired
    obtain ⟨ticket, hticket, hhead⟩ := Scope.head_of_turn hacquired.turn hline
    obtain ⟨⟨q, t⟩, hholder, hmatch⟩ := Option.bind_eq_some_iff.mp hticket
    simp only at hmatch
    split at hmatch
    · rename_i hname
      cases hmatch
      obtain ⟨client, hclient, hroute, hplace⟩ := holder_of_call hcall hholder
      have hholds := h.places client hclient _ hplace
      rw [hroute] at hholds
      -- The scope was found by its name, and the scope of the ticket is the only one of that name.
      obtain rfl : i = q := by
        refine (hholds.extends h.wired hchain).1.only i
          (s.controller.chain_candidate k.route k.clock hi) ?_
        rw [hname, hlook]
      exact ⟨ticket, hholder, hhead, hholds.2⟩
    · cases hmatch
  · cases hgranted.symm.trans herror

/-- **Every line is honoured**, in every run in which no publication names a target or alias again
while a request waits at the scope it had before. -/
theorem lines_are_honoured (global : ScopeLimits) (nowMs : ℕ) (es : List Op)
    (h : StepsMeet step SparesLines (init global nowMs) es) (e : Op) :
    (after global nowMs es).HonoursLines e :=
  honoursLines_of_placed (run_invariant_of_steps placed_step (placed_init global nowMs) es h) e

/-! ### Runs -/

/-- A target for one request at a time, with room for five to wait. -/
def queueingPlan : AdmissionPlan :=
  { AdmissionPlan.new .unlimited with
    targets := .ofList [("t", { ScopeLimits.unlimited with maxConcurrency := 1, maxQueued := 5 })] }

def queueingRoute : Route := ⟨"acme", "svc", none, "t"⟩

def queueingAsk : Ask := ⟨queueingRoute, 1, .standard, false, none⟩

/-- A request waits for a taken target, which is published again and then freed. -/
def waitingRun : List Op :=
  [.apply queueingPlan 0, .reserveFor queueingRoute 1 ⟨0, 0, 0⟩, .request queueingAsk ⟨0, 0, 0⟩,
    .advance 0 false ⟨0, 0, 0⟩, .apply queueingPlan 0, .drop 0 0, .advance 0 false ⟨0, 0, 0⟩]

theorem waiting_request_is_honoured :
    (after .unlimited 0 waitingRun).HonoursLines (.advance 0 false ⟨0, 0, 0⟩) := by
  have hclients : (after .unlimited 0 (waitingRun.take 4)).clients
      = [⟨queueingAsk, .waiting 1 0 "target:t"⟩] := by decide +kernel
  have htargets : (after .unlimited 0 (waitingRun.take 4)).controller.targets["t"]? = some 1 := by
    decide +kernel
  refine lines_are_honoured _ _ _ ?_ _
  simp only [waitingRun, StepsMeet, SparesLines, true_and, and_true]
  refine ⟨fun client hclient => absurd hclient List.not_mem_nil, fun client hclient place hplace => ?_⟩
  change client ∈ (after .unlimited 0 (waitingRun.take 4)).clients at hclient
  rw [hclients, List.mem_singleton] at hclient
  subst hclient
  cases hplace
  refine ⟨fun _ _ => htargets, fun key hkey => ?_⟩
  obtain ⟨aliasId, operation, hroute, -⟩ := hkey
  cases hroute

/-- A request waits for a taken target; the target is dropped, published again, taken again, and waited
for again; then both are freed, and the first request is woken. -/
def republishedRun : List Op :=
  [.apply queueingPlan 0, .reserveFor queueingRoute 1 ⟨0, 0, 0⟩, .request queueingAsk ⟨0, 0, 0⟩,
    .advance 0 false ⟨0, 0, 0⟩, .apply (.new .unlimited) 0, .apply queueingPlan 0,
    .reserveFor queueingRoute 1 ⟨0, 0, 0⟩, .request queueingAsk ⟨0, 0, 0⟩,
    .advance 1 false ⟨0, 0, 0⟩, .drop 0 0, .drop 1 0, .advance 0 false ⟨0, 0, 0⟩]

/-- The first request, with ticket 0 of the first scope, is admitted at the second past the request
that holds ticket 0 there. -/
theorem old_ticket_passes_new_line :
    ¬ (after .unlimited 0 republishedRun).HonoursLines (.advance 0 false ⟨0, 0, 0⟩) := by
  intro h
  have hcall : (after .unlimited 0 republishedRun).callOf (.advance 0 false ⟨0, 0, 0⟩)
      = some (queueingAsk.retryCall 1 0 ⟨0, 0, 0⟩) := by decide +kernel
  have hgranted : ((after .unlimited 0 republishedRun).controller.call
      (queueingAsk.retryCall 1 0 ⟨0, 0, 0⟩)).1 = .ok ⟨[0, 2, 3, 4], 1, false, "t", none⟩ := by
    decide +kernel
  have hline : ((after .unlimited 0 republishedRun).controller.scopes.cell 4).queue.waiting ≠ [] := by
    decide +kernel
  have hexists : 4 < (after .unlimited 0 republishedRun).controller.scopes.next := by decide +kernel
  generalize (after .unlimited 0 republishedRun) = s at h hcall hgranted hline hexists
  obtain ⟨ticket, hholder, -⟩ := h _ hcall _ _ (Prod.ext hgranted rfl) 4 (by decide) hexists hline
  cases hholder

end System

end HypeLlm.Admission
