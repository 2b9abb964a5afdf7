import HypeLlm.Admission.System

/-!
# The output byte rate throttles nothing

Bytes written to clients are charged to a bucket after the response, and the rate is meant to hold
back the requests that follow.  No admission decision reads that bucket.  The state of the system
outside the bucket is the same whatever is recorded (`run_without_recording`), so every decision
falls as if nothing had been, and no rate throttles.
-/

namespace HypeLlm.Admission

open HypeLlm.Words HypeLlm.Machine HypeLlm.Runs

namespace Controller

/-! ### The output bucket set aside -/

/-- The controller with another bucket for the output. -/
def withOutput (c : Controller) (o : Option TokenBucket) : Controller := { c with outboundBytes := o }

variable (c : Controller) (o : Option TokenBucket)

theorem tenantScope_withOutput (tenant : TenantId) (ms : ℕ) :
    (c.withOutput o).tenantScope tenant ms
      = ((c.tenantScope tenant ms).1, (c.tenantScope tenant ms).2.withOutput o) := by
  simp only [tenantScope, withOutput]
  split <;> rfl

theorem principalScope_withOutput (principal : PrincipalId) (ms : ℕ) :
    (c.withOutput o).principalScope principal ms
      = ((c.principalScope principal ms).1, (c.principalScope principal ms).2.withOutput o) := by
  simp only [principalScope, withOutput]
  split <;> rfl

theorem chain_withOutput (route : Route) (clock : Readings) :
    (c.withOutput o).chain route clock
      = ((c.chain route clock).1, (c.chain route clock).2.withOutput o) := by
  simp only [chain, tenantScope_withOutput, principalScope_withOutput]
  rfl

theorem dropAsk_withOutput (memory : MemoryAsk) :
    (c.withOutput o).dropAsk memory = (c.dropAsk memory).withOutput o := by
  cases memory <;> rfl

theorem acquireMemory_withOutput (route : Route) (tokens : ℕ) (held : List ScopeRef)
    (memory : MemoryAsk) (nowMs : ℕ) :
    (c.withOutput o).acquireMemory route tokens held memory nowMs
      = ((c.acquireMemory route tokens held memory nowMs).1,
        (c.acquireMemory route tokens held memory nowMs).2.withOutput o) := by
  cases memory with
  | held ledger hold => rfl
  | take priority key =>
    have hmachine : (c.withOutput o).machineFor route.target priority
        = c.machineFor route.target priority := rfl
    simp only [acquireMemory, hmachine]
    split
    · rfl
    · rename_i ledger bytes priority' _
      simp only [withOutput]
      split <;> rfl

theorem call_withOutput (k : Call) :
    (c.withOutput o).call k = ((c.call k).1, (c.call k).2.withOutput o) := by
  simp only [call, acquireChain, chain_withOutput]
  have hticket : ((c.chain k.route k.clock).2.withOutput o).ticketAt k.holder
      = (c.chain k.route k.clock).2.ticketAt k.holder := rfl
  have hscopes : ((c.chain k.route k.clock).2.withOutput o).scopes
      = (c.chain k.route k.clock).2.scopes := rfl
  rw [hticket, hscopes]
  split
  · rename_i refusal scopes _
    exact congrArg (Prod.mk _) (dropAsk_withOutput { (c.chain k.route k.clock).2 with scopes } o k.memory)
  · rename_i held scopes _
    exact acquireMemory_withOutput { (c.chain k.route k.clock).2 with scopes } o k.route
      k.estimatedTokens held k.memory k.clock.now

theorem spendAtLayer_withOutput (minorUnits nowMs : ℕ) (found : Option ScopeRef) :
    (c.withOutput o).spendAtLayer minorUnits nowMs found
      = (c.spendAtLayer minorUnits nowMs found).withOutput o := by
  cases found <;> rfl

theorem recordSpend_withOutput (tenant : TenantId) (principal : PrincipalId)
    (aliased : Option (AliasId × Operation)) (target : Option TargetId) (minorUnits nowMs : ℕ)
    (clock : Readings) :
    (c.withOutput o).recordSpend tenant principal aliased target minorUnits nowMs clock
      = (c.recordSpend tenant principal aliased target minorUnits nowMs clock).withOutput o := by
  have hspend : ∀ (c : Controller) i, (c.withOutput o).spendAt minorUnits nowMs i
      = (c.spendAt minorUnits nowMs i).withOutput o := fun _ _ => rfl
  have hglobal : (c.withOutput o).global = c.global := rfl
  simp only [recordSpend, hglobal, hspend, tenantScope_withOutput, principalScope_withOutput]
  split
  · rfl
  · have haliases : ∀ (c : Controller) aliasId operation,
        (c.withOutput o).aliasScope aliasId operation = c.aliasScope aliasId operation :=
      fun _ _ _ => rfl
    have htargets : ∀ c : Controller, (c.withOutput o).targetScope = c.targetScope := fun _ => rfl
    simp only [haliases, spendAtLayer_withOutput, htargets]

theorem joinAt_withOutput (a : Ask) (name : String) (i : ScopeRef) :
    (c.withOutput o).joinAt a name i
      = ((c.joinAt a name i).1, (c.joinAt a name i).2.withOutput o) := by
  have hscopes : (c.withOutput o).scopes = c.scopes := rfl
  simp only [joinAt, hscopes]
  split
  · rfl
  · split <;> rfl

theorem joinLine_withOutput (a : Ask) (name : String) (clock : Readings) :
    (c.withOutput o).joinLine a name clock
      = ((c.joinLine a name clock).1, (c.joinLine a name clock).2.withOutput o) := by
  have hscopes : ∀ c : Controller, (c.withOutput o).scopes = c.scopes := fun _ => rfl
  simp only [joinLine, scopeNamed, chain_withOutput, hscopes]
  split
  · rfl
  · exact joinAt_withOutput _ o a name _

theorem awaitMemory_withOutput (a : Ask) (name : String) (nowMs : ℕ) :
    (c.withOutput o).awaitMemory a name nowMs
      = ((c.awaitMemory a name nowMs).1, (c.awaitMemory a name nowMs).2.withOutput o) := by
  have hmachine : (c.withOutput o).machineFor a.route.target a.priority
      = c.machineFor a.route.target a.priority := rfl
  simp only [awaitMemory, hmachine]
  split
  · rfl
  · split <;> split <;> rfl

theorem attemptMemory_withOutput (a : Ask) (ledger : LedgerRef) (bytes : ℕ)
    (priority : PriorityClass) (key name : String) (timedOut : Bool) (nowMs : ℕ) :
    (c.withOutput o).attemptMemory a ledger bytes priority key name timedOut nowMs
      = ((c.attemptMemory a ledger bytes priority key name timedOut nowMs).1,
        (c.attemptMemory a ledger bytes priority key name timedOut nowMs).2.withOutput o) := by
  have hledgers : (c.withOutput o).ledgers = c.ledgers := rfl
  simp only [attemptMemory, hledgers]
  split
  · rfl
  · split
    · rfl
    · split <;> rfl

end Controller

namespace Reservation

variable (r : Reservation) (c : Controller) (o : Option TokenBucket)

theorem finish_withOutput (actualTokens nowMs : ℕ) :
    r.finish actualTokens nowMs (c.withOutput o)
      = ((r.finish actualTokens nowMs c).1, (r.finish actualTokens nowMs c).2.withOutput o) := by
  simp only [finish]
  split
  · rfl
  · split <;> rfl

theorem drop_withOutput (nowMs : ℕ) :
    r.drop nowMs (c.withOutput o) = ((r.drop nowMs c).1, (r.drop nowMs c).2.withOutput o) := by
  simp only [drop, finish_withOutput]
  split <;> rfl

theorem commit_withOutput (actualTokens nowMs : ℕ) :
    r.commit actualTokens nowMs (c.withOutput o)
      = ((r.commit actualTokens nowMs c).1, (r.commit actualTokens nowMs c).2.withOutput o) := by
  simp only [commit, finish_withOutput, drop_withOutput]

theorem releaseUnused_withOutput (nowMs : ℕ) :
    r.releaseUnused nowMs (c.withOutput o)
      = ((r.releaseUnused nowMs c).1, (r.releaseUnused nowMs c).2.withOutput o) := by
  simp only [releaseUnused, finish_withOutput, drop_withOutput]

end Reservation

namespace System

def withOutput (s : System) (o : Option TokenBucket) : System :=
  { s with controller := s.controller.withOutput o }

variable (s : System) (o : Option TokenBucket)

theorem acquire_withOutput (k : Call) :
    (s.withOutput o).acquire k = ((s.acquire k).1, (s.acquire k).2.withOutput o) := by
  simp only [acquire, withOutput, Controller.call_withOutput]
  generalize s.controller.call k = out
  obtain ⟨result, c⟩ := out
  cases result <;> rfl

theorem finish_withOutput (id : ℕ) {f : Reservation → Controller → Reservation × Controller}
    (hf : ∀ r c, f r (c.withOutput o) = ((f r c).1, (f r c).2.withOutput o)) :
    (s.withOutput o).finish id f = (s.finish id f).withOutput o := by
  have hreservations : (s.withOutput o).reservations = s.reservations := rfl
  simp only [finish, hreservations]
  split
  · rfl
  · rename_i r _
    show { s.withOutput o with
      controller := (f r (s.controller.withOutput o)).2
      reservations := s.reservations.set id (f r (s.controller.withOutput o)).1 } = _
    rw [hf]
    rfl

theorem setPhase_withOutput (id : ℕ) (ask : Ask) (phase : Phase) :
    (s.withOutput o).setPhase id ask phase = (s.setPhase id ask phase).withOutput o := rfl

/-- A piece that moves the controller to `c` and the client to `phase`. -/
theorem moved_withOutput (c : Controller) (id : ℕ) (ask : Ask) (phase : Phase) :
    { s.withOutput o with controller := c.withOutput o }.setPhase id ask phase
      = ({ s with controller := c }.setPhase id ask phase).withOutput o := rfl

theorem advance_withOutput (id : ℕ) (ask : Ask) (timedOut : Bool) (clock : Readings) (phase : Phase) :
    (s.withOutput o).advance id ask timedOut clock phase
      = (s.advance id ask timedOut clock phase).withOutput o := by
  have hcontroller : (s.withOutput o).controller = s.controller.withOutput o := rfl
  cases phase with
  | memoryRefused name =>
    simp only [advance, hcontroller, Controller.awaitMemory_withOutput]
    exact s.moved_withOutput o _ id ask _
  | concurrencyRefused name =>
    simp only [advance, hcontroller, Controller.joinLine_withOutput]
    exact s.moved_withOutput o _ id ask _
  | waiting scope ticket name => rfl
  | woken scope ticket name =>
    simp only [advance, acquire_withOutput]
    exact setPhase_withOutput _ o id ask _
  | leaving scope ticket refusal => rfl
  | waitingMemory ledger bytes priority key name =>
    simp only [advance, hcontroller, Controller.attemptMemory_withOutput]
    exact s.moved_withOutput o _ id ask _
  | holding ledger hold =>
    simp only [advance, acquire_withOutput]
    exact setPhase_withOutput _ o id ask _
  | returned refusal => rfl

/-- **No step reads the output bucket**, but to refill it, charge it or reshape it. -/
theorem step_withOutput (e : Op) : ∃ o', (s.withOutput o).step e = (s.step e).withOutput o' := by
  have hcontroller : (s.withOutput o).controller = s.controller.withOutput o := rfl
  have hmoved : ∀ c : Controller, { s.withOutput o with controller := c.withOutput o }
      = { s with controller := c }.withOutput o := fun _ => rfl
  cases e with
  | apply plan nowMs => exact ⟨_, rfl⟩
  | setDefaultTenantLimits limits => exact ⟨o, rfl⟩
  | setDefaultPrincipalLimits limits => exact ⟨o, rfl⟩
  | reserveFor route estimatedTokens clock => exact ⟨o, by simp only [step, acquire_withOutput]⟩
  | request ask clock =>
    have hjoined : ∀ (t : System) (client : Client),
        { t.withOutput o with clients := (t.withOutput o).clients ++ [client] }
          = { t with clients := t.clients ++ [client] }.withOutput o := fun _ _ => rfl
    refine ⟨o, ?_⟩
    simp only [step, acquire_withOutput]
    exact hjoined _ _
  | advance id timedOut clock =>
    refine ⟨o, ?_⟩
    have hclients : (s.withOutput o).clients = s.clients := rfl
    simp only [step, hclients]
    split
    · rfl
    · exact s.advance_withOutput o id _ timedOut clock _
  | commit id actualTokens nowMs =>
    exact ⟨o, s.finish_withOutput o id fun r c => r.commit_withOutput c o actualTokens nowMs⟩
  | releaseUnused id nowMs =>
    exact ⟨o, s.finish_withOutput o id fun r c => r.releaseUnused_withOutput c o nowMs⟩
  | drop id nowMs => exact ⟨o, s.finish_withOutput o id fun r c => r.drop_withOutput c o nowMs⟩
  | tryAdmitBytes inbound nowMs => exact ⟨o, rfl⟩
  | recordOutputBytes outbound nowMs => exact ⟨_, rfl⟩
  | recordSpend tenant principal aliased target minorUnits nowMs clock =>
    refine ⟨o, ?_⟩
    simp only [step, hcontroller, Controller.recordSpend_withOutput]
    exact hmoved _
  | dropMachineClaims key => exact ⟨o, rfl⟩
  | machineViews nowMs => exact ⟨o, rfl⟩

end System

/-! ### Decisions -/

def Op.isRecording : Op → Bool
  | .recordOutputBytes _ _ => true
  | _ => false

def Op.isPublication : Op → Bool
  | .apply _ _ => true
  | _ => false

/-- The bytes an operation records as written to clients. -/
def Op.recordedBytes : Op → ℕ
  | .recordOutputBytes outbound _ => outbound
  | _ => 0

/-- The times an operation is given. -/
def Op.times : Op → List ℕ
  | .apply _ nowMs => [nowMs]
  | .setDefaultTenantLimits _ => []
  | .setDefaultPrincipalLimits _ => []
  | .reserveFor _ _ clock => [clock.now, clock.tenant, clock.principal]
  | .request _ clock => [clock.now, clock.tenant, clock.principal]
  | .advance _ _ clock => [clock.now, clock.tenant, clock.principal]
  | .commit _ _ nowMs => [nowMs]
  | .releaseUnused _ nowMs => [nowMs]
  | .drop _ nowMs => [nowMs]
  | .tryAdmitBytes _ nowMs => [nowMs]
  | .recordOutputBytes _ nowMs => [nowMs]
  | .recordSpend _ _ _ _ _ nowMs clock => [nowMs, clock.tenant, clock.principal]
  | .dropMachineClaims _ => []
  | .machineViews nowMs => [nowMs]

/-- An admission decision of the controller. -/
inductive Decision where
  | bytes (inbound : ℕ)
  | reserve (route : Route) (estimatedTokens : ℕ)
  | queued (ask : Ask)

/-- The decision, made at `nowMs`, is a refusal. -/
def Controller.Refuses (c : Controller) (nowMs : ℕ) : Decision → Prop
  | .bytes inbound => ∃ rejection, (c.tryAdmitBytes inbound nowMs).1 = .error rejection
  | .reserve route estimatedTokens => ∃ refusal, (c.call ⟨route, estimatedTokens, none,
      .take .standard none, ⟨nowMs, nowMs, nowMs⟩⟩).1 = .error refusal
  | .queued ask => ∃ refusal, (c.call (ask.firstCall ⟨nowMs, nowMs, nowMs⟩)).1 = .error refusal

theorem Controller.refuses_withOutput (c : Controller) (o : Option TokenBucket) (nowMs : ℕ)
    (d : Decision) : (c.withOutput o).Refuses nowMs d ↔ c.Refuses nowMs d := by
  cases d with
  | bytes inbound => exact Iff.rfl
  | reserve route estimatedTokens => simp only [Refuses, call_withOutput]
  | queued ask => simp only [Refuses, call_withOutput]

namespace System

/-- **What is recorded as output leaves no trace outside the output bucket.** -/
theorem run_without_recording (es : List Op) :
    ∀ s o, ∃ o', run step (withOutput s o) (es.filter (!·.isRecording))
      = (run step s es).withOutput o' := by
  induction es with
  | nil =>
    intro s o
    exact ⟨o, rfl⟩
  | cons e es ih =>
    intro s o
    cases hrecording : e.isRecording with
    | true =>
      -- The step differs from no step in the output bucket only.
      have hsame : withOutput s o = (s.step e).withOutput o := by
        cases e <;> first | rfl | cases hrecording
      rw [List.filter_cons_of_neg (by simp [hrecording]), hsame, run_cons]
      exact ih (s.step e) o
    | false =>
      obtain ⟨o', hstep⟩ := s.step_withOutput o e
      rw [List.filter_cons_of_pos (by simp [hrecording]), run_cons, run_cons, hstep]
      exact ih (s.step e) o'

/-- A controller created for `plan` at `createdMs`. -/
def started (plan : AdmissionPlan) (createdMs : ℕ) : System :=
  ⟨.fromPlan plan createdMs createdMs, [], []⟩

/-- Every decision falls as if no output had been recorded. -/
theorem decision_without_recording (s : System) (es : List Op) (nowMs : ℕ) (d : Decision) :
    (run step s es).controller.Refuses nowMs d ↔
      (run step s (es.filter (!·.isRecording))).controller.Refuses nowMs d := by
  obtain ⟨o, hrun⟩ := run_without_recording es s s.controller.outboundBytes
  have hself : withOutput s s.controller.outboundBytes = s := rfl
  rw [hself] at hrun
  rw [hrun]
  exact (Controller.refuses_withOutput _ o nowMs d).symm

/-! ### The rate as it is meant -/

/-- The bytes recorded exceed the burst and the refill since the creation. -/
def Exceeds (rates : ByteRateLimits) (createdMs nowMs : ℕ) (es : List Op) : Prop :=
  1000 * max (max rates.outputPerSecond rates.outputBurst) 1
      + rates.outputPerSecond * (nowMs - createdMs)
    < 1000 * (es.map Op.recordedBytes).sum

instance (rates : ByteRateLimits) (createdMs nowMs : ℕ) (es : List Op) :
    Decidable (Exceeds rates createdMs nowMs es) := inferInstanceAs (Decidable (_ < _))

/-- Operations under the same plan, between `createdMs` and `nowMs`. -/
def Ordinary (createdMs nowMs : ℕ) (es : List Op) : Prop :=
  ∀ e ∈ es, e.isPublication = false ∧ ∀ t ∈ e.times, createdMs ≤ t ∧ t ≤ nowMs

/-- While more has been written than the rate allows, every decision is a refusal. -/
def OutputThrottles (plan : AdmissionPlan) : Prop :=
  ∀ createdMs nowMs es d, Ordinary createdMs nowMs es →
    Exceeds plan.byteRates createdMs nowMs es →
    (run step (started plan createdMs) es).controller.Refuses nowMs d

/-- One byte more than the burst, in two responses. -/
def overrun (rates : ByteRateLimits) : List Op :=
  [.recordOutputBytes (max (max rates.outputPerSecond rates.outputBurst) 1) 0,
    .recordOutputBytes 1 0]

theorem overrun_ordinary (rates : ByteRateLimits) : Ordinary 0 0 (overrun rates) := by
  intro e he
  simp only [overrun, List.mem_cons, List.not_mem_nil, or_false] at he
  rcases he with rfl | rfl <;>
    exact ⟨rfl, fun t ht => by simpa [Op.times] using ht⟩

theorem overrun_exceeds (rates : ByteRateLimits) : Exceeds rates 0 0 (overrun rates) := by
  simp only [Exceeds, overrun, List.map_cons, List.map_nil, Op.recordedBytes, List.sum_cons,
    List.sum_nil]
  omega

end System

/-- A full bucket with room for a unit gives one. -/
theorem TokenBucket.tryTake_full (shape : BucketShape) (ms : ℕ) (h : 1000 ≤ shape.capacityMilli) :
    ((TokenBucket.full shape ms).tryTake 1 ms).1 = true := by
  have hrefill : (BucketState.full shape ms).refill ms = BucketState.full shape ms :=
    if_pos (Nat.sub_self ms)
  have hwant : satMul u64Max 1 1000 = 1000 := by decide
  have hdebt : (BucketState.full shape ms).debtMilli = 0 := rfl
  have hcapacity : (BucketState.full shape ms).capacityMilli = shape.capacityMilli := rfl
  have hlevel : (BucketState.full shape ms).levelMilli = shape.capacityMilli := rfl
  simp only [TokenBucket.tryTake, TokenBucket.full, BucketState.tryTake, hrefill, hwant, hdebt,
    hcapacity, hlevel]
  rw [if_neg (Nat.lt_irrefl 0), if_neg (Nat.not_lt.mpr h), if_pos h]

/-- A controller that has just been created admits a byte. -/
theorem Controller.fromPlan_admits (plan : AdmissionPlan) (ms : ℕ) :
    ((Controller.fromPlan plan ms ms).tryAdmitBytes 1 ms).1 = .ok () := by
  have hinbound : (Controller.fromPlan plan ms ms).inboundBytes = reshape none
      (byteShape plan.byteRates.inputPerSecond plan.byteRates.inputBurst) ms := rfl
  simp only [tryAdmitBytes, hinbound, byteShape]
  by_cases hrate : 0 < plan.byteRates.inputPerSecond
  · have hcapacity : 1000 ≤ (BucketShape.perSecond plan.byteRates.inputPerSecond
        plan.byteRates.inputBurst).capacityMilli := by
      simp only [BucketShape.perSecond, satMul]
      have htop : 1000 ≤ u64Max := by decide
      omega
    rw [if_pos hrate]
    simp only [reshape, withBucket, TokenBucket.tryTake_full _ ms hcapacity, if_true]
  · rw [if_neg hrate]
    rfl

namespace System

theorem overrun_admitted (plan : AdmissionPlan) :
    ¬ (run step (started plan 0) (overrun plan.byteRates)).controller.Refuses 0 (.bytes 1) := by
  rw [decision_without_recording]
  rintro ⟨rejection, hrefused⟩
  have hadmitted := Controller.fromPlan_admits plan 0
  cases hadmitted.symm.trans hrefused

/-- **No output rate throttles.**  Whatever the rate and the burst: there is a run in which more has
been written than they allow and the next decision is an admission; and in every run every decision
falls as if nothing had been written. -/
theorem output_rate_never_throttles (plan : AdmissionPlan) :
    ¬ OutputThrottles plan ∧
    ∀ createdMs nowMs es d, (run step (started plan createdMs) es).controller.Refuses nowMs d ↔
      (run step (started plan createdMs)
        (es.filter (!·.isRecording))).controller.Refuses nowMs d := by
  refine ⟨fun h => ?_, fun createdMs nowMs es d => decision_without_recording _ es nowMs d⟩
  exact overrun_admitted plan (h 0 0 (overrun plan.byteRates) (.bytes 1)
    (overrun_ordinary plan.byteRates) (overrun_exceeds plan.byteRates))

/-- A thousand bytes a second in either direction. -/
def steadyPlan : AdmissionPlan :=
  { AdmissionPlan.new .unlimited with byteRates := ⟨1000, 1000, 1000, 1000⟩ }

/-- After 5000 bytes at once a byte is admitted at the same instant. -/
theorem recorded_output_throttles_nobody : ¬ OutputThrottles steadyPlan := by
  intro h
  have hordinary : Ordinary 0 0 [.recordOutputBytes 5000 0] := by
    intro e he
    obtain rfl : e = .recordOutputBytes 5000 0 := List.mem_singleton.mp he
    exact ⟨rfl, fun t ht => by simpa [Op.times] using ht⟩
  obtain ⟨rejection, hrefused⟩ := h 0 0 [.recordOutputBytes 5000 0] (.bytes 500) hordinary (by decide)
  cases hrefused

end System

end HypeLlm.Admission
