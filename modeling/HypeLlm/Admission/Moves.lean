import HypeLlm.Admission.System
import HypeLlm.Admission.Wiring

/-!
# What a step can do

Each step of the system is one of three moves: it leaves every scope quiet and the reservations as
they are; it admits a request at every scope of its chain and hands out a reservation; or it
finishes a reservation and releases the scopes that reservation holds.  Which call of `acquire_chain`
an admission comes from is part of the move.

Apart from a publication, a step only adds entries to the maps (`step_extends`).
-/

namespace HypeLlm.Admission

open HypeLlm.Words HypeLlm.Machine HypeLlm.Runs

/-! ### Ending a reservation -/

namespace Reservation

/-- What ending a reservation does: the scopes are released if they were not before. -/
structure Ended (r : Reservation) (c : Controller) (out : Reservation × Controller) : Prop where
  released : out.1.released = true
  same : out.1.scopes = r.scopes
  again : r.released = true → out.2.scopes = c.scopes
  once : r.released = false → ∃ actual nowMs,
    out.2.scopes = releaseAll r.reservedTokens actual nowMs r.scopes.reverse c.scopes
  maps : ∃ ledgers, out.2 = { c with scopes := out.2.scopes, ledgers := ledgers }

theorem finish_ended (r : Reservation) (actualTokens nowMs : ℕ) (c : Controller) :
    r.Ended c (r.finish actualTokens nowMs c) := by
  unfold finish
  cases hreleased : r.released with
  | true => exact ⟨hreleased, rfl, fun _ => rfl, fun h => absurd (hreleased.symm.trans h) (by decide),
      c.ledgers, rfl⟩
  | false =>
    simp only [Bool.false_eq_true, if_false]
    cases r.machine with
    | none =>
      exact ⟨rfl, rfl, fun h => absurd (hreleased.symm.trans h) (by decide), fun _ => ⟨_, _, rfl⟩, _, rfl⟩
    | some held =>
      exact ⟨rfl, rfl, fun h => absurd (hreleased.symm.trans h) (by decide), fun _ => ⟨_, _, rfl⟩, _, rfl⟩

theorem drop_ended (r : Reservation) (nowMs : ℕ) (c : Controller) : r.Ended c (r.drop nowMs c) := by
  have hfinish := r.finish_ended r.reservedTokens nowMs c
  simp only [drop]
  split
  · exact hfinish
  · obtain ⟨hreleased, hsame, hagain, honce, ledgers, hmaps⟩ := hfinish
    exact ⟨hreleased, hsame, hagain, honce, _, by rw [hmaps]⟩

/-- A reservation that is finished and then dropped is released by the first only. -/
theorem Ended.drop {r : Reservation} {c : Controller} {out : Reservation × Controller}
    (h : r.Ended c out) (nowMs : ℕ) : r.Ended c (out.1.drop nowMs out.2) := by
  obtain ⟨hreleased, hsame, hagain, -, ledgers, hmaps⟩ := out.1.drop_ended nowMs out.2
  have hscopes := hagain h.released
  obtain ⟨ledgers', hmaps'⟩ := h.maps
  refine ⟨hreleased, hsame.trans h.same, fun hr => hscopes.trans (h.again hr), fun hr => ?_, ledgers, ?_⟩
  · rw [hscopes]
    exact h.once hr
  · rw [hmaps, hmaps']

theorem commit_ended (r : Reservation) (actualTokens nowMs : ℕ) (c : Controller) :
    r.Ended c (r.commit actualTokens nowMs c) := (r.finish_ended actualTokens nowMs c).drop nowMs

theorem releaseUnused_ended (r : Reservation) (nowMs : ℕ) (c : Controller) :
    r.Ended c (r.releaseUnused nowMs c) := (r.finish_ended 0 nowMs c).drop nowMs

end Reservation

theorem releaseAll_steady (reserved actual nowMs : ℕ) (held : List ScopeRef) (scopes : Heap Scope) :
    SteadyGrowth scopes (releaseAll reserved actual nowMs held scopes) := by
  induction held generalizing scopes with
  | nil => exact .refl Scope.Steady.refl scopes
  | cons i held ih =>
    exact SteadyGrowth.trans
      (.modify Scope.Steady.refl _ _ _ (Scope.release_steady _ reserved actual nowMs)) (ih _)

/-! ### The calls that leave every scope quiet -/

/-- A call that extends the maps and leaves every scope quiet. -/
structure Calm (c c' : Controller) : Prop extends Controller.Extends c c' where
  quiet : QuietGrowth c.scopes c'.scopes

namespace Calm

theorem refl (c : Controller) : Calm c c := ⟨.refl c, .refl _⟩

theorem trans {c c' c'' : Controller} (h : Calm c c') (h' : Calm c' c'') : Calm c c'' :=
  ⟨h.toExtends.trans h'.toExtends, h.quiet.trans h'.quiet⟩

/-- The maps stay, and the scopes are quiet. -/
theorem of_scopes {c : Controller} {scopes : Heap Scope} (g : QuietGrowth c.scopes scopes) :
    Calm c { c with scopes := scopes } := ⟨.of_scopes rfl g.steady, g⟩

/-- Neither the maps nor the scopes change. -/
theorem of_eq {c c' : Controller} (hmaps : c'.maps = c.maps) (hscopes : c'.scopes = c.scopes) :
    Calm c c' := by
  have hquiet : QuietGrowth c.scopes c'.scopes := by
    rw [hscopes]
    exact .refl _
  exact ⟨.of_scopes hmaps hquiet.steady, hquiet⟩

end Calm

namespace Controller

theorem tenantScope_calm (c : Controller) (tenant : TenantId) (ms : ℕ) :
    Calm c (c.tenantScope tenant ms).2 :=
  ⟨c.tenantScope_extends tenant ms, (c.tenantScope_looked tenant ms).quiet⟩

theorem principalScope_calm (c : Controller) (principal : PrincipalId) (ms : ℕ) :
    Calm c (c.principalScope principal ms).2 :=
  ⟨c.principalScope_extends principal ms, (c.principalScope_looked principal ms).quiet⟩

theorem chain_calm (c : Controller) (route : Route) (clock : Readings) :
    Calm c (c.chain route clock).2 := ⟨c.chain_extends route clock, (c.chain_looked route clock).quiet⟩

theorem spendAt_calm (c : Controller) (minorUnits nowMs : ℕ) (i : ScopeRef) :
    Calm c (c.spendAt minorUnits nowMs i) :=
  .of_scopes (.modify Scope.Quiet.refl _ _ _ (Scope.recordSpend_quiet _ minorUnits nowMs))

theorem spendAtLayer_calm (c : Controller) (minorUnits nowMs : ℕ) (found : Option ScopeRef) :
    Calm c (c.spendAtLayer minorUnits nowMs found) := by
  cases found with
  | none => exact .refl c
  | some i => exact c.spendAt_calm minorUnits nowMs i

theorem recordSpend_calm (c : Controller) (tenant : TenantId) (principal : PrincipalId)
    (aliased : Option (AliasId × Operation)) (target : Option TargetId) (minorUnits nowMs : ℕ)
    (clock : Readings) :
    Calm c (c.recordSpend tenant principal aliased target minorUnits nowMs clock) := by
  simp only [recordSpend]
  split
  · exact .refl c
  · refine Calm.trans ?_ (spendAtLayer_calm _ minorUnits nowMs _)
    refine Calm.trans ?_ (spendAtLayer_calm _ minorUnits nowMs _)
    refine Calm.trans ?_ (spendAt_calm _ minorUnits nowMs _)
    refine Calm.trans ?_ (principalScope_calm _ principal clock.principal)
    refine Calm.trans ?_ (spendAt_calm _ minorUnits nowMs _)
    refine Calm.trans ?_ (tenantScope_calm _ tenant clock.tenant)
    exact spendAt_calm _ minorUnits nowMs _

theorem joinAt_calm (c : Controller) (a : Ask) (name : String) (i : ScopeRef) :
    Calm c (c.joinAt a name i).2 := by
  have hjoin := (c.scopes.cell i).joinQueue_quiet a.priority a.route.tenant
  simp only [joinAt]
  split
  · exact .refl c
  generalize (c.scopes.cell i).joinQueue a.priority a.route.tenant = joined at hjoin ⊢
  obtain ⟨result, scope'⟩ := joined
  cases result with
  | ok ticket => exact .of_scopes (.set Scope.Quiet.refl _ _ _ hjoin)
  | error rejection => exact .of_scopes (.set Scope.Quiet.refl _ _ _ hjoin)

theorem joinLine_calm (c : Controller) (a : Ask) (name : String) (clock : Readings) :
    Calm c (c.joinLine a name clock).2 := by
  have hchain := c.chain_calm a.route clock
  simp only [joinLine, scopeNamed]
  split
  · exact hchain
  · exact hchain.trans (joinAt_calm _ a name _)

theorem leaveLine_calm (c : Controller) (scope : ScopeRef) (ticket : ℕ) :
    Calm c (c.leaveLine scope ticket) :=
  .of_scopes (.modify Scope.Quiet.refl _ _ _ (Scope.leaveQueue_quiet _ ticket))

theorem awaitMemory_calm (c : Controller) (a : Ask) (name : String) (nowMs : ℕ) :
    Calm c (c.awaitMemory a name nowMs).2 := by
  simp only [awaitMemory]
  split
  · exact .refl c
  · split <;> split <;> exact .of_eq rfl rfl

theorem attemptMemory_calm (c : Controller) (a : Ask) (ledger : LedgerRef) (bytes : ℕ)
    (priority : PriorityClass) (key name : String) (timedOut : Bool) (nowMs : ℕ) :
    Calm c (c.attemptMemory a ledger bytes priority key name timedOut nowMs).2 := by
  simp only [attemptMemory]
  split
  · exact .of_eq rfl rfl
  · split
    · exact .of_eq rfl rfl
    · split <;> exact .of_eq rfl rfl

end Controller

/-- The reservation a step finishes, if it does. -/
def Op.finishes : Op → Option ℕ
  | .commit id _ _ => some id
  | .releaseUnused id _ => some id
  | .drop id _ => some id
  | _ => none

namespace System

/-! ### Admission -/

/-- The call `k` admitted a request and handed out `r`. -/
structure Admitted (s : System) (k : Call) (r : Reservation) (s' : System) : Prop where
  scopes : r.scopes = (s.controller.chain k.route k.clock).1
  unreleased : r.released = false
  acquired : Acquisitions k.estimatedTokens k.clock.now
    ((s.controller.chain k.route k.clock).2.ticketAt k.holder) r.scopes
    (s.controller.chain k.route k.clock).2.scopes s'.controller.scopes
  reservations : s'.reservations = s.reservations ++ [r]

/-- **What a call of `acquire_chain` does to the system.** -/
theorem acquire_cases (s : System) (k : Call) :
    (s.acquire k).2.clients = s.clients ∧
    s.controller.Extends (s.acquire k).2.controller ∧
    ((∃ r, s.acquire k = (.ok r, (s.acquire k).2) ∧ Admitted s k r (s.acquire k).2) ∨
     (∃ refusal, s.acquire k = (.error refusal, (s.acquire k).2) ∧
       (s.acquire k).2.reservations = s.reservations ∧
       QuietGrowth s.controller.scopes (s.acquire k).2.controller.scopes)) := by
  have hlook := s.controller.chain_calm k.route k.clock
  rcases s.controller.acquireChain_cases k.route k.estimatedTokens k.holder k.memory k.clock with
    ⟨scopes, machine, ledgers, hacquired, hcall⟩ | ⟨refusal, scopes, ledgers, hrestored, -, hcall⟩
  · have hcall' : s.controller.call k = _ := hcall
    simp only [acquire, hcall']
    refine ⟨trivial, hlook.toExtends.trans (.of_scopes rfl hacquired.steady),
      .inl ⟨_, rfl, rfl, rfl, hacquired, rfl⟩⟩
  · have hcall' : s.controller.call k = _ := hcall
    simp only [acquire, hcall']
    exact ⟨trivial, hlook.toExtends.trans (.of_scopes rfl hrestored.quiet.steady),
      .inr ⟨_, rfl, trivial, hlook.quiet.trans hrestored.quiet⟩⟩

/-! ### Moves -/

inductive Move (s : System) (e : Op) (s' : System) : Prop
  /-- Every scope stays quiet; an attempt to finish what does not exist does nothing. -/
  | quiet (op : e.finishes = none ∨ s' = s) (reservations : s'.reservations = s.reservations)
      (scopes : QuietGrowth s.controller.scopes s'.controller.scopes)
  /-- A request is admitted. -/
  | admitted (k : Call) (r : Reservation) (call : s.callOf e = some k) (admitted : Admitted s k r s')
  /-- A reservation is finished. -/
  | finished (id : ℕ) (r r' : Reservation) (op : e.finishes = some id)
      (slot : s.reservations[id]? = some r) (unreleased : r.released = false)
      (released : r'.released = true) (same : r'.scopes = r.scopes)
      (reservations : s'.reservations = s.reservations.set id r')
      (scopes : ∃ actual nowMs, s'.controller.scopes
        = releaseAll r.reservedTokens actual nowMs r.scopes.reverse s.controller.scopes)
  /-- A finished reservation is finished again. -/
  | again (id : ℕ) (r r' : Reservation) (op : e.finishes = some id)
      (slot : s.reservations[id]? = some r) (done : r.released = true)
      (released : r'.released = true) (same : r'.scopes = r.scopes)
      (reservations : s'.reservations = s.reservations.set id r')
      (scopes : s'.controller.scopes = s.controller.scopes)

/-- What a step does: it is a move, and apart from a publication it only adds entries to the maps. -/
structure Effect (s : System) (e : Op) (s' : System) : Prop where
  move : Move s e s'
  maps : (∃ plan nowMs, e = .apply plan nowMs) ∨ s.controller.Extends s'.controller

theorem callOf_finishes {s : System} {e : Op} {k : Call} (h : s.callOf e = some k) :
    e.finishes = none := by
  cases e with
  | reserveFor => rfl
  | request => rfl
  | advance => rfl
  | _ => cases h

namespace Effect

theorem of_calm {s : System} {e : Op} (hop : e.finishes = none) {c : Controller}
    (h : Calm s.controller c) (clients : List Client) :
    Effect s e { s with controller := c, clients := clients } :=
  ⟨.quiet (.inl hop) rfl h.quiet, .inr h.toExtends⟩

/-- A call of `acquire_chain`, whatever becomes of the clients. -/
theorem of_acquire {s : System} {e : Op} (k : Call) (hcall : s.callOf e = some k)
    (clients : List Client) : Effect s e { (s.acquire k).2 with clients := clients } := by
  obtain ⟨-, hextends, ⟨r, -, hadmitted⟩ | ⟨-, -, hsame, hquiet⟩⟩ := s.acquire_cases k
  · exact ⟨.admitted k r hcall ⟨hadmitted.scopes, hadmitted.unreleased, hadmitted.acquired,
      hadmitted.reservations⟩, .inr hextends⟩
  · exact ⟨.quiet (.inl (callOf_finishes hcall)) hsame hquiet, .inr hextends⟩

theorem of_finish {s : System} {e : Op} {id : ℕ} (hop : e.finishes = some id)
    {f : Reservation → Controller → Reservation × Controller}
    (hf : ∀ (r : Reservation) c, r.Ended c (f r c)) : Effect s e (s.finish id f) := by
  simp only [finish]
  split
  · exact ⟨.quiet (.inr rfl) rfl (.refl _), .inr (.refl _)⟩
  · rename_i r hslot
    obtain ⟨hreleased, hsame, hagain, honce, ledgers, hmaps⟩ := hf r s.controller
    have hextends : SteadyGrowth s.controller.scopes (f r s.controller).2.scopes →
        s.controller.Extends (f r s.controller).2 := by
      intro hsteady
      rw [hmaps]
      exact .of_scopes rfl hsteady
    cases hopen : r.released with
    | true =>
      have hscopes := hagain hopen
      refine ⟨.again id r _ hop hslot hopen hreleased hsame rfl hscopes, .inr (hextends ?_)⟩
      rw [hscopes]
      exact .refl Scope.Steady.refl _
    | false =>
      obtain ⟨actual, nowMs, hscopes⟩ := honce hopen
      refine ⟨.finished id r _ hop hslot hopen hreleased hsame rfl ⟨actual, nowMs, hscopes⟩,
        .inr (hextends ?_)⟩
      rw [hscopes]
      exact releaseAll_steady _ _ _ _ _

end Effect

theorem advance_effect {s : System} {id : ℕ} {ask : Ask} {phase : Phase}
    (hclient : s.clients[id]? = some ⟨ask, phase⟩) (timedOut : Bool) (clock : Readings) :
    Effect s (.advance id timedOut clock) (s.advance id ask timedOut clock phase) := by
  cases phase with
  | memoryRefused name => exact .of_calm rfl (s.controller.awaitMemory_calm ask name clock.now) _
  | concurrencyRefused name => exact .of_calm rfl (s.controller.joinLine_calm ask name clock) _
  | waiting scope ticket name => exact .of_calm rfl (.refl _) _
  | woken scope ticket name =>
    exact .of_acquire (ask.retryCall scope ticket clock) (by simp [callOf, hclient]) _
  | leaving scope ticket refusal => exact .of_calm rfl (s.controller.leaveLine_calm scope ticket) _
  | waitingMemory ledger bytes priority key name =>
    exact .of_calm rfl (s.controller.attemptMemory_calm ask ledger bytes priority key name timedOut
      clock.now) _
  | holding ledger hold =>
    exact .of_acquire (ask.heldCall ledger hold clock) (by simp [callOf, hclient]) _
  | returned refusal => exact .of_calm rfl (.refl _) s.clients

/-- **What a step does.** -/
theorem step_effect (s : System) (e : Op) : Effect s e (s.step e) := by
  cases e with
  | apply plan nowMs =>
    exact ⟨.quiet (.inl rfl) rfl (s.controller.apply_published plan nowMs).quiet,
      .inl ⟨plan, nowMs, rfl⟩⟩
  | setDefaultTenantLimits limits =>
    exact .of_calm (c := { s.controller with defaultTenantLimits := limits }) rfl
      (.of_eq rfl rfl) _
  | setDefaultPrincipalLimits limits =>
    exact .of_calm (c := { s.controller with defaultPrincipalLimits := limits }) rfl
      (.of_eq rfl rfl) _
  | reserveFor route estimatedTokens clock =>
    exact .of_acquire ⟨route, estimatedTokens, none, .take .standard none, clock⟩ rfl _
  | request ask clock => exact .of_acquire (ask.firstCall clock) rfl _
  | advance id timedOut clock =>
    simp only [step]
    cases hclient : s.clients[id]? with
    | none => exact .of_calm rfl (.refl _) s.clients
    | some client => exact advance_effect hclient timedOut clock
  | commit id actualTokens nowMs =>
    exact .of_finish (f := (·.commit actualTokens nowMs)) rfl
      fun r c => r.commit_ended actualTokens nowMs c
  | releaseUnused id nowMs =>
    exact .of_finish (f := (·.releaseUnused nowMs)) rfl fun r c => r.releaseUnused_ended nowMs c
  | drop id nowMs => exact .of_finish (f := (·.drop nowMs)) rfl fun r c => r.drop_ended nowMs c
  | tryAdmitBytes inbound nowMs =>
    exact .of_calm (c := (s.controller.tryAdmitBytes inbound nowMs).2) rfl
      (.of_eq rfl rfl) _
  | recordOutputBytes outbound nowMs =>
    exact .of_calm (c := s.controller.recordOutputBytes outbound nowMs) rfl
      (.of_eq rfl rfl) _
  | recordSpend tenant principal aliased target minorUnits nowMs clock =>
    exact .of_calm rfl (s.controller.recordSpend_calm tenant principal aliased target minorUnits nowMs
      clock) _
  | dropMachineClaims key =>
    exact .of_calm (c := s.controller.dropMachineClaims key) rfl (.of_eq rfl rfl) _
  | machineViews nowMs =>
    exact .of_calm (c := (s.controller.machineViews nowMs).2) rfl (.of_eq rfl rfl) _

/-- **Every step is a move.** -/
theorem step_move (s : System) (e : Op) : Move s e (s.step e) := (s.step_effect e).move

/-- **Apart from a publication, a step only adds entries to the maps.** -/
theorem step_extends (s : System) (e : Op) :
    (∃ plan nowMs, e = .apply plan nowMs) ∨ s.controller.Extends (s.step e).controller :=
  (s.step_effect e).maps

/-! ### The maps along a run -/

theorem wired_init (global : ScopeLimits) (nowMs : ℕ) : (init global nowMs).controller.Wired where
  global_lt := Nat.one_pos
  global_name := rfl
  tenants key i h := by simp [init, Controller.new] at h
  principals key i h := by simp [init, Controller.new] at h
  targets key i h := by simp [init, Controller.new] at h
  aliases key i h := by simp [init, Controller.new] at h

theorem wired_step (s : System) (e : Op) (h : s.controller.Wired) : (s.step e).controller.Wired := by
  rcases s.step_extends e with ⟨plan, nowMs, rfl⟩ | hextends
  · exact (s.controller.apply_published plan nowMs).wired h
  · exact hextends.wired h

end System

end HypeLlm.Admission
