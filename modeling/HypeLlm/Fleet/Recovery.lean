import HypeLlm.Fleet.Execution
import HypeLlm.Lib.Runs

/-!
# What is replayed after a restart

A lease is written before its verb is sent, and a record that closes it after the activation is over.
On a restart the log is replayed: a lease without a closing record is reported, and the times of starts
are averaged again.  A closing record names a deployment, not a lease, so it closes every lease of that
deployment; it is written for failures as for successes; and the time it holds is the clock of the
router, not the time the start took.

* `recover` — the replay;
* `FleetRouter.step` — activations and deactivations, and what they write;
* **`recover_agrees`** — the replay agrees with what happened, in every run in which a closing record is
  written while no other lease of the deployment is open, and for starts that went well and took as long
  as the clock then says.
-/

namespace HypeLlm.Fleet

open HypeLlm.Words HypeLlm.Routing HypeLlm.Runs

/-- How an activation or a deactivation ended, as it is written. -/
structure ActivationSummary where
  deployment : DeploymentId
  host : HostId
  outcome : ActivationOutcome
  durationMs : ℕ
  evicted : List DeploymentId
  decisionId : String
  finishedMs : ℕ
  operation : LeaseOperation
  deriving Repr, DecidableEq

inductive FleetRecord where
  | lease (lease : Lease)
  | activation (summary : ActivationSummary)
  deriving Repr, DecidableEq

/-- The average of the last start and what was known. -/
def recordTiming (timings : DeploymentId → Option ℕ) (d : DeploymentId) (elapsedMs : ℕ) : DeploymentId → Option ℕ :=
  Function.update timings d
    (some ((timings d).elim elapsedMs fun previous => satAdd u64Max previous elapsedMs / 2))

/-- What a replay comes to. -/
structure Recovered where
  leases : LeaseId → Option Lease
  timings : DeploymentId → Option ℕ

def Recovered.apply (r : Recovered) : FleetRecord → Recovered
  | .lease lease => { r with leases := Function.update r.leases lease.id (some lease) }
  | .activation summary =>
    { leases := fun id => (r.leases id).filter fun lease => lease.deployment ≠ summary.deployment
      timings :=
        -- Only a start teaches how long a start takes.
        if summary.operation = .activate then recordTiming r.timings summary.deployment summary.durationMs
        else r.timings }

def recover (log : List FleetRecord) : Recovered := log.foldl Recovered.apply ⟨fun _ => none, fun _ => none⟩

theorem recover_concat (log : List FleetRecord) (record : FleetRecord) :
    recover (log ++ [record]) = (recover log).apply record := List.foldl_concat ..

/-! ### The router -/

/-- What a thread that starts or stops a deployment has come to. -/
inductive FleetTask where
  | idle
  /-- The lease is durable, and the plan is executed. -/
  | activating (p : Plan) (lease : Lease) (startedMs : ℕ)
  /-- The deployment serves, and the time it took is learned. -/
  | started (p : Plan) (lease : Lease) (elapsedMs : ℕ)
  | deactivating (host : HostId) (lease : Lease) (startedMs : ℕ)
  deriving Repr, DecidableEq

namespace FleetTask

def isIdle : FleetTask → Bool
  | .idle => true
  | _ => false

/-- The start that is learned and not yet written. -/
def pending? : FleetTask → Option (DeploymentId × ℕ)
  | .started p _ elapsedMs => some (p.deployment, elapsedMs)
  | _ => none

theorem pending?_of_isIdle {t : FleetTask} (h : t.isIdle = true) : t.pending? = none := by
  cases t with
  | idle => rfl
  | activating p lease startedMs => cases h
  | started p lease elapsedMs => cases h
  | deactivating host lease startedMs => cases h

/-- The lease of the thread is one of those written, and for the deployment of its plan. -/
def Holds (written : List Lease) : FleetTask → Prop
  | .idle => True
  | .activating p lease _ | .started p lease _ => lease ∈ written ∧ lease.deployment = p.deployment
  | .deactivating _ lease _ => lease ∈ written

theorem Holds.mono {written written' : List Lease} (hsub : written ⊆ written') {t : FleetTask}
    (h : t.Holds written) : t.Holds written' := by
  cases t with
  | idle => trivial
  | activating p lease startedMs => exact ⟨hsub h.1, h.2⟩
  | started p lease elapsedMs => exact ⟨hsub h.1, h.2⟩
  | deactivating host lease startedMs => exact hsub h

end FleetTask

structure FleetRouter where
  ledger : ActivationLedger
  log : List FleetRecord
  timings : DeploymentId → Option ℕ
  tasks : ℕ → FleetTask
  /-- The lease identifiers drawn. -/
  drawn : List LeaseId
  /-- The leases that were written. -/
  written : List Lease
  /-- The leases for which a closing record was written. -/
  closed : List LeaseId

inductive FleetEvent where
  /-- A plan gets its lease at one time, and is begun at another. -/
  | activate (w : ℕ) (p : Plan) (id : LeaseId) (decisionId : String) (maxConcurrent nowMs startedMs : ℕ)
      (durable : Bool)
  | ready (w : ℕ) (nowMs : ℕ)
  /-- An activation ends; one that failed was rolled back, with success or without, or was not. -/
  | finish (w : ℕ) (rolledBack : Option Bool) (nowMs : ℕ) (durable : Bool)
  | deactivate (w : ℕ) (d : DeploymentId) (host : HostId) (id : LeaseId) (nowMs expiresMs : ℕ) (durable : Bool)
  | deactivated (w : ℕ) (succeeded : Bool) (nowMs : ℕ) (durable : Bool)
  | expireLeases (nowMs : ℕ)
  deriving Repr, DecidableEq

namespace FleetRouter

variable (s : FleetRouter) (w : ℕ)

def boot : FleetRouter := ⟨.empty, [], fun _ => none, fun _ => .idle, [], [], []⟩

def goTo (t : FleetTask) : FleetRouter := { s with tasks := Function.update s.tasks w t }

def draw (id : LeaseId) : FleetRouter := { s with drawn := id :: s.drawn }

def withLedger (ledger : ActivationLedger) : FleetRouter := { s with ledger := ledger }

def writeLease (lease : Lease) : FleetRouter :=
  { s with log := s.log ++ [FleetRecord.lease lease], written := s.written ++ [lease] }

/-- A lease is closed, if the record is durable. -/
def close (lease : Lease) (summary : ActivationSummary) (durable : Bool) : FleetRouter :=
  if durable then { s with log := s.log ++ [FleetRecord.activation summary], closed := lease.id :: s.closed } else s

/-- A lease is acquired and made durable, or released again. -/
def activate (p : Plan) (id : LeaseId) (decisionId : String) (maxConcurrent nowMs startedMs : ℕ) (durable : Bool) :
    FleetRouter :=
  let lease := leaseFor p id decisionId nowMs
  match s.ledger.acquireExclusive (.fromPlan p lease nowMs) maxConcurrent with
  | .error _ => s
  | .ok ledger =>
    if durable then ((s.withLedger ledger).writeLease lease).goTo w (.activating p lease startedMs)
    else s.withLedger (ledger.release id .failed "the lease could not be made durable" nowMs).1

/-- The lease is released, and if that was the first time the closing record is written. -/
def finish (p : Plan) (lease : Lease) (outcome : ActivationOutcome) (nowMs : ℕ) (durable : Bool) : FleetRouter :=
  let released := s.ledger.finish lease.id outcome nowMs
  let s := (s.withLedger released.1).goTo w .idle
  if released.2 = .released then
    s.close lease
      { deployment := p.deployment, host := p.host, outcome := outcome, durationMs := nowMs,
        evicted := p.evictionSet, decisionId := "", finishedMs := nowMs, operation := .activate }
      durable
  else s

/-- The outcome of an activation that failed. -/
def failure : Option Bool → ActivationOutcome
  | none => .failed
  | some true => .failedAndRolledBack
  | some false => .failedAndQuarantined

/-- A deactivation that is over closes its lease. -/
def closeDeactivation (host : HostId) (lease : Lease) (startedMs : ℕ) (succeeded : Bool) (nowMs : ℕ)
    (durable : Bool) : FleetRouter :=
  (s.goTo w .idle).close lease
    { deployment := lease.deployment, host := host, outcome := if succeeded then .succeeded else .failed,
      durationMs := nowMs - startedMs, evicted := [], decisionId := "", finishedMs := nowMs,
      operation := .deactivate }
    durable

def expireLeases (nowMs : ℕ) : FleetRouter :=
  s.withLedger ((s.ledger.expired nowMs).foldl
    (fun ledger id =>
      (ledger.release id .cancelled "the lease expired before the activation reported back" nowMs).1) s.ledger)

/-- One step.  No identifier is drawn twice. -/
def step : FleetEvent → FleetRouter
  | .activate w p id decisionId maxConcurrent nowMs startedMs durable =>
    if (s.tasks w).isIdle ∧ id ∉ s.drawn then
      (s.draw id).activate w p id decisionId maxConcurrent nowMs startedMs durable
    else s
  | .ready w nowMs =>
    match s.tasks w with
    | .activating p lease startedMs =>
      { s with timings := recordTiming s.timings p.deployment (nowMs - startedMs) }.goTo w
        (.started p lease (nowMs - startedMs))
    | _ => s
  | .finish w rolledBack nowMs durable =>
    match s.tasks w with
    | .activating p lease _ => s.finish w p lease (failure rolledBack) nowMs durable
    | .started p lease _ => s.finish w p lease .succeeded nowMs durable
    | _ => s
  | .deactivate w d host id nowMs expiresMs durable =>
    if (s.tasks w).isIdle ∧ id ∉ s.drawn ∧ durable = true then
      ((s.draw id).writeLease ⟨id, d, .deactivate, nowMs, expiresMs, ""⟩).goTo w
        (.deactivating host ⟨id, d, .deactivate, nowMs, expiresMs, ""⟩ nowMs)
    else s
  | .deactivated w succeeded nowMs durable =>
    match s.tasks w with
    | .deactivating host lease startedMs => s.closeDeactivation w host lease startedMs succeeded nowMs durable
    | _ => s
  | .expireLeases nowMs => s.expireLeases nowMs

/-! ### What recovery is to agree with -/

/-- **The replay agrees with what happened**: it leaves open the leases that no record closed, and knows
the time of the starts of a deployment, once none of them is still to be written. -/
structure Agrees : Prop where
  unclosed : ∀ id lease,
    (recover s.log).leases id = some lease ↔ lease ∈ s.written ∧ lease.id = id ∧ id ∉ s.closed
  timings : ∀ d, (∀ w elapsedMs, (s.tasks w).pending? ≠ some (d, elapsedMs)) →
    (recover s.log).timings d = s.timings d

/-- Every other lease of the deployment has its closing record. -/
def OnlyOpen (lease : Lease) : Prop :=
  ∀ other ∈ s.written, other.deployment = lease.deployment → other.id ≠ lease.id → other.id ∈ s.closed

instance (lease : Lease) : Decidable (s.OnlyOpen lease) :=
  inferInstanceAs (Decidable (∀ other ∈ s.written, _))

/-- The lease is still held, and what is written now is durable. -/
def Writes (lease : Lease) (durable : Bool) : Prop :=
  s.ledger.released lease.id = none ∧ (s.ledger.find lease.id).isSome ∧ durable = true

instance (lease : Lease) (durable : Bool) : Decidable (s.Writes lease durable) :=
  inferInstanceAs (Decidable (_ ∧ _))

/-- The steps after which the replay is still right. -/
def Truthful : FleetEvent → Prop
  | .ready w _ =>
    match s.tasks w with
    | .activating p _ _ => ∀ w' elapsedMs, (s.tasks w').pending? ≠ some (p.deployment, elapsedMs)
    | _ => True
  | .finish w _ nowMs durable =>
    match s.tasks w with
    -- a failure is written with a time as a success is
    | .activating _ lease _ => ¬ s.Writes lease durable
    -- what is written is the clock
    | .started _ lease elapsedMs => s.Writes lease durable ∧ elapsedMs = nowMs ∧ s.OnlyOpen lease
    | _ => True
  | .deactivated w _ _ durable =>
    match s.tasks w with
    | .deactivating _ lease _ => durable = true → s.OnlyOpen lease
    | _ => True
  | _ => True

/-! ### Leases -/

/-- What the log says of leases, and whose they are. -/
structure LeasesSound : Prop where
  drawn : ∀ lease ∈ s.written, lease.id ∈ s.drawn
  closedDrawn : ∀ id ∈ s.closed, id ∈ s.drawn
  unique : ∀ lease ∈ s.written, ∀ other ∈ s.written, lease.id = other.id → lease = other
  unclosed : ∀ id lease,
    (recover s.log).leases id = some lease ↔ lease ∈ s.written ∧ lease.id = id ∧ id ∉ s.closed
  held : ∀ w, (s.tasks w).Holds s.written

variable {s w}

theorem LeasesSound.draw (h : s.LeasesSound) (id : LeaseId) : (s.draw id).LeasesSound where
  drawn lease hlease := List.mem_cons_of_mem _ (h.drawn lease hlease)
  closedDrawn closed hclosed := List.mem_cons_of_mem _ (h.closedDrawn closed hclosed)
  unique := h.unique
  unclosed := h.unclosed
  held := h.held

theorem LeasesSound.withLedger (h : s.LeasesSound) (ledger : ActivationLedger) :
    (s.withLedger ledger).LeasesSound :=
  ⟨h.drawn, h.closedDrawn, h.unique, h.unclosed, h.held⟩

theorem LeasesSound.learn (h : s.LeasesSound) (timings : DeploymentId → Option ℕ) :
    LeasesSound { s with timings := timings } :=
  ⟨h.drawn, h.closedDrawn, h.unique, h.unclosed, h.held⟩

theorem LeasesSound.goTo (h : s.LeasesSound) (t : FleetTask) (ht : t.Holds s.written) :
    (s.goTo w t).LeasesSound where
  drawn := h.drawn
  closedDrawn := h.closedDrawn
  unique := h.unique
  unclosed := h.unclosed
  held w' := by
    show (Function.update s.tasks w t w').Holds s.written
    by_cases hw : w' = w
    · rw [hw, Function.update_self]
      exact ht
    · rw [Function.update_of_ne hw]
      exact h.held w'

/-- A lease with an identifier that was never drawn is open from then on. -/
theorem LeasesSound.writeLease (h : s.LeasesSound) (lease : Lease) (hfresh : lease.id ∉ s.drawn) :
    ((s.draw lease.id).writeLease lease).LeasesSound where
  drawn other hother := by
    rcases List.mem_append.1 hother with hother | hother
    · exact List.mem_cons_of_mem _ (h.drawn other hother)
    · rw [List.mem_singleton.1 hother]
      exact List.mem_cons_self
  closedDrawn id hid := List.mem_cons_of_mem _ (h.closedDrawn id hid)
  unique a ha b hb hab := by
    rcases List.mem_append.1 ha with ha | ha <;> rcases List.mem_append.1 hb with hb | hb
    · exact h.unique a ha b hb hab
    · rw [List.mem_singleton.1 hb] at hab
      exact absurd (hab ▸ h.drawn a ha) hfresh
    · rw [List.mem_singleton.1 ha] at hab
      exact absurd (hab ▸ h.drawn b hb) hfresh
    · rw [List.mem_singleton.1 ha, List.mem_singleton.1 hb]
  unclosed id other := by
    show (recover (s.log ++ [FleetRecord.lease lease])).leases id = some other ↔
      other ∈ s.written ++ [lease] ∧ other.id = id ∧ id ∉ s.closed
    rw [recover_concat]
    show Function.update (recover s.log).leases lease.id (some lease) id = some other ↔ _
    by_cases hid : id = lease.id
    · subst hid
      rw [Function.update_self, Option.some.injEq]
      constructor
      · rintro rfl
        exact ⟨by simp, rfl, fun hclosed => hfresh (h.closedDrawn _ hclosed)⟩
      · rintro ⟨hother, hsame, -⟩
        rcases List.mem_append.1 hother with hother | hother
        · exact absurd (hsame ▸ h.drawn other hother) hfresh
        · exact (List.mem_singleton.1 hother).symm
    · rw [Function.update_of_ne hid, h.unclosed]
      refine and_congr_left fun hother => ?_
      have hne : other ≠ lease := fun heq => hid (by rw [← hother.1, heq])
      simp [hne]
  held w := (h.held w).mono (List.subset_append_left ..)

/-- A closing record closes the leases of the deployment, so there is to be one only. -/
theorem LeasesSound.close (h : s.LeasesSound) {lease : Lease} (hlease : lease ∈ s.written)
    {summary : ActivationSummary} (hsummary : summary.deployment = lease.deployment) {durable : Bool}
    (honly : durable = true → s.OnlyOpen lease) : (s.close lease summary durable).LeasesSound := by
  rw [FleetRouter.close]
  split
  · rename_i hdurable
    have honly : s.OnlyOpen lease := honly hdurable
    refine ⟨h.drawn, ?_, h.unique, ?_, h.held⟩
    · intro id hid
      rcases List.mem_cons.1 hid with rfl | hid
      · exact h.drawn lease hlease
      · exact h.closedDrawn id hid
    · intro id other
      show (recover (s.log ++ [FleetRecord.activation summary])).leases id = some other ↔
        other ∈ s.written ∧ other.id = id ∧ id ∉ lease.id :: s.closed
      rw [recover_concat]
      show ((recover s.log).leases id).filter (fun lease => lease.deployment ≠ summary.deployment) =
        some other ↔ _
      rw [Option.filter_eq_some_iff, h.unclosed, List.mem_cons, not_or, decide_eq_true_eq, hsummary]
      constructor
      · rintro ⟨⟨hother, hid, hopen⟩, hdeployment⟩
        refine ⟨hother, hid, ?_, hopen⟩
        intro hsame
        exact hdeployment (by rw [h.unique other hother lease hlease (hid.trans hsame)])
      · rintro ⟨hother, rfl, hne, hopen⟩
        exact ⟨⟨hother, rfl, hopen⟩, fun hdeployment => hopen (honly other hother hdeployment hne)⟩
  · exact h

/-! ### Times -/

/-- What the log says of times, and what is not yet in it. -/
structure TimingsSound (s : FleetRouter) : Prop where
  rest : ∀ d, (∀ w elapsedMs, (s.tasks w).pending? ≠ some (d, elapsedMs)) →
    (recover s.log).timings d = s.timings d
  learned : ∀ w d elapsedMs, (s.tasks w).pending? = some (d, elapsedMs) →
    s.timings d = recordTiming (recover s.log).timings d elapsedMs d
  alone : ∀ w w' d elapsedMs elapsedMs', (s.tasks w).pending? = some (d, elapsedMs) →
    (s.tasks w').pending? = some (d, elapsedMs') → w = w'

/-- Whatever concerns no time leaves the times as they are. -/
theorem TimingsSound.congr {s' : FleetRouter} (h : s.TimingsSound)
    (hrecover : (recover s'.log).timings = (recover s.log).timings) (htimings : s'.timings = s.timings)
    (htasks : ∀ w, (s'.tasks w).pending? = (s.tasks w).pending?) : s'.TimingsSound where
  rest d hd := by
    rw [hrecover, htimings]
    exact h.rest d fun w elapsedMs => by rw [← htasks]; exact hd w elapsedMs
  learned w d elapsedMs hw := by
    rw [hrecover, htimings]
    exact h.learned w d elapsedMs (htasks w ▸ hw)
  alone w w' d elapsedMs elapsedMs' hw hw' :=
    h.alone w w' d elapsedMs elapsedMs' (htasks w ▸ hw) (htasks w' ▸ hw')

theorem recordTiming_self {timings timings' : DeploymentId → Option ℕ} {d : DeploymentId}
    (h : timings d = timings' d) (elapsedMs : ℕ) :
    recordTiming timings d elapsedMs d = recordTiming timings' d elapsedMs d := by
  rw [recordTiming, recordTiming, Function.update_self, Function.update_self, h]

theorem recordTiming_of_ne {d other : DeploymentId} (h : other ≠ d) (timings : DeploymentId → Option ℕ)
    (elapsedMs : ℕ) : recordTiming timings d elapsedMs other = timings other :=
  Function.update_of_ne h _ _

theorem pending?_goTo_self (t : FleetTask) : ((s.goTo w t).tasks w).pending? = t.pending? := by
  show (Function.update s.tasks w t w).pending? = t.pending?
  rw [Function.update_self]

theorem tasks_goTo_of_ne {w' : ℕ} (hw : w' ≠ w) (t : FleetTask) : (s.goTo w t).tasks w' = s.tasks w' :=
  Function.update_of_ne hw _ _

/-- The thread had nothing to write of times and has nothing. -/
theorem pending?_goTo {t : FleetTask} (ht : t.pending? = none) (hw : (s.tasks w).pending? = none) (w' : ℕ) :
    ((s.goTo w t).tasks w').pending? = (s.tasks w').pending? := by
  by_cases hww : w' = w
  · rw [hww, pending?_goTo_self, ht, hw]
  · rw [tasks_goTo_of_ne hww]

theorem TimingsSound.withLedger (h : s.TimingsSound) (ledger : ActivationLedger) :
    (s.withLedger ledger).TimingsSound :=
  h.congr rfl rfl fun _ => rfl

theorem TimingsSound.writeLease (h : s.TimingsSound) (lease : Lease) : (s.writeLease lease).TimingsSound := by
  refine h.congr ?_ rfl fun _ => rfl
  show (recover (s.log ++ [FleetRecord.lease lease])).timings = (recover s.log).timings
  rw [recover_concat]
  rfl

theorem TimingsSound.goTo (h : s.TimingsSound) (t : FleetTask) (ht : t.pending? = none)
    (hw : (s.tasks w).pending? = none) : (s.goTo w t).TimingsSound :=
  h.congr rfl rfl (pending?_goTo ht hw)

/-- A start is learned while no other start of the deployment is still to be written. -/
theorem TimingsSound.ready (h : s.TimingsSound) {p : Plan} {lease : Lease} {elapsedMs : ℕ}
    (hw : (s.tasks w).pending? = none)
    (halone : ∀ w' elapsedMs, (s.tasks w').pending? ≠ some (p.deployment, elapsedMs)) :
    TimingsSound ({ s with timings := recordTiming s.timings p.deployment elapsedMs }.goTo w
      (.started p lease elapsedMs)) := by
  have hold : ∀ w' d e, w' ≠ w →
      ((({ s with timings := recordTiming s.timings p.deployment elapsedMs } : FleetRouter).goTo w
        (.started p lease elapsedMs)).tasks w').pending? = some (d, e) →
      (s.tasks w').pending? = some (d, e) ∧ d ≠ p.deployment := by
    intro w' d e hne hpending
    rw [tasks_goTo_of_ne hne] at hpending
    exact ⟨hpending, fun hd => halone w' e (hd ▸ hpending)⟩
  refine ⟨?_, ?_, ?_⟩
  · intro d hd
    have hdne : d ≠ p.deployment := by
      rintro rfl
      exact hd w elapsedMs (by rw [pending?_goTo_self]; rfl)
    show (recover s.log).timings d = recordTiming s.timings p.deployment elapsedMs d
    rw [recordTiming_of_ne hdne]
    refine h.rest d fun w' e hpending => ?_
    have hne : w' ≠ w := by
      rintro rfl
      rw [hw] at hpending
      cases hpending
    exact hd w' e (by rw [tasks_goTo_of_ne hne]; exact hpending)
  · intro w' d e hpending
    show recordTiming s.timings p.deployment elapsedMs d = recordTiming (recover s.log).timings d e d
    by_cases hww : w' = w
    · rw [hww, pending?_goTo_self, FleetTask.pending?, Option.some.injEq, Prod.mk.injEq] at hpending
      obtain ⟨rfl, rfl⟩ := hpending
      exact recordTiming_self (h.rest _ halone).symm elapsedMs
    · obtain ⟨hbefore, hdne⟩ := hold w' d e hww hpending
      rw [recordTiming_of_ne hdne]
      exact h.learned w' d e hbefore
  · intro w₁ w₂ d e₁ e₂ h₁ h₂
    by_cases hw₁ : w₁ = w <;> by_cases hw₂ : w₂ = w
    · rw [hw₁, hw₂]
    · rw [hw₁, pending?_goTo_self, FleetTask.pending?, Option.some.injEq, Prod.mk.injEq] at h₁
      exact absurd h₁.1.symm (hold w₂ d e₂ hw₂ h₂).2
    · rw [hw₂, pending?_goTo_self, FleetTask.pending?, Option.some.injEq, Prod.mk.injEq] at h₂
      exact absurd h₂.1.symm (hold w₁ d e₁ hw₁ h₁).2
    · exact h.alone w₁ w₂ d e₁ e₂ (hold w₁ d e₁ hw₁ h₁).1 (hold w₂ d e₂ hw₂ h₂).1

/-- A start is written as it was learned. -/
theorem TimingsSound.finish (h : s.TimingsSound) {p : Plan} {lease : Lease} {elapsedMs : ℕ}
    (hw : s.tasks w = .started p lease elapsedMs) {s' : FleetRouter}
    (hrecover : (recover s'.log).timings = recordTiming (recover s.log).timings p.deployment elapsedMs)
    (htimings : s'.timings = s.timings) (htasks : s'.tasks = Function.update s.tasks w .idle) :
    s'.TimingsSound := by
  have hpending : (s.tasks w).pending? = some (p.deployment, elapsedMs) := by rw [hw]; rfl
  have hidle : (s'.tasks w).pending? = none := by rw [htasks, Function.update_self]; rfl
  have hsame : ∀ w', w' ≠ w → s'.tasks w' = s.tasks w' := fun w' hne => by
    rw [htasks, Function.update_of_ne hne]
  have hne : ∀ w' d e, (s'.tasks w').pending? = some (d, e) → w' ≠ w := by
    rintro w' d e he rfl
    rw [hidle] at he
    cases he
  refine ⟨?_, ?_, ?_⟩
  · intro d hd
    rw [hrecover, htimings]
    by_cases hdp : d = p.deployment
    · rw [hdp]
      exact (h.learned w _ _ hpending).symm
    · rw [recordTiming_of_ne hdp]
      refine h.rest d fun w' e he => ?_
      by_cases hww : w' = w
      · rw [hww, hpending, Option.some.injEq, Prod.mk.injEq] at he
        exact hdp he.1.symm
      · exact hd w' e (by rw [hsame w' hww]; exact he)
  · intro w' d e he
    have hww := hne w' d e he
    rw [hsame w' hww] at he
    have hdp : d ≠ p.deployment := by
      rintro rfl
      exact hww (h.alone w' w _ e elapsedMs he hpending)
    rw [htimings, h.learned w' d e he]
    refine recordTiming_self ?_ e
    rw [hrecover, recordTiming_of_ne hdp]
  · intro w₁ w₂ d e₁ e₂ h₁ h₂
    rw [hsame w₁ (hne w₁ d e₁ h₁)] at h₁
    rw [hsame w₂ (hne w₂ d e₂ h₂)] at h₂
    exact h.alone w₁ w₂ d e₁ e₂ h₁ h₂

/-! ### One step -/

theorem finish_released (l : ActivationLedger) (lease : LeaseId) (outcome : ActivationOutcome) (nowMs : ℕ) :
    (l.finish lease outcome nowMs).2 = .released ↔ l.released lease = none ∧ (l.find lease).isSome := by
  rw [ActivationLedger.finish, ActivationLedger.release]
  cases l.released lease with
  | some outcome => simp
  | none =>
    cases l.find lease with
    | none => simp
    | some r => simp

/-- Without a record the log stays, and with one it is written as what the router learned. -/
theorem finish_eq (p : Plan) (lease : Lease) (outcome : ActivationOutcome) (nowMs : ℕ) (durable : Bool) :
    s.finish w p lease outcome nowMs durable =
      let s' := (s.withLedger (s.ledger.finish lease.id outcome nowMs).1).goTo w .idle
      if s.Writes lease durable then
        s'.close lease
          { deployment := p.deployment, host := p.host, outcome := outcome, durationMs := nowMs,
            evicted := p.evictionSet, decisionId := "", finishedMs := nowMs, operation := .activate } true
      else s' := by
  simp only [FleetRouter.finish, finish_released, Writes]
  cases durable <;> simp [FleetRouter.close]

/-- What holds while the steps are truthful. -/
structure Sound (s : FleetRouter) : Prop where
  leases : s.LeasesSound
  timings : s.TimingsSound

theorem Sound.draw (h : s.Sound) (id : LeaseId) : (s.draw id).Sound :=
  ⟨h.leases.draw id, h.timings.congr rfl rfl fun _ => rfl⟩

theorem Sound.activate (h : s.Sound) (hidle : (s.tasks w).isIdle) (p : Plan) {id : LeaseId}
    (hid : id ∉ s.drawn) (decisionId : String) (maxConcurrent nowMs startedMs : ℕ) (durable : Bool) :
    ((s.draw id).activate w p id decisionId maxConcurrent nowMs startedMs durable).Sound := by
  have hdrawn : (s.draw id).Sound := h.draw id
  have hpending : (s.tasks w).pending? = none := FleetTask.pending?_of_isIdle hidle
  rw [FleetRouter.activate]
  split
  · exact hdrawn
  · rename_i ledger _
    split
    · have hwritten := (h.leases.withLedger ledger).writeLease (leaseFor p id decisionId nowMs) hid
      exact ⟨hwritten.goTo _ ⟨List.mem_append_right _ List.mem_cons_self, rfl⟩,
        ((hdrawn.timings.withLedger ledger).writeLease _).goTo _ rfl hpending⟩
    · exact ⟨hdrawn.leases.withLedger _, hdrawn.timings.withLedger _⟩

/-- **A truthful step** keeps the log right. -/
theorem Sound.step (h : s.Sound) (e : FleetEvent) (he : s.Truthful e) : (s.step e).Sound := by
  cases e with
  | activate w p id decisionId maxConcurrent nowMs startedMs durable =>
    rw [FleetRouter.step]
    split
    · rename_i hfree
      exact h.activate hfree.1 p hfree.2 decisionId maxConcurrent nowMs startedMs durable
    · exact h
  | ready w nowMs =>
    rw [FleetRouter.step]
    rw [Truthful] at he
    have hheld := h.leases.held w
    cases hw : s.tasks w with
    | activating p lease startedMs =>
      rw [hw] at he hheld
      exact ⟨(h.leases.learn _).goTo _ hheld, h.timings.ready (by rw [hw]; rfl) he⟩
    | idle => exact h
    | started p lease elapsedMs => exact h
    | deactivating host lease startedMs => exact h
  | finish w rolledBack nowMs durable =>
    rw [FleetRouter.step]
    rw [Truthful] at he
    have hheld := h.leases.held w
    cases hw : s.tasks w with
    | activating p lease startedMs =>
      rw [hw] at he
      show (s.finish w p lease (failure rolledBack) nowMs durable).Sound
      rw [finish_eq, if_neg he]
      have hpending : (s.tasks w).pending? = none := by rw [hw]; rfl
      exact ⟨(h.leases.withLedger _).goTo .idle trivial, (h.timings.withLedger _).goTo .idle rfl hpending⟩
    | started p lease elapsedMs =>
      rw [hw] at he hheld
      obtain ⟨hwrites, rfl, honly⟩ := he
      show (s.finish w p lease .succeeded elapsedMs durable).Sound
      rw [finish_eq, if_pos hwrites]
      have hgo := (h.leases.withLedger (s.ledger.finish lease.id .succeeded elapsedMs).1).goTo
        (w := w) .idle trivial
      refine ⟨hgo.close hheld.1 hheld.2.symm fun _ => honly, ?_⟩
      refine h.timings.finish hw ?_ rfl rfl
      show (recover (s.log ++ [FleetRecord.activation _])).timings = _
      rw [recover_concat]
      rfl
    | idle => exact h
    | deactivating host lease startedMs => exact h
  | deactivate w d host id nowMs expiresMs durable =>
    rw [FleetRouter.step]
    split
    · rename_i hfree
      have hwritten := h.leases.writeLease ⟨id, d, .deactivate, nowMs, expiresMs, ""⟩ hfree.2.1
      exact ⟨hwritten.goTo _ (List.mem_append_right _ List.mem_cons_self),
        ((h.draw id).timings.writeLease _).goTo _ rfl (FleetTask.pending?_of_isIdle hfree.1)⟩
    · exact h
  | deactivated w succeeded nowMs durable =>
    rw [FleetRouter.step]
    rw [Truthful] at he
    have hheld := h.leases.held w
    cases hw : s.tasks w with
    | deactivating host lease startedMs =>
      rw [hw] at he hheld
      refine ⟨(h.leases.goTo .idle trivial).close hheld rfl he, ?_⟩
      have hgo : (s.goTo w .idle).TimingsSound := h.timings.goTo .idle rfl (by rw [hw]; rfl)
      show ((s.goTo w .idle).close lease _ durable).TimingsSound
      rw [FleetRouter.close]
      split
      · refine hgo.congr ?_ rfl fun _ => rfl
        show (recover (s.log ++ [FleetRecord.activation _])).timings = (recover s.log).timings
        rw [recover_concat]
        rfl
      · exact hgo
    | idle => exact h
    | activating p lease startedMs => exact h
    | started p lease elapsedMs => exact h
  | expireLeases nowMs => exact ⟨h.leases.withLedger _, h.timings.withLedger _⟩

theorem Sound.boot : FleetRouter.boot.Sound where
  leases :=
    { drawn := fun _ h => nomatch h
      closedDrawn := fun _ h => nomatch h
      unique := fun _ h => nomatch h
      unclosed := fun _ _ => ⟨fun h => (nomatch h), fun h => (nomatch h.1)⟩
      held := fun _ => trivial }
  timings :=
    { rest := fun _ _ => rfl
      learned := fun _ _ _ h => nomatch h
      alone := fun _ _ _ _ _ h => nomatch h }

/-- **Recovery agrees with what happened** in every run whose steps are all truthful. -/
theorem recover_agrees (es : List FleetEvent) (h : StepsMeet step Truthful boot es) :
    (run step boot es).Agrees := by
  have hsound : (run step boot es).Sound :=
    run_invariant_of_steps (P := Sound) (fun _ e hs he => hs.step e he) Sound.boot es h
  exact ⟨hsound.leases.unclosed, hsound.timings.rest⟩

namespace Sample

def start : Plan := ⟨"c", "host", [.activate "c"], 1000⟩

/-- One thread starts the deployment as the clock starts, and stops it later. -/
def startAndStop : List FleetEvent :=
  [.activate 0 start "l-0" "decision" 1 0 0 true, .ready 0 40, .finish 0 none 40 true,
    .deactivate 0 "c" "host" "l-1" 50 100 true, .deactivated 0 true 60 true]

theorem startAndStop_truthful : StepsMeet step Truthful boot startAndStop := by
  refine ⟨trivial, ?_, ?_, trivial, ?_, trivial⟩
  · show ∀ w' elapsedMs, (Function.update (fun _ => FleetTask.idle) 0 _ w').pending? ≠ some ("c", elapsedMs)
    intro w' elapsedMs
    by_cases hw : w' = 0
    · rw [hw, Function.update_self]
      exact fun h => nomatch h
    · rw [Function.update_of_ne hw]
      exact fun h => nomatch h
  · show Writes _ _ true ∧ 40 - 0 = 40 ∧ OnlyOpen _ _
    exact ⟨by decide +kernel, rfl, by decide +kernel⟩
  · show true = true → OnlyOpen _ _
    exact fun _ => by decide +kernel

theorem start_and_stop_agree : (run step boot startAndStop).Agrees ∧
    (run step boot startAndStop).timings "c" = some 40 :=
  ⟨recover_agrees startAndStop startAndStop_truthful, by decide +kernel⟩

/-- A start that takes the time from 1000 to 1040. -/
def late : List FleetEvent :=
  [.activate 0 start "l-0" "decision" 1 1000 1000 true, .ready 0 1040, .finish 0 none 1050 true]

/-- The record that closes a start is lost, and the next start of the deployment closes both. -/
def lost : List FleetEvent :=
  [.activate 0 start "l-0" "decision" 1 1000 1000 true, .ready 0 1040, .finish 0 none 1050 false,
    .activate 0 start "l-1" "decision" 1 2000 2000 true, .ready 0 2040, .finish 0 none 2050 true]

/-- The time that is replayed is when the start was over, and a lease that no record closed is not
reported. -/
theorem recover_disagrees :
    ((run step boot late).timings "c" = some 40 ∧
        (recover (run step boot late).log).timings "c" = some 1050 ∧ ¬(run step boot late).Agrees) ∧
      ((run step boot lost).written.map Lease.id = ["l-0", "l-1"] ∧ (run step boot lost).closed = ["l-1"] ∧
        (recover (run step boot lost).log).leases "l-0" = none ∧ ¬(run step boot lost).Agrees) := by
  have hlive : (run step boot late).timings "c" = some 40 := by decide +kernel
  have hreplayed : (recover (run step boot late).log).timings "c" = some 1050 := by decide +kernel
  have hwritten : (run step boot lost).written.map Lease.id = ["l-0", "l-1"] := by decide +kernel
  have hclosed : (run step boot lost).closed = ["l-1"] := by decide +kernel
  have hdropped : (recover (run step boot lost).log).leases "l-0" = none := by decide +kernel
  refine ⟨⟨hlive, hreplayed, fun h => ?_⟩, hwritten, hclosed, hdropped, fun h => ?_⟩
  · have hrest : ∀ w elapsedMs, ((run step boot late).tasks w).pending? ≠ some ("c", elapsedMs) := by
      intro w elapsedMs
      show (Function.update (Function.update (Function.update (fun _ => FleetTask.idle) 0 _) 0 _) 0
        FleetTask.idle w).pending? ≠ some ("c", elapsedMs)
      by_cases hw : w = 0
      · rw [hw, Function.update_self]
        exact fun h => nomatch h
      · rw [Function.update_of_ne hw, Function.update_of_ne hw, Function.update_of_ne hw]
        exact fun h => nomatch h
    have hagree := h.timings "c" hrest
    rw [hlive, hreplayed] at hagree
    cases hagree
  · have hmem : "l-0" ∈ (run step boot lost).written.map Lease.id := by
      rw [hwritten]
      exact List.mem_cons_self
    obtain ⟨lease, hlease, hid⟩ := List.mem_map.1 hmem
    have hopen := (h.unclosed "l-0" lease).2 ⟨hlease, hid, by rw [hclosed]; decide⟩
    rw [hdropped] at hopen
    cases hopen

end Sample

end FleetRouter

end HypeLlm.Fleet
