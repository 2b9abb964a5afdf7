import HypeLlm.Fleet.AgentVerbs

/-!
# Plans against the agent

The router executes the steps of a plan one after another, each by a verb and by polling the activation
that the verb gave until it has ended.  Every verb that starts or stops a deployment carries the lease
of the plan; so does every verb of the rollback that follows a failure.  The agent gives one activation
for one lease.  Of all these verbs it therefore carries out the first, and answers the others with the
activation of the first, which has ended well.

* **`steps_take_effect_iff`** — every stop and the start of a plan are run, in order, and every start
  the rollback asks for is run, if and only if the plan evicts nothing;
* `swap_only_stops` — a plan that evicts one deployment for another stops the one, does not start the
  other, and does not start the one again.
-/

namespace HypeLlm.Fleet

open HypeLlm.Runs

inductive Transfer where
  | fetch (artifact : ArtifactId) (host : HostId)
  | copy (artifact : ArtifactId) (source dest : HostId)
  deriving Repr, DecidableEq

def Transfer.step : Transfer → PlanStep
  | .fetch artifact host => .fetch artifact host
  | .copy artifact source dest => .copy artifact source dest

/-- The plans there are: evictions, an artifact to be had, and the activation. -/
def Plan.of (evictions : List DeploymentId) (transfer : Option Transfer) (deployment : DeploymentId)
    (host : HostId) (etaMs : ℕ) : Plan :=
  ⟨deployment, host, evictions.map PlanStep.evict ++ (transfer.map Transfer.step).toList ++ [PlanStep.activate deployment],
    etaMs⟩

@[simp] theorem Plan.evictionSet_of (evictions : List DeploymentId) (transfer : Option Transfer)
    (deployment : DeploymentId) (host : HostId) (etaMs : ℕ) :
    (Plan.of evictions transfer deployment host etaMs).evictionSet = evictions := by
  cases transfer with
  | none => simp [Plan.evictionSet, Plan.of]
  | some t => cases t <;> simp [Plan.evictionSet, Plan.of, Transfer.step]

/-- What the router reads of its own configuration. -/
structure RouterView where
  configured : DeploymentId → Bool
  /-- It keeps the checksum of the artifact. -/
  keptChecksum : ArtifactId → Bool

inductive PlanFailure where
  | unavailable
  | activationFailed
  deriving Repr, DecidableEq

namespace Agent

variable (table : Table) (view : RouterView) (succeeds : Command → Bool) (lease : LeaseId)

/-- What the state of an ended activation means to the router. -/
def verdict : WorkState → Except PlanFailure Unit
  | .ready => .ok ()
  | .stopped => .ok ()
  | _ => .error .activationFailed

/-- Poll an activation until it has ended. -/
def awaitTerminal (s : Agent) (id : ℕ) : Except PlanFailure Unit × Agent :=
  let t := s.runThread table succeeds id
  match t.find id with
  | none => (.error .unavailable, t)
  | some a => (verdict a.state, t)

/-- The deployment is observed to serve: no verb about it is under way, its container runs, and it
answers the probe. -/
def observedServing (s : Agent) (deployment : DeploymentId) : Bool :=
  (s.states deployment).all WorkState.terminal && s.running deployment && succeeds (.probe deployment)

/-- A verb, and the wait for its activation. -/
def callAndAwait (reply : Except VerbError ℕ × Agent) : Except PlanFailure Unit × Agent :=
  match reply with
  | (.error _, s) => (.error .unavailable, s)
  | (.ok id, s) => s.awaitTerminal table succeeds id

/-- Where a step went well, one more thing has to be observed. -/
def confirm (result : Except PlanFailure Unit × Agent) (check : Agent → Bool) :
    Except PlanFailure Unit × Agent :=
  match result with
  | (.ok (), s) => (if check s then .ok () else .error .activationFailed, s)
  | failed => failed

def runStep (s : Agent) : PlanStep → Except PlanFailure Unit × Agent
  | .evict victim =>
    if view.configured victim then
      callAndAwait table succeeds (s.startVerb table victim lease false)
    else (.error .unavailable, s)
  | .fetch artifact host => callAndAwait table succeeds (s.fetch table artifact host)
  | .copy artifact source dest =>
    if view.keptChecksum artifact then
      confirm (callAndAwait table succeeds (s.copy table artifact source dest)) fun t =>
        t.images artifact dest
    else (.error .unavailable, s)
  | .activate deployment =>
    confirm (callAndAwait table succeeds (s.startVerb table deployment lease true)) fun t =>
      t.observedServing succeeds deployment

/-- The steps in order, up to the first that fails. -/
def runSteps (s : Agent) : List PlanStep → Except PlanFailure Unit × Agent
  | [] => (.ok (), s)
  | step :: steps =>
    match s.runStep table view succeeds lease step with
    | (.ok (), t) => runSteps t steps
    | failed => failed

def runPlan (s : Agent) (p : Plan) : Except PlanFailure Unit × Agent :=
  s.runSteps table view succeeds lease p.steps

/-- One `ACTIVATE` for each victim that is configured and can be paid for; the answers are not waited
for.  Gives the victims it was sent for. -/
def rollback (s : Agent) (budget : ℕ) : List DeploymentId → List DeploymentId × Agent
  | [] => ([], s)
  | victim :: victims =>
    if view.configured victim then
      match budget with
      | 0 => rollback s 0 victims
      | budget + 1 =>
        let t := (s.startVerb table victim lease true).2
        let rest := rollback t budget victims
        (victim :: rest.1, rest.2)
    else rollback s budget victims

/-- The commands that start or stop something, run since `s`. -/
def serviceSince (s t : Agent) : List Command := (t.ran.drop s.ran.length).filter Command.isService

/-- **Every step takes effect.**  Where all commands succeed, the stops of the victims and the start
are run, in order; and whatever fails, every start that the rollback asks for is run. -/
structure TakesEffect (s : Agent) (p : Plan) : Prop where
  steps : s.serviceSince (s.runPlan table view (fun _ => true) lease p).2 =
    p.evictionSet.map Command.stop ++ [Command.start p.deployment]
  rollback : ∀ (succeeds : Command → Bool) (budget : ℕ) (failure : PlanFailure),
    (s.runPlan table view succeeds lease p).1 = .error failure →
    ∀ victim ∈ ((s.runPlan table view succeeds lease p).2.rollback table view lease budget p.evictionSet).1,
      .start victim ∈ (s.runPlan table view succeeds lease p).2.serviceSince
        (((s.runPlan table view succeeds lease p).2.rollback table view lease budget
          p.evictionSet).2.settle table succeeds)

/-! ### A lease that is spent -/

variable {T : Table} {V : RouterView} {F : Command → Bool} {lease : LeaseId} {s t : Agent}

/-- The lease gives an activation that has ended, one of the two newest. -/
structure Spent (lease : LeaseId) (k : ℕ) (t : Agent) : Prop where
  sound : t.Sound
  ended : ∃ a, t.Listed a k ∧ a.state.terminal = true ∧ t.leases lease = some a.id

/-- Nothing was started or stopped from `s` to `t`. -/
def Idle (s t : Agent) : Prop := ∃ commands, t.ran = s.ran ++ commands ∧ commands.filter Command.isService = []

theorem Idle.refl (s : Agent) : Idle s s := ⟨[], (List.append_nil _).symm, rfl⟩

theorem Idle.trans {u : Agent} (h : Idle s t) (h' : Idle t u) : Idle s u := by
  obtain ⟨xs, hxs, hnone⟩ := h
  obtain ⟨ys, hys, hnone'⟩ := h'
  refine ⟨xs ++ ys, ?_, ?_⟩
  · rw [hys, hxs, List.append_assoc]
  · rw [List.filter_append, hnone, hnone', List.append_nil]

theorem awaitTerminal_snd (t : Agent) (id : ℕ) :
    (t.awaitTerminal T F id).2 = t.runThread T F id := by
  unfold awaitTerminal
  dsimp only
  split <;> rfl

theorem confirm_snd (result : Except PlanFailure Unit × Agent) (check : Agent → Bool) :
    (confirm result check).2 = result.2 := by
  unfold confirm
  split <;> rfl

/-- **A verb under a spent lease does nothing.** -/
theorem Spent.verb {k : ℕ} (h : Spent lease k t) (deployment : DeploymentId) (starting : Bool) :
    (callAndAwait T F (t.startVerb T deployment lease starting)).2 = t := by
  obtain ⟨a, hl, hended, hlease⟩ := h.ended
  have hthread : t.runThread T F a.id = t := by
    rw [runThread, hl.find h.sound]
    exact if_pos hended
  unfold startVerb
  split
  · rfl
  · rw [hlease]
    show (t.awaitTerminal T F a.id).2 = t
    rw [awaitTerminal_snd, hthread]

theorem Spent.evict {k : ℕ} (h : Spent lease k t) (victim : DeploymentId) :
    (t.runStep T V F lease (.evict victim)).2 = t := by
  unfold runStep
  dsimp only
  split
  · exact h.verb victim false
  · rfl

theorem Spent.activate {k : ℕ} (h : Spent lease k t) (deployment : DeploymentId) :
    (t.runStep T V F lease (.activate deployment)).2 = t := by
  unfold runStep
  dsimp only
  rw [confirm_snd]
  exact h.verb deployment true

variable (lease) in
theorem runSteps_cons_snd (t : Agent) (step : PlanStep) (steps : List PlanStep) :
    (t.runSteps T V F lease (step :: steps)).2 =
        (t.runStep T V F lease step).2 ∨
      (t.runSteps T V F lease (step :: steps)).2 =
        ((t.runStep T V F lease step).2.runSteps T V F lease steps).2 := by
  rw [runSteps]
  split
  · rename_i t' hstep
    right
    rw [hstep]
  · left
    rfl

/-! ### Transfers -/

theorem runThread_transfer (t : Agent) {id : ℕ}
    (h : ∀ a, t.find id = some a → (Work.artifact a.work).isSome) :
    Idle t (t.runThread T F id) := by
  rw [runThread]
  split
  · exact .refl t
  · rename_i a hfind
    split
    · exact .refl t
    · refine ⟨commands T F a.work, rfl, ?_⟩
      have hwork := h a hfind
      cases hwork' : a.work with
      | service deployment starting =>
        rw [hwork'] at hwork
        cases hwork
      | fetch artifact host => rfl
      | copy artifact source dest => rfl

/-- What is waited for after a transfer was asked for is a transfer. -/
theorem transferVerb_await (h : t.Sound) (artifact : ArtifactId) (host : HostId) {work : Work}
    (hwork : (Work.artifact work).isSome) :
    Idle t (callAndAwait T F (t.transferVerb artifact host work)).2 := by
  unfold transferVerb
  split
  · rename_i a htransfer
    split
    · rename_i hsame
      obtain ⟨hbind, -⟩ := Option.filter_eq_some_iff.1 htransfer
      obtain ⟨id, -, hfind⟩ := Option.bind_eq_some_iff.1 hbind
      show Idle t (t.awaitTerminal T F a.id).2
      rw [awaitTerminal_snd]
      refine runThread_transfer t ?_
      intro b hb
      rw [(find_mem hfind).2, hfind] at hb
      obtain rfl := Option.some.inj hb
      rw [hsame]
      rfl
    · exact .refl t
  · split
    · exact .refl t
    · rename_i hroom
      show Idle t (awaitTerminal T F _ t.next).2
      rw [awaitTerminal_snd]
      have haccept := h.accept (by omega) work .fetching
      have hfind := (listed_accept (s := t) work .fetching).find haccept
      refine Idle.trans ⟨[], (List.append_nil _).symm, rfl⟩ (runThread_transfer _ ?_)
      intro b hb
      obtain rfl := Option.some.inj (hfind.symm.trans hb)
      exact hwork

theorem Spent.transferVerb (h : Spent lease 0 t) (artifact : ArtifactId) (host : HostId) (work : Work) :
    Spent lease 1 (callAndAwait T F (t.transferVerb artifact host work)).2 := by
  obtain ⟨a, hl, hended, hlease⟩ := h.ended
  have hkept : Spent lease 1 t := by
    obtain ⟨pre, post, hsplit, hpost⟩ := hl
    exact ⟨h.sound, a, ⟨pre, post, hsplit, by omega⟩, hended, hlease⟩
  have hverb := h.sound.transferVerb artifact host work
  unfold Agent.transferVerb at hverb ⊢
  split
  · split
    · rename_i b _ _
      show Spent lease 1 (t.awaitTerminal T F b.id).2
      rw [awaitTerminal_snd]
      obtain ⟨hl', hleases⟩ := runThread_other (T := T) h.sound hl (by omega) hended F b.id
      obtain ⟨pre, post, hsplit, hpost⟩ := hl'
      exact ⟨h.sound.runThread F b.id, a, ⟨pre, post, hsplit, by omega⟩, hended, hleases lease hlease⟩
    · exact hkept
  · split
    · exact hkept
    · rename_i hnone hroom
      rw [hnone, if_neg hroom] at hverb
      show Spent lease 1 (awaitTerminal T F _ t.next).2
      rw [awaitTerminal_snd]
      obtain ⟨hl', hleases⟩ :=
        runThread_other (T := T) hverb (hl.accept work .fetching) (Nat.le_refl 1) hended F
          t.next
      exact ⟨hverb.runThread F t.next, a, hl', hended, hleases lease hlease⟩

/-- A transfer keeps the lease spent, and starts and stops nothing. -/
theorem Spent.transfer (h : Spent lease 0 t) (transfer : Transfer) :
    Spent lease 1 (t.runStep T V F lease transfer.step).2 ∧
      Idle t (t.runStep T V F lease transfer.step).2 := by
  have hkept : Spent lease 1 t := by
    obtain ⟨a, ⟨pre, post, hsplit, hpost⟩, hended, hlease⟩ := h.ended
    exact ⟨h.sound, a, ⟨pre, post, hsplit, by omega⟩, hended, hlease⟩
  cases transfer with
  | fetch artifact host =>
    show Spent lease 1 (callAndAwait T F (t.fetch T artifact host)).2 ∧ _
    unfold Transfer.step runStep fetch
    dsimp only
    split
    · exact ⟨h.transferVerb .., transferVerb_await h.sound _ _ rfl⟩
    · exact ⟨hkept, .refl t⟩
  | copy artifact source dest =>
    unfold Transfer.step runStep
    dsimp only
    split
    · rw [confirm_snd]
      unfold copy
      split
      · exact ⟨h.transferVerb .., transferVerb_await h.sound _ _ rfl⟩
      · exact ⟨hkept, .refl t⟩
    · exact ⟨hkept, .refl t⟩

/-- After the first verb of a plan nothing is started or stopped any more. -/
theorem Spent.tail (h : Spent lease 0 t) (evictions : List DeploymentId) (transfer : Option Transfer)
    (deployment : DeploymentId) :
    Idle t (t.runSteps T V F lease
      (evictions.map PlanStep.evict ++ (transfer.map Transfer.step).toList ++ [PlanStep.activate deployment])).2 := by
  induction evictions with
  | nil =>
    cases transfer with
    | none =>
      show Idle t (t.runSteps T V F lease [.activate deployment]).2
      rcases t.runSteps_cons_snd (T := T) (V := V) (F := F) lease
        (.activate deployment) [] with hlast | hlast <;> rw [hlast, h.activate deployment]
      · exact .refl t
      · exact .refl t
    | some transfer =>
      obtain ⟨hspent, hidle⟩ := h.transfer (T := T) (V := V) (F := F) transfer
      show Idle t (t.runSteps T V F lease [transfer.step, .activate deployment]).2
      rcases t.runSteps_cons_snd (T := T) (V := V) (F := F) lease
        transfer.step [.activate deployment] with hlast | hlast <;> rw [hlast]
      · exact hidle
      · rcases (t.runStep T V F lease transfer.step).2.runSteps_cons_snd (T := T)
          (V := V) (F := F) lease (.activate deployment) [] with
          hlast | hlast <;> rw [hlast, hspent.activate deployment]
        · exact hidle
        · exact hidle
  | cons victim evictions ih =>
    rcases t.runSteps_cons_snd (T := T) (V := V) (F := F) lease
      (.evict victim) (evictions.map PlanStep.evict ++ (transfer.map Transfer.step).toList ++ [PlanStep.activate deployment])
      with hlast | hlast <;> rw [List.map_cons, List.cons_append, List.cons_append, hlast, h.evict victim]
    · exact .refl t
    · exact ih

/-! ### The first verb -/

/-- A verb under a fresh lease is refused, or starts an activation of its own. -/
theorem startVerb_fresh (h : s.Sound) (hfresh : s.leases lease = none) (deployment : DeploymentId)
    (starting : Bool) :
    (∃ e, s.startVerb T deployment lease starting = (.error e, s)) ∨
    ∃ t a, s.startVerb T deployment lease starting = (.ok a.id, t) ∧ t.Sound ∧ t.Listed a 0 ∧
      a.work = .service deployment starting ∧ a.state.terminal = false ∧
      t.leases lease = some a.id ∧ t.ran = s.ran := by
  have hsound := h.startVerb (T := T) deployment lease starting
  unfold startVerb at hsound ⊢
  split
  · exact .inl ⟨_, rfl⟩
  · rename_i host hhost
    rw [hhost] at hsound
    simp only [hfresh] at hsound ⊢
    split
    · exact .inl ⟨_, rfl⟩
    · rename_i hroom
      split
      · exact .inl ⟨_, rfl⟩
      · rename_i hrate
        rw [if_neg hroom, if_neg hrate] at hsound
        refine .inr ⟨_, ⟨s.next, .service deployment starting, if starting then .starting else .stopping⟩,
          rfl, hsound, ⟨s.activations, [], rfl, Nat.le_refl 0⟩, rfl, ?_, Function.update_self .., rfl⟩
        cases starting <;> rfl

/-- The activation runs its commands, and is found with their outcome. -/
theorem await_service (h : t.Sound) {a : Activation} {k : ℕ} (hl : t.Listed a k) (hk : k ≤ 1)
    (hopen : a.state.terminal = false) :
    t.awaitTerminal T F a.id =
        (verdict (outcome T F a.work), t.runThread T F a.id) ∧
      (t.runThread T F a.id).ran = t.ran ++ commands T F a.work := by
  obtain ⟨hrun, hlisted, -⟩ := runThread_self (T := T) h hl hk hopen F
  have hfind := hlisted.find (h.runThread F a.id)
  constructor
  · unfold awaitTerminal
    dsimp only
    rw [hfind]
  · rw [hrun]
    rfl

theorem first_evict (h : s.Sound) (hfresh : s.leases lease = none) (victim : DeploymentId) :
    (∃ e, s.runStep T V F lease (.evict victim) = (.error e, s)) ∨
    (Spent lease 0 (s.runStep T V F lease (.evict victim)).2 ∧
      (s.runStep T V F lease (.evict victim)).2.ran = s.ran ++ [Command.stop victim]) := by
  unfold runStep
  dsimp only
  split
  · rcases startVerb_fresh (T := T) h hfresh victim false with ⟨e, hverb⟩ |
      ⟨t, a, hverb, hsound, hl, hwork, hopen, hlease, hran⟩
    · left
      rw [hverb]
      exact ⟨_, rfl⟩
    · right
      rw [hverb]
      show Spent lease 0 (t.awaitTerminal T F a.id).2 ∧
        (t.awaitTerminal T F a.id).2.ran = _
      rw [awaitTerminal_snd]
      obtain ⟨-, hlisted, hleases⟩ := runThread_self (T := T) hsound hl (by omega) hopen F
      refine ⟨⟨hsound.runThread F a.id, _, hlisted, outcome_terminal .., hleases lease hlease⟩, ?_⟩
      rw [(await_service hsound hl (by omega) hopen).2, hran, hwork]
      rfl
  · exact .inl ⟨_, rfl⟩

/-- **One verb for one lease.**  Of a plan that evicts something at most the first stop is run. -/
theorem swap_runs_one_verb (h : s.Sound) (hfresh : s.leases lease = none) (victim : DeploymentId)
    (evictions : List DeploymentId) (transfer : Option Transfer) (deployment : DeploymentId) (host : HostId)
    (etaMs : ℕ) :
    (s.serviceSince (s.runPlan T V F lease
      (Plan.of (victim :: evictions) transfer deployment host etaMs)).2).length ≤ 1 := by
  have hof : (s.runPlan T V F lease
      (Plan.of (victim :: evictions) transfer deployment host etaMs)) =
      s.runSteps T V F lease (.evict victim ::
        (evictions.map PlanStep.evict ++ (transfer.map Transfer.step).toList ++ [PlanStep.activate deployment])) := rfl
  rw [hof]
  rcases first_evict (T := T) (V := V) (F := F) h hfresh victim with
    ⟨e, hstep⟩ | ⟨hspent, hran⟩
  · rw [runSteps, hstep]
    simp [serviceSince]
  · obtain ⟨commands, hcommands, hnone⟩ :=
      hspent.tail (T := T) (V := V) (F := F) evictions transfer deployment
    rcases s.runSteps_cons_snd (T := T) (V := V) (F := F) lease
      (.evict victim) (evictions.map PlanStep.evict ++ (transfer.map Transfer.step).toList ++ [PlanStep.activate deployment])
      with hlast | hlast <;> rw [hlast, serviceSince]
    · rw [hran, List.drop_left]
      exact List.length_filter_le ..
    · rw [hcommands, hran, List.append_assoc, List.drop_left, List.filter_append, hnone, List.append_nil]
      exact List.length_filter_le ..

/-! ### A plan that the agent takes -/

/-- The agent knows what a plan needs, has a slot for it, and has nothing else on the way to its host. -/
structure Takes (T : Table) (V : RouterView) (s : Agent) (transfer : Option Transfer)
    (deployment : DeploymentId) : Prop where
  room : s.inflight < maxInflightOperations
  allowed : ∃ host, T.host deployment = some host ∧ s.recent host < T.maxActivationsPerHour host
  transfer : match transfer with
    | none => True
    | some (.fetch artifact host) => T.fetchable artifact host = true ∧ s.transferTo host = none
    | some (.copy artifact source dest) => V.keptChecksum artifact = true ∧
        T.copyable artifact source dest = true ∧ s.transferTo dest = none

theorem activate_taken (h : s.Sound) (hfresh : s.leases lease = none)
    (hroom : s.inflight < maxInflightOperations) {deployment : DeploymentId} {host : HostId}
    (hhost : T.host deployment = some host) (hrate : s.recent host < T.maxActivationsPerHour host) :
    (s.runStep T V F lease (.activate deployment)).2.ran =
      s.ran ++ commands T F (.service deployment true) := by
  unfold runStep
  dsimp only
  rw [confirm_snd]
  rcases startVerb_fresh (T := T) h hfresh deployment true with ⟨e, hverb⟩ |
    ⟨t, a, hverb, hsound, hl, hwork, hopen, -, hran⟩
  · have hnotfull : ¬ maxInflightOperations ≤ s.inflight := not_le.2 hroom
    have hnotlimited : ¬ T.maxActivationsPerHour host ≤ s.recent host := not_le.2 hrate
    simp [startVerb, hhost, hfresh, hnotfull, hnotlimited] at hverb
  · rw [hverb]
    show (t.awaitTerminal T F a.id).2.ran = _
    rw [awaitTerminal_snd, (await_service hsound hl (by omega) hopen).2, hran, hwork]

/-- A transfer that is taken, and whose command succeeds, leaves the agent as ready as it was. -/
theorem transferVerb_taken (h : s.Sound) (hfresh : s.leases lease = none)
    (hroom : s.inflight < maxInflightOperations) (artifact : ArtifactId) {host : HostId} (work : Work)
    (hnone : s.transferTo host = none) (hwork : (Work.artifact work).isSome)
    (hready : outcome T F work = .ready) :
    ∃ t, callAndAwait T F (s.transferVerb artifact host work) = (.ok (), t) ∧ t.Sound ∧
      t.leases lease = none ∧ t.inflight = s.inflight ∧ t.recent = s.recent ∧ Idle s t ∧
      t.images = (s.effect T F work).images := by
  have hidle := transferVerb_await (T := T) (F := F) h artifact host hwork
  have hsound := h.transferVerb artifact host work
  obtain ⟨t, hverb, hl, hleases, hinflight, hrecent, himages⟩ :
      ∃ t, s.transferVerb artifact host work = (.ok s.next, t) ∧
        t.Listed ⟨s.next, work, .fetching⟩ 0 ∧ t.leases = s.leases ∧ t.inflight = s.inflight + 1 ∧
        t.recent = s.recent ∧ t.images = s.images := by
    rw [transferVerb, hnone]
    dsimp only
    rw [if_neg (not_le.2 hroom)]
    exact ⟨_, rfl, ⟨s.activations, [], rfl, Nat.le_refl 0⟩, rfl, rfl, rfl, rfl⟩
  rw [hverb] at hidle hsound ⊢
  obtain ⟨hrun, -, -⟩ := runThread_self (T := T) hsound hl (by omega) rfl F
  have hawait := (await_service (T := T) (F := F) hsound hl (by omega) rfl).1
  refine ⟨t.runThread T F s.next, ?_, hsound.runThread F s.next, ?_, ?_, ?_, ?_, ?_⟩
  · show t.awaitTerminal T F s.next = _
    rw [hawait, hready]
    rfl
  · refine runThread_leases_none F s.next ?_
    rw [hleases]
    exact hfresh
  · rw [hrun]
    show t.inflight - 1 = _
    rw [hinflight]
    exact Nat.add_sub_cancel ..
  · rw [hrun]
    exact (effect_frame F work).2.2.2.trans hrecent
  · rwa [callAndAwait, awaitTerminal_snd] at hidle
  · rw [hrun]
    show (t.effect T F work).images = _
    unfold effect
    cases work <;> simp [himages]

theorem filter_startCommands (deployment : DeploymentId) :
    (commands T (fun _ => true) (.service deployment true)).filter Command.isService =
      [.start deployment] := by
  cases htemplated : T.templated deployment <;> simp [commands, startCommands, htemplated] <;> rfl

theorem activation_takes_effect (hidle : Idle s t) (ht : t.Sound) (htfresh : t.leases lease = none)
    (hroom : t.inflight < maxInflightOperations)
    {deployment : DeploymentId} {host : HostId} (hhost : T.host deployment = some host)
    (hrate : t.recent host < T.maxActivationsPerHour host) :
    s.serviceSince (t.runSteps T V (fun _ => true) lease [.activate deployment]).2 =
      [.start deployment] := by
  obtain ⟨commands, hran, hnone⟩ := hidle
  have hlast : (t.runSteps T V (fun _ => true) lease [.activate deployment]).2 =
      (t.runStep T V (fun _ => true) lease (.activate deployment)).2 := by
    rcases t.runSteps_cons_snd (T := T) (V := V) (F := fun _ => true)
      lease (.activate deployment) [] with hlast | hlast <;> rw [hlast]
    rfl
  rw [hlast, serviceSince, activate_taken ht htfresh hroom hhost hrate, hran, List.append_assoc,
    List.drop_left, List.filter_append, hnone, filter_startCommands]
  rfl

theorem takesEffect_of_no_eviction (h : s.Sound) (hfresh : s.leases lease = none)
    {transfer : Option Transfer} {deployment : DeploymentId} (htakes : Takes T V s transfer deployment)
    (host : HostId) (etaMs : ℕ) :
    TakesEffect T V lease s (Plan.of [] transfer deployment host etaMs) := by
  obtain ⟨at_, hhost, hrate⟩ := htakes.allowed
  have hroom := htakes.room
  constructor
  · rw [Plan.evictionSet_of]
    show s.serviceSince (s.runSteps T V (fun _ => true) lease
      ((transfer.map Transfer.step).toList ++ [PlanStep.activate deployment])).2 = [.start deployment]
    cases transfer with
    | none => exact activation_takes_effect (.refl s) h hfresh hroom hhost hrate
    | some transfer =>
      obtain ⟨t, hstep, ht, htfresh, hinflight, hrecent, hidle⟩ : ∃ t,
          s.runStep T V (fun _ => true) lease transfer.step = (.ok (), t) ∧ t.Sound ∧
            t.leases lease = none ∧ t.inflight = s.inflight ∧ t.recent = s.recent ∧ Idle s t := by
        cases transfer with
        | fetch artifact place =>
          obtain ⟨hfetchable, hnone⟩ := htakes.transfer
          obtain ⟨t, hcall, ht, htfresh, hinflight, hrecent, hidle, -⟩ :=
            transferVerb_taken (T := T) (F := fun _ => true) h hfresh hroom artifact (.fetch artifact place)
              hnone rfl rfl
          refine ⟨t, ?_, ht, htfresh, hinflight, hrecent, hidle⟩
          show callAndAwait T _ (s.fetch T artifact place) = _
          rw [fetch, if_pos hfetchable]
          exact hcall
        | copy artifact source dest =>
          obtain ⟨hkept, hcopyable, hnone⟩ := htakes.transfer
          obtain ⟨t, hcall, ht, htfresh, hinflight, hrecent, hidle, himages⟩ :=
            transferVerb_taken (T := T) (F := fun _ => true) h hfresh hroom artifact
              (.copy artifact source dest) hnone rfl rfl
          refine ⟨t, ?_, ht, htfresh, hinflight, hrecent, hidle⟩
          show s.runStep T V _ lease (.copy artifact source dest) = _
          unfold runStep copy
          dsimp only
          rw [if_pos hkept, if_pos hcopyable, hcall]
          have himage : t.images artifact dest = true := by
            rw [himages]
            simp [effect]
          simp [confirm, himage]
      show s.serviceSince (s.runSteps T V (fun _ => true) lease
        [transfer.step, .activate deployment]).2 = _
      rw [runSteps, hstep]
      exact activation_takes_effect hidle ht htfresh (hinflight ▸ hroom) hhost (hrecent ▸ hrate)
  · intro F budget failure _ victim hvictim
    rw [Plan.evictionSet_of] at hvictim
    exact absurd hvictim List.not_mem_nil

/-- **When every step takes effect.**  Under a fresh lease, at an agent come to by any history, a plan
takes effect only if it evicts nothing; and if the agent takes it, it takes effect exactly then. -/
theorem steps_take_effect_iff (table : Table) (view : RouterView) (history : List Event) (lease : LeaseId)
    (hfresh : (run (step table) init history).leases lease = none) (evictions : List DeploymentId)
    (transfer : Option Transfer) (deployment : DeploymentId) (host : HostId) (etaMs : ℕ) :
    (TakesEffect table view lease (run (step table) init history)
        (Plan.of evictions transfer deployment host etaMs) → evictions = []) ∧
      (Takes table view (run (step table) init history) transfer deployment →
        (TakesEffect table view lease (run (step table) init history)
          (Plan.of evictions transfer deployment host etaMs) ↔ evictions = [])) := by
  have hsound := reachable (T := table) history
  have honly : TakesEffect table view lease (run (step table) init history)
      (Plan.of evictions transfer deployment host etaMs) → evictions = [] := by
    intro heffect
    cases evictions with
    | nil => rfl
    | cons victim evictions =>
      have hone := swap_runs_one_verb (T := table) (V := view) (F := fun _ => true) hsound
        hfresh victim evictions transfer deployment host etaMs
      rw [heffect.steps, Plan.evictionSet_of, List.length_append, List.length_map, List.length_cons] at hone
      exact absurd hone (by simp)
  refine ⟨honly, fun htakes => ⟨honly, ?_⟩⟩
  rintro rfl
  exact takesEffect_of_no_eviction hsound hfresh htakes host etaMs

/-! ### One host and two models -/

namespace Sample

/-- Two models share a host, which may start twelve an hour. -/
def twoModels : Table :=
  ⟨fun d => if d = "chat" ∨ d = "image" then some "spark" else none, fun _ => 12, fun _ => false,
    fun _ _ => true, fun _ _ _ => true⟩

def knowsAll : RouterView := ⟨fun _ => true, fun _ => true⟩

/-- The chat model was started under an earlier lease. -/
def chatRuns : Agent := run (step twoModels) init [.startVerb "chat" "l-1" true, .thread (fun _ => true) 1]

/-- The image model is started beside it, after its artifact was fetched. -/
theorem start_takes_effect :
    TakesEffect twoModels knowsAll "l-2" chatRuns
      (Plan.of [] (some (.fetch "flux" "spark")) "image" "spark" 1000) :=
  ((steps_take_effect_iff twoModels knowsAll _ "l-2" (by decide) [] (some (.fetch "flux" "spark")) "image"
    "spark" 1000).2 ⟨by decide, ⟨"spark", by decide, by decide⟩, by decide, by decide⟩).2 rfl

/-- The image model in place of the chat model: with every command succeeding, the chat model is
stopped, the image model is not started and the plan fails; the rollback asks for the chat model, and
it is not started either. -/
def swap : Plan := Plan.of ["chat"] none "image" "spark" 1000

theorem swap_only_stops :
    ¬ TakesEffect twoModels knowsAll "l-2" chatRuns swap ∧
    chatRuns.serviceSince (chatRuns.runPlan twoModels knowsAll (fun _ => true) "l-2" swap).2 =
      [.stop "chat"] ∧
    (chatRuns.runPlan twoModels knowsAll (fun _ => true) "l-2" swap).1 = .error .activationFailed ∧
    ((chatRuns.runPlan twoModels knowsAll (fun _ => true) "l-2" swap).2.rollback twoModels knowsAll "l-2" 12
      swap.evictionSet).1 = ["chat"] ∧
    (chatRuns.runPlan twoModels knowsAll (fun _ => true) "l-2" swap).2.serviceSince
      (((chatRuns.runPlan twoModels knowsAll (fun _ => true) "l-2" swap).2.rollback twoModels knowsAll "l-2"
        12 swap.evictionSet).2.settle twoModels fun _ => true) = [] := by
  refine ⟨?_, by decide, by decide, by decide, by decide⟩
  intro heffect
  exact absurd heffect.steps (by decide)

end Sample

end Agent

end HypeLlm.Fleet
