import HypeLlm.Pipeline.Phases
import HypeLlm.Pipeline.Attempts

/-!
# What one candidate can come to

Everything a visit can do, said once: it passes the candidate over or ends the pass with nothing
sent (`Passed`), or it dispatches (`visit_cases`); and a dispatch makes one exchange, or two of which
the first handed nothing over and the second counts only if it succeeded (`attempt_cases`).
-/

namespace HypeLlm.Pipeline

open HypeLlm.Routing

/-! ### Kinds of actions -/

namespace Action

variable {σ : Type}

/-- The action belongs to an exchange. -/
def isExchange : Action σ → Bool
  | .sent _ | .delivered _ | .ended .. => true
  | _ => false

/-- An upstream is dispatched to. -/
def IsSent (a : Action σ) : Prop := ∃ d, a = .sent d

/-- The sink is given semantic output. -/
def IsOutput (a : Action σ) : Prop := ∃ e, a = .delivered e ∧ e.isSemanticOutput = true

instance : DecidablePred (IsSent : Action σ → Prop) := fun a =>
  decidable_of_iff ((match a with | .sent _ => true | _ => false) = true) <| by
    cases a <;> simp [IsSent]

instance : DecidablePred (IsOutput : Action σ → Prop) := fun a =>
  decidable_of_iff ((match a with | .delivered e => e.isSemanticOutput | _ => false) = true) <| by
    cases a <;> simp [IsOutput]

end Action

/-- The upstream had accepted the request of an exchange that ended so. -/
def accepted : Except AttemptFailure AttemptSummary → Bool
  | .ok _ => true
  | .error f => f.phase != .beforeAcceptance

/-- An exchange ends that the upstream had accepted. -/
def Action.IsAccepted {σ : Type} (a : Action σ) : Prop :=
  ∃ choice result, a = .ended choice result ∧ accepted result = true

instance {σ : Type} : DecidablePred (Action.IsAccepted : Action σ → Prop) := fun a =>
  decidable_of_iff ((match a with | .ended _ result => accepted result | _ => false) = true) <| by
    cases a <;> simp [Action.IsAccepted]

section Kinds

variable {σ : Type} {a : Action σ}

theorem Action.IsSent.isExchange (h : a.IsSent) : a.isExchange = true := by
  obtain ⟨d, rfl⟩ := h
  rfl

theorem Action.IsOutput.isExchange (h : a.IsOutput) : a.isExchange = true := by
  obtain ⟨e, rfl, -⟩ := h
  rfl

theorem Action.IsAccepted.isExchange (h : a.IsAccepted) : a.isExchange = true := by
  obtain ⟨choice, result, rfl, -⟩ := h
  rfl

theorem not_isSent {l : List (Action σ)} (h : ∀ a ∈ l, a.isExchange = false) :
    ∀ a ∈ l, ¬a.IsSent := by
  intro a ha hsent
  have hex := hsent.isExchange
  rw [h a ha] at hex
  cases hex

/-! ### What is taken and given back -/

variable {s : Setting σ} {hold : Option ℕ} {entered : Bool}
  {result : Except AttemptFailure AttemptSummary}

theorem taken_isExchange (h : a ∈ taken hold) : a.isExchange = false := by
  simp only [taken, List.mem_cons, List.mem_map] at h
  rcases h with rfl | rfl | ⟨tokens, -, rfl⟩ <;> rfl

theorem onHold_isExchange {how : HoldFinish} (h : a ∈ onHold hold how) : a.isExchange = false := by
  unfold onHold at h
  split at h
  · rw [List.mem_singleton.1 h]
    rfl
  · simp at h

theorem unused_isExchange (h : a ∈ unused hold) : a.isExchange = false := by
  simp only [unused, List.cons_append, List.mem_cons, List.mem_append, List.not_mem_nil,
    or_false] at h
  rcases h with rfl | h | rfl
  · rfl
  · exact onHold_isExchange h
  · rfl

theorem concluded_isExchange (h : a ∈ concluded s hold entered result) : a.isExchange = false := by
  simp only [concluded, List.mem_append, List.mem_cons, List.not_mem_nil, or_false] at h
  rcases h with (h | rfl | h) | rfl
  · split at h
    · rw [List.mem_singleton.1 h]
      rfl
    · simp at h
  · rfl
  · exact onHold_isExchange h
  · rfl

end Kinds

/-! ### One visit -/

section Visits

variable {σ : Type} (s : Setting σ)

/-- What is done for a candidate that nothing is sent to. -/
inductive Idle : List (Action σ) → Prop
  | refused : Idle [.permitTaken, .permitFinished .released]
  | unused (hold : Option ℕ) : Idle (taken hold ++ unused hold)

theorem Idle.isExchange {actions : List (Action σ)} (h : Idle actions) {a : Action σ}
    (ha : a ∈ actions) : a.isExchange = false := by
  cases h with
  | refused =>
    simp only [List.mem_cons, List.not_mem_nil, or_false] at ha
    rcases ha with rfl | rfl <;> rfl
  | unused hold =>
    rcases List.mem_append.1 ha with ha | ha
    · exact taken_isExchange ha
    · exact unused_isExchange ha

/-- The pass went on without sending anything. -/
structure Passed (p p' : PassState σ) : Prop where
  sawOutput : p'.sawOutput = p.sawOutput
  visits : p'.visits = p.visits ∨ ∃ actions, Idle actions ∧ p'.visits = p.visits ++ [actions]

theorem Passed.grown {p p' : PassState σ} (h : Passed p p') :
    ∃ more, p'.visits = p.visits ++ more := by
  rcases h.visits with hsame | ⟨actions, -, hmore⟩
  · exact ⟨[], by rw [hsame, List.append_nil]⟩
  · exact ⟨_, hmore⟩

/-- Nothing sent adds no exchange to the record. -/
theorem Passed.log {p p' : PassState σ} (h : Passed p p') :
    ∃ actions, p'.log = p.log ++ actions ∧ ∀ a ∈ actions, Action.isExchange a = false := by
  rcases h.visits with hsame | ⟨actions, hidle, hmore⟩
  · exact ⟨[], by simp [PassState.log, hsame], by simp⟩
  · exact ⟨actions, by simp [PassState.log, hmore], fun a ha => hidle.isExchange ha⟩

/-- The tokens a hold is for, where the request is charged to a key. -/
def holdFor (target : Target) : Option ℕ :=
  if s.request.key.isSome && s.request.metered then
    some (budgetTokens s.request target s.snapshot.defaultDocumentTokenEstimate)
  else none

/-- How a visit turns out: over or passed with nothing sent, or a dispatch. -/
inductive VisitCase (t : Turn) (p : PassState σ) : Verdict σ → Prop
  | passed {p' : PassState σ} (h : Passed p p') : VisitCase t p (.next p')
  | stopped {error : RouterError} {p' : PassState σ} (h : Passed p p') :
      VisitCase t p (.done (p'.failed error) p')
  | dispatched {target : Target} {provider : Provider} (entered : Bool)
      (htarget : s.snapshot.targets[target.id]? = some target) :
      VisitCase t p (dispatchTo s target.id provider t (holdFor s target) entered
        { p with state := s.sink.admitted p.state })

variable {s} {t : Turn} {p : PassState σ} {target : Target} {provider : Provider}
  {residency : ResidencyClass}

/-- Given back unused, with the target excluded. -/
theorem passed_unused {reason : ExclusionReason} {hold : Option ℕ} {state : σ} :
    Passed p ((({ p with state := state } : PassState σ).exclude target.id reason).visited
      (taken hold ++ unused hold)) :=
  ⟨rfl, .inr ⟨_, .unused hold, rfl⟩⟩

theorem enterDispatch_case (htarget : s.snapshot.targets[target.id]? = some target) :
    VisitCase s t p (enterDispatch s target.id provider t (holdFor s target)
      { p with state := s.sink.admitted p.state }) := by
  unfold enterDispatch
  split
  · exact .dispatched false htarget
  · exact .dispatched true htarget
  · exact .passed passed_unused

theorem makeReady_case (htarget : s.snapshot.targets[target.id]? = some target) :
    VisitCase s t p (makeReady s residency target.id provider t (holdFor s target) p) := by
  unfold makeReady
  simp only
  split
  · split
    · exact enterDispatch_case htarget
    · exact .passed passed_unused
  · split
    · split
      · exact enterDispatch_case htarget
      · exact .passed ⟨rfl, .inr ⟨_, .unused _, rfl⟩⟩
    · exact enterDispatch_case htarget

theorem fund_case (htarget : s.snapshot.targets[target.id]? = some target) :
    VisitCase s t p (fund s residency target provider t p) := by
  have hready : VisitCase s t p (makeReady s residency target.id provider t (holdFor s target) p) :=
    makeReady_case htarget
  unfold fund
  split
  case isTrue hcharged =>
    rw [holdFor, if_pos hcharged] at hready
    split
    · exact hready
    · exact .stopped ⟨rfl, .inr ⟨_, .unused none, rfl⟩⟩
  case isFalse hfree =>
    rw [holdFor, if_neg hfree] at hready
    exact hready

theorem reserve_case (htarget : s.snapshot.targets[target.id]? = some target) :
    VisitCase s t p (reserve s residency target provider t p) := by
  unfold reserve
  split
  · exact .passed ⟨rfl, .inr ⟨_, .refused, rfl⟩⟩
  · split
    · exact .passed ⟨rfl, .inr ⟨_, .refused, rfl⟩⟩
    · exact fund_case htarget

/-- **Everything a visit can do.** -/
theorem visit_cases (c : Candidate) : VisitCase s t p (visit s c t p) := by
  unfold visit
  split
  · exact .stopped ⟨rfl, .inl rfl⟩
  · split
    · exact .passed ⟨rfl, .inl rfl⟩
    case h_2 target htarget =>
      have htarget' : s.snapshot.targets[target.id]? = some target := by
        rw [s.snapshot.targets_keyed _ _ htarget]
        exact htarget
      split
      · exact .passed ⟨rfl, .inl rfl⟩
      · simp only
        split
        · exact .passed ⟨rfl, .inl rfl⟩
        · split
          · exact .passed ⟨rfl, .inl rfl⟩
          · exact reserve_case htarget'

/-! ### The exchanges of a dispatch -/

/-- The actions of one exchange. -/
def exchangeActions (s : Setting σ) (d : Dispatch σ) : List (Action σ) :=
  .sent d :: (d.exchange s).delivered.map Action.delivered ++ [Action.ended d.choice (d.exchange s).result]

/-- **Everything a dispatch can send**: one exchange whose result stands, or a refused one that
handed nothing over and one with the superseded credential, which stands only if it succeeded. -/
theorem attempt_cases (s : Setting σ) (target : TargetId) (provider : Provider) (t : Turn)
    (p : PassState σ) :
    (∃ d : Dispatch σ, d.choice = .current ∧ d.target = target ∧ d.exclusions = p.exclusions ∧
        (attempt s target provider t p).result = (d.exchange s).result ∧
        (attempt s target provider t p).actions = exchangeActions s d) ∨
      ∃ (d d' : Dispatch σ) (f : AttemptFailure),
        d.choice = .current ∧ d.target = target ∧ d.exclusions = p.exclusions ∧
        d'.choice = .superseded ∧ d'.target = target ∧ d'.exclusions = p.exclusions ∧
        f.errorClass = .authentication ∧ f.phase = .beforeAcceptance ∧
        (d.exchange s).result = .error f ∧
        (attempt s target provider t p).result = standing f (d'.exchange s).result ∧
        (attempt s target provider t p).actions =
          [Action.sent d, .ended .current (.error f)] ++ exchangeActions s d' := by
  let d : Dispatch σ := ⟨target, provider.family, .current, t.current, p.state, p.exclusions⟩
  cases hresult : (d.exchange s).result with
  | ok summary =>
    have hattempt : attempt s target provider t p = send s d := by
      simp only [attempt, send, d, hresult]
    refine .inl ⟨d, rfl, rfl, rfl, ?_, ?_⟩
    · rw [hattempt]
      rfl
    · rw [hattempt]
      rfl
  | error f =>
    cases htries : triesSuperseded provider f with
    | false =>
      have hattempt : attempt s target provider t p = send s d := by
        simp only [attempt, send, d, hresult, htries, Bool.false_eq_true, if_false]
      refine .inl ⟨d, rfl, rfl, rfl, ?_, ?_⟩
      · rw [hattempt]
        rfl
      · rw [hattempt]
        rfl
    | true =>
      let d' : Dispatch σ := ⟨target, provider.family, .superseded, t.superseded,
        (d.exchange s).state, p.exclusions⟩
      obtain ⟨⟨hclass, hphase⟩, -⟩ :
          (f.errorClass = .authentication ∧ f.phase = .beforeAcceptance) ∧
            provider.credentialRef.isSome = true := by
        simpa [triesSuperseded] using htries
      have hnothing : (d.exchange s).delivered = [] := exchange_before hresult hphase
      refine .inr ⟨d, d', f, rfl, rfl, rfl, rfl, rfl, rfl, hclass, hphase, hresult, ?_, ?_⟩
      · simp only [attempt, send, d, d', hresult, htries, if_true]
      · simp only [attempt, send, exchangeActions, d, d', hresult, htries, if_true, hnothing,
          List.map_nil, List.nil_append, List.cons_append]

/-! ### What follows from a dispatch -/

/-- What is done for one dispatch, around its exchanges. -/
def dispatchActions (s : Setting σ) (hold : Option ℕ) (entered : Bool) (sent : Sent σ) :
    List (Action σ) :=
  taken hold ++ (if entered then [.dispatchEntered] else []) ++ sent.actions ++
    concluded s hold entered sent.result

theorem before_isExchange {hold : Option ℕ} {entered : Bool} {a : Action σ}
    (h : a ∈ taken hold ++ if entered then [.dispatchEntered] else []) : a.isExchange = false := by
  rcases List.mem_append.1 h with h | h
  · exact taken_isExchange h
  · split at h
    · rw [List.mem_singleton.1 h]
      rfl
    · simp at h

/-- How a dispatch turns out, by the result that stands: success, a failure that is failed over
from, or one that ends the pass. -/
inductive DispatchCase (s : Setting σ) (target : TargetId) (p : PassState σ) (hold : Option ℕ)
    (entered : Bool) (sent : Sent σ) : Verdict σ → Prop
  | succeeded {summary : AttemptSummary} {o : Outcome} {p' : PassState σ}
      (result : sent.result = .ok summary) (error : o.error = none)
      (sawOutput : o.sawOutput = (p.sawOutput || summary.sawOutput))
      (visits : p'.visits = p.visits ++ [dispatchActions s hold entered sent]) :
      DispatchCase s target p hold entered sent (.done o p')
  | failedOver {f : AttemptFailure} {p' : PassState σ} (result : sent.result = .error f)
      (may : f.mayFailover s.request.idempotent = true)
      (sawOutput : p'.sawOutput = (p.sawOutput || decide (f.phase = .afterOutput)))
      (visits : p'.visits = p.visits ++ [dispatchActions s hold entered sent]) :
      DispatchCase s target p hold entered sent (.next p')
  | failed {f : AttemptFailure} {p' : PassState σ} (result : sent.result = .error f)
      (may : f.mayFailover s.request.idempotent = false)
      (sawOutput : p'.sawOutput = (p.sawOutput || decide (f.phase = .afterOutput)))
      (attempts : p'.attempts = p.attempts ++ [⟨target, f.outcome⟩])
      (exclusions : p'.exclusions = p.exclusions)
      (visits : p'.visits = p.visits ++ [dispatchActions s hold entered sent]) :
      DispatchCase s target p hold entered sent (.done (p'.failed f.error) p')

/-- The state a verdict leaves. -/
def Verdict.state : Verdict σ → PassState σ
  | .next p => p
  | .done _ p => p

/-- One thing to hold when the pass goes on, another when it is over. -/
def Verdict.elim (goesOn : PassState σ → Prop) (ends : Outcome → PassState σ → Prop) :
    Verdict σ → Prop
  | .next p => goesOn p
  | .done o p => ends o p

/-- The record grows by what was done for the candidate. -/
theorem log_of_visits {p p' : PassState σ} {actions : List (Action σ)}
    (h : p'.visits = p.visits ++ [actions]) : p'.log = p.log ++ actions := by
  simp [PassState.log, h]

theorem DispatchCase.visits_eq {s : Setting σ} {target : TargetId} {p : PassState σ}
    {hold : Option ℕ} {entered : Bool} {sent : Sent σ} {v : Verdict σ}
    (h : DispatchCase s target p hold entered sent v) :
    v.state.visits = p.visits ++ [dispatchActions s hold entered sent] := by
  cases h with
  | succeeded _ _ _ hvisits => exact hvisits
  | failedOver _ _ _ hvisits => exact hvisits
  | failed _ _ _ _ _ hvisits => exact hvisits

theorem DispatchCase.log {s : Setting σ} {target : TargetId} {p : PassState σ}
    {hold : Option ℕ} {entered : Bool} {sent : Sent σ} {v : Verdict σ}
    (h : DispatchCase s target p hold entered sent v) :
    v.state.log = p.log ++ dispatchActions s hold entered sent :=
  log_of_visits h.visits_eq

/-- **Everything a dispatch can lead to.** -/
theorem dispatchTo_cases (s : Setting σ) (target : TargetId) (provider : Provider) (t : Turn)
    (hold : Option ℕ) (entered : Bool) (p : PassState σ) :
    DispatchCase s target p hold entered (attempt s target provider t p)
      (dispatchTo s target provider t hold entered p) := by
  unfold dispatchTo
  cases hresult : (attempt s target provider t p).result with
  | ok summary =>
    simp only [hresult]
    exact .succeeded hresult rfl rfl (by simp only [dispatchActions, hresult]; rfl)
  | error f =>
    simp only [hresult]
    cases hmay : f.mayFailover s.request.idempotent with
    | true => exact .failedOver hresult hmay rfl (by simp only [dispatchActions, hresult]; rfl)
    | false => exact .failed hresult hmay rfl rfl rfl (by simp only [dispatchActions, hresult]; rfl)

/-! ### The record of a pass grows -/

theorem visit_visits (s : Setting σ) (c : Candidate) (t : Turn) (p : PassState σ) :
    ∃ more, (visit s c t p).state.visits = p.visits ++ more := by
  have hcase := visit_cases (s := s) (t := t) (p := p) c
  generalize visit s c t p = v at hcase
  cases hcase with
  | passed hpassed => exact hpassed.grown
  | stopped hpassed => exact hpassed.grown
  | dispatched entered htarget => exact ⟨_, (dispatchTo_cases ..).visits_eq⟩

theorem tryCandidates_log (s : Setting σ) (turns : ℕ → Turn) (cs : List Candidate) (sequence : ℕ)
    (p : PassState σ) : ∃ later, (tryCandidates s turns cs sequence p).2.log = p.log ++ later := by
  induction cs generalizing sequence p with
  | nil => exact ⟨[], by simp [tryCandidates]⟩
  | cons c cs ih =>
    obtain ⟨more, hmore⟩ := visit_visits s c (turns sequence) p
    have hlog : (visit s c (turns sequence) p).state.log = p.log ++ more.flatten := by
      simp [PassState.log, hmore]
    simp only [tryCandidates]
    generalize visit s c (turns sequence) p = v at hlog ⊢
    cases v with
    | next p' =>
      obtain ⟨later, hlater⟩ := ih (sequence + 1) p'
      refine ⟨more.flatten ++ later, ?_⟩
      show (tryCandidates s turns cs (sequence + 1) p').2.log = _
      rw [hlater, ← List.append_assoc]
      exact congrArg (· ++ later) hlog
    | done o p' => exact ⟨more.flatten, hlog⟩

/-! ### The rule for a pass -/

section Rule

variable {s : Setting σ} {C : Dispatch σ → Prop} {Going : PassState σ → Prop}
  {Ended : Outcome → PassState σ → Prop}

/-- What one candidate has to keep: `Going` while the pass goes on, `Ended` once it is over, as long
as every dispatch is one of the kind `C`. -/
structure Carries (s : Setting σ) (C : Dispatch σ → Prop) (Going : PassState σ → Prop)
    (Ended : Outcome → PassState σ → Prop) : Prop where
  start : ∀ exclusions state, Going (PassState.start exclusions state)
  passed : ∀ {p p'}, Going p → Passed p p' → Going p'
  stopped : ∀ {p} error, Going p → Ended (p.failed error) p
  dispatched : ∀ (target : Target) provider t entered p,
    s.snapshot.targets[target.id]? = some target → Going p →
    (∀ d, .sent d ∈ (attempt s target.id provider t p).actions → C d) →
      (dispatchTo s target.id provider t (holdFor s target) entered p).elim Going Ended

theorem Carries.visit (h : Carries s C Going Ended) {c : Candidate} {t : Turn} {p : PassState σ}
    (hp : Going p) (hC : ∀ d, .sent d ∈ (visit s c t p).state.log → C d) :
    (HypeLlm.Pipeline.visit s c t p).elim Going Ended := by
  have hcase : VisitCase s t p (HypeLlm.Pipeline.visit s c t p) := visit_cases c
  generalize HypeLlm.Pipeline.visit s c t p = v at hC hcase
  cases hcase with
  | passed hpassed => exact h.passed hp hpassed
  | stopped hpassed => exact h.stopped _ (h.passed hp hpassed)
  | @dispatched target provider entered htarget =>
    have hadmitted : Going { p with state := s.sink.admitted p.state } :=
      h.passed hp ⟨rfl, .inl rfl⟩
    refine h.dispatched target provider t entered _ htarget hadmitted fun d hd => hC d ?_
    rw [(dispatchTo_cases ..).log, dispatchActions]
    simp [hd]

theorem Carries.tryCandidates (h : Carries s C Going Ended) (turns : ℕ → Turn) (cs : List Candidate)
    (sequence : ℕ) (p : PassState σ) (hp : Going p)
    (hC : ∀ d, .sent d ∈ (tryCandidates s turns cs sequence p).2.log → C d) :
    Ended (HypeLlm.Pipeline.tryCandidates s turns cs sequence p).1
      (HypeLlm.Pipeline.tryCandidates s turns cs sequence p).2 := by
  induction cs generalizing sequence p with
  | nil => exact h.stopped _ hp
  | cons c cs ih =>
    have hvisit := h.visit (c := c) (t := turns sequence) hp
    have hgrown := tryCandidates_log s turns cs (sequence + 1)
    simp only [HypeLlm.Pipeline.tryCandidates] at hC ⊢
    generalize HypeLlm.Pipeline.visit s c (turns sequence) p = v at hC hvisit ⊢
    cases v with
    | next p' =>
      obtain ⟨later, hlater⟩ := hgrown p'
      refine ih (sequence + 1) p' (hvisit fun d hd => hC d ?_) hC
      show _ ∈ (HypeLlm.Pipeline.tryCandidates s turns cs (sequence + 1) p').2.log
      rw [hlater]
      exact List.mem_append_left _ hd
    | done o p' => exact hvisit hC

/-- **The rule for a pass**: what each candidate carries, the pass ends with. -/
theorem Carries.executeOnce (h : Carries s C Going Ended) (round : Round) (state : σ)
    (hC : ∀ d, .sent d ∈ (executeOnce s round state).2.log → C d) :
    Ended (HypeLlm.Pipeline.executeOnce s round state).1
      (HypeLlm.Pipeline.executeOnce s round state).2 := by
  unfold HypeLlm.Pipeline.executeOnce at hC ⊢
  simp only at hC ⊢
  split
  · exact h.stopped _ (h.start _ _)
  case isFalse hsome =>
    rw [if_neg hsome] at hC
    exact h.tryCandidates _ _ _ _ (h.start _ _) hC

end Rule

end Visits

end HypeLlm.Pipeline
