import HypeLlm.Lib.Traces
import HypeLlm.Pipeline.Rounds
import HypeLlm.Pipeline.Visits

/-!
# Accepted at most once

A request without an idempotency key may not be sent again once an upstream has accepted it: the
work would be done twice.  Within a pass the phase of the failure decides, and a pass with an
accepted exchange is over.  Between passes it is the exclusions that decide, and they are those of
the whole pass: a candidate that waits for an activation parks the request although another one has
accepted it.

* **`accepted_at_most_once`** — in every run in which no exchange is accepted in vain while an
  activation is awaited, nothing is sent after an exchange was accepted;
* `Sample.accepted_and_sent_again` — one candidate is stopping, the other accepts the request and
  breaks off: the request is parked and sent again.
-/

namespace HypeLlm.Pipeline

open HypeLlm.Routing HypeLlm.Traces

section AcceptedOnce

variable {σ : Type} {s : Setting σ}

/-- The exchange fails after the upstream accepted it, and leaves no trace that ends the waiting: a
current credential's failure after output does, and a superseded one's is forgotten. -/
def Dispatch.AcceptedInVain (s : Setting σ) (d : Dispatch σ) : Prop :=
  ∃ f, (d.exchange s).result = .error f ∧
    match d.choice with
    | .current => f.phase = .afterAcceptance
    | .superseded => f.phase ≠ .beforeAcceptance

/-- No activation is awaited where an exchange is accepted in vain. -/
def Dispatch.Final (s : Setting σ) (d : Dispatch σ) : Prop :=
  d.AcceptedInVain s → queuedUnrefused d.exclusions = false

/-- Some of the exchanges were accepted. -/
def WasAccepted (actions : List (Action σ)) : Prop := ∃ a ∈ actions, a.IsAccepted

/-! ### One exchange -/

theorem accepted_error {f : AttemptFailure} :
    accepted (.error f) = true ↔ f.phase ≠ .beforeAcceptance := by
  simp [accepted]

theorem wasAccepted_append {l m : List (Action σ)} :
    WasAccepted (l ++ m) ↔ WasAccepted l ∨ WasAccepted m := by
  simp only [WasAccepted, List.mem_append, or_and_right, exists_or]

theorem not_wasAccepted {l : List (Action σ)} (h : ∀ a ∈ l, a.isExchange = false) :
    ¬WasAccepted l := by
  rintro ⟨a, ha, hacc⟩
  have hex := hacc.isExchange
  rw [h a ha] at hex
  cases hex

theorem wasAccepted_exchange (d : Dispatch σ) :
    WasAccepted (exchangeActions s d) ↔ accepted (d.exchange s).result = true := by
  constructor
  · rintro ⟨a, ha, choice, result, rfl, hacc⟩
    obtain ⟨-, rfl⟩ : choice = d.choice ∧ result = (d.exchange s).result := by
      simpa [exchangeActions] using ha
    exact hacc
  · intro hacc
    exact ⟨_, by simp [exchangeActions], d.choice, (d.exchange s).result, rfl, hacc⟩

/-- An exchange is sent before it is accepted. -/
theorem accepted_after_sent (d : Dispatch σ) :
    NeverAfter Action.IsAccepted Action.IsSent (exchangeActions s d) := by
  have hrest : ∀ a ∈ ((d.exchange s).delivered.map Action.delivered ++
      [Action.ended d.choice (d.exchange s).result] : List (Action σ)), ¬a.IsSent := by
    rintro a ha ⟨d', rfl⟩
    simp at ha
  have hfirst : ∀ a ∈ [Action.sent d], ¬a.IsAccepted := by
    rintro a ha ⟨choice, result, rfl, -⟩
    simp at ha
  exact (neverAfter_of_no_second hrest).prepend hfirst

/-! ### The exchanges of one candidate -/

/-- What the exchanges of a candidate leave behind once one of them was accepted: a success, a
failure after output, or one that no pass goes on from and that is not an outage, with no
activation awaited. -/
structure Concluding (exclusions : List Exclusion) (sent : Sent σ) : Prop where
  order : NeverAfter Action.IsAccepted Action.IsSent sent.actions
  accepted : WasAccepted sent.actions → ∀ f, sent.result = .error f →
    f.mayFailover false = false ∧ f.outcome.isOutage = false ∧
      (f.phase = .afterOutput ∨ queuedUnrefused exclusions = false)

theorem outcome_isOutage_of_accepted {f : AttemptFailure} (h : f.phase ≠ .beforeAcceptance) :
    f.outcome.isOutage = false := by
  unfold AttemptFailure.outcome
  split
  · rfl
  · split
    case h_1 hphase => exact absurd hphase h
    · rfl
    · rfl

theorem outcome_isOutage_of_refused {f : AttemptFailure} (h : f.errorClass = .authentication) :
    f.outcome.isOutage = false := by
  unfold AttemptFailure.outcome
  split
  · rfl
  · split
    · rw [h]
      rfl
    · rfl
    · rfl

theorem mayFailover_of_accepted {f : AttemptFailure} (h : f.phase ≠ .beforeAcceptance) :
    f.mayFailover false = false := by
  have hpermits : f.phase.permitsFailover false = false := by
    cases hphase : f.phase with
    | beforeAcceptance => exact absurd hphase h
    | afterAcceptance => rfl
    | afterOutput => rfl
  simp [AttemptFailure.mayFailover, hpermits]

theorem mayFailover_of_refused {f : AttemptFailure} (h : f.errorClass = .authentication) :
    f.mayFailover false = false := by
  simp [AttemptFailure.mayFailover, h, isRetriable]

/-- **The exchanges of a candidate, on final dispatches.** -/
theorem attempt_concluding (target : TargetId) (provider : Provider) (t : Turn) (p : PassState σ)
    (hfinal : ∀ d, .sent d ∈ (attempt s target provider t p).actions → d.Final s) :
    Concluding p.exclusions (attempt s target provider t p) := by
  rcases attempt_cases s target provider t p with
    ⟨d, hchoice, -, hexcl, hresult, hone⟩ |
    ⟨d, d', f, -, -, -, hchoice', -, hexcl, hclass, hphase, -, hresult, htwo⟩
  · refine ⟨hone ▸ accepted_after_sent d, ?_⟩
    intro hacc f herror
    rw [hresult] at herror
    rw [hone, wasAccepted_exchange, herror, accepted_error] at hacc
    refine ⟨mayFailover_of_accepted hacc, outcome_isOutage_of_accepted hacc, ?_⟩
    cases hphase : f.phase with
    | beforeAcceptance => exact absurd hphase hacc
    | afterOutput => exact .inl rfl
    | afterAcceptance =>
      have hvain : d.AcceptedInVain s := ⟨f, herror, by rw [hchoice]; exact hphase⟩
      have hd := hfinal d (by rw [hone]; simp [exchangeActions])
      exact .inr (hexcl ▸ hd hvain)
  · have hrefused : ∀ a ∈ [Action.sent d, .ended .current (.error f)], ¬a.IsAccepted := by
      rintro a ha ⟨choice, result, rfl, hacc⟩
      obtain ⟨-, rfl⟩ : choice = .current ∧ result = .error f := by simpa using ha
      exact accepted_error.1 hacc hphase
    refine ⟨htwo ▸ (accepted_after_sent d').prepend hrefused, ?_⟩
    intro hacc f₀ herror
    rw [htwo, wasAccepted_append] at hacc
    have hacc' := hacc.resolve_left (by rintro ⟨a, ha, h⟩; exact hrefused a ha h)
    rw [wasAccepted_exchange] at hacc'
    cases hretried : (d'.exchange s).result with
    | ok summary =>
      rw [hresult, hretried] at herror
      cases herror
    | error f' =>
      -- The refusal stands; the accepted exchange is forgotten.
      rw [hresult, hretried] at herror
      cases herror
      rw [hretried, accepted_error] at hacc'
      have hvain : d'.AcceptedInVain s := ⟨f', hretried, by rw [hchoice']; exact hacc'⟩
      have hd' := hfinal d' (by rw [htwo]; simp [exchangeActions])
      exact ⟨mayFailover_of_refused hclass, outcome_isOutage_of_refused hclass,
        .inr (hexcl ▸ hd' hvain)⟩

/-! ### One pass -/

/-- What a pass, or a whole run, may have come to: nothing sent after an accepted exchange, and no
other round once there was one. -/
structure Conclusive (outcome : Outcome) (log : List (Action σ)) : Prop where
  order : NeverAfter Action.IsAccepted Action.IsSent log
  ends : WasAccepted log → awaitsActivation outcome = false ∧ awaitsRecovery outcome = false

theorem conclusive_of_none {o : Outcome} {log : List (Action σ)} (h : ¬WasAccepted log) :
    Conclusive o log :=
  ⟨neverAfter_of_no_first fun a ha hacc => h ⟨a, ha, hacc⟩, fun hacc => absurd hacc h⟩

theorem wasAccepted_dispatch (hold : Option ℕ) (entered : Bool) (sent : Sent σ) :
    WasAccepted (dispatchActions s hold entered sent) ↔ WasAccepted sent.actions := by
  have hbefore : ¬WasAccepted
      (taken hold ++ if entered then [.dispatchEntered] else [] : List (Action σ)) :=
    not_wasAccepted fun a ha => before_isExchange ha
  have hafter : ¬WasAccepted (concluded s hold entered sent.result) :=
    not_wasAccepted fun a ha => concluded_isExchange ha
  rw [dispatchActions, wasAccepted_append, wasAccepted_append]
  simp [hbefore, hafter]

/-- A success is not run again. -/
theorem awaits_of_success {o : Outcome} (h : o.error = none) :
    awaitsActivation o = false ∧ awaitsRecovery o = false := by
  simp [awaitsActivation, awaitsRecovery, Outcome.isSuccess, h]

/-- What has reported output is not run again. -/
theorem awaits_of_output {o : Outcome} (h : o.sawOutput = true) :
    awaitsActivation o = false ∧ awaitsRecovery o = false := by
  simp [awaitsActivation, awaitsRecovery, h]

/-- Nor is a request whose last attempt was no outage, with no activation awaited. -/
theorem awaits_of_attempt {o : Outcome} {earlier : List Attempt} {last : Attempt}
    (hattempts : o.attempts = earlier ++ [last]) (hlast : last.outcome.isOutage = false)
    (hqueued : queuedUnrefused o.exclusions = false) :
    awaitsActivation o = false ∧ awaitsRecovery o = false := by
  simp [awaitsActivation, awaitsRecovery, hqueued, hattempts, hlast]

/-- **A dispatch of a pass in which nothing was accepted so far.** -/
theorem dispatchTo_conclusive {target : TargetId} {provider : Provider} {t : Turn}
    {hold : Option ℕ} {entered : Bool} {p : PassState σ} {v : Verdict σ}
    (hkey : s.request.idempotent = false) (hfresh : ¬WasAccepted p.log)
    (hconcluding : Concluding p.exclusions (attempt s target provider t p))
    (hcase : DispatchCase s target p hold entered (attempt s target provider t p) v) :
    v.elim (fun p' => ¬WasAccepted p'.log) fun o p' => Conclusive o p'.log := by
  have horder : NeverAfter Action.IsAccepted Action.IsSent
      (p.log ++ dispatchActions s hold entered (attempt s target provider t p)) := by
    refine NeverAfter.prepend ?_ fun a ha hacc => hfresh ⟨a, ha, hacc⟩
    refine NeverAfter.extend ?_ (not_isSent fun a ha => concluded_isExchange ha)
    exact hconcluding.order.prepend fun a ha hacc =>
      not_wasAccepted (fun b hb => before_isExchange hb) ⟨a, ha, hacc⟩
  have hall : WasAccepted (p.log ++
      dispatchActions s hold entered (attempt s target provider t p)) →
        WasAccepted (attempt s target provider t p).actions := by
    rw [wasAccepted_append, wasAccepted_dispatch]
    exact (Or.resolve_left · hfresh)
  cases hcase with
  | @succeeded summary o p' hresult herror hsaw hvisits =>
    show Conclusive o p'.log
    rw [log_of_visits hvisits]
    exact ⟨horder, fun _ => awaits_of_success herror⟩
  | @failedOver f p' hresult hmay hsaw hvisits =>
    -- Without a key an accepted exchange is never failed over from.
    show ¬WasAccepted p'.log
    rw [log_of_visits hvisits]
    intro hacc
    have hnot := (hconcluding.accepted (hall hacc) f hresult).1
    rw [hkey, hnot] at hmay
    cases hmay
  | @failed f p' hresult hmay hsaw hattempts hexclusions hvisits =>
    show Conclusive (p'.failed f.error) p'.log
    rw [log_of_visits hvisits]
    refine ⟨horder, fun hacc => ?_⟩
    obtain ⟨-, houtage, hphase | hqueued⟩ := hconcluding.accepted (hall hacc) f hresult
    · refine awaits_of_output ?_
      show p'.sawOutput = true
      rw [hsaw, hphase]
      simp
    · exact awaits_of_attempt (o := p'.failed f.error) hattempts houtage
        (hexclusions ▸ hqueued : queuedUnrefused p'.exclusions = false)

theorem conclusive_carries (hkey : s.request.idempotent = false) :
    Carries s (fun d => d.Final s) (fun p => ¬WasAccepted p.log)
      fun o p => Conclusive o p.log where
  start exclusions state := by
    rintro ⟨a, ha, -⟩
    simp [PassState.start, PassState.log] at ha
  passed hfresh hpassed := by
    obtain ⟨actions, hlog, hidle⟩ := hpassed.log
    rw [hlog, wasAccepted_append]
    exact not_or.2 ⟨hfresh, not_wasAccepted hidle⟩
  stopped _ hfresh := conclusive_of_none hfresh
  dispatched _ _ _ _ _ _ hfresh hfinal :=
    dispatchTo_conclusive hkey hfresh (attempt_concluding _ _ _ _ hfinal) (dispatchTo_cases ..)

/-! ### Every round -/

/-- **Accepted at most once.**  In every run of a request without an idempotency key in which no
exchange is accepted in vain while an activation is awaited, nothing is sent upstream after an
exchange that was accepted. -/
theorem accepted_at_most_once (s : Setting σ) (hkey : s.request.idempotencyKey = none) (w : World)
    (state : σ) (hfinal : ∀ d, .sent d ∈ (executeForKey s w state).log → d.Final s) :
    NeverAfter Action.IsAccepted Action.IsSent (executeForKey s w state).log := by
  have hkey' : s.request.idempotent = false := by
    rw [Request.idempotent, hkey]
    rfl
  suffices h : (∀ d, .sent d ∈ (executeForKey s w state).log → d.Final s) →
      Conclusive (executeForKey s w state).outcome (executeForKey s w state).log from
    (h hfinal).order
  refine executeForKey_rule s
    (P := fun r => (∀ d, .sent d ∈ r.log → d.Final s) → Conclusive r.outcome r.log) w state ?_ ?_ ?_
  · intro round state hfinal
    exact (conclusive_carries hkey').executeOnce round state hfinal
  · exact fun r state hr => hr
  · intro round state r hr hawaits hfinal
    have hbefore := hr fun d hd => hfinal d (List.mem_append_left _ hd)
    have hpass := (conclusive_carries hkey').executeOnce round state fun d hd =>
      hfinal d (List.mem_append_right _ hd)
    -- A run that asks for another round has had nothing accepted.
    have hfresh : ¬WasAccepted r.log := by
      intro hacc
      obtain ⟨hactivation, hrecovery⟩ := hbefore.ends hacc
      rcases hawaits with h | h
      · rw [hactivation] at h
        cases h
      · rw [hrecovery] at h
        cases h
    refine ⟨hpass.order.prepend fun a ha hacc => hfresh ⟨a, ha, hacc⟩, fun hacc => ?_⟩
    have hlater : WasAccepted r.log ∨ WasAccepted (executeOnce s round state).2.log :=
      wasAccepted_append.1 hacc
    exact hpass.ends (hlater.resolve_left hfresh)

end AcceptedOnce

namespace Sample

/-- The first candidate accepts and breaks off, with nothing awaited. -/
def acceptedInVain : World := ⟨round (turn .held brokenEarly whole) stopping, some [], none⟩

def earlyDispatch : Dispatch Unit := ⟨"small", .llamaCpp, .current, brokenEarly, (), []⟩

/-- With no activation awaited the request is not run again. -/
theorem accepted_in_vain_once :
    setting.request.idempotencyKey = none ∧
      (∀ d, .sent d ∈ (executeForKey setting acceptedInVain ()).log → d.Final setting) ∧
        NeverAfter Action.IsAccepted Action.IsSent (executeForKey setting acceptedInVain ()).log := by
  have hsent : ∀ a ∈ (executeForKey setting acceptedInVain ()).log, a.IsSent →
      a = .sent earlyDispatch := by decide +kernel
  have hfinal : ∀ d, .sent d ∈ (executeForKey setting acceptedInVain ()).log → d.Final setting := by
    intro d hd _
    cases hsent _ hd ⟨d, rfl⟩
    rfl
  exact ⟨rfl, hfinal, accepted_at_most_once setting rfl acceptedInVain () hfinal⟩

/-- The first candidate is stopping; the second accepts the request and breaks off. -/
def acceptedWhileQueued : World :=
  ⟨round stopping (turn .unmanaged brokenEarly refused),
    some [round (turn .held whole whole) stopping], none⟩

/-- **The request is parked for the first candidate, and sent again.** -/
theorem accepted_and_sent_again :
    ¬∀ (s : Setting Unit) (w : World) (state : Unit), s.request.idempotencyKey = none →
      NeverAfter Action.IsAccepted Action.IsSent (executeForKey s w state).log := by
  intro hall
  have hagain : ¬NeverAfter Action.IsAccepted Action.IsSent
      (executeForKey setting acceptedWhileQueued ()).log := by
    decide +kernel
  exact hagain (hall setting acceptedWhileQueued () rfl)

end Sample

end HypeLlm.Pipeline
