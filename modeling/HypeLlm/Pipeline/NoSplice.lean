import HypeLlm.Lib.Traces
import HypeLlm.Pipeline.Rounds
import HypeLlm.Pipeline.Visits

/-!
# Never a second answer

Once the client has been given semantic output, nothing more may be sent upstream for its request:
two answers would be spliced into one.  The rule is kept by a flag.  A pass that gave output ends and
says so, and neither wait runs a request again whose last outcome says so.

Two branches of the source break the tie between the flag and the output.  An exchange with the
superseded credential that fails is forgotten, with whatever it had handed over; and an event that
outgrows the parser of a stream is reported as after output when there has been none.

* **`no_second_answer`** — in every run that takes neither branch, nothing is sent after output was
  given, and the outcome reports output exactly when some was given;
* `forgotten_output_spliced` — a stream cut off under the superseded credential while another
  candidate waits for an activation: the request is parked and answered a second time.
-/

namespace HypeLlm.Pipeline

open HypeLlm.Routing HypeLlm.Traces

/-- Neither branch that loses track of the output: with the current credential, no event outgrows
the parser before there is output; with the superseded one, no exchange fails after it. -/
def Dispatch.Sound {σ : Type} (s : Setting σ) (d : Dispatch σ) : Prop :=
  match d.choice with
  | .current => ¬d.upstream.Outgrows (s.adapterFor d.family) s.sink d.state
  | .superseded =>
    ∀ f, (d.exchange s).result = .error f → outputIn (d.exchange s).delivered = false

section NoSplice

variable {σ : Type} {s : Setting σ}

/-- Some of the actions gave output. -/
def GaveOutput (actions : List (Action σ)) : Prop := ∃ a ∈ actions, a.IsOutput

/-! ### One exchange -/

theorem gaveOutput_exchange (d : Dispatch σ) :
    GaveOutput (exchangeActions s d) ↔ outputIn (d.exchange s).delivered = true := by
  simp only [GaveOutput, exchangeActions, outputIn, List.any_eq_true]
  constructor
  · rintro ⟨a, ha, e, rfl, he⟩
    exact ⟨e, by simpa using ha, he⟩
  · rintro ⟨e, hmem, he⟩
    exact ⟨.delivered e, by simpa using hmem, e, rfl, he⟩

/-- An exchange is sent first. -/
theorem neverAfter_exchange (d : Dispatch σ) :
    NeverAfter Action.IsOutput Action.IsSent (exchangeActions s d) := by
  have hrest : ∀ a ∈ ((d.exchange s).delivered.map Action.delivered ++
      [Action.ended d.choice (d.exchange s).result] : List (Action σ)), ¬a.IsSent := by
    rintro a ha ⟨d', rfl⟩
    simp at ha
  have hfirst : ∀ a ∈ [Action.sent d], ¬a.IsOutput := by
    rintro a ha ⟨e, rfl, -⟩
    simp at ha
  exact (neverAfter_of_no_second hrest).prepend hfirst

/-! ### The exchanges of one candidate -/

/-- What a dispatch reports is what its exchanges gave. -/
structure Reports (sent : Sent σ) : Prop where
  order : NeverAfter Action.IsOutput Action.IsSent sent.actions
  ok : ∀ summary, sent.result = .ok summary → (summary.sawOutput = true ↔ GaveOutput sent.actions)
  error : ∀ f, sent.result = .error f → (f.phase = .afterOutput ↔ GaveOutput sent.actions)

/-- **The exchanges of a candidate, on sound dispatches, report what they gave.** -/
theorem attempt_reports (target : TargetId) (provider : Provider) (t : Turn) (p : PassState σ)
    (hsound : ∀ d, .sent d ∈ (attempt s target provider t p).actions → d.Sound s) :
    Reports (attempt s target provider t p) := by
  rcases attempt_cases s target provider t p with
    ⟨d, hchoice, -, -, hresult, hone⟩ |
    ⟨d, d', f, -, -, -, hchoice', -, -, -, hphase, -, hresult, htwo⟩
  · have hd : ¬d.upstream.Outgrows (s.adapterFor d.family) s.sink d.state := by
      have hs := hsound d (by rw [hone]; simp [exchangeActions])
      rwa [Dispatch.Sound, hchoice] at hs
    refine ⟨hone ▸ neverAfter_exchange d, ?_, ?_⟩
    · intro summary hok
      rw [hone, gaveOutput_exchange, exchange_ok (hresult.symm.trans hok)]
      rfl
    · intro f herror
      rw [hone, gaveOutput_exchange]
      constructor
      · intro hafter
        exact (exchange_after_output (hresult.symm.trans herror) hafter).resolve_right hd
      · exact exchange_output (hresult.symm.trans herror)
  · have hd' : ∀ f, (d'.exchange s).result = .error f →
        outputIn (d'.exchange s).delivered = false := by
      have hs := hsound d' (by rw [htwo]; simp [exchangeActions])
      rwa [Dispatch.Sound, hchoice'] at hs
    have hrefused : ∀ a ∈ [Action.sent d, .ended .current (.error f)], ¬a.IsOutput := by
      rintro a ha ⟨e, rfl, -⟩
      simp at ha
    have hgave : GaveOutput (attempt s target provider t p).actions ↔
        outputIn (d'.exchange s).delivered = true := by
      rw [← gaveOutput_exchange, htwo]
      constructor
      · rintro ⟨a, ha, hout⟩
        rcases List.mem_append.1 ha with ha | ha
        · exact absurd hout (hrefused a ha)
        · exact ⟨a, ha, hout⟩
      · rintro ⟨a, ha, hout⟩
        exact ⟨a, List.mem_append_right _ ha, hout⟩
    refine ⟨htwo ▸ (neverAfter_exchange d').prepend hrefused, ?_, ?_⟩
    · intro summary hok
      rw [hgave]
      cases hretried : (d'.exchange s).result with
      | ok summary' =>
        rw [hresult, hretried] at hok
        cases hok
        rw [exchange_ok hretried]
        rfl
      | error f' =>
        rw [hresult, hretried] at hok
        cases hok
    · intro f₀ herror
      rw [hgave]
      cases hretried : (d'.exchange s).result with
      | ok summary' =>
        rw [hresult, hretried] at herror
        cases herror
      | error f' =>
        rw [hresult, hretried] at herror
        cases herror
        rw [hphase, hd' f' hretried]
        simp

/-! ### One pass -/

/-- Nothing was given yet, and nothing is reported. -/
structure Silent (p : PassState σ) : Prop where
  flag : p.sawOutput = false
  log : ¬GaveOutput p.log

/-- What a pass, or a whole run, may have come to: nothing sent after output, and output reported
exactly when there was some. -/
structure Unspliced (outcome : Outcome) (log : List (Action σ)) : Prop where
  order : NeverAfter Action.IsOutput Action.IsSent log
  reported : outcome.sawOutput = true ↔ GaveOutput log

theorem gaveOutput_append {l m : List (Action σ)} :
    GaveOutput (l ++ m) ↔ GaveOutput l ∨ GaveOutput m := by
  simp only [GaveOutput, List.mem_append, or_and_right, exists_or]

theorem not_gaveOutput {l : List (Action σ)} (h : ∀ a ∈ l, a.isExchange = false) :
    ¬GaveOutput l := by
  rintro ⟨a, ha, hout⟩
  have hex := hout.isExchange
  rw [h a ha] at hex
  cases hex

theorem Silent.passed {p p' : PassState σ} (h : Silent p) (hpassed : Passed p p') : Silent p' := by
  obtain ⟨actions, hlog, hidle⟩ := hpassed.log
  refine ⟨hpassed.sawOutput.trans h.flag, ?_⟩
  rw [hlog, gaveOutput_append]
  exact not_or.2 ⟨h.log, not_gaveOutput hidle⟩

/-- A pass that gave nothing is unspliced as it is. -/
theorem Silent.unspliced {p : PassState σ} (h : Silent p) (error : RouterError) :
    Unspliced (p.failed error) p.log := by
  have hnone : ∀ a ∈ p.log, ¬a.IsOutput := fun a ha hout => h.log ⟨a, ha, hout⟩
  refine ⟨neverAfter_of_no_first hnone, ?_⟩
  show p.sawOutput = true ↔ GaveOutput p.log
  rw [h.flag]
  exact iff_of_false (by simp) h.log

theorem gaveOutput_dispatch (hold : Option ℕ) (entered : Bool) (sent : Sent σ) :
    GaveOutput (dispatchActions s hold entered sent) ↔ GaveOutput sent.actions := by
  have hbefore : ¬GaveOutput
      (taken hold ++ if entered then [.dispatchEntered] else [] : List (Action σ)) :=
    not_gaveOutput fun a ha => before_isExchange ha
  have hafter : ¬GaveOutput (concluded s hold entered sent.result) :=
    not_gaveOutput fun a ha => concluded_isExchange ha
  rw [dispatchActions, gaveOutput_append, gaveOutput_append]
  simp [hbefore, hafter]

/-- **A dispatch from silence**: the pass goes on in silence, or is over and unspliced. -/
theorem dispatchTo_unspliced {target : TargetId} {provider : Provider} {t : Turn} {hold : Option ℕ}
    {entered : Bool} {p : PassState σ} {v : Verdict σ} (hsilent : Silent p)
    (hreports : Reports (attempt s target provider t p))
    (hcase : DispatchCase s target p hold entered (attempt s target provider t p) v) :
    v.elim Silent fun o p' => Unspliced o p'.log := by
  have hgave := gaveOutput_dispatch (s := s) hold entered (attempt s target provider t p)
  have horder : NeverAfter Action.IsOutput Action.IsSent
      (p.log ++ dispatchActions s hold entered (attempt s target provider t p)) := by
    refine NeverAfter.prepend ?_ fun a ha hout => hsilent.log ⟨a, ha, hout⟩
    refine NeverAfter.extend ?_ (not_isSent fun a ha => concluded_isExchange ha)
    exact hreports.order.prepend fun a ha hout =>
      not_gaveOutput (fun b hb => before_isExchange hb) ⟨a, ha, hout⟩
  have hall : GaveOutput (p.log ++ dispatchActions s hold entered (attempt s target provider t p)) ↔
      GaveOutput (attempt s target provider t p).actions := by
    rw [gaveOutput_append, hgave]
    exact or_iff_right hsilent.log
  have hflag : ∀ f, (attempt s target provider t p).result = .error f →
      ((p.sawOutput || decide (f.phase = .afterOutput)) = true ↔
        GaveOutput (attempt s target provider t p).actions) := by
    intro f hresult
    rw [hsilent.flag, Bool.false_or, decide_eq_true_iff]
    exact hreports.error f hresult
  cases hcase with
  | @succeeded summary o p' hresult herror hsaw hvisits =>
    show Unspliced o p'.log
    rw [log_of_visits hvisits]
    refine ⟨horder, ?_⟩
    rw [hsaw, hsilent.flag, Bool.false_or, hreports.ok summary hresult, hall]
  | @failedOver f p' hresult hmay hsaw hvisits =>
    -- A failure after output is never failed over from.
    have hnot : f.phase ≠ .afterOutput := by
      intro hafter
      simp [AttemptFailure.mayFailover, hafter, AttemptPhase.permitsFailover] at hmay
    refine ⟨?_, ?_⟩
    · rw [hsaw, hsilent.flag]
      simp [hnot]
    · rw [log_of_visits hvisits, hall]
      exact fun hg => hnot ((hreports.error f hresult).2 hg)
  | @failed f p' hresult hmay hsaw hattempts hexclusions hvisits =>
    show Unspliced (p'.failed f.error) p'.log
    rw [log_of_visits hvisits]
    refine ⟨horder, ?_⟩
    show p'.sawOutput = true ↔ _
    rw [hsaw, hflag f hresult, hall]

/-- Every dispatch on record is sound. -/
def AllSound (s : Setting σ) (log : List (Action σ)) : Prop := ∀ d, .sent d ∈ log → d.Sound s

theorem silent_start (exclusions : List Exclusion) (state : σ) :
    Silent (PassState.start exclusions state) := by
  refine ⟨rfl, ?_⟩
  rintro ⟨a, ha, -⟩
  simp [PassState.start, PassState.log] at ha

theorem unspliced_carries (s : Setting σ) :
    Carries s (fun d => d.Sound s) Silent fun o p => Unspliced o p.log where
  start := silent_start
  passed := Silent.passed
  stopped error hsilent := hsilent.unspliced error
  dispatched _ _ _ _ _ _ hsilent hsound :=
    dispatchTo_unspliced hsilent (attempt_reports _ _ _ _ hsound) (dispatchTo_cases ..)

/-- **One pass** on sound dispatches. -/
theorem executeOnce_unspliced (round : Round) (state : σ)
    (hsound : AllSound s (executeOnce s round state).2.log) :
    Unspliced (executeOnce s round state).1 (executeOnce s round state).2.log :=
  (unspliced_carries s).executeOnce round state hsound

/-! ### Every round -/

/-- **Never a second answer.**  In every run of a request all of whose dispatches are sound, nothing
is sent upstream after the sink was given semantic output, and the outcome reports output if and only
if some was given. -/
theorem no_second_answer (s : Setting σ) (w : World) (state : σ)
    (hsound : AllSound s (executeForKey s w state).log) :
    NeverAfter Action.IsOutput Action.IsSent (executeForKey s w state).log ∧
      ((executeForKey s w state).outcome.sawOutput = true ↔
        GaveOutput (executeForKey s w state).log) := by
  suffices h : AllSound s (executeForKey s w state).log →
      Unspliced (executeForKey s w state).outcome (executeForKey s w state).log from
    ⟨(h hsound).order, (h hsound).reported⟩
  refine executeForKey_rule s (P := fun r => AllSound s r.log → Unspliced r.outcome r.log) w state
    ?_ ?_ ?_
  · intro round state hsound
    exact executeOnce_unspliced round state hsound
  · exact fun r state hr => hr
  · intro round state r hr hawaits hsound
    have hbefore := hr fun d hd => hsound d (List.mem_append_left _ hd)
    have hpass := executeOnce_unspliced round state fun d hd => hsound d (List.mem_append_right _ hd)
    -- Neither wait runs a request again that has reported output.
    have hquiet : ¬GaveOutput r.log := by
      rw [← hbefore.reported, awaits_sawOutput hawaits]
      simp
    refine ⟨hpass.order.prepend fun a ha hout => hquiet ⟨a, ha, hout⟩, ?_⟩
    have hall : GaveOutput (r.log ++ (executeOnce s round state).2.log) ↔
        GaveOutput (executeOnce s round state).2.log := by
      rw [gaveOutput_append]
      exact or_iff_right hquiet
    exact hpass.reported.trans hall.symm

end NoSplice

namespace Sample

/-- The first candidate is answered in full once the superseded credential is presented. -/
def overlapped : World := ⟨round (turn .held refused whole) stopping, none, none⟩

def refusedDispatch : Dispatch Unit := ⟨"small", .llamaCpp, .current, refused, (), []⟩

def wholeDispatch : Dispatch Unit := ⟨"small", .llamaCpp, .superseded, whole, (), []⟩

theorem refusedDispatch_sound : refusedDispatch.Sound setting := by
  rintro ⟨-, a, hconnect, hsuccess, -⟩
  cases hconnect
  exact absurd hsuccess (by decide)

theorem wholeDispatch_sound : wholeDispatch.Sound setting := by
  have hok : (wholeDispatch.exchange setting).result.isOk = true := by decide +kernel
  intro f hresult
  rw [hresult] at hok
  cases hok

/-- A refused credential, and the answer under the superseded one. -/
theorem overlap_answered_once :
    AllSound setting (executeForKey setting overlapped ()).log ∧
      NeverAfter Action.IsOutput Action.IsSent (executeForKey setting overlapped ()).log ∧
        ((executeForKey setting overlapped ()).outcome.sawOutput = true ↔
          GaveOutput (executeForKey setting overlapped ()).log) := by
  have hsent : ∀ a ∈ (executeForKey setting overlapped ()).log, a.IsSent →
      a = .sent refusedDispatch ∨ a = .sent wholeDispatch := by decide +kernel
  have hsound : AllSound setting (executeForKey setting overlapped ()).log := by
    intro d hd
    rcases hsent _ hd ⟨d, rfl⟩ with heq | heq
    · cases heq
      exact refusedDispatch_sound
    · cases heq
      exact wholeDispatch_sound
  exact ⟨hsound, no_second_answer setting overlapped () hsound⟩

/-- The first candidate is stopping; the second breaks off under the superseded credential, after
its first words. -/
def forgotten : World :=
  ⟨round stopping (turn .unmanaged refused brokenOff), some [round (turn .held whole whole) stopping],
    none⟩

/-- **The words are forgotten, the request is parked, and the client is answered a second time.** -/
theorem forgotten_output_spliced :
    ¬∀ (s : Setting Unit) (w : World) (state : Unit),
      NeverAfter Action.IsOutput Action.IsSent (executeForKey s w state).log ∧
        ((executeForKey s w state).outcome.sawOutput = true ↔
          GaveOutput (executeForKey s w state).log) := by
  intro hall
  have hspliced : ¬NeverAfter Action.IsOutput Action.IsSent (executeForKey setting forgotten ()).log := by
    decide +kernel
  exact hspliced (hall setting forgotten ()).1

end Sample

end HypeLlm.Pipeline
