import HypeLlm.Pipeline.Exchange

/-!
# What the phase of a failed exchange says

Three retry mechanisms read the phase of a failure and nothing else about what the client was
given, so everything they do rests on what the phase says about the events that were handed over:

* `exchange_before` — an exchange that failed before acceptance handed nothing over;
* `exchange_output` — one that handed semantic output over and failed is reported as after output;
* `exchange_after_output` — one that is reported as after output did hand some over, unless an
  event of its stream outgrew the parser first (`Upstream.Outgrows`), a failure the source reports
  as after output whether or not there was any.
-/

namespace HypeLlm.Pipeline

open HypeLlm.Sse

section Reading

variable {σ : Type} (adapter : Adapter) (sink : Sink σ)

/-- An event of the stream outgrows the parser before the sink was given any output. -/
def BodyOutgrows : Body → SseParser → Delivery σ → Prop
  | .complete, _, _ => False
  | .failed _, _, _ => False
  | .idle rest, parser, d =>
    (sink.keepalive d.state).1 = true ∧
      BodyOutgrows rest parser { d with state := (sink.keepalive d.state).2 }
  | .chunk bytes rest, parser, d =>
    (d.sawOutput = false ∧ bytes ≠ [] ∧ (parser.push bytes).failed = none ∧
      ∃ e, (parser.push bytes).drain.1 = .error e) ∨
    ∃ parser' d', readChunk adapter sink bytes parser d = (.more parser', d') ∧
      BodyOutgrows rest parser' d'

/-- The upstream accepts the request and answers with a stream that outgrows the parser before
there is any output. -/
def Upstream.Outgrows (u : Upstream) (state : σ) : Prop :=
  u.preparation.failure = none ∧ ∃ a, u.connect = .ok a ∧ a.isSuccess = true ∧
    a.eventStream = true ∧ BodyOutgrows adapter sink a.body (SseParser.new .default) (.new state)

namespace Delivery

/-- What is remembered of the output is what the sink was given. -/
def Honest (d : Delivery σ) : Prop := d.sawOutput = outputIn d.delivered

theorem honest_new (state : σ) : (Delivery.new state).Honest := rfl

theorem Honest.collect {d : Delivery σ} (h : d.Honest) (e : CanonicalEvent) :
    (d.collect e).Honest := by
  unfold Delivery.collect
  split
  · exact h
  · exact h

end Delivery

/-- The failure is reported in the phase the delivery had reached. -/
def PhaseOf (result : Except AttemptFailure Unit) (d : Delivery σ) : Prop :=
  ∀ f, result = .error f → f.phase = .accepted d.sawOutput

theorem phaseOf_ok (d : Delivery σ) : PhaseOf (.ok ()) d := by
  intro f hf
  cases hf

theorem phaseOf_error {f : AttemptFailure} {d : Delivery σ} (h : f.phase = .accepted d.sawOutput) :
    PhaseOf (.error f) d := by
  intro f' hf'
  cases hf'
  exact h

theorem deliverEvents_spec (events : List CanonicalEvent) (d : Delivery σ) (hd : d.Honest) :
    (deliverEvents sink events d).2.Honest ∧
      PhaseOf (deliverEvents sink events d).1 (deliverEvents sink events d).2 := by
  induction events generalizing d with
  | nil => exact ⟨hd, phaseOf_ok d⟩
  | cons e es ih =>
    simp only [deliverEvents]
    have hnext : ∀ (state : σ) (ended : Bool), Delivery.Honest
        { d with
          state := state
          sawOutput := d.sawOutput || e.isSemanticOutput
          ended := ended
          delivered := d.delivered ++ [e] } := by
      intro state ended
      show (d.sawOutput || e.isSemanticOutput) = outputIn (d.delivered ++ [e])
      rw [hd]
      simp [outputIn]
    split
    · exact ih _ ((hnext _ _).collect e)
    · exact ⟨hnext _ _, phaseOf_error rfl⟩

/-- The phase of a result that ends the stream. -/
def Progress.PhaseOf (progress : Progress) (d : Delivery σ) : Prop :=
  ∀ result, progress = .done result → HypeLlm.Pipeline.PhaseOf result d

theorem decodeEvents_spec (parser : SseParser) (events : List SseEvent) (d : Delivery σ)
    (hd : d.Honest) :
    (decodeEvents adapter sink parser events d).2.Honest ∧
      (decodeEvents adapter sink parser events d).1.PhaseOf
        (decodeEvents adapter sink parser events d).2 := by
  induction events generalizing d with
  | nil =>
    refine ⟨hd, fun result h => ?_⟩
    cases h
  | cons sse rest ih =>
    simp only [decodeEvents]
    split
    · refine ⟨hd, fun result h => ?_⟩
      cases h
      exact phaseOf_ok d
    · split
      case h_1 c _ =>
        refine ⟨hd, fun result h => ?_⟩
        cases h
        exact phaseOf_error rfl
      case h_2 events' _ =>
        have hdelivered := deliverEvents_spec sink events' d hd
        split
        case h_1 f d' heq =>
          rw [heq] at hdelivered
          refine ⟨hdelivered.1, fun result h => ?_⟩
          cases h
          exact hdelivered.2
        case h_2 d' heq =>
          rw [heq] at hdelivered
          exact ih d' hdelivered.1

/-- **One read**: what it reports is where it stands, or an event outgrew the parser. -/
theorem readChunk_spec (bytes : List UInt8) (parser : SseParser) (d : Delivery σ) (hd : d.Honest) :
    (readChunk adapter sink bytes parser d).2.Honest ∧
      ((readChunk adapter sink bytes parser d).1.PhaseOf (readChunk adapter sink bytes parser d).2 ∨
        (bytes ≠ [] ∧ (parser.push bytes).failed = none ∧
            (∃ e, (parser.push bytes).drain.1 = .error e) ∧
          readChunk adapter sink bytes parser d =
            (.done (.error (.malformed .afterOutput)), d))) := by
  by_cases hempty : bytes = []
  · rw [readChunk, if_pos hempty]
    refine ⟨hd, .inl fun result h => ?_⟩
    cases h
  · cases hfailed : (parser.push bytes).failed with
    | some e =>
      have hpush : readChunk adapter sink bytes parser d =
          (.done (.error (.malformed (.accepted d.sawOutput))), d) := by
        simp [readChunk, hempty, hfailed]
      rw [hpush]
      refine ⟨hd, .inl fun result h => ?_⟩
      cases h
      exact phaseOf_error rfl
    | none =>
      cases hdrain : (parser.push bytes).drain with
      | mk drained parser' =>
        cases drained with
        | error e =>
          have hchunk : readChunk adapter sink bytes parser d =
              (.done (.error (.malformed .afterOutput)), d) := by
            simp [readChunk, hempty, hfailed, hdrain]
          refine ⟨?_, .inr ⟨hempty, rfl, ⟨e, rfl⟩, hchunk⟩⟩
          rw [hchunk]
          exact hd
        | ok events =>
          have hchunk : readChunk adapter sink bytes parser d =
              decodeEvents adapter sink parser' events d := by
            simp [readChunk, hempty, hfailed, hdrain]
          rw [hchunk]
          have hdecoded := decodeEvents_spec adapter sink parser' events d hd
          exact ⟨hdecoded.1, .inl hdecoded.2⟩

/-- **A stream** reports where it stands, or that an event outgrew the parser, which it reports as
after output. -/
theorem streamEvents_spec (body : Body) (parser : SseParser) (d : Delivery σ) (hd : d.Honest) :
    (streamEvents adapter sink body parser d).2.Honest ∧
      (PhaseOf (streamEvents adapter sink body parser d).1
          (streamEvents adapter sink body parser d).2 ∨
        (BodyOutgrows adapter sink body parser d ∧
          (streamEvents adapter sink body parser d).1 = .error (.malformed .afterOutput))) := by
  induction body generalizing parser d with
  | complete =>
    refine ⟨hd, .inl ?_⟩
    simp only [streamEvents, streamEnd]
    split
    · exact phaseOf_ok d
    · exact phaseOf_error rfl
  | failed e => exact ⟨hd, .inl (phaseOf_error rfl)⟩
  | idle rest ih =>
    simp only [streamEvents, BodyOutgrows]
    split
    case isTrue hopen =>
      obtain ⟨hhonest, hphase⟩ := ih parser { d with state := (sink.keepalive d.state).2 } hd
      refine ⟨hhonest, ?_⟩
      rcases hphase with hphase | ⟨hgrows, hresult⟩
      · exact .inl hphase
      · exact .inr ⟨⟨hopen, hgrows⟩, hresult⟩
    case isFalse => exact ⟨hd, .inl (phaseOf_error rfl)⟩
  | chunk bytes rest ih =>
    obtain ⟨hhonest, hchunk⟩ := readChunk_spec adapter sink bytes parser d hd
    cases hread : readChunk adapter sink bytes parser d with
    | mk progress d' =>
      rw [hread] at hhonest hchunk
      cases progress with
      | more parser' =>
        have hgo : streamEvents adapter sink (.chunk bytes rest) parser d =
            streamEvents adapter sink rest parser' d' := by
          simp [streamEvents, hread]
        rw [hgo]
        obtain ⟨hrest, hphase⟩ := ih parser' d' hhonest
        refine ⟨hrest, ?_⟩
        rcases hphase with hphase | ⟨hgrows, hresult⟩
        · exact .inl hphase
        · exact .inr ⟨.inr ⟨parser', d', hread, hgrows⟩, hresult⟩
      | done result =>
        have hgo : streamEvents adapter sink (.chunk bytes rest) parser d = (result, d') := by
          simp [streamEvents, hread]
        rw [hgo]
        refine ⟨hhonest, ?_⟩
        rcases hchunk with hphase | ⟨hbytes, hpush, hdrain, heq⟩
        · exact .inl (hphase result rfl)
        · obtain ⟨hresult, rfl⟩ := Prod.mk.inj heq
          obtain rfl : result = .error (.malformed .afterOutput) := by simpa using hresult
          cases hsaw : d'.sawOutput with
          | true =>
            refine .inl (phaseOf_error ?_)
            rw [hsaw]
            rfl
          | false => exact .inr ⟨.inl ⟨hsaw, hbytes, hpush, hdrain⟩, rfl⟩

theorem wholeBody_spec (a : Answer) (d : Delivery σ) (hd : d.Honest) :
    (wholeBody adapter sink a d).2.Honest ∧
      PhaseOf (wholeBody adapter sink a d).1 (wholeBody adapter sink a d).2 := by
  unfold wholeBody
  split
  · exact ⟨hd, phaseOf_error rfl⟩
  · split
    · exact ⟨hd, phaseOf_error rfl⟩
    case h_2 events _ =>
      have hdelivered := deliverEvents_spec sink events d hd
      split
      case h_1 f d' heq =>
        rw [heq] at hdelivered
        exact hdelivered
      case h_2 d' heq =>
        rw [heq] at hdelivered
        exact ⟨hdelivered.1, phaseOf_ok _⟩

/-- **An accepted answer** is reported where it stands, unless its stream outgrew the parser. -/
theorem readAnswer_spec (a : Answer) (state : σ) :
    (readAnswer adapter sink a state).2.Honest ∧
      (PhaseOf (readAnswer adapter sink a state).1 (readAnswer adapter sink a state).2 ∨
        (a.eventStream = true ∧
          BodyOutgrows adapter sink a.body (SseParser.new .default) (.new state) ∧
          (readAnswer adapter sink a state).1 = .error (.malformed .afterOutput))) := by
  unfold readAnswer
  split
  case isTrue hstream =>
    obtain ⟨hhonest, hphase⟩ := streamEvents_spec adapter sink a.body
      (SseParser.new .default) (.new state) (Delivery.honest_new state)
    refine ⟨hhonest, hphase.imp_right ?_⟩
    rintro ⟨hgrows, hresult⟩
    exact ⟨hstream, hgrows, hresult⟩
  case isFalse =>
    obtain ⟨hhonest, hphase⟩ := wholeBody_spec adapter sink a (.new state)
      (Delivery.honest_new state)
    exact ⟨hhonest, .inl hphase⟩

/-- Before there is an answer nothing is reported as after output. -/
theorem preparation_phase {preparation : Preparation} {f : AttemptFailure}
    (h : preparation.failure = some f) : f.phase = .beforeAcceptance := by
  cases preparation with
  | ready => cases h
  | _ =>
    simp only [Preparation.failure, Preparation.refuse, Option.some.injEq] at h
    rw [← h]

theorem trial_phase {trial : Trial} {f : AttemptFailure} (h : trial.result = .error f) :
    f.phase ≠ .afterOutput := by
  cases trial with
  | answered a => cases h
  | _ =>
    cases h
    simp [AttemptFailure.fromUpstream]

theorem connect_phase {u : Upstream} {f : AttemptFailure} (h : u.connect = .error f) :
    f.phase ≠ .afterOutput := by
  unfold Upstream.connect at h
  split at h
  · cases h
    simp [AttemptFailure.fromUpstream]
  · split at h
    · split at h
      · cases h
        simp [AttemptFailure.fromUpstream]
      · exact trial_phase h
    · exact trial_phase h

/-- **The two kinds of exchange**: one that failed with nothing handed over, and one whose answer
was read. -/
theorem exchange_cases (inputTokens : ℕ) (u : Upstream) (state : σ) :
    (∃ f, exchange adapter sink inputTokens u state = ⟨.error f, state, []⟩ ∧
        f.phase ≠ .afterOutput) ∨
      ∃ a, u.preparation.failure = none ∧ u.connect = .ok a ∧ a.isSuccess = true ∧
        exchange adapter sink inputTokens u state =
          ⟨(readAnswer adapter sink a state).1.map fun _ =>
              summarize adapter inputTokens (readAnswer adapter sink a state).2,
            (readAnswer adapter sink a state).2.state,
            (readAnswer adapter sink a state).2.delivered⟩ := by
  unfold exchange
  cases hready : u.preparation.failure with
  | some f =>
    refine .inl ⟨f, rfl, ?_⟩
    rw [preparation_phase hready]
    decide
  | none =>
    cases hconnect : u.connect with
    | error f => exact .inl ⟨f, rfl, connect_phase hconnect⟩
    | ok a =>
      cases hsuccess : a.isSuccess with
      | false =>
        refine .inl ⟨.fromClassification .beforeAcceptance (a.refusal adapter), ?_, ?_⟩
        · simp [hsuccess]
        · simp [AttemptFailure.fromClassification]
      | true =>
        refine .inr ⟨a, rfl, rfl, hsuccess, ?_⟩
        cases hread : readAnswer adapter sink a state with
        | mk result d =>
          cases result with
          | error f => simp [hsuccess, hread, Except.map]
          | ok u => simp [hsuccess, hread, Except.map]

section Spec

variable {adapter sink} {inputTokens : ℕ} {u : Upstream} {state : σ} {f : AttemptFailure}

/-- The failure of an answer that was being read. -/
theorem readAnswer_error {a : Answer} {summary : AttemptSummary}
    (h : ((readAnswer adapter sink a state).1.map fun _ => summary) = .error f) :
    (readAnswer adapter sink a state).1 = .error f := by
  cases hresult : (readAnswer adapter sink a state).1 with
  | error f' =>
    rw [hresult] at h
    cases h
    rfl
  | ok u =>
    rw [hresult] at h
    cases h

/-- **Nothing is handed over before acceptance.** -/
theorem exchange_before (h : (exchange adapter sink inputTokens u state).result = .error f)
    (hphase : f.phase = .beforeAcceptance) :
    (exchange adapter sink inputTokens u state).delivered = [] := by
  rcases exchange_cases adapter sink inputTokens u state with
    ⟨f', heq, -⟩ | ⟨a, -, -, -, heq⟩
  · rw [heq]
  · rw [heq] at h
    have hread := readAnswer_error h
    rcases (readAnswer_spec adapter sink a state).2 with
      hstands | ⟨-, -, hgrown⟩
    · exact absurd ((hstands f hread).symm.trans hphase) (AttemptPhase.accepted_ne_before _)
    · rw [hread] at hgrown
      cases hgrown
      cases hphase

/-- **Output handed over is reported.** -/
theorem exchange_output (h : (exchange adapter sink inputTokens u state).result = .error f)
    (houtput : outputIn (exchange adapter sink inputTokens u state).delivered = true) :
    f.phase = .afterOutput := by
  rcases exchange_cases adapter sink inputTokens u state with
    ⟨f', heq, -⟩ | ⟨a, -, -, -, heq⟩
  · rw [heq] at houtput
    cases houtput
  · rw [heq] at h houtput
    have hread := readAnswer_error h
    obtain ⟨hhonest, hstands | ⟨-, -, hgrown⟩⟩ :=
      readAnswer_spec adapter sink a state
    · rw [hstands f hread, AttemptPhase.accepted_eq_afterOutput, hhonest]
      exact houtput
    · rw [hread] at hgrown
      cases hgrown
      rfl

/-- **Output that is reported was handed over**, unless the stream outgrew the parser first. -/
theorem exchange_after_output (h : (exchange adapter sink inputTokens u state).result = .error f)
    (hphase : f.phase = .afterOutput) :
    outputIn (exchange adapter sink inputTokens u state).delivered = true ∨
      u.Outgrows adapter sink state := by
  rcases exchange_cases adapter sink inputTokens u state with
    ⟨f', heq, hne⟩ | ⟨a, hready, hconnect, hsuccess, heq⟩
  · rw [heq] at h
    cases h
    exact absurd hphase hne
  · rw [heq] at h ⊢
    have hread := readAnswer_error h
    obtain ⟨hhonest, hstands | ⟨hstream, hgrows, -⟩⟩ :=
      readAnswer_spec adapter sink a state
    · left
      have haccepted := (hstands f hread).symm.trans hphase
      rw [AttemptPhase.accepted_eq_afterOutput, hhonest] at haccepted
      exact haccepted
    · exact .inr ⟨hready, a, hconnect, hsuccess, hstream, hgrows⟩

/-- **A successful exchange knows whether it handed output over.** -/
theorem exchange_ok {summary : AttemptSummary}
    (h : (exchange adapter sink inputTokens u state).result = .ok summary) :
    summary.sawOutput = outputIn (exchange adapter sink inputTokens u state).delivered := by
  rcases exchange_cases adapter sink inputTokens u state with
    ⟨f', heq, -⟩ | ⟨a, -, -, -, heq⟩
  · rw [heq] at h
    cases h
  · rw [heq] at h ⊢
    have hhonest := (readAnswer_spec adapter sink a state).1
    cases hresult : (readAnswer adapter sink a state).1 with
    | error f' =>
      rw [hresult] at h
      cases h
    | ok u =>
      rw [hresult] at h
      cases h
      exact hhonest

end Spec

end Reading

end HypeLlm.Pipeline
