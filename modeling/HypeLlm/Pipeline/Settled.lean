import HypeLlm.Lib.Lists
import HypeLlm.Pipeline.Accumulator
import HypeLlm.Pipeline.Phases
import HypeLlm.Pipeline.Rounds

/-!
# The usage an exchange settles with

What an exchange is charged for is read off the start and usage events that it retained while the
others went to the sink, at most `maxRetainedEvents` of them.  A stream retains as it delivers, a
whole body when all of it has been delivered; both retain the same:

* `exchange_retains` — the usage is settled from the first start and usage events delivered;
* `usage_settled` — so up to the bound it is settled from every event of the exchange.
-/

namespace HypeLlm.Pipeline

open HypeLlm.Sse HypeLlm.Lists

/-- The report where it is the provider's, and otherwise the estimate of the input beside the output
that was counted. -/
def settledUsage (inputTokens : ℕ) (reported : CanonicalUsage) : CanonicalUsage :=
  if reported.isReported then reported
  else { CanonicalUsage.estimated inputTokens 0 with outputTokens := reported.outputTokens }

/-- The events a usage may depend on. -/
def usageEvents (events : List CanonicalEvent) : List CanonicalEvent :=
  events.filter CanonicalEvent.retainAfterStream

/-- An adapter whose usage depends on start and usage events only. -/
def Adapter.ReadsUsageEvents (adapter : Adapter) : Prop :=
  ∀ events, adapter.usageFromEvents (usageEvents events) = adapter.usageFromEvents events

/-! ### What adapters make of usage events -/

/-- The last report, as most families count. -/
def lastUsage (events : List CanonicalEvent) : CanonicalUsage :=
  events.foldl (fun last event =>
    match event with
    | .usage usage => usage
    | _ => last) (.estimated 0 0)

theorem lastUsage_usageEvents (events : List CanonicalEvent) :
    lastUsage (usageEvents events) = lastUsage events := by
  unfold lastUsage usageEvents
  rw [List.foldl_filter]
  congr
  funext last event
  cases event <;> rfl

section Retaining

variable {σ : Type} (adapter : Adapter) (sink : Sink σ)

/-- What is collected are the first start and usage events of what was delivered. -/
def Delivery.Retains (d : Delivery σ) : Prop :=
  d.collected = (usageEvents d.delivered).take maxRetainedEvents

/-- An event delivered and then collected. -/
theorem collect_retains {d told : Delivery σ} {e : CanonicalEvent} (h : d.Retains)
    (hcollected : told.collected = d.collected) (hdelivered : told.delivered = d.delivered ++ [e]) :
    (told.collect e).Retains := by
  have hevents : usageEvents told.delivered =
      usageEvents d.delivered ++ if e.retainAfterStream then [e] else [] := by
    rw [hdelivered, usageEvents, List.filter_append, List.filter_singleton]
    cases e.retainAfterStream <;> rfl
  have hkept : told.collected = (usageEvents d.delivered).take maxRetainedEvents :=
    hcollected.trans h
  unfold Delivery.collect
  cases hretain : e.retainAfterStream with
  | false =>
    rw [if_neg (by simp), Delivery.Retains, hevents, hretain, hkept]
    simp
  | true =>
    rw [hretain, if_pos rfl] at hevents
    split
    next hroom =>
      show told.collected ++ [e] = (usageEvents told.delivered).take maxRetainedEvents
      have hless : told.collected.length < maxRetainedEvents := by simpa using hroom
      rw [hkept] at hless ⊢
      rw [hevents, ← take_push, if_neg (Nat.not_le.2 hless)]
    next hfull =>
      show told.collected = (usageEvents told.delivered).take maxRetainedEvents
      have hless : maxRetainedEvents ≤ told.collected.length := by simpa using hfull
      rw [hkept] at hless ⊢
      rw [hevents, ← take_push, if_pos hless]

/-- Events handed over to a sink that stays open are delivered, all of them. -/
theorem deliverEvents_ok (events : List CanonicalEvent) (d : Delivery σ) (hd : d.Retains)
    (hok : (deliverEvents sink events d).1 = .ok ()) :
    (deliverEvents sink events d).2.Retains ∧
      (deliverEvents sink events d).2.delivered = d.delivered ++ events := by
  induction events generalizing d with
  | nil => exact ⟨hd, (List.append_nil _).symm⟩
  | cons e es ih =>
    simp only [deliverEvents] at hok ⊢
    split at hok
    next hopen =>
      rw [if_pos hopen]
      have hnext := ih _ (collect_retains hd (by rfl) (by rfl)) hok
      refine ⟨hnext.1, hnext.2.trans ?_⟩
      unfold Delivery.collect
      split <;> simp
    next => cases hok

/-- What a read leads to, if it leads on or to success. -/
def Progress.Fine : Progress → Prop
  | .more _ => True
  | .done result => result = .ok ()

theorem decodeEvents_retains (parser : SseParser) (events : List SseEvent) (d : Delivery σ)
    (hd : d.Retains) (hfine : (decodeEvents adapter sink parser events d).1.Fine) :
    (decodeEvents adapter sink parser events d).2.Retains := by
  induction events generalizing d with
  | nil => exact hd
  | cons sse rest ih =>
    simp only [decodeEvents] at hfine ⊢
    split
    next => exact hd
    next hmore =>
      rw [if_neg hmore] at hfine
      cases hdecode : adapter.decodeStreamEvent sse.event sse.data with
      | error c => exact hd
      | ok events' =>
        rw [hdecode] at hfine
        dsimp only at hfine ⊢
        have hdelivered := deliverEvents_ok sink events' d hd
        cases hsent : deliverEvents sink events' d with
        | mk result d' =>
          rw [hsent] at hfine hdelivered
          cases result with
          | error f => cases hfine
          | ok u => exact ih d' (hdelivered rfl).1 hfine

theorem readChunk_retains (bytes : List UInt8) (parser : SseParser) (d : Delivery σ)
    (hd : d.Retains) (hfine : (readChunk adapter sink bytes parser d).1.Fine) :
    (readChunk adapter sink bytes parser d).2.Retains := by
  unfold readChunk at hfine ⊢
  split
  next => exact hd
  next hbytes =>
    rw [if_neg hbytes] at hfine
    split
    next => exact hd
    next hpush =>
      rw [if_neg hpush] at hfine
      cases hdrain : (parser.push bytes).drain with
      | mk drained parser' =>
        rw [hdrain] at hfine
        cases drained with
        | error e => exact hd
        | ok events => exact decodeEvents_retains adapter sink parser' events d hd hfine

theorem streamEvents_retains (body : Body) (parser : SseParser) (d : Delivery σ) (hd : d.Retains)
    (hok : (streamEvents adapter sink body parser d).1 = .ok ()) :
    (streamEvents adapter sink body parser d).2.Retains := by
  induction body generalizing parser d with
  | complete => exact hd
  | failed e => cases hok
  | idle rest ih =>
    simp only [streamEvents] at hok ⊢
    split at hok
    next hopen =>
      rw [if_pos hopen]
      exact ih parser _ hd hok
    next => cases hok
  | chunk bytes rest ih =>
    have hchunk := readChunk_retains adapter sink bytes parser d hd
    simp only [streamEvents] at hok ⊢
    cases hread : readChunk adapter sink bytes parser d with
    | mk progress d' =>
      rw [hread] at hok hchunk
      cases progress with
      | more parser' => exact ih parser' d' (hchunk trivial) hok
      | done result => exact hchunk hok

theorem wholeBody_retains (a : Answer) (state : σ)
    (hok : (wholeBody adapter sink a (.new state)).1 = .ok ()) :
    (wholeBody adapter sink a (.new state)).2.Retains := by
  unfold wholeBody at hok ⊢
  cases hbody : a.body.readToEnd with
  | error e =>
    rw [hbody] at hok
    cases hok
  | ok bytes =>
    rw [hbody] at hok
    cases hdecode : adapter.decodeResponse a.status bytes with
    | error c =>
      simp only [hdecode] at hok
      cases hok
    | ok events =>
      simp only [hdecode] at hok ⊢
      have hdelivered := deliverEvents_ok sink events (.new state) rfl
      cases hsent : deliverEvents sink events (.new state) with
      | mk result d =>
        rw [hsent] at hok hdelivered
        cases result with
        | error f => cases hok
        | ok u =>
          show (usageEvents events).take maxRetainedEvents =
            (usageEvents d.delivered).take maxRetainedEvents
          rw [(hdelivered rfl).2]
          rfl

theorem readAnswer_retains (a : Answer) (state : σ)
    (hok : (readAnswer adapter sink a state).1 = .ok ()) :
    (readAnswer adapter sink a state).2.Retains := by
  unfold readAnswer at hok ⊢
  split
  next hstream =>
    rw [if_pos hstream] at hok
    exact streamEvents_retains adapter sink a.body _ _ rfl hok
  next hbody =>
    rw [if_neg hbody] at hok
    exact wholeBody_retains adapter sink a state hok

end Retaining

section Settled

variable {σ : Type} {adapter : Adapter} {sink : Sink σ} {inputTokens : ℕ} {u : Upstream} {state : σ}
  {summary : AttemptSummary}

/-- **What a successful exchange settles with**, by stream or by body: the first start and usage
events that were delivered. -/
theorem exchange_retains
    (h : (exchange adapter sink inputTokens u state).result = .ok summary) :
    summary.usage = settledUsage inputTokens (adapter.usageFromEvents
      ((usageEvents (exchange adapter sink inputTokens u state).delivered).take
        maxRetainedEvents)) := by
  rcases exchange_cases adapter sink inputTokens u state with ⟨f, heq, -⟩ | ⟨a, -, -, -, heq⟩
  · rw [heq] at h
    cases h
  · rw [heq] at h ⊢
    have hretains := readAnswer_retains adapter sink a state
    cases hresult : (readAnswer adapter sink a state).1 with
    | error f =>
      rw [hresult] at h
      cases h
    | ok _ =>
      rw [hresult] at h
      cases h
      show settledUsage inputTokens (adapter.usageFromEvents _) = _
      rw [hretains hresult]

/-- **Up to the bound on what is retained, the usage counts every report.**  It is what the adapter
makes of all the events of the exchange where that is the provider's report, and otherwise the
estimate of the input with the output that was counted. -/
theorem usage_settled (hreads : adapter.ReadsUsageEvents)
    (h : (exchange adapter sink inputTokens u state).result = .ok summary)
    (hbound : (usageEvents (exchange adapter sink inputTokens u state).delivered).length ≤
      maxRetainedEvents) :
    summary.usage = settledUsage inputTokens
      (adapter.usageFromEvents (exchange adapter sink inputTokens u state).delivered) := by
  rw [exchange_retains h, List.take_of_length_le hbound, hreads]

end Settled

namespace Sample

/-- A family that answers with so many reports, each of the output so far. -/
def counting (tokens : ℕ) : Adapter where
  classifyError := completions.classifyError
  decodeResponse := completions.decodeResponse
  decodeStreamEvent _ _ := .ok ((List.range tokens).map fun n =>
    .usage ⟨5, n + 1, 0, 0, .providerReported⟩)
  isStreamTerminator := completions.isStreamTerminator
  usageFromEvents := lastUsage

/-- One stream of that family, to a client that stays. -/
def counted (tokens : ℕ) : Exchanged Unit := exchange (counting tokens) client 9 whole ()

theorem counted_two :
    (counting 2).ReadsUsageEvents ∧ (usageEvents (counted 2).delivered).length ≤ maxRetainedEvents ∧
      ∃ summary, (counted 2).result = .ok summary ∧
        summary.usage = settledUsage 9 (lastUsage (counted 2).delivered) := by
  have hreads : (counting 2).ReadsUsageEvents := lastUsage_usageEvents
  obtain ⟨hbound, hresult⟩ : (usageEvents (counted 2).delivered).length ≤ maxRetainedEvents ∧
      (counted 2).result = .ok ⟨⟨5, 2, 0, 0, .providerReported⟩, false, none⟩ := by
    decide +kernel
  exact ⟨hreads, hbound, _, hresult, usage_settled hreads hresult hbound⟩

/-- **What is settled with is not always what all the events say.**  A stream without a report is
settled with the estimate of its input, and one with more reports than are retained with the last
that was. -/
theorem usage_not_always_of_all_events :
    (¬∀ (adapter : Adapter) (inputTokens : ℕ) (u : Upstream) (summary : AttemptSummary),
      adapter.ReadsUsageEvents →
      (exchange adapter client inputTokens u ()).result = .ok summary →
        summary.usage = adapter.usageFromEvents (exchange adapter client inputTokens u ()).delivered) ∧
    (counted 257).result = .ok ⟨⟨5, 256, 0, 0, .providerReported⟩, false, none⟩ ∧
      lastUsage (counted 257).delivered = ⟨5, 257, 0, 0, .providerReported⟩ := by
  refine ⟨fun hall => ?_, by decide +kernel⟩
  obtain ⟨hresult, hevents⟩ : (counted 0).result = .ok ⟨⟨9, 0, 0, 0, .routerEstimated⟩, false, none⟩ ∧
      lastUsage (counted 0).delivered = ⟨0, 0, 0, 0, .routerEstimated⟩ := by
    decide +kernel
  have heq := hall (counting 0) 9 whole _ lastUsage_usageEvents hresult
  exact absurd (heq.trans hevents) (by decide)

end Sample

end HypeLlm.Pipeline
