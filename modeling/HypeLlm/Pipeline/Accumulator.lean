import HypeLlm.Lib.Lists
import HypeLlm.Lib.Maps
import HypeLlm.Pipeline.BoundedText
import HypeLlm.Pipeline.Exchange

/-!
# A response put together from its stream

`ResponseAccumulator` takes the events of a stream one by one and keeps the text, the reasoning, the
arguments of each tool call, the embeddings and the scores, each of them up to a limit.  The
fragments of different tool calls may come in any order: `toolSlots` finds the call of an index.

* `accumulate_channels` — every channel holds what `collected` makes of the deltas of that channel alone;
* `faithful_iff` — the channels are beginnings of what arrived exactly when no fragment is kept behind
  one that was cut.
-/

namespace HypeLlm.Pipeline

open Std HypeLlm.Fitting HypeLlm.Lists

/-! ### Usage -/

namespace CanonicalUsage

/-- Combine an earlier report with a later one of the same response.  The counts are cumulative, and
input tokens are taken only from a report that carried them. -/
def merge (u later : CanonicalUsage) : CanonicalUsage :=
  let source : UsageSource :=
    if u.isReported || later.isReported then .providerReported
    else if u.source = .providerReportedOutput ∨ later.source = .providerReportedOutput then
      .providerReportedOutput
    else .routerEstimated
  let input (report : CanonicalUsage) : ℕ :=
    match source with
    | .providerReported => if report.isReported then report.inputTokens else 0
    | .providerReportedOutput => 0
    | .routerEstimated => report.inputTokens
  { inputTokens := Nat.max (input u) (input later)
    outputTokens := Nat.max u.outputTokens later.outputTokens
    cachedInputTokens := Nat.max u.cachedInputTokens later.cachedInputTokens
    reasoningTokens := Nat.max u.reasoningTokens later.reasoningTokens
    source }

end CanonicalUsage

/-! ### The accumulator -/

namespace Limits

def maxTextBytes : ℕ := 8 * 1024 * 1024
def maxReasoningBytes : ℕ := 8 * 1024 * 1024
def maxToolCalls : ℕ := 1024
def maxToolArgumentsBytes : ℕ := 1024 * 1024
def maxEmbeddings : ℕ := 100000
def maxScores : ℕ := 4096

end Limits

open Limits

/-- A tool call put together from its fragments. -/
structure AccumulatedToolCall where
  index : ℕ
  id : String := ""
  name : String := ""
  arguments : String := ""
  deriving Repr, DecidableEq

structure ResponseAccumulator where
  text : String := ""
  reasoning : String := ""
  toolCalls : List AccumulatedToolCall := []
  embeddings : List (ℕ × List UInt32) := []
  scores : List (ℕ × UInt32) := []
  usage : Option CanonicalUsage := none
  finish : Option FinishReason := none
  upstreamId : Option String := none
  nativeModel : Option String := none
  error : Option RouterError := none
  /-- Some of the response was observed. -/
  sawOutput : Bool := false
  /-- A limit was reached and something discarded. -/
  truncated : Bool := false
  /-- The position in `toolCalls` of each index. -/
  toolSlots : TreeMap ℕ ℕ := ∅

/-- Take one fragment into a call.  With the call comes whether any of its arguments was discarded. -/
def AccumulatedToolCall.absorb (slot : AccumulatedToolCall) (d : ToolCallDelta) :
    Bool × AccumulatedToolCall :=
  let appended := appendBounded slot.arguments d.argumentsDelta maxToolArgumentsBytes
  (appended.1,
    { slot with
      id := d.id.getD slot.id
      name := d.name.getD slot.name
      arguments := appended.2 })

namespace ResponseAccumulator

/-- The position of the call of an index, which is added when it is new and there is room for one
more. -/
def slotFor (acc : ResponseAccumulator) (index : ℕ) : Option (ℕ × ResponseAccumulator) :=
  match acc.toolSlots[index]? with
  | some position => some (position, acc)
  | none =>
    if maxToolCalls ≤ acc.toolCalls.length then none
    else some (acc.toolCalls.length,
      { acc with
        toolCalls := acc.toolCalls ++ [{ index }]
        toolSlots := acc.toolSlots.insert index acc.toolCalls.length })

def pushToolCall (acc : ResponseAccumulator) (d : ToolCallDelta) : ResponseAccumulator :=
  match acc.slotFor d.index with
  | none => { acc with truncated := true }
  | some (position, acc) =>
    match acc.toolCalls[position]? with
    | none => acc
    | some slot =>
      let absorbed := slot.absorb d
      { acc with
        toolCalls := acc.toolCalls.set position absorbed.2
        truncated := acc.truncated || absorbed.1 }

/-- Absorb one event. -/
def push (acc : ResponseAccumulator) (event : CanonicalEvent) : ResponseAccumulator :=
  let acc := { acc with sawOutput := acc.sawOutput || event.isSemanticOutput }
  match event with
  | .start upstreamId nativeModel =>
    { acc with
      upstreamId := acc.upstreamId <|> upstreamId
      nativeModel := acc.nativeModel <|> nativeModel }
  | .textDelta t =>
    let appended := appendBounded acc.text t maxTextBytes
    { acc with text := appended.2, truncated := acc.truncated || appended.1 }
  | .reasoningDelta t =>
    let appended := appendBounded acc.reasoning t maxReasoningBytes
    { acc with reasoning := appended.2, truncated := acc.truncated || appended.1 }
  | .toolCallDelta d => acc.pushToolCall d
  | .embedding index values =>
    if maxEmbeddings ≤ acc.embeddings.length then { acc with truncated := true }
    else { acc with embeddings := acc.embeddings ++ [(index, values)] }
  | .score index score =>
    if maxScores ≤ acc.scores.length then { acc with truncated := true }
    else { acc with scores := acc.scores ++ [(index, score)] }
  | .usage u =>
    { acc with
      usage := some (match acc.usage with
        | some previous => previous.merge u
        | none => u) }
  | .finish reason => { acc with finish := some reason }
  | .error e => { acc with error := some e }

/-- The accumulator after a stream. -/
def accumulate (events : List CanonicalEvent) : ResponseAccumulator := events.foldl push {}

@[simp] theorem accumulate_nil : accumulate [] = {} := rfl

@[simp] theorem accumulate_concat (events : List CanonicalEvent) (event : CanonicalEvent) :
    accumulate (events ++ [event]) = (accumulate events).push event :=
  List.foldl_concat _ _ _ _

end ResponseAccumulator

/-! ### What arrived -/

namespace CanonicalEvent

def textDelta? : CanonicalEvent → Option String
  | .textDelta t => some t
  | _ => none

def reasoningDelta? : CanonicalEvent → Option String
  | .reasoningDelta t => some t
  | _ => none

def toolCallDelta? : CanonicalEvent → Option ToolCallDelta
  | .toolCallDelta d => some d
  | _ => none

def embedding? : CanonicalEvent → Option (ℕ × List UInt32)
  | .embedding index values => some (index, values)
  | _ => none

def score? : CanonicalEvent → Option (ℕ × UInt32)
  | .score index value => some (index, value)
  | _ => none

end CanonicalEvent

open CanonicalEvent

/-- The fragments of the assistant text. -/
def textDeltas (events : List CanonicalEvent) : List String := events.filterMap textDelta?

/-- The fragments of the reasoning. -/
def reasoningDeltas (events : List CanonicalEvent) : List String := events.filterMap reasoningDelta?

/-- The fragments of the arguments of one tool call. -/
def argumentDeltas (events : List CanonicalEvent) (index : ℕ) : List String :=
  ((events.filterMap toolCallDelta?).filter (·.index = index)).map (·.argumentsDelta)

/-- The indexes of the tool calls, in the order in which they first arrived. -/
def arrivals (events : List CanonicalEvent) : List ℕ :=
  ((events.filterMap toolCallDelta?).map (·.index)).eraseDups

def embeddingsOf (events : List CanonicalEvent) : List (ℕ × List UInt32) :=
  events.filterMap embedding?

def scoresOf (events : List CanonicalEvent) : List (ℕ × UInt32) := events.filterMap score?

theorem arrivals_concat (events : List CanonicalEvent) (event : CanonicalEvent) :
    arrivals (events ++ [event]) =
      match event with
      | .toolCallDelta d =>
        if d.index ∈ arrivals events then arrivals events else arrivals events ++ [d.index]
      | _ => arrivals events := by
  cases event
  case toolCallDelta d =>
    simp only [arrivals, List.mem_eraseDups]
    rw [List.filterMap_append, List.map_append]
    exact eraseDups_concat _ d.index
  all_goals simp only [arrivals, List.filterMap_append, List.filterMap_cons, List.filterMap_nil,
    toolCallDelta?, List.append_nil]

theorem argumentDeltas_concat (events : List CanonicalEvent) (event : CanonicalEvent) (index : ℕ) :
    argumentDeltas (events ++ [event]) index =
      match event with
      | .toolCallDelta d =>
        if d.index = index then argumentDeltas events index ++ [d.argumentsDelta]
        else argumentDeltas events index
      | _ => argumentDeltas events index := by
  cases event
  case toolCallDelta d =>
    by_cases hindex : d.index = index <;> simp [argumentDeltas, toolCallDelta?, hindex]
  all_goals simp [argumentDeltas, toolCallDelta?]

/-- Nothing has arrived for an index that has not. -/
theorem argumentDeltas_eq_nil {events : List CanonicalEvent} {index : ℕ}
    (h : index ∉ arrivals events) : argumentDeltas events index = [] := by
  rw [argumentDeltas, List.map_eq_nil_iff, List.filter_eq_nil_iff]
  intro d hd hindex
  rw [arrivals, List.mem_eraseDups] at h
  exact h (List.mem_map.2 ⟨d, hd, of_decide_eq_true hindex⟩)

/-- All of a response is within the limits. -/
structure Fits (events : List CanonicalEvent) : Prop where
  text : (String.join (textDeltas events)).utf8ByteSize ≤ maxTextBytes
  reasoning : (String.join (reasoningDeltas events)).utf8ByteSize ≤ maxReasoningBytes
  arguments : ∀ index,
    (String.join (argumentDeltas events index)).utf8ByteSize ≤ maxToolArgumentsBytes
  calls : (arrivals events).length ≤ maxToolCalls
  embeddings : (embeddingsOf events).length ≤ maxEmbeddings
  scores : (scoresOf events).length ≤ maxScores

/-! ### What the accumulator holds of it -/

/-- The tool calls are the first that arrived, each with what its own channel collected. -/
structure CallsTrack (events : List CanonicalEvent) (acc : ResponseAccumulator) : Prop where
  indexes : acc.toolCalls.map (·.index) = (arrivals events).take maxToolCalls
  slots : ∀ index position : ℕ, acc.toolSlots[index]? = some position ↔
    (acc.toolCalls.map (·.index))[position]? = some index
  arguments : ∀ call ∈ acc.toolCalls,
    call.arguments = collected maxToolArgumentsBytes (argumentDeltas events call.index)

/-- Every channel holds what it collected of its own deltas. -/
structure Tracks (events : List CanonicalEvent) (acc : ResponseAccumulator) : Prop where
  text : acc.text = collected maxTextBytes (textDeltas events)
  reasoning : acc.reasoning = collected maxReasoningBytes (reasoningDeltas events)
  calls : CallsTrack events acc
  embeddings : acc.embeddings = (embeddingsOf events).take maxEmbeddings
  scores : acc.scores = (scoresOf events).take maxScores
  fits : acc.truncated = false → Fits events

theorem tracks_nil : Tracks [] {} where
  text := rfl
  reasoning := rfl
  calls :=
    { indexes := rfl
      slots := fun index position => by
        simp
      arguments := fun call hcall => absurd hcall List.not_mem_nil }
  embeddings := rfl
  scores := rfl
  fits := fun _ =>
    { text := Nat.zero_le _
      reasoning := Nat.zero_le _
      arguments := fun _ => Nat.zero_le _
      calls := Nat.zero_le _
      embeddings := Nat.zero_le _
      scores := Nat.zero_le _ }

/-- What a fragment of a tool call can do. -/
theorem pushToolCall_cases {events : List CanonicalEvent} {acc : ResponseAccumulator}
    (h : CallsTrack events acc) (d : ToolCallDelta) :
    (∃ position slot, acc.toolCalls[position]? = some slot ∧ slot.index = d.index ∧
      acc.pushToolCall d = { acc with
        toolCalls := acc.toolCalls.set position (slot.absorb d).2
        truncated := acc.truncated || (slot.absorb d).1 }) ∨
    (d.index ∉ acc.toolCalls.map (·.index) ∧ acc.toolCalls.length < maxToolCalls ∧
      acc.pushToolCall d = { acc with
        toolCalls := acc.toolCalls ++ [(AccumulatedToolCall.absorb { index := d.index } d).2]
        toolSlots := acc.toolSlots.insert d.index acc.toolCalls.length
        truncated := acc.truncated || (AccumulatedToolCall.absorb { index := d.index } d).1 }) ∨
    (d.index ∉ acc.toolCalls.map (·.index) ∧ maxToolCalls ≤ acc.toolCalls.length ∧
      acc.pushToolCall d = { acc with truncated := true }) := by
  cases hslot : acc.toolSlots[d.index]? with
  | some position =>
    have hindex := (h.slots _ _).1 hslot
    rw [List.getElem?_map, Option.map_eq_some_iff] at hindex
    obtain ⟨slot, hget, hindex⟩ := hindex
    refine .inl ⟨position, slot, hget, hindex, ?_⟩
    simp only [ResponseAccumulator.pushToolCall, ResponseAccumulator.slotFor, hslot, hget]
  | none =>
    have hnew : d.index ∉ acc.toolCalls.map (·.index) := by
      intro hmem
      obtain ⟨position, hposition⟩ := List.getElem?_of_mem hmem
      rw [← h.slots, hslot] at hposition
      exact absurd hposition (by simp)
    rcases Nat.lt_or_ge acc.toolCalls.length maxToolCalls with hroom | hfull
    · refine .inr (.inl ⟨hnew, hroom, ?_⟩)
      simp only [ResponseAccumulator.pushToolCall, ResponseAccumulator.slotFor, hslot,
        if_neg (Nat.not_le.2 hroom), List.getElem?_concat_length, List.set_append_right _ _ le_rfl,
        Nat.sub_self, List.set_cons_zero]
    · refine .inr (.inr ⟨hnew, hfull, ?_⟩)
      simp only [ResponseAccumulator.pushToolCall, ResponseAccumulator.slotFor, hslot, if_pos hfull]

@[simp] theorem absorb_index (slot : AccumulatedToolCall) (d : ToolCallDelta) :
    (slot.absorb d).2.index = slot.index := rfl

theorem absorb_arguments {slot : AccumulatedToolCall} {d : ToolCallDelta} {deltas : List String}
    (h : slot.arguments = collected maxToolArgumentsBytes deltas) :
    (slot.absorb d).2.arguments = collected maxToolArgumentsBytes (deltas ++ [d.argumentsDelta]) := by
  rw [← collected_concat, ← h, AccumulatedToolCall.absorb]

namespace CallsTrack

variable {events : List CanonicalEvent} {acc : ResponseAccumulator}

theorem length_toolCalls (h : CallsTrack events acc) :
    acc.toolCalls.length = min maxToolCalls (arrivals events).length := by
  rw [← List.length_map fun call : AccumulatedToolCall => call.index, h.indexes, List.length_take]

/-- An index has one call. -/
theorem position_unique (h : CallsTrack events acc) {position other : ℕ}
    {slot call : AccumulatedToolCall} (hslot : acc.toolCalls[position]? = some slot)
    (hcall : acc.toolCalls[other]? = some call) (hindex : call.index = slot.index) :
    other = position := by
  have hposition := (h.slots slot.index position).2 (by rw [List.getElem?_map, hslot]; rfl)
  have hother := (h.slots slot.index other).2 (by rw [List.getElem?_map, hcall, ← hindex]; rfl)
  rw [hposition, Option.some.injEq] at hother
  exact hother.symm

/-- A fragment of a call that is there. -/
theorem push_known (h : CallsTrack events acc) {d : ToolCallDelta} {position : ℕ}
    {slot : AccumulatedToolCall} (hslot : acc.toolCalls[position]? = some slot)
    (hindex : slot.index = d.index) (cut : Bool) :
    CallsTrack (events ++ [CanonicalEvent.toolCallDelta d]) { acc with
      toolCalls := acc.toolCalls.set position (slot.absorb d).2
      truncated := cut } := by
  have hmap : (acc.toolCalls.set position (slot.absorb d).2).map (·.index) =
      acc.toolCalls.map (·.index) :=
    map_set_of_eq _ hslot (absorb_index slot d)
  have hmem : d.index ∈ arrivals events := by
    refine List.mem_of_mem_take (i := maxToolCalls) ?_
    rw [← h.indexes, ← hindex]
    exact List.mem_map_of_mem (List.mem_of_getElem? hslot)
  refine ⟨?_, fun index other => ?_, fun call hcall => ?_⟩
  · rw [hmap, h.indexes, arrivals_concat]
    simp only [hmem, if_true]
  · rw [hmap]
    exact h.slots index other
  · rw [argumentDeltas_concat]
    obtain ⟨other, hother⟩ := List.getElem?_of_mem hcall
    rw [List.getElem?_set] at hother
    split at hother
    next heq =>
      rw [if_pos (List.getElem?_eq_some_iff.1 hslot).1] at hother
      cases hother
      simp only [absorb_index, hindex, if_true]
      rw [absorb_arguments (h.arguments slot (List.mem_of_getElem? hslot)), hindex]
    next hne =>
      have hdiffer : d.index ≠ call.index := fun heq =>
        hne (h.position_unique hslot hother (heq.symm.trans hindex.symm)).symm
      simp only [hdiffer, if_false]
      exact h.arguments call (List.mem_of_getElem? hother)

/-- The first fragment of a call there is room for. -/
theorem push_new (h : CallsTrack events acc) {d : ToolCallDelta}
    (hnew : d.index ∉ acc.toolCalls.map (·.index)) (hroom : acc.toolCalls.length < maxToolCalls)
    (cut : Bool) :
    CallsTrack (events ++ [CanonicalEvent.toolCallDelta d]) { acc with
      toolCalls := acc.toolCalls ++ [(AccumulatedToolCall.absorb { index := d.index } d).2]
      toolSlots := acc.toolSlots.insert d.index acc.toolCalls.length
      truncated := cut } := by
  have hlength : (arrivals events).length < maxToolCalls := by
    have hmin := h.length_toolCalls
    rcases Nat.lt_or_ge (arrivals events).length maxToolCalls with hlt | hge
    · exact hlt
    · rw [Nat.min_eq_left hge] at hmin
      exact absurd hroom (by rw [hmin]; exact Nat.lt_irrefl _)
  have hunseen : d.index ∉ arrivals events := by
    rwa [h.indexes, List.take_of_length_le hlength.le] at hnew
  refine ⟨?_, fun index position => ?_, fun call hcall => ?_⟩
  · rw [arrivals_concat, List.map_append, h.indexes]
    simp only [hunseen, if_false, take_concat, hlength, if_true, List.map_singleton, absorb_index]
  · rw [Maps.getElem?_insert, List.map_append, List.map_singleton, absorb_index]
    by_cases hposition : position < acc.toolCalls.length
    · rw [List.getElem?_append_left (by simpa using hposition), ← h.slots]
      split
      next heq =>
        have hnone : acc.toolSlots[index]? ≠ some position := fun hsome =>
          hnew (heq ▸ List.mem_of_getElem? ((h.slots _ _).1 hsome))
        simp only [hnone, iff_false, Option.some.injEq]
        omega
      next => rfl
    · have hnone : acc.toolSlots[index]? ≠ some position := fun hsome => by
        have hlt := (List.getElem?_eq_some_iff.1 ((h.slots _ _).1 hsome)).1
        exact hposition (by simpa using hlt)
      rw [List.getElem?_append_right (by simpa using hposition), List.length_map,
        List.getElem?_singleton]
      split
      next heq =>
        subst heq
        simp only [Option.some.injEq, ite_eq_left_iff, reduceCtorEq, imp_false]
        omega
      next hne =>
        simp only [hnone, false_iff]
        split
        next => exact fun hsome => hne (Option.some.inj hsome).symm
        next => exact fun hsome => nomatch hsome
  · rw [argumentDeltas_concat]
    rcases List.mem_append.1 hcall with hcall | hcall
    · have hdiffer : d.index ≠ call.index := fun heq =>
        hnew (heq ▸ List.mem_map_of_mem hcall)
      simp only [hdiffer, if_false]
      exact h.arguments call hcall
    · cases List.mem_singleton.1 hcall
      simp only [absorb_index, if_true]
      refine absorb_arguments ?_
      rw [argumentDeltas_eq_nil hunseen, collected_nil]

/-- The first fragment of a call there is no room for. -/
theorem push_full (h : CallsTrack events acc) {d : ToolCallDelta}
    (hnew : d.index ∉ acc.toolCalls.map (·.index)) (hfull : maxToolCalls ≤ acc.toolCalls.length)
    (cut : Bool) :
    CallsTrack (events ++ [CanonicalEvent.toolCallDelta d]) { acc with truncated := cut } := by
  have hlength : ¬ (arrivals events).length < maxToolCalls := fun hlt => by
    rw [h.length_toolCalls, Nat.min_eq_right hlt.le] at hfull
    exact absurd hlt (Nat.not_lt.2 hfull)
  refine ⟨?_, h.slots, fun call hcall => ?_⟩
  · rw [arrivals_concat, h.indexes]
    simp only
    split
    next => rfl
    next => rw [take_concat, if_neg hlength]
  · rw [argumentDeltas_concat]
    have hdiffer : d.index ≠ call.index := fun heq => hnew (heq ▸ List.mem_map_of_mem hcall)
    simp only [hdiffer, if_false]
    exact h.arguments call hcall

/-- An event of no tool call leaves the tool calls alone. -/
theorem push_other (h : CallsTrack events acc) {event : CanonicalEvent}
    (hother : event.toolCallDelta? = none) {acc' : ResponseAccumulator}
    (hcalls : acc'.toolCalls = acc.toolCalls) (hslots : acc'.toolSlots = acc.toolSlots) :
    CallsTrack (events ++ [event]) acc' := by
  have harrivals : arrivals (events ++ [event]) = arrivals events := by
    rw [arrivals, filterMap_concat, hother, Option.toList_none, List.append_nil, ← arrivals]
  have harguments : argumentDeltas (events ++ [event]) = argumentDeltas events := by
    funext index
    rw [argumentDeltas, filterMap_concat, hother, Option.toList_none, List.append_nil,
      ← argumentDeltas]
  refine ⟨?_, ?_, ?_⟩
  · rw [hcalls, harrivals]
    exact h.indexes
  · rw [hcalls, hslots]
    exact h.slots
  · rw [hcalls, harguments]
    exact h.arguments

end CallsTrack

/-! ### One event -/

namespace ResponseAccumulator

/-- A fragment of a tool call leaves the other channels alone. -/
theorem pushToolCall_frame (acc : ResponseAccumulator) (d : ToolCallDelta) :
    (acc.pushToolCall d).text = acc.text ∧ (acc.pushToolCall d).reasoning = acc.reasoning ∧
      (acc.pushToolCall d).embeddings = acc.embeddings ∧
      (acc.pushToolCall d).scores = acc.scores := by
  cases hslot : acc.slotFor d.index with
  | none => simp only [pushToolCall, hslot, and_self]
  | some found =>
    obtain ⟨position, acc'⟩ := found
    have hfound : acc'.text = acc.text ∧ acc'.reasoning = acc.reasoning ∧
        acc'.embeddings = acc.embeddings ∧ acc'.scores = acc.scores := by
      rw [slotFor] at hslot
      split at hslot
      next =>
        cases hslot
        exact ⟨rfl, rfl, rfl, rfl⟩
      next =>
        split at hslot
        next => exact absurd hslot (by simp)
        next =>
          cases hslot
          exact ⟨rfl, rfl, rfl, rfl⟩
    simp only [pushToolCall, hslot]
    split <;> exact hfound

theorem push_text (acc : ResponseAccumulator) (event : CanonicalEvent) :
    (acc.push event).text =
      event.textDelta?.elim acc.text fun t => (appendBounded acc.text t maxTextBytes).2 := by
  cases event
  case toolCallDelta d =>
    exact (pushToolCall_frame { acc with sawOutput := acc.sawOutput || true } d).1
  case embedding index values => rw [push, apply_ite text, ite_self]; rfl
  case score index value => rw [push, apply_ite text, ite_self]; rfl
  all_goals rfl

theorem push_reasoning (acc : ResponseAccumulator) (event : CanonicalEvent) :
    (acc.push event).reasoning =
      event.reasoningDelta?.elim acc.reasoning fun t =>
        (appendBounded acc.reasoning t maxReasoningBytes).2 := by
  cases event
  case toolCallDelta d =>
    exact (pushToolCall_frame { acc with sawOutput := acc.sawOutput || true } d).2.1
  case embedding index values => rw [push, apply_ite reasoning, ite_self]; rfl
  case score index value => rw [push, apply_ite reasoning, ite_self]; rfl
  all_goals rfl

theorem push_embeddings (acc : ResponseAccumulator) (event : CanonicalEvent) :
    (acc.push event).embeddings =
      event.embedding?.elim acc.embeddings fun vector =>
        if maxEmbeddings ≤ acc.embeddings.length then acc.embeddings
        else acc.embeddings ++ [vector] := by
  cases event
  case toolCallDelta d =>
    exact (pushToolCall_frame { acc with sawOutput := acc.sawOutput || true } d).2.2.1
  case embedding index values => rw [push, apply_ite embeddings]; rfl
  case score index value => rw [push, apply_ite embeddings, ite_self]; rfl
  all_goals rfl

theorem push_scores (acc : ResponseAccumulator) (event : CanonicalEvent) :
    (acc.push event).scores =
      event.score?.elim acc.scores fun value =>
        if maxScores ≤ acc.scores.length then acc.scores else acc.scores ++ [value] := by
  cases event
  case toolCallDelta d =>
    exact (pushToolCall_frame { acc with sawOutput := acc.sawOutput || true } d).2.2.2
  case embedding index values => rw [push, apply_ite scores, ite_self]; rfl
  case score index value => rw [push, apply_ite scores]; rfl
  all_goals rfl

end ResponseAccumulator

/-- An event for which there is room. -/
theorem Fits.concat {events : List CanonicalEvent} (h : Fits events) {event : CanonicalEvent}
    (htext : ∀ t, event.textDelta? = some t →
      (String.join (textDeltas events ++ [t])).utf8ByteSize ≤ maxTextBytes)
    (hreasoning : ∀ t, event.reasoningDelta? = some t →
      (String.join (reasoningDeltas events ++ [t])).utf8ByteSize ≤ maxReasoningBytes)
    (harguments : ∀ d, event = .toolCallDelta d →
      (String.join (argumentDeltas events d.index ++ [d.argumentsDelta])).utf8ByteSize ≤
        maxToolArgumentsBytes)
    (hcalls : ∀ d, event = .toolCallDelta d → d.index ∉ arrivals events →
      (arrivals events).length < maxToolCalls)
    (hembeddings : ∀ vector, event.embedding? = some vector →
      (embeddingsOf events).length < maxEmbeddings)
    (hscores : ∀ value, event.score? = some value → (scoresOf events).length < maxScores) :
    Fits (events ++ [event]) where
  text := by
    rw [textDeltas, filterMap_concat, ← textDeltas]
    cases ht : event.textDelta? with
    | none => simpa using h.text
    | some t => exact htext t ht
  reasoning := by
    rw [reasoningDeltas, filterMap_concat, ← reasoningDeltas]
    cases ht : event.reasoningDelta? with
    | none => simpa using h.reasoning
    | some t => exact hreasoning t ht
  arguments := fun index => by
    rw [argumentDeltas_concat]
    cases event
    case toolCallDelta d =>
      simp only
      split
      next heq => exact heq ▸ harguments d rfl
      next => exact h.arguments index
    all_goals exact h.arguments index
  calls := by
    rw [arrivals_concat]
    cases event
    case toolCallDelta d =>
      simp only
      split
      next => exact h.calls
      next hnew =>
        rw [List.length_append, List.length_singleton]
        exact hcalls d rfl hnew
    all_goals exact h.calls
  embeddings := by
    rw [embeddingsOf, filterMap_concat, ← embeddingsOf, List.length_append]
    cases hv : event.embedding? with
    | none => exact h.embeddings
    | some vector => exact hembeddings vector hv
  scores := by
    rw [scoresOf, filterMap_concat, ← scoresOf, List.length_append]
    cases hv : event.score? with
    | none => exact h.scores
    | some value => exact hscores value hv

namespace Tracks

variable {events : List CanonicalEvent} {acc : ResponseAccumulator}

theorem push_calls (h : Tracks events acc) (event : CanonicalEvent) :
    CallsTrack (events ++ [event]) (acc.push event) := by
  cases event
  case toolCallDelta d =>
    have hcalls : CallsTrack events { acc with sawOutput := acc.sawOutput || true } :=
      ⟨h.calls.indexes, h.calls.slots, h.calls.arguments⟩
    rw [ResponseAccumulator.push]
    rcases pushToolCall_cases hcalls d with
      ⟨position, slot, hslot, hindex, hpush⟩ | ⟨hnew, hroom, hpush⟩ | ⟨hnew, hfull, hpush⟩
    · exact hpush ▸ hcalls.push_known hslot hindex _
    · exact hpush ▸ hcalls.push_new hnew hroom _
    · exact hpush ▸ hcalls.push_full hnew hfull _
  case embedding index values =>
    rw [ResponseAccumulator.push]
    split <;> exact h.calls.push_other rfl rfl rfl
  case score index value =>
    rw [ResponseAccumulator.push]
    split <;> exact h.calls.push_other rfl rfl rfl
  all_goals exact h.calls.push_other rfl rfl rfl

/-- A fragment of a tool call that loses nothing. -/
theorem fits_toolCall (h : Tracks events acc) {d : ToolCallDelta}
    (huncut : (acc.push (.toolCallDelta d)).truncated = false) :
    Fits (events ++ [CanonicalEvent.toolCallDelta d]) := by
  have hcalls : CallsTrack events { acc with sawOutput := acc.sawOutput || true } :=
    ⟨h.calls.indexes, h.calls.slots, h.calls.arguments⟩
  have hpushed : (acc.push (.toolCallDelta d)) =
      { acc with sawOutput := acc.sawOutput || true }.pushToolCall d := rfl
  rcases pushToolCall_cases hcalls d with
    ⟨position, slot, hslot, hindex, hpush⟩ | ⟨hnew, hroom, hpush⟩ | ⟨hnew, hfull, hpush⟩
  · rw [hpushed, hpush] at huncut
    obtain ⟨hacc, hcut⟩ := Bool.or_eq_false_iff.1 huncut
    have hfits := h.fits hacc
    have hmem : slot.index ∈ arrivals events := by
      refine List.mem_of_mem_take (i := maxToolCalls) ?_
      rw [← h.calls.indexes]
      exact List.mem_map_of_mem (List.mem_of_getElem? hslot)
    rw [AccumulatedToolCall.absorb, h.calls.arguments slot (List.mem_of_getElem? hslot), hindex]
      at hcut
    refine hfits.concat nofun nofun ?_ ?_ nofun nofun
    · rintro _ ⟨⟩
      exact join_concat_le (hfits.arguments _) hcut
    · rintro _ ⟨⟩ hunseen
      exact absurd (hindex ▸ hmem) hunseen
  · rw [hpushed, hpush] at huncut
    obtain ⟨hacc, hcut⟩ := Bool.or_eq_false_iff.1 huncut
    have hfits := h.fits hacc
    have hunseen : d.index ∉ arrivals events := by
      rwa [hcalls.indexes, List.take_of_length_le hfits.calls] at hnew
    refine hfits.concat nofun nofun ?_ ?_ nofun nofun
    · rintro _ ⟨⟩
      refine join_concat_le (hfits.arguments _) ?_
      rw [argumentDeltas_eq_nil hunseen]
      exact hcut
    · rintro _ ⟨⟩ _
      rwa [hcalls.length_toolCalls, min_eq_right hfits.calls] at hroom
  · rw [hpushed, hpush] at huncut
    exact absurd huncut (by simp)

theorem push_fits (h : Tracks events acc) {event : CanonicalEvent}
    (huncut : (acc.push event).truncated = false) : Fits (events ++ [event]) := by
  cases event
  case textDelta t =>
    obtain ⟨hacc, hcut⟩ := Bool.or_eq_false_iff.1 huncut
    refine (h.fits hacc).concat ?_ nofun nofun nofun nofun nofun
    rintro _ ⟨⟩
    exact join_concat_le (h.fits hacc).text (h.text ▸ hcut)
  case reasoningDelta t =>
    obtain ⟨hacc, hcut⟩ := Bool.or_eq_false_iff.1 huncut
    refine (h.fits hacc).concat nofun ?_ nofun nofun nofun nofun
    rintro _ ⟨⟩
    exact join_concat_le (h.fits hacc).reasoning (h.reasoning ▸ hcut)
  case toolCallDelta d => exact h.fits_toolCall huncut
  case embedding index values =>
    rw [ResponseAccumulator.push] at huncut
    split at huncut
    next => exact absurd huncut (by simp)
    next hroom =>
      have hfits := h.fits huncut
      refine hfits.concat nofun nofun nofun nofun (fun _ _ => ?_) nofun
      rwa [h.embeddings, List.take_of_length_le hfits.embeddings, Nat.not_le] at hroom
  case score index value =>
    rw [ResponseAccumulator.push] at huncut
    split at huncut
    next => exact absurd huncut (by simp)
    next hroom =>
      have hfits := h.fits huncut
      refine hfits.concat nofun nofun nofun nofun nofun fun _ _ => ?_
      rwa [h.scores, List.take_of_length_le hfits.scores, Nat.not_le] at hroom
  all_goals exact (h.fits huncut).concat nofun nofun nofun nofun nofun nofun

/-- One more event. -/
theorem push (h : Tracks events acc) (event : CanonicalEvent) :
    Tracks (events ++ [event]) (acc.push event) where
  text := by
    rw [acc.push_text, textDeltas, filterMap_concat, ← textDeltas]
    cases event.textDelta? with
    | none => simpa using h.text
    | some t =>
      rw [h.text]
      exact collected_concat maxTextBytes (textDeltas events) t
  reasoning := by
    rw [acc.push_reasoning, reasoningDeltas, filterMap_concat, ← reasoningDeltas]
    cases event.reasoningDelta? with
    | none => simpa using h.reasoning
    | some t =>
      rw [h.reasoning]
      exact collected_concat maxReasoningBytes (reasoningDeltas events) t
  calls := h.push_calls event
  embeddings := by
    rw [acc.push_embeddings, embeddingsOf, filterMap_concat, ← embeddingsOf]
    cases event.embedding? with
    | none => simpa using h.embeddings
    | some vector =>
      rw [h.embeddings]
      exact take_push maxEmbeddings (embeddingsOf events) vector
  scores := by
    rw [acc.push_scores, scoresOf, filterMap_concat, ← scoresOf]
    cases event.score? with
    | none => simpa using h.scores
    | some value =>
      rw [h.scores]
      exact take_push maxScores (scoresOf events) value
  fits := h.push_fits

end Tracks

open ResponseAccumulator

/-- Every channel holds what it collected of its own deltas, after any stream. -/
theorem accumulate_channels (events : List CanonicalEvent) : Tracks events (accumulate events) := by
  induction events using List.reverseRecOn with
  | nil => exact tracks_nil
  | append_singleton events event ih =>
    rw [accumulate_concat]
    exact ih.push event

/-! ### A faithful response -/

/-- What a response owes the stream it was put together from. -/
structure Faithful (events : List CanonicalEvent) (acc : ResponseAccumulator) : Prop where
  /-- Each channel is a beginning of what arrived for it. -/
  text : acc.text.toList <+: (String.join (textDeltas events)).toList
  reasoning : acc.reasoning.toList <+: (String.join (reasoningDeltas events)).toList
  arguments : ∀ call ∈ acc.toolCalls,
    call.arguments.toList <+: (String.join (argumentDeltas events call.index)).toList
  /-- Each channel is within its limit. -/
  textBytes : acc.text.utf8ByteSize ≤ maxTextBytes
  reasoningBytes : acc.reasoning.utf8ByteSize ≤ maxReasoningBytes
  argumentsBytes : ∀ call ∈ acc.toolCalls, call.arguments.utf8ByteSize ≤ maxToolArgumentsBytes
  /-- One call for each index. -/
  calls : (acc.toolCalls.map (·.index)).Nodup
  /-- A response that is not marked truncated is whole. -/
  whole : acc.truncated = false →
    acc.text = String.join (textDeltas events) ∧
    acc.reasoning = String.join (reasoningDeltas events) ∧
    (∀ call ∈ acc.toolCalls, call.arguments = String.join (argumentDeltas events call.index)) ∧
    acc.toolCalls.map (·.index) = arrivals events ∧
    acc.embeddings = embeddingsOf events ∧
    acc.scores = scoresOf events

/-- No fragment of a channel finds room behind one that was cut. -/
def NothingAfterCut (max : ℕ) (deltas : List String) : Prop :=
  Unbroken Char.utf8Size max (deltas.map String.toList)

theorem calls_nodup {events : List CanonicalEvent} {acc : ResponseAccumulator}
    (h : CallsTrack events acc) : (acc.toolCalls.map (·.index)).Nodup := by
  rw [List.nodup_iff_getElem?_ne_getElem?]
  intro i j hij hj heq
  have hi : i < (acc.toolCalls.map (·.index)).length := hij.trans hj
  have hfirst := (h.slots _ i).2 (List.getElem?_eq_getElem hi)
  have hsecond := (h.slots _ j).2 (heq ▸ List.getElem?_eq_getElem hi)
  rw [hfirst, Option.some.injEq] at hsecond
  omega

/-- A response is faithful to its stream exactly when no channel goes on behind a cut. -/
theorem faithful_iff (events : List CanonicalEvent) :
    Faithful events (accumulate events) ↔
      NothingAfterCut maxTextBytes (textDeltas events) ∧
      NothingAfterCut maxReasoningBytes (reasoningDeltas events) ∧
      ∀ index ∈ (arrivals events).take maxToolCalls,
        NothingAfterCut maxToolArgumentsBytes (argumentDeltas events index) := by
  have h := accumulate_channels events
  constructor
  · intro hfaithful
    refine ⟨?_, ?_, fun index hindex => ?_⟩
    · exact collected_prefix_iff.1 (h.text ▸ hfaithful.text)
    · exact collected_prefix_iff.1 (h.reasoning ▸ hfaithful.reasoning)
    · rw [← h.calls.indexes, List.mem_map] at hindex
      obtain ⟨call, hcall, rfl⟩ := hindex
      exact collected_prefix_iff.1 (h.calls.arguments call hcall ▸ hfaithful.arguments call hcall)
  · rintro ⟨htext, hreasoning, harguments⟩
    refine
      { text := h.text ▸ collected_prefix_iff.2 htext
        reasoning := h.reasoning ▸ collected_prefix_iff.2 hreasoning
        arguments := fun call hcall => ?_
        textBytes := h.text ▸ utf8ByteSize_collected_le _ _
        reasoningBytes := h.reasoning ▸ utf8ByteSize_collected_le _ _
        argumentsBytes := fun call hcall =>
          h.calls.arguments call hcall ▸ utf8ByteSize_collected_le _ _
        calls := calls_nodup h.calls
        whole := fun huncut => ?_ }
    · rw [h.calls.arguments call hcall]
      refine collected_prefix_iff.2 (harguments _ ?_)
      rw [← h.calls.indexes]
      exact List.mem_map_of_mem hcall
    · have hfits := h.fits huncut
      refine ⟨?_, ?_, fun call hcall => ?_, ?_, ?_, ?_⟩
      · rw [h.text, collected_eq_join hfits.text]
      · rw [h.reasoning, collected_eq_join hfits.reasoning]
      · rw [h.calls.arguments call hcall, collected_eq_join (hfits.arguments _)]
      · rw [h.calls.indexes, List.take_of_length_le hfits.calls]
      · rw [h.embeddings, List.take_of_length_le hfits.embeddings]
      · rw [h.scores, List.take_of_length_le hfits.scores]

namespace ResponseAccumulator.Sample

/-- Text of some bytes, a character of two bytes and a character of one. -/
def overlong (n : ℕ) : List CanonicalEvent :=
  [.textDelta (String.ofList (List.replicate n 'a')), .textDelta "é", .textDelta "b"]

theorem weigh_replicate (n : ℕ) : weigh Char.utf8Size (List.replicate n 'a') = n := by
  induction n with
  | zero => rfl
  | succ n ih => rw [List.replicate_succ, weigh_cons, ih, Nat.add_comm]; rfl

theorem not_unbroken (n : ℕ) :
    ¬ Unbroken Char.utf8Size (n + 1) [List.replicate n 'a', ['é'], ['b']] := by
  rw [Unbroken, weigh_replicate, if_pos (Nat.le_succ n), Nat.add_sub_cancel_left, Unbroken,
    if_neg (by decide)]
  intro h
  exact absurd (h ['b'] (by simp) 'b' rfl) (by decide)

theorem overlong_deltas (n : ℕ) :
    (textDeltas (overlong n)).map String.toList = [List.replicate n 'a', ['é'], ['b']] := by
  simp [textDeltas, overlong, textDelta?]

/-- With one byte left, a character of two is cut and the character after it is not. -/
theorem not_always_faithful :
    ¬ ∀ events : List CanonicalEvent, Faithful events (accumulate events) := by
  intro h
  obtain ⟨n, hn⟩ : ∃ n, maxTextBytes = n + 1 := ⟨8388607, by norm_num [maxTextBytes]⟩
  have htext := (h (overlong n)).text
  rw [(accumulate_channels _).text, collected_prefix_iff, overlong_deltas, hn] at htext
  exact not_unbroken n htext

end ResponseAccumulator.Sample

end HypeLlm.Pipeline
