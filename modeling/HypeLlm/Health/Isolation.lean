import HypeLlm.Health.Registry
import HypeLlm.Routing.Verdicts

/-!
# Isolation between operation classes

The breaker of an operation class is moved by the calls on that class and by nothing else: after
any run it is what the run's calls on the class make of it (`entries_after`).  Routing asks about a
target, and there the classes meet: an open breaker of one class takes the target out for every
operation.

* **`circuit_filter_isolated_iff`** — in every state reached, for a target that is not quarantined
  and a class whose own breaker is not open, the circuit filter spares the target exactly when no
  other class of the target has been driven open;
* `failed_embeddings_disable_chat` — twenty failed embeddings, and chat is refused.
-/

namespace HypeLlm.Health

open HypeLlm.Runs HypeLlm.Routing HypeLlm.Routing.PolicySnapshot List

namespace HealthRegistry

/-! ### A class is moved by its own calls -/

/-- The calls a run makes on one class, each with the time it was made. -/
def callsOn (key : HealthKey) (es : List Event) : List (ℕ × HealthOp) :=
  es.filterMap fun e =>
    match e with
    | .health key' nowMs op => if key' = key then some (nowMs, op) else none
    | _ => none

/-- One more call on a class, which the first call creates. -/
def call (config : BreakerConfig) (h : Option TargetHealth) (c : ℕ × HealthOp) :
    Option TargetHealth :=
  some ((h.getD (TargetHealth.new config c.1)).apply config c.2)

/-- What calls make of a class on their own. -/
def history (config : BreakerConfig) (calls : List (ℕ × HealthOp)) : Option TargetHealth :=
  run (call config) none calls

theorem step_config (r : HealthRegistry) (e : Event) : (r.step e).config = r.config := by
  cases e with
  | setAdminState target state => rcases state with _ | _ | _ <;> rfl
  | _ => rfl

theorem step_entries (r : HealthRegistry) (e : Event) (key : HealthKey) :
    (r.step e).entries[key]? = run (call r.config) r.entries[key]? (callsOn key [e]) := by
  cases e with
  | health key' nowMs op =>
    rw [step, Maps.getElem?_insert]
    by_cases hkey : key = key'
    · subst hkey
      simp [callsOn, call, entry]
    · simp [callsOn, hkey, Ne.symm hkey]
  | setAdminState target state => rcases state with _ | _ | _ <;> rfl
  | _ => rfl

/-- **After any run, a class is what its own calls make of it.** -/
theorem entries_after (config : BreakerConfig) (es : List Event) (key : HealthKey) :
    (after config es).entries[key]? = history config (callsOn key es) := by
  have hconfig : ∀ es, (after config es).config = config := fun es =>
    run_invariant (P := fun r : HealthRegistry => r.config = config)
      (fun r e h => (step_config r e).trans h) rfl es
  induction es using List.reverseRecOn with
  | nil => simp [after, history, callsOn, new]
  | append_singleton es e ih =>
    have hcalls : callsOn key (es ++ [e]) = callsOn key es ++ callsOn key [e] := filterMap_append
    rw [after, run_snoc, step_entries, hcalls, history, run_append]
    have hbefore : run step (new config) es = after config es := rfl
    rw [hbefore, ih, hconfig es]
    rfl

/-! ### The circuit filter -/

/-- Whether a class has an open breaker at `nowMs`. -/
def openAt (nowMs : ℕ) (h : Option TargetHealth) : Bool :=
  h.any fun h => h.breaker.stateAt nowMs = .open

theorem mem_classes {r : HealthRegistry} {target : TargetId} {h : TargetHealth} :
    h ∈ r.classes target ↔ ∃ operation, r.entries[(⟨target, operation⟩ : HealthKey)]? = some h := by
  simp only [classes, mem_map, mem_filter, decide_eq_true_eq]
  constructor
  · rintro ⟨⟨⟨target', operation⟩, h'⟩, ⟨hmem, rfl⟩, rfl⟩
    exact ⟨operation, Std.TreeMap.mem_toList_iff_getElem?_eq_some.1 hmem⟩
  · rintro ⟨operation, hget⟩
    exact ⟨(⟨target, operation⟩, h), ⟨Std.TreeMap.mem_toList_iff_getElem?_eq_some.2 hget, rfl⟩, rfl⟩

theorem anyCircuitOpen_eq_false {r : HealthRegistry} {target : TargetId} {nowMs : ℕ} :
    r.anyCircuitOpen target nowMs = false ↔
      ∀ operation, openAt nowMs r.entries[(⟨target, operation⟩ : HealthKey)]? = false := by
  simp only [anyCircuitOpen, any_eq_false, openAt, Option.any_eq_false, Bool.not_eq_true]
  constructor
  · intro hclasses operation h hget
    exact hclasses h (mem_classes.2 ⟨operation, hget⟩)
  · intro hops h hmem
    obtain ⟨operation, hget⟩ := mem_classes.1 hmem
    exact hops operation h hget

end HealthRegistry

/-! ### The circuit filter in routing -/

section Filters

variable {s : PolicySnapshot} {ctx : RoutingContext} {req : CanonicalRequest} {entry : Alias}
  {target : Target} {merged : MergedBindings} {live : LiveState}

theorem bind_eq_error {α β : Type} {x : Except ExclusionReason α} {f : α → Except ExclusionReason β}
    {reason : ExclusionReason} :
    (x >>= f) = .error reason ↔ x = .error reason ∨ ∃ a, x = .ok a ∧ f a = .error reason := by
  cases x with
  | error reason' => simp [bind, Except.bind]
  | ok a => simp [bind, Except.bind]

theorem refuseIf_eq_error {refused : Bool} {reason reason' : ExclusionReason} :
    refuseIf refused reason = .error reason' ↔ refused = true ∧ reason = reason' := by
  cases refused <;> simp

theorem refuseIf_eq_ok {refused : Bool} {reason : ExclusionReason} {u : Unit} :
    refuseIf refused reason = .ok u ↔ refused = false := by
  cases refused <;> simp

theorem circuitOpen_of_capacityFilters
    (h : s.capacityFilters req target live = .error .circuitOpen) :
    live.circuitOpen target.id = true := by
  simp only [capacityFilters, bind_eq_error, refuseIf_eq_error, refuseIf_eq_ok, reduceCtorEq,
    and_false, false_or, and_true, exists_const, or_false] at h
  exact h.2.2

theorem securityFilters_ne_circuitOpen :
    s.securityFilters ctx req entry target merged ≠ .error .circuitOpen := by
  intro h
  simp only [securityFilters, bind_eq_error, refuseIf_eq_error, refuseIf_eq_ok, reduceCtorEq,
    and_false, false_or, providerOf] at h
  split at h <;> simp at h

theorem adminFilters_ne_circuitOpen : adminFilters ctx target live ≠ .error .circuitOpen := by
  intro h
  unfold adminFilters at h
  split at h <;> simp [bind, Except.bind, refuseIf_eq_error] at h

theorem capabilityFilters_ne_circuitOpen :
    s.capabilityFilters req entry target ≠ .error .circuitOpen := by
  intro h
  simp only [capabilityFilters, bind_eq_error, refuseIf_eq_error, refuseIf_eq_ok, reduceCtorEq,
    and_false, false_or, exists_false] at h

/-- The fleet never gives an open circuit as its own reason. -/
def FleetHasOwnReasons (live : LiveState) : Prop :=
  ∀ target, live.residencyClass target ≠ .infeasible .circuitOpen

theorem residencyFilter_ne_circuitOpen (hfleet : FleetHasOwnReasons live) :
    s.residencyFilter ctx req target live ≠ .error .circuitOpen := by
  intro h
  have hclass := hfleet target.id
  unfold residencyFilter at h
  dsimp only at h
  cases hreason : (live.residencyClass target.id).exclusion with
  | none =>
    rw [hreason] at h
    rcases bind_eq_error.1 h with hskip | ⟨_, -, h⟩
    · cases hskip
    rcases bind_eq_error.1 h with hrefuse | ⟨_, -, hpure⟩
    · cases (refuseIf_eq_error.1 hrefuse).2
    · cases hpure
  | some reason =>
    rw [hreason] at h
    cases h
    cases hresidency : live.residencyClass target.id with
    | infeasible reason =>
      rw [hresidency] at hreason hclass
      exact hclass (by rw [Option.some.inj hreason])
    | _ => simp [hresidency, ResidencyClass.exclusion] at hreason

/-- Only the circuit filter excludes for an open circuit. -/
theorem circuitOpen_of_evaluate (hfleet : FleetHasOwnReasons live)
    (h : s.evaluate ctx req entry target merged live = .error .circuitOpen) :
    live.circuitOpen target.id = true := by
  rcases bind_eq_error.1 h with hscreen | ⟨residency, -, hreach⟩
  · rcases bind_eq_error.1 hscreen with hsecurity | ⟨_, -, hscreen⟩
    · exact absurd hsecurity securityFilters_ne_circuitOpen
    rcases bind_eq_error.1 hscreen with hadmin | ⟨_, -, hscreen⟩
    · exact absurd hadmin adminFilters_ne_circuitOpen
    rcases bind_eq_error.1 hscreen with hcapability | ⟨_, -, hscreen⟩
    · exact absurd hcapability capabilityFilters_ne_circuitOpen
    rcases bind_eq_error.1 hscreen with hcapacity | ⟨_, -, hresidency⟩
    · exact circuitOpen_of_capacityFilters hcapacity
    · exact absurd hresidency (residencyFilter_ne_circuitOpen hfleet)
  · simp only [reach] at hreach
    split at hreach
    · cases hreach
    · split at hreach <;> cases hreach

/-- A target excluded for an open circuit has one, as far as routing was told. -/
theorem circuitOpen_of_exclusion (hfleet : FleetHasOwnReasons live) {targetId : TargetId}
    (h : (⟨targetId, .circuitOpen⟩ : Exclusion) ∈ (s.route ctx req live).exclusions) :
    live.circuitOpen targetId = true := by
  cases hentry : s.aliases[req.requestedModel]? with
  | none =>
    rw [route_of_unknown hentry] at h
    cases h
  | some entry =>
    cases hauth : s.authorizes ctx req.requestedModel req.operation with
    | false =>
      rw [route_of_unauthorized hentry hauth] at h
      simp at h
    | true =>
      rw [route_of_authorized hentry hauth] at h
      obtain ⟨t, -, ht⟩ := mem_filterMap.1 ((mem_insertionSort _).1 h)
      cases hverdict : s.consider ctx req entry (s.mergeBindings ctx req.requestedModel) live t with
      | ok c =>
        rw [hverdict] at ht
        cases ht
      | error reason =>
        rw [hverdict] at ht
        cases ht
        unfold consider at hverdict
        split at hverdict
        · cases hverdict
        · rename_i target htarget
          rw [← s.targets_keyed targetId target htarget]
          exact circuitOpen_of_evaluate hfleet hverdict

end Filters

/-- The circuit filter spares a target for requests of an operation: it refuses none of them, and
no decision excludes the target for its circuit. -/
structure Spares (live : LiveState) (targetId : TargetId) (operation : Operation) : Prop where
  filter : ∀ (s : PolicySnapshot) (req : CanonicalRequest) (target : Target),
    req.operation = operation → target.id = targetId →
      s.capacityFilters req target live ≠ .error .circuitOpen
  decision : ∀ (s : PolicySnapshot) (ctx : RoutingContext) (req : CanonicalRequest),
    req.operation = operation →
      (⟨targetId, .circuitOpen⟩ : Exclusion) ∉ (s.route ctx req live).exclusions

/-- The filter never looks at the operation. -/
theorem spares_iff {live : LiveState} (hfleet : FleetHasOwnReasons live) {targetId : TargetId}
    {operation : Operation} :
    Spares live targetId operation ↔ live.circuitOpen targetId = false := by
  constructor
  · intro h
    by_contra hopen
    have hopen : live.circuitOpen targetId = true := by simpa using hopen
    refine h.filter PolicySnapshot.empty { Routing.Sample.request with operation := operation }
      (Routing.Sample.target targetId) rfl rfl ?_
    simp only [capacityFilters, Routing.Sample.target, hopen, refuseIf_true]
    rfl
  · intro hclosed
    refine ⟨?_, ?_⟩
    · rintro s req target - rfl h
      rw [circuitOpen_of_capacityFilters h] at hclosed
      cases hclosed
    · rintro s ctx req - h
      rw [circuitOpen_of_exclusion hfleet h] at hclosed
      cases hclosed

open HealthRegistry in
/-- **The circuit filter is isolated exactly when no other class is open.**  The registry is the one
a run leaves, and routing reads it. -/
theorem circuit_filter_isolated_iff (config : BreakerConfig) (es : List Event) (target : TargetId)
    (operation : Operation) (nowMs wallMs : ℕ)
    (hquarantine : (after config es).isQuarantined target wallMs = false)
    (hown : openAt nowMs (after config es).entries[(⟨target, operation⟩ : HealthKey)]? = false) :
    Spares ((after config es).liveState nowMs wallMs) target operation ↔
      ∀ other, other ≠ operation →
        openAt nowMs (history config (callsOn ⟨target, other⟩ es)) = false := by
  have hfleet : FleetHasOwnReasons ((after config es).liveState nowMs wallMs) := by
    intro t h
    cases h
  have hcircuit : ((after config es).liveState nowMs wallMs).circuitOpen target =
      (after config es).anyCircuitOpen target nowMs := by
    show (after config es).circuitOpen target nowMs wallMs = _
    rw [circuitOpen, hquarantine, Bool.false_or]
  rw [spares_iff hfleet, hcircuit, anyCircuitOpen_eq_false]
  constructor
  · intro hall other _
    rw [← entries_after]
    exact hall other
  · intro hothers other
    by_cases hother : other = operation
    · rw [hother]
      exact hown
    · rw [entries_after]
      exact hothers other hother

namespace Sample

open HealthRegistry

/-- Embeddings of the small target that end in a server error, all at once. -/
def failedEmbeddings (n : ℕ) : List Event :=
  List.replicate n (.health ⟨"small", .embeddings⟩ 0 (.recordFailure .serverError 0))

end Sample

open HealthRegistry in
/-- Nineteen failed embeddings do not open a breaker, so chat is spared. -/
theorem few_failed_embeddings_spare_chat :
    Spares ((after .default (Sample.failedEmbeddings 19)).liveState 500 0) "small" .chat := by
  refine (circuit_filter_isolated_iff .default (Sample.failedEmbeddings 19) "small" .chat 500 0
    (by decide) (by decide)).2 ?_
  intro other _
  cases other <;> decide +kernel

open HealthRegistry in
/-- **Twenty failed embeddings disable chat**: the chat breaker is not open and the target is not
quarantined, and a chat request finds the target excluded for its circuit. -/
theorem failed_embeddings_disable_chat :
    (after .default (Sample.failedEmbeddings 20)).isQuarantined "small" 0 = false ∧
      openAt 500 (after .default
        (Sample.failedEmbeddings 20)).entries[(⟨"small", .chat⟩ : HealthKey)]? = false ∧
      (⟨"small", .circuitOpen⟩ : Exclusion) ∈ (Routing.Sample.snapshot.route Routing.Sample.caller
        Routing.Sample.request
        ((after .default (Sample.failedEmbeddings 20)).liveState 500 0)).exclusions ∧
      ¬ Spares ((after .default (Sample.failedEmbeddings 20)).liveState 500 0) "small" .chat := by
  have hexcluded : (⟨"small", .circuitOpen⟩ : Exclusion) ∈ (Routing.Sample.snapshot.route
      Routing.Sample.caller Routing.Sample.request
      ((after .default (Sample.failedEmbeddings 20)).liveState 500 0)).exclusions := by decide +kernel
  refine ⟨by decide, by decide +kernel, hexcluded, fun hspares => ?_⟩
  exact hspares.decision Routing.Sample.snapshot Routing.Sample.caller Routing.Sample.request rfl
    hexcluded

end HypeLlm.Health
