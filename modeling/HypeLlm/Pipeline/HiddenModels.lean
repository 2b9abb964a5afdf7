import HypeLlm.Pipeline.Errors
import HypeLlm.Routing.KeyNarrowing

/-!
# A hidden model and an absent one

A pass of the pipeline routes the request and, when nothing is left to try, chooses an error from
the exclusions.  An alias that `servable_aliases` leaves out is hidden from the caller, and is
meant to answer as one that does not exist: every exclusion is then for want of authorization, and
the error is `model_not_found`.

The access filters are not the first of the chain.  A target the caller is kept off is reported as
denied by policy when a binding denies it as well, and as not permitted when the snapshot does not
know it, and one such exclusion gives the error of a model that exists.

* **`hidden_answers_as_absent_iff`** — a hidden model answers as an absent one if and only if the
  caller is not authorized for it, or every target it lists is known and not denied by a binding;
* `denied_target_shows` — an alias on a slave the caller is kept off, with one target denied by a
  binding too, answers `no_eligible_target`.
-/

namespace HypeLlm.Routing.PolicySnapshot

/-- The snapshot had the alias not existed. -/
def withoutAlias (s : PolicySnapshot) (aliasId : AliasId) : PolicySnapshot :=
  { s with
    aliases := s.aliases.erase aliasId
    aliases_keyed := by
      intro id a h
      rw [Maps.getElem?_erase] at h
      split at h
      · cases h
      · exact s.aliases_keyed id a h }

end HypeLlm.Routing.PolicySnapshot

namespace HypeLlm.Pipeline

open HypeLlm.Routing HypeLlm.Routing.PolicySnapshot List

/-- The exclusions that amount to not being authorized. -/
def concealed : ExclusionReason → Bool
  | .notAuthorizedForAlias | .fleetAccessDenied | .keyRestricted => true
  | _ => false

def modelNotFound : RouterError :=
  (RouterError.new .modelNotFound "the requested model is not available").withParam "model"

/-- The error of a request that produced no candidate at all. -/
def noCandidateError (exclusions : List Exclusion) (s : PolicySnapshot) (req : CanonicalRequest) :
    RouterError :=
  if !s.aliases.contains req.requestedModel || exclusions.all (fun e => concealed e.reason) then
    modelNotFound
  else if exclusions.any (fun e => e.reason = .capacityExhausted) then
    RouterError.new .capacityExhausted "no target has capacity for this request"
  else RouterError.new .noEligibleTarget "no target met the policy, health, and capability requirements"

/-- The start of `execute_once`: what there is to try, or the error if there is nothing. -/
def routingPass (s : PolicySnapshot) (ctx : RoutingContext) (req : CanonicalRequest)
    (live : LiveState) : Except RouterError RouteOutcome :=
  let route := s.route ctx req live
  if route.candidates.isEmpty then .error (noCandidateError route.exclusions s req) else .ok route

/-- The alias asked for is not among those the caller could be served by. -/
def Hidden (s : PolicySnapshot) (ctx : RoutingContext) (req : CanonicalRequest) : Prop :=
  ∀ entry ∈ s.servableAliases ctx req.operation, entry.id ≠ req.requestedModel

/-- Every target the alias lists is known, and no binding denies it to the caller. -/
def NoneDenied (s : PolicySnapshot) (ctx : RoutingContext) (req : CanonicalRequest)
    (entry : Alias) : Prop :=
  ∀ t ∈ entry.permittedTargets, ∃ target, s.targets[t]? = some target ∧
    (s.mergeBindings ctx req.requestedModel).isDenied target = false

variable {s : PolicySnapshot} {ctx : RoutingContext} {req : CanonicalRequest} {live : LiveState}

/-! ### The error -/

theorem noCandidateError_eq_modelNotFound {exclusions : List Exclusion} :
    noCandidateError exclusions s req = modelNotFound ↔
      s.aliases[req.requestedModel]? = none ∨ ∀ e ∈ exclusions, concealed e.reason = true := by
  have habsent : s.aliases.contains req.requestedModel = false ↔
      s.aliases[req.requestedModel]? = none := by
    rw [Std.TreeMap.contains_eq_isSome_getElem?, Option.isSome_eq_false_iff,
      Option.isNone_iff_eq_none]
  unfold noCandidateError
  by_cases hcond : s.aliases[req.requestedModel]? = none ∨ ∀ e ∈ exclusions, concealed e.reason = true
  · have hif : (!s.aliases.contains req.requestedModel ||
        exclusions.all (fun e => concealed e.reason)) = true := by
      simpa [habsent] using hcond
    rw [if_pos hif]
    exact iff_of_true rfl hcond
  · have hif : (!s.aliases.contains req.requestedModel ||
        exclusions.all (fun e => concealed e.reason)) = false := by
      simpa [habsent] using hcond
    simp only [hif, Bool.false_eq_true, if_false, hcond, iff_false]
    split
    · exact fun h => absurd (congrArg RouterError.code h) (by decide)
    · exact fun h => absurd (congrArg RouterError.code h) (by decide)

/-- An alias that does not exist is not found. -/
theorem routingPass_absent :
    routingPass (s.withoutAlias req.requestedModel) ctx req live = .error modelNotFound := by
  have hnone : (s.withoutAlias req.requestedModel).aliases[req.requestedModel]? = none := by
    simp [withoutAlias]
  unfold routingPass
  rw [route_of_unknown hnone]
  exact congrArg Except.error (noCandidateError_eq_modelNotFound.2 (.inl hnone))

/-- **A hidden model gives no candidate.** -/
theorem routingPass_hidden (hhidden : Hidden s ctx req) :
    routingPass s ctx req live =
      .error (noCandidateError (s.route ctx req live).exclusions s req) := by
  have hnone : (s.route ctx req live).candidates = [] := by
    by_contra hne
    obtain ⟨c, hc⟩ := exists_mem_of_ne_nil _ hne
    obtain ⟨entry, hentry, hid⟩ := s.servable_of_candidate hc
    exact hhidden entry hentry hid
  simp [routingPass, hnone]

/-! ### The exclusions of a hidden model -/

/-- A target the caller is kept off, by its key or by the fleet grants, is reported so unless a
binding denies it. -/
theorem evaluate_kept_off {entry : Alias} {target : Target} {merged : MergedBindings}
    (h : s.keyRefuses ctx target.id = true ∨ s.fleetAccessPermits ctx entry.id target.id = false) :
    s.evaluate ctx req entry target merged live =
      .error (if merged.isDenied target then .deniedByPolicy
        else if s.keyRefuses ctx target.id then .keyRestricted else .fleetAccessDenied) := by
  cases hdenied : merged.isDenied target with
  | true =>
    simp only [evaluate, screen, securityFilters, hdenied, refuseIf]
    rfl
  | false =>
    cases hkey : s.keyRefuses ctx target.id with
    | true =>
      simp only [evaluate, screen, securityFilters, hdenied, hkey, refuseIf]
      rfl
    | false =>
      have hfleet : s.fleetAccessPermits ctx entry.id target.id = false := by simpa [hkey] using h
      simp only [evaluate, screen, securityFilters, hdenied, hkey, hfleet, refuseIf]
      rfl

/-- A hidden alias the caller is authorized for has nothing but targets the caller is kept off. -/
theorem kept_off_of_hidden (hhidden : Hidden s ctx req) {entry : Alias}
    (hentry : s.aliases[req.requestedModel]? = some entry)
    (hauth : s.authorizes ctx req.requestedModel req.operation = true) {t : TargetId}
    (ht : t ∈ entry.permittedTargets) :
    s.keyRefuses ctx t = true ∨ s.fleetAccessPermits ctx entry.id t = false := by
  have hid : entry.id = req.requestedModel := s.aliases_keyed _ entry hentry
  by_contra hreach
  push Not at hreach
  obtain ⟨hkey, hfleet⟩ := hreach
  exact hhidden entry (s.mem_servableAliases hentry hauth ht (by simpa using hkey)
    (by simpa using hfleet)) hid

/-- **One listed target of a hidden alias**: it is excluded, and the reason conceals the alias if
and only if the target is known and not denied. -/
theorem consider_hidden (live : LiveState) (hhidden : Hidden s ctx req) {entry : Alias}
    (hentry : s.aliases[req.requestedModel]? = some entry)
    (hauth : s.authorizes ctx req.requestedModel req.operation = true) {t : TargetId}
    (ht : t ∈ entry.permittedTargets) :
    ∃ reason, s.consider ctx req entry (s.mergeBindings ctx req.requestedModel) live t =
        .error reason ∧
      (concealed reason = true ↔ ∃ target, s.targets[t]? = some target ∧
        (s.mergeBindings ctx req.requestedModel).isDenied target = false) := by
  unfold consider
  cases htarget : s.targets[t]? with
  | none => exact ⟨.notPermittedForAlias, rfl, by simp [concealed]⟩
  | some target =>
    have htid : target.id = t := s.targets_keyed t target htarget
    have hkept := kept_off_of_hidden hhidden hentry hauth ht
    rw [← htid] at hkept
    refine ⟨_, evaluate_kept_off hkept, ?_⟩
    simp only [Option.some.injEq, exists_eq_left']
    cases (s.mergeBindings ctx req.requestedModel).isDenied target with
    | true => simp [concealed]
    | false => cases s.keyRefuses ctx target.id <;> simp [concealed]

/-- **A hidden model answers as an absent one, if and only if** the caller is not authorized for
it, or every target it lists is known and denied to the caller by no binding. -/
theorem hidden_answers_as_absent_iff (s : PolicySnapshot) (ctx : RoutingContext)
    (req : CanonicalRequest) (live : LiveState) (hhidden : Hidden s ctx req) :
    (∃ error, routingPass s ctx req live = .error error ∧
        routingPass (s.withoutAlias req.requestedModel) ctx req live = .error error) ↔
      ∀ entry, s.aliases[req.requestedModel]? = some entry →
        s.authorizes ctx req.requestedModel req.operation = true → NoneDenied s ctx req entry := by
  have hsame : (∃ error, routingPass s ctx req live = .error error ∧
      routingPass (s.withoutAlias req.requestedModel) ctx req live = .error error) ↔
        noCandidateError (s.route ctx req live).exclusions s req = modelNotFound := by
    rw [routingPass_hidden hhidden, routingPass_absent]
    simp [eq_comm]
  rw [hsame, noCandidateError_eq_modelNotFound]
  cases hentry : s.aliases[req.requestedModel]? with
  | none => simp
  | some entry =>
    simp only [reduceCtorEq, false_or, Option.some.injEq, forall_eq']
    cases hauth : s.authorizes ctx req.requestedModel req.operation with
    | false =>
      rw [route_of_unauthorized hentry hauth]
      simp [concealed]
    | true =>
      rw [route_of_authorized hentry hauth]
      simp only [mem_insertionSort, mem_filterMap, forall_const]
      constructor
      · intro hall t ht
        obtain ⟨reason, hreason, hiff⟩ := consider_hidden live hhidden hentry hauth ht
        exact hiff.1 (hall ⟨t, reason⟩ ⟨t, ht, by rw [hreason]; rfl⟩)
      · rintro hnone e ⟨t, ht, he⟩
        obtain ⟨reason, hreason, hiff⟩ := consider_hidden live hhidden hentry hauth ht
        rw [hreason] at he
        obtain rfl : (⟨t, reason⟩ : Exclusion) = e := Option.some.inj he
        exact hiff.2 (hnone t ht)

/-! ### A slave the caller is kept off -/

namespace Sample

open HypeLlm.Routing.Sample

/-- The deployment with both targets on a slave that nobody has been granted. -/
def keptOff : PolicySnapshot :=
  { Routing.Sample.snapshot with
    fleetPlacement :=
      ((∅ : Std.TreeMap TargetId HostId).insert "small" "spark").insert "large" "spark"
    fleetAccessDefault := .deny }

/-- The same deployment, where a binding denies one of the targets as well. -/
def keptOffAndDenied : PolicySnapshot :=
  { keptOff with bindings := [{ binding with denies := [.exactly "small"] }] }

theorem keptOff_hidden : Hidden keptOff caller request := by
  have hnone : keptOff.servableAliases caller request.operation = [] := by decide +kernel
  intro entry hentry
  rw [hnone] at hentry
  simp at hentry

theorem keptOffAndDenied_hidden : Hidden keptOffAndDenied caller request := by
  have hnone : keptOffAndDenied.servableAliases caller request.operation = [] := by decide +kernel
  intro entry hentry
  rw [hnone] at hentry
  simp at hentry

/-- Without the deny the alias answers as an absent one. -/
theorem kept_off_answers_as_absent :
    Hidden keptOff caller request ∧
      ∃ error, routingPass keptOff caller request .ideal = .error error ∧
        routingPass (keptOff.withoutAlias "agent") caller request .ideal = .error error := by
  refine ⟨keptOff_hidden, (hidden_answers_as_absent_iff keptOff caller request .ideal
    keptOff_hidden).2 ?_⟩
  intro entry hentry _ t ht
  have hknown : ∀ t ∈ ["small", "large"], ∃ target, keptOff.targets[t]? = some target ∧
      (keptOff.mergeBindings caller request.requestedModel).isDenied target = false := by
    intro t ht
    rcases List.mem_pair.1 ht with rfl | rfl
    · exact ⟨target "small", by decide +kernel, by decide +kernel⟩
    · exact ⟨target "large", by decide +kernel, by decide +kernel⟩
  have hlisted : entry.permittedTargets = ["small", "large"] := by
    have hentry' : keptOff.aliases[request.requestedModel]? =
        some (listing ["small", "large"]) := by decide +kernel
    rw [hentry'] at hentry
    rw [← Option.some.inj hentry]
    rfl
  exact hknown t (hlisted ▸ ht)

/-- **With the deny, the same caller learns that the model exists.** -/
theorem denied_target_shows :
    ¬(∀ (s : PolicySnapshot) (ctx : RoutingContext) (req : CanonicalRequest) (live : LiveState),
        Hidden s ctx req → ∃ error, routingPass s ctx req live = .error error ∧
          routingPass (s.withoutAlias req.requestedModel) ctx req live = .error error) ∧
      routingPass keptOffAndDenied caller request .ideal = .error (RouterError.new .noEligibleTarget
        "no target met the policy, health, and capability requirements") ∧
      routingPass (keptOffAndDenied.withoutAlias "agent") caller request .ideal =
        .error modelNotFound := by
  have hshows : routingPass keptOffAndDenied caller request .ideal =
      .error (RouterError.new .noEligibleTarget
        "no target met the policy, health, and capability requirements") := by
    rw [routingPass_hidden keptOffAndDenied_hidden]
    refine congrArg Except.error ?_
    decide +kernel
  have habsent : routingPass (keptOffAndDenied.withoutAlias request.requestedModel) caller request
      .ideal = .error modelNotFound := routingPass_absent
  refine ⟨fun hall => ?_, hshows, habsent⟩
  obtain ⟨error, hpass, hwithout⟩ := hall _ _ _ .ideal keptOffAndDenied_hidden
  rw [hshows] at hpass
  rw [habsent, ← hpass] at hwithout
  have hcodes : ErrorCode.modelNotFound = .noEligibleTarget :=
    congrArg RouterError.code (Except.error.inj hwithout)
  cases hcodes

end Sample

end HypeLlm.Pipeline
