import HypeLlm.Routing.Verdicts

/-!
# Eligibility is independent of preference

A score orders the targets that passed every filter; it never decides whether one passed.  So a
change that touches only what scores are made of changes neither the set of candidates nor any
exclusion.  What scores are made of: the client's target hint and request identifier, the weights
and ranks of preferences, the weighted tie-break, and the four penalties of the live state.

* **`eligibility_ignores_scoring_inputs`** — the two-run statement, together with the accounting of
  one run: every target the alias lists once is reported once, as a candidate or as an exclusion.

The selectors of preferences are not scoring inputs: they decide which targets are reachable.
-/

namespace HypeLlm.Routing

open HypeLlm.Sorting HypeLlm.Lists List

/-! ### Changing only scoring inputs -/

/-- The same binding with other weights and ranks. -/
structure Binding.SameButStrength (b b' : Binding) : Prop where
  id : b'.id = b.id
  scope : b'.scope = b.scope
  model : b'.model = b.model
  selectors : b'.preferences.map (·.selector) = b.preferences.map (·.selector)
  denies : b'.denies = b.denies
  allows : b'.allows = b.allows
  pin : b'.pin = b.pin
  emergencyFallback : b'.emergencyFallback = b.emergencyFallback
  priority : b'.priority = b.priority

/-- The snapshot with other bindings and another tie-break. -/
def PolicySnapshot.reweighed (s : PolicySnapshot) (bindings : List Binding)
    (weightedTieBreak : Bool) : PolicySnapshot :=
  { s with bindings := bindings, weightedTieBreak := weightedTieBreak }

/-- The request with another identifier and another hint. -/
def CanonicalRequest.rehinted (req : CanonicalRequest) (requestId : RequestId)
    (preferTarget : Option TargetId) : CanonicalRequest :=
  { req with requestId := requestId, hints := { req.hints with preferTarget := preferTarget } }

/-- The live state with other penalties. -/
def LiveState.repenalized (live : LiveState) (health latency queue affinity : TargetId → ℤ) :
    LiveState :=
  { live with
    healthPenalty := health, latencyPenalty := latency, queuePenalty := queue,
    affinityBonus := affinity }

/-! ### The merged view without strengths -/

def Applicable.SameButStrength (a a' : Applicable) : Prop :=
  a'.level = a.level ∧ a.binding.SameButStrength a'.binding

/-- Two preferences for the same targets from the same binding at the same level. -/
def MergedPreference.SameButStrength (p p' : MergedPreference) : Prop :=
  p'.key = p.key ∧ p'.selector = p.selector

namespace PolicySnapshot

variable {s : PolicySnapshot} {bindings' : List Binding}

theorem applicable_reweighed (tieBreak : Bool)
    (h : Forall₂ Binding.SameButStrength s.bindings bindings') (ctx : RoutingContext)
    (aliasId : AliasId) :
    Forall₂ Applicable.SameButStrength (s.applicable ctx aliasId)
      ((s.reweighed bindings' tieBreak).applicable ctx aliasId) := by
  unfold applicable
  rw [filterMap_filter, filterMap_filter]
  refine forall₂_filterMap (fun b b' hb => ?_) h
  have hinherits : (s.reweighed bindings' tieBreak).inherits ctx b'.scope = s.inherits ctx b.scope := by
    rw [hb.scope]
    rfl
  have hlevel : b'.precedence ctx aliasId = b.precedence ctx aliasId := by
    rw [Binding.precedence, Binding.precedence, hb.scope, hb.model]
  rw [hinherits, hlevel]
  cases s.inherits ctx b.scope with
  | false => exact .none
  | true =>
    cases b.precedence ctx aliasId with
    | none => exact .none
    | some level => exact .some ⟨rfl, hb⟩

theorem strongestFirst_reweighed (tieBreak : Bool)
    (h : Forall₂ Binding.SameButStrength s.bindings bindings') (ctx : RoutingContext)
    (aliasId : AliasId) :
    Forall₂ Applicable.SameButStrength (s.strongestFirst ctx aliasId)
      ((s.reweighed bindings' tieBreak).strongestFirst ctx aliasId) := by
  refine forall₂_insertionSort ?_ (applicable_reweighed tieBreak h ctx aliasId)
  have hkey : ∀ a a', Applicable.SameButStrength a a' → a'.key = a.key := by
    intro a a' ha
    rw [Applicable.key, Applicable.key, ha.1, ha.2.priority, ha.2.id]
  intro a b a' b' hab hab'
  rw [Applicable.Before, Applicable.Before, hkey a b hab, hkey a' b' hab']

end PolicySnapshot

namespace MergedBindings

variable {as as' : List Applicable}

theorem rules_sameButStrength (h : Forall₂ Applicable.SameButStrength as as') :
    (ofApplicable as').rules = (ofApplicable as).rules := by
  rw [ofApplicable_rules, ofApplicable_rules]
  induction h with
  | nil => rfl
  | cons hab _ ih =>
    rw [flatMap_cons, flatMap_cons, ih, Binding.rulesAt, Binding.rulesAt, hab.1, hab.2.denies,
      hab.2.allows]

theorem pinning_sameButStrength (h : Forall₂ Applicable.SameButStrength as as') :
    (ofApplicable as').pinning = (ofApplicable as).pinning := by
  rw [ofApplicable_pinning, ofApplicable_pinning]
  induction h with
  | nil => rfl
  | cons hab _ ih =>
    rw [pinningOf, pinningOf, ih, hab.1, hab.2.pin, hab.2.emergencyFallback]

theorem preferences_sameButStrength (h : Forall₂ Applicable.SameButStrength as as') :
    Forall₂ MergedPreference.SameButStrength (ofApplicable as).preferences
      (ofApplicable as').preferences := by
  rw [ofApplicable_preferences, ofApplicable_preferences]
  induction h with
  | nil => exact .nil
  | @cons a a' _ _ hab _ ih =>
    rw [flatMap_cons, flatMap_cons]
    refine rel_append ?_ ih
    have hsel : Forall₂ (fun p p' : TargetPreference => p'.selector = p.selector)
        a.binding.preferences a'.binding.preferences := by
      have hmap := hab.2.selectors
      rw [← forall₂_eq_eq_eq, forall₂_map_left_iff, forall₂_map_right_iff] at hmap
      exact hmap.flip
    rw [Binding.preferencesAt, Binding.preferencesAt, forall₂_map_left_iff, forall₂_map_right_iff]
    refine hsel.imp fun p p' hp => ⟨?_, hp⟩
    simp only [MergedPreference.key, hab.1, hab.2.priority, hab.2.id, hp]

/-- Whether a target has a preference does not depend on how strong its preferences are. -/
theorem preferenceFor_isSome_sameButStrength {m m' : MergedBindings}
    (h : Forall₂ MergedPreference.SameButStrength m.preferences m'.preferences) (target : Target) :
    (m'.preferenceFor target).isSome = (m.preferenceFor target).isSome := by
  have hsome : ∀ (l : List MergedPreference) (best : Option MergedPreference),
      (l.foldl MergedPreference.better best).isSome = (best.isSome || !l.isEmpty) := by
    intro l
    induction l with
    | nil => simp
    | cons p l ih =>
      intro best
      rw [foldl_cons, ih]
      cases best with
      | none => simp [MergedPreference.better]
      | some current =>
        simp only [MergedPreference.better]
        split <;> simp
  rw [preferenceFor, preferenceFor, hsome, hsome]
  -- The same selectors match, so the same preferences are left.
  have hfilter : ∀ (l l' : List MergedPreference), Forall₂ MergedPreference.SameButStrength l l' →
      (l'.filter fun p => p.selector.admits target).isEmpty =
        (l.filter fun p => p.selector.admits target).isEmpty := by
    intro l l' hl
    induction hl with
    | nil => rfl
    | cons hp _ ih =>
      rw [filter_cons, filter_cons, hp.2]
      split <;> simp_all
  rw [hfilter _ _ h]

end MergedBindings

/-! ### Verdicts that agree -/

/-- Both are candidates of one target, or both are excluded for one reason. -/
def VerdictsAgree : Except ExclusionReason Candidate → Except ExclusionReason Candidate → Prop
  | .ok c, .ok c' => c'.target = c.target
  | .error reason, .error reason' => reason' = reason
  | _, _ => False

namespace PolicySnapshot

variable {s : PolicySnapshot} {bindings' : List Binding} {tieBreak : Bool} {ctx : RoutingContext}
  {req : CanonicalRequest} {requestId : RequestId} {preferTarget : Option TargetId}
  {live : LiveState} {health latency queue affinity : TargetId → ℤ} {entry : Alias}
  {target : Target} {m m' : MergedBindings}

/-- The filters read of the merged view the rules and the pinning. -/
theorem screen_congr (hrules : m'.rules = m.rules) (hpin : m'.pinning = m.pinning) :
    (s.reweighed bindings' tieBreak).screen ctx (req.rehinted requestId preferTarget) entry target m'
        (live.repenalized health latency queue affinity) =
      s.screen ctx req entry target m live := by
  simp only [MergedBindings.pinning, Prod.mk.injEq] at hpin
  obtain ⟨hpin, hfallback, -⟩ := hpin
  have hdenied : m'.isDenied target = m.isDenied target := by
    simp only [MergedBindings.isDenied, MergedBindings.rulesFor, hrules]
  have hsecurity :
      (s.reweighed bindings' tieBreak).securityFilters ctx (req.rehinted requestId preferTarget) entry
          target m' = s.securityFilters ctx req entry target m := by
    simp only [securityFilters, hdenied, hpin, hfallback]
    rfl
  simp only [screen, hsecurity]
  rfl

theorem reach_agree (hprefs : Forall₂ MergedPreference.SameButStrength m.preferences m'.preferences)
    (hpin : m'.pinning = m.pinning) (residency : ResidencyClass) :
    VerdictsAgree (s.reach req target m live residency)
      ((s.reweighed bindings' tieBreak).reach (req.rehinted requestId preferTarget) target m'
        (live.repenalized health latency queue affinity) residency) := by
  simp only [MergedBindings.pinning, Prod.mk.injEq] at hpin
  obtain ⟨hpin, hfallback, -⟩ := hpin
  have hsome := MergedBindings.preferenceFor_isSome_sameButStrength hprefs target
  unfold reach
  simp only [hpin, hfallback]
  cases hm : m.preferenceFor target with
  | some pref =>
    cases hm' : m'.preferenceFor target with
    | some pref' => exact rfl
    | none => simp [hm, hm'] at hsome
  | none =>
    cases hm' : m'.preferenceFor target with
    | some pref' => simp [hm, hm'] at hsome
    | none =>
      dsimp only
      split <;> exact rfl

theorem consider_agree (tieBreak : Bool)
    (h : Forall₂ Binding.SameButStrength s.bindings bindings') (ctx : RoutingContext)
    (req : CanonicalRequest) (requestId : RequestId) (preferTarget : Option TargetId)
    (live : LiveState) (health latency queue affinity : TargetId → ℤ) (entry : Alias)
    (targetId : TargetId) :
    VerdictsAgree
      (s.consider ctx req entry (s.mergeBindings ctx req.requestedModel) live targetId)
      ((s.reweighed bindings' tieBreak).consider ctx (req.rehinted requestId preferTarget) entry
        ((s.reweighed bindings' tieBreak).mergeBindings ctx req.requestedModel)
        (live.repenalized health latency queue affinity) targetId) := by
  have hsorted := strongestFirst_reweighed tieBreak h ctx req.requestedModel
  have hrules := MergedBindings.rules_sameButStrength hsorted
  have hpin := MergedBindings.pinning_sameButStrength hsorted
  have hprefs := MergedBindings.preferences_sameButStrength hsorted
  simp only [← mergeBindings_eq] at hrules hpin hprefs
  have hlookup : (s.reweighed bindings' tieBreak).targets[targetId]? = s.targets[targetId]? := rfl
  unfold consider
  rw [hlookup]
  cases s.targets[targetId]? with
  | none => exact rfl
  | some target =>
    simp only [evaluate, screen_congr hrules hpin]
    cases s.screen ctx req entry target (s.mergeBindings ctx req.requestedModel) live with
    | error reason => exact rfl
    | ok residency => exact reach_agree hprefs hpin residency

end PolicySnapshot

/-! ### From verdicts to the two lists -/

namespace PolicySnapshot

variable {verdict verdict' : TargetId → Except ExclusionReason Candidate}

theorem candidate_targets_eq (l : List TargetId) (h : ∀ t, VerdictsAgree (verdict t) (verdict' t)) :
    (l.filterMap fun t => candidateOf (verdict' t)).map (·.target) =
      (l.filterMap fun t => candidateOf (verdict t)).map (·.target) := by
  rw [map_filterMap, map_filterMap]
  refine filterMap_congr fun t _ => ?_
  have ht := h t
  cases hv : verdict t <;> cases hv' : verdict' t <;> simp_all [VerdictsAgree, candidateOf]

theorem exclusions_eq (l : List TargetId) (h : ∀ t, VerdictsAgree (verdict t) (verdict' t)) :
    (l.filterMap fun t => exclusionOf t (verdict' t)) =
      l.filterMap fun t => exclusionOf t (verdict t) := by
  refine filterMap_congr fun t _ => ?_
  have ht := h t
  cases hv : verdict t <;> cases hv' : verdict' t <;> simp_all [VerdictsAgree, exclusionOf]

/-- Every listed target is on one of the two lists, as often as it is listed. -/
theorem count_verdicts (hverdict : ∀ t c, verdict t = .ok c → c.target = t) (l : List TargetId)
    (t : TargetId) :
    ((l.filterMap fun t => candidateOf (verdict t)).map (·.target)).count t +
      ((l.filterMap fun t => exclusionOf t (verdict t)).map (·.target)).count t = l.count t := by
  induction l with
  | nil => rfl
  | cons a l ih =>
    cases hv : verdict a with
    | ok c =>
      have hc : c.target = a := hverdict a c hv
      have hcand : candidateOf (verdict a) = some c := by rw [hv]; rfl
      have hexcl : exclusionOf a (verdict a) = none := by rw [hv]; rfl
      simp only [filterMap_cons, hcand, hexcl, map_cons, hc, count_cons]
      omega
    | error reason =>
      have hcand : candidateOf (verdict a) = none := by rw [hv]; rfl
      have hexcl : exclusionOf a (verdict a) = some ⟨a, reason⟩ := by rw [hv]; rfl
      simp only [filterMap_cons, hcand, hexcl, map_cons, count_cons]
      omega

/-- **Eligibility is independent of preference.**  Other weights and ranks, another tie-break,
another request identifier and hint, and other penalties leave the candidate targets and every
exclusion with its reason as they were; and where the alias is authorized, a target it lists once
is reported once. -/
theorem eligibility_ignores_scoring_inputs (s : PolicySnapshot) (bindings' : List Binding)
    (tieBreak : Bool) (h : Forall₂ Binding.SameButStrength s.bindings bindings')
    (ctx : RoutingContext) (req : CanonicalRequest) (requestId : RequestId)
    (preferTarget : Option TargetId) (live : LiveState)
    (health latency queue affinity : TargetId → ℤ) :
    let before := s.route ctx req live
    let after := (s.reweighed bindings' tieBreak).route ctx (req.rehinted requestId preferTarget)
      (live.repenalized health latency queue affinity)
    (after.candidates.map (·.target)).Perm (before.candidates.map (·.target)) ∧
      after.exclusions = before.exclusions ∧
      ∀ entry, s.aliases[req.requestedModel]? = some entry →
        s.authorizes ctx req.requestedModel req.operation = true →
        ∀ t, entry.permittedTargets.count t = 1 →
          (before.candidates.map (·.target)).count t +
            (before.exclusions.map (·.target)).count t = 1 := by
  intro before after
  cases hentry : s.aliases[req.requestedModel]? with
  | none =>
    have hbefore : before = ⟨[], [], false⟩ := route_of_unknown hentry
    have hafter : after = ⟨[], [], false⟩ :=
      route_of_unknown (s := s.reweighed bindings' tieBreak) hentry
    rw [hbefore, hafter]
    exact ⟨.refl _, rfl, fun entry he => by cases he⟩
  | some entry =>
    cases hauth : s.authorizes ctx req.requestedModel req.operation with
    | false =>
      have hbefore : before = _ := route_of_unauthorized hentry hauth
      have hafter : after = _ :=
        route_of_unauthorized (s := s.reweighed bindings' tieBreak) hentry hauth
      rw [hbefore, hafter]
      exact ⟨.refl _, rfl, fun _ _ hfalse => by cases hfalse⟩
    | true =>
      have hbefore : before = _ := route_of_authorized hentry hauth
      have hafter : after = _ :=
        route_of_authorized (s := s.reweighed bindings' tieBreak) hentry hauth
      have hagree := consider_agree tieBreak h ctx req requestId preferTarget live health latency
        queue affinity entry
      rw [hbefore, hafter]
      dsimp only
      refine ⟨?_, ?_, ?_⟩
      · refine ((perm_insertionSort _ _).map _).trans (.trans ?_ ((perm_insertionSort _ _).map _).symm)
        exact .of_eq (candidate_targets_eq entry.permittedTargets hagree)
      · exact congrArg _ (exclusions_eq entry.permittedTargets hagree)
      · intro entry' hentry' _ t ht
        cases hentry'
        rw [((perm_insertionSort _ _).map _).count_eq, ((perm_insertionSort _ _).map _).count_eq,
          count_verdicts (fun t c hc => consider_target hc), ht]

/-- The sample binding with its preferences turned round: the catch-all outranks the exact one. -/
theorem turned_preferences_keep_candidates :
    Forall₂ Binding.SameButStrength Sample.snapshot.bindings
        [{ Sample.binding with preferences := [⟨.exactly "small", 7, 0⟩, ⟨.any, 0, 500⟩] }] ∧
      let before := Sample.snapshot.route Sample.caller Sample.request LiveState.ideal
      let after := (Sample.snapshot.reweighed
        [{ Sample.binding with preferences := [⟨.exactly "small", 7, 0⟩, ⟨.any, 0, 500⟩] }] true).route
        Sample.caller (Sample.request.rehinted 77 (some "large"))
        (LiveState.ideal.repenalized (fun _ => -50000) (fun _ => 0) (fun _ => 0) (fun _ => 4000))
      before.candidates.map (·.target) = ["small", "large"] ∧
        (after.candidates.map (·.target)).Perm (before.candidates.map (·.target)) ∧
        after.exclusions = before.exclusions := by
  have hsame : Forall₂ Binding.SameButStrength Sample.snapshot.bindings
      [{ Sample.binding with preferences := [⟨.exactly "small", 7, 0⟩, ⟨.any, 0, 500⟩] }] :=
    .cons ⟨rfl, rfl, rfl, rfl, rfl, rfl, rfl, rfl, rfl⟩ .nil
  have happly := eligibility_ignores_scoring_inputs Sample.snapshot _ true hsame Sample.caller
    Sample.request 77 (some "large") LiveState.ideal (fun _ => -50000) (fun _ => 0) (fun _ => 0)
    (fun _ => 4000)
  exact ⟨hsame, by decide, happly.1, happly.2.1⟩

end PolicySnapshot

end HypeLlm.Routing
