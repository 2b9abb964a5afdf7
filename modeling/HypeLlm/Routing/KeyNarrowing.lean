import HypeLlm.Routing.Verdicts

/-!
# A key restriction narrows exactly

A key restriction is consulted in three places: before the grants are read, among the security
filters, and again with the fleet grants.  Together they take away exactly the candidates the
restriction does not permit, and add nothing.

* **`key_narrows_exactly`** — the candidates with a key are the candidates without it, filtered, in
  the same order and with the same scores; fewer aliases are servable; and an alias that yields a
  candidate is servable.
-/

namespace HypeLlm.Routing

open HypeLlm.Precedence List

/-- The context with another key restriction, or none. -/
def RoutingContext.withKey (ctx : RoutingContext) (key : Option KeyRestriction) : RoutingContext :=
  { ctx with key := key }

/-- Whether a restriction permits a target and, if the fleet placed it, its host. -/
def KeyRestriction.permitsPlaced (key : KeyRestriction) (s : PolicySnapshot) (target : TargetId) :
    Bool := key.permitsTarget target && s.fleetPlacement[target]?.all key.permitsHost

namespace PolicySnapshot

variable (s : PolicySnapshot) (ctx : RoutingContext) (key : KeyRestriction)

/-! ### The three places -/

theorem authorizes_withKey (aliasId : AliasId) (operation : Operation) :
    s.authorizes (ctx.withKey (some key)) aliasId operation =
      (key.permitsAlias aliasId && s.authorizes (ctx.withKey none) aliasId operation) := by
  unfold authorizes
  cases hpermits : key.permitsAlias aliasId with
  | true =>
    simp only [RoutingContext.withKey, Option.any_some, Option.any_none, hpermits, Bool.not_true,
      Bool.false_eq_true, if_false, Bool.true_and]
    rfl
  | false => simp [RoutingContext.withKey, hpermits]

theorem keyRefuses_withKey (target : TargetId) :
    s.keyRefuses (ctx.withKey (some key)) target = !key.permitsPlaced s target := by
  simp only [keyRefuses, RoutingContext.withKey, KeyRestriction.permitsPlaced, Option.any_some]
  cases s.fleetPlacement[target]? <;> simp

theorem fleetAccessPermits_withKey (aliasId : AliasId) (target : TargetId) :
    s.fleetAccessPermits (ctx.withKey (some key)) aliasId target =
      (s.fleetPlacement[target]?.all key.permitsHost &&
        s.fleetAccessPermits (ctx.withKey none) aliasId target) := by
  simp only [fleetAccessPermits, RoutingContext.withKey]
  cases s.fleetPlacement[target]? <;> rfl

/-- **The verdict with a key**: the deny filter, then the key, then the verdict without it. -/
theorem evaluate_withKey (req : CanonicalRequest) (entry : Alias) (target : Target)
    (merged : MergedBindings) (live : LiveState) :
    s.evaluate (ctx.withKey (some key)) req entry target merged live =
      if merged.isDenied target then .error .deniedByPolicy
      else if key.permitsPlaced s target.id then
        s.evaluate (ctx.withKey none) req entry target merged live
      else .error .keyRestricted := by
  cases hdenied : merged.isDenied target with
  | true =>
    rw [evaluate_eq, hdenied]
    rfl
  | false =>
    simp only [Bool.false_eq_true, if_false]
    cases hplaced : key.permitsPlaced s target.id with
    | false =>
      simp only [Bool.false_eq_true, if_false, evaluate, screen, securityFilters, hdenied,
        keyRefuses_withKey, hplaced, Bool.not_false, refuseIf_true, refuseIf_false]
      rfl
    | true =>
      have hhost : s.fleetPlacement[target.id]?.all key.permitsHost = true := by
        simp only [KeyRestriction.permitsPlaced, Bool.and_eq_true] at hplaced
        exact hplaced.2
      have hnone : s.keyRefuses (ctx.withKey none) target.id = false := rfl
      simp only [if_true, evaluate, screen, securityFilters, keyRefuses_withKey, hplaced, hnone,
        fleetAccessPermits_withKey, hhost, Bool.not_true, Bool.true_and]
      rfl

theorem candidateOf_consider_withKey (req : CanonicalRequest) (entry : Alias)
    (merged : MergedBindings) (live : LiveState) (targetId : TargetId) :
    candidateOf (s.consider (ctx.withKey (some key)) req entry merged live targetId) =
      (candidateOf (s.consider (ctx.withKey none) req entry merged live targetId)).filter
        fun c => key.permitsPlaced s c.target := by
  unfold consider
  cases s.targets[targetId]? with
  | none => rfl
  | some target =>
    dsimp only
    rw [evaluate_withKey]
    cases hdenied : merged.isDenied target with
    | true =>
      rw [evaluate_eq, hdenied]
      rfl
    | false =>
      simp only [Bool.false_eq_true, if_false]
      cases heval : s.evaluate (ctx.withKey none) req entry target merged live with
      | error reason =>
        split <;> rfl
      | ok c =>
        have hc : c.target = target.id := evaluate_target heval
        cases hplaced : key.permitsPlaced s target.id <;>
          simp [candidateOf, Option.filter_some, hc, hplaced]

/-! ### Servable aliases -/

theorem servableAliases_withKey (operation : Operation) :
    (s.servableAliases (ctx.withKey (some key)) operation).Sublist
      (s.servableAliases (ctx.withKey none) operation) := by
  unfold servableAliases visibleAliases
  rw [filter_filter, filter_filter]
  refine monotone_filter_right _ fun a ha => ?_
  simp only [authorizes_withKey, fleetAccessPermits_withKey, Bool.and_eq_true, any_eq_true] at ha ⊢
  obtain ⟨⟨t, ht, -, -, hfleet⟩, -, hauth⟩ := ha
  exact ⟨⟨t, ht, rfl, hfleet⟩, hauth⟩

/-- A target that passes the security filters passes the key and the fleet grants. -/
theorem evaluate_ok_access {ctx : RoutingContext} {req : CanonicalRequest} {entry : Alias}
    {target : Target} {merged : MergedBindings} {live : LiveState} {c : Candidate}
    (h : s.evaluate ctx req entry target merged live = .ok c) :
    s.keyRefuses ctx target.id = false ∧ s.fleetAccessPermits ctx entry.id target.id = true := by
  rw [evaluate_eq] at h
  split at h
  · cases h
  · simp only [evaluate, screen, securityFilters] at h
    have hdenied : (withoutRules merged).isDenied target = false := rfl
    rw [hdenied] at h
    cases hkey : s.keyRefuses ctx target.id with
    | true =>
      rw [hkey] at h
      cases h
    | false =>
      cases hfleet : s.fleetAccessPermits ctx entry.id target.id with
      | true => exact ⟨rfl, rfl⟩
      | false =>
        rw [hkey, hfleet] at h
        cases h

/-- One target the caller is not kept off makes an authorized alias servable. -/
theorem mem_servableAliases {ctx : RoutingContext} {aliasId : AliasId} {operation : Operation}
    {entry : Alias} {t : TargetId} (hentry : s.aliases[aliasId]? = some entry)
    (hauth : s.authorizes ctx aliasId operation = true) (ht : t ∈ entry.permittedTargets)
    (hkey : s.keyRefuses ctx t = false) (hfleet : s.fleetAccessPermits ctx entry.id t = true) :
    entry ∈ s.servableAliases ctx operation := by
  have hid : entry.id = aliasId := s.aliases_keyed _ entry hentry
  simp only [servableAliases, visibleAliases, mem_filter, any_eq_true, Bool.and_eq_true]
  refine ⟨⟨?_, by rw [hid]; exact hauth⟩, t, ht, ?_, hfleet⟩
  · exact mem_map_of_mem (Std.TreeMap.mem_toList_iff_getElem?_eq_some.2 hentry)
  · cases hk : ctx.key with
    | none => rfl
    | some key =>
      simp only [keyRefuses, hk, Option.any_some, Bool.or_eq_false_iff, Bool.not_eq_false'] at hkey
      exact hkey.1

/-- **What yields a candidate is servable.** -/
theorem servable_of_candidate {ctx : RoutingContext} {req : CanonicalRequest} {live : LiveState}
    {c : Candidate} (hc : c ∈ (s.route ctx req live).candidates) :
    ∃ entry ∈ s.servableAliases ctx req.operation, entry.id = req.requestedModel := by
  cases hentry : s.aliases[req.requestedModel]? with
  | none =>
    rw [route_of_unknown hentry] at hc
    simp at hc
  | some entry =>
    have hid : entry.id = req.requestedModel := s.aliases_keyed _ entry hentry
    cases hauth : s.authorizes ctx req.requestedModel req.operation with
    | false =>
      rw [route_of_unauthorized hentry hauth] at hc
      simp at hc
    | true =>
      rw [route_of_authorized hentry hauth] at hc
      obtain ⟨t, ht, hverdict⟩ := mem_candidateOf.1 ((mem_insertionSort _).1 hc)
      unfold consider at hverdict
      cases htarget : s.targets[t]? with
      | none =>
        rw [htarget] at hverdict
        cases hverdict
      | some target =>
        rw [htarget] at hverdict
        have htid : target.id = t := s.targets_keyed t target htarget
        obtain ⟨hkey, hfleet⟩ := s.evaluate_ok_access hverdict
        rw [htid] at hkey hfleet
        exact ⟨entry, s.mem_servableAliases hentry hauth ht hkey hfleet, hid⟩

/-- **A key restriction narrows exactly.** -/
theorem key_narrows_exactly (s : PolicySnapshot) (ctx : RoutingContext) (key : KeyRestriction)
    (req : CanonicalRequest) (live : LiveState) :
    (s.route (ctx.withKey (some key)) req live).candidates =
        (s.route (ctx.withKey none) req live).candidates.filter (fun c =>
          key.permitsAlias req.requestedModel && key.permitsPlaced s c.target) ∧
      (∀ operation, (s.servableAliases (ctx.withKey (some key)) operation).Sublist
        (s.servableAliases (ctx.withKey none) operation)) ∧
      ∀ key' : Option KeyRestriction, (s.route (ctx.withKey key') req live).candidates ≠ [] →
        ∃ entry ∈ s.servableAliases (ctx.withKey key') req.operation,
          entry.id = req.requestedModel := by
  refine ⟨?_, s.servableAliases_withKey ctx key, ?_⟩
  · cases hentry : s.aliases[req.requestedModel]? with
    | none => rw [route_of_unknown hentry, route_of_unknown hentry, filter_nil]
    | some entry =>
      have hauthKey := s.authorizes_withKey ctx key req.requestedModel req.operation
      cases hauth : s.authorizes (ctx.withKey none) req.requestedModel req.operation with
      | false =>
        rw [hauth, Bool.and_false] at hauthKey
        rw [route_of_unauthorized hentry hauth, route_of_unauthorized hentry hauthKey, filter_nil]
      | true =>
        rw [hauth, Bool.and_true] at hauthKey
        rw [route_of_authorized hentry hauth]
        cases halias : key.permitsAlias req.requestedModel with
        | false =>
          rw [halias] at hauthKey
          rw [route_of_unauthorized hentry hauthKey]
          simp
        | true =>
          rw [halias] at hauthKey
          rw [route_of_authorized hentry hauthKey]
          simp only [Bool.true_and]
          -- The merged view does not read the key.
          exact candidates_filter _ fun t _ => s.candidateOf_consider_withKey ctx key req entry _ live t
  · intro key' hne
    obtain ⟨c, hc⟩ := exists_mem_of_ne_nil _ hne
    exact s.servable_of_candidate hc

/-- A key that names one of the sample's two targets keeps that one. -/
theorem one_target_key_keeps_one :
    (Sample.snapshot.route (Sample.caller.withKey (some ⟨none, some ["large"], none⟩)) Sample.request
        LiveState.ideal).candidates.map (·.target) = ["large"] ∧
      ∃ entry ∈ Sample.snapshot.servableAliases
          (Sample.caller.withKey (some ⟨none, some ["large"], none⟩)) .chat, entry.id = "agent" := by
  have hone : (Sample.snapshot.route (Sample.caller.withKey (some ⟨none, some ["large"], none⟩))
      Sample.request LiveState.ideal).candidates.map (·.target) = ["large"] := by decide
  refine ⟨hone, ?_⟩
  have hnarrows := key_narrows_exactly Sample.snapshot Sample.caller ⟨none, some ["large"], none⟩
    Sample.request LiveState.ideal
  exact hnarrows.2.2 _ (by rintro h; rw [h] at hone; cases hone)

end PolicySnapshot

end HypeLlm.Routing
