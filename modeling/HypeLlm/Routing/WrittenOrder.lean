import HypeLlm.Routing.Verdicts

/-!
# Routing and the order things are written in

A configuration lists bindings, grants, the rules inside a binding and the targets of an alias in
some order.  `Rewriting` is another way of writing the same snapshot: permutations of all of them.
With distinct binding identifiers the merged view is the same up to the order of its rules, the
rules resolve alike, and the two lists of a decision are sorted by total orders.

* **`rewriting_keeps_decisions`** — authorization and fleet access never feel the rewriting, and
  routing does not feel it exactly when the caller is authorized for the alias or the alias lists
  its targets in the same order as before.

The exception is the early return for a caller who is not authorized: it reports the targets in the
order the alias lists them, where every other path sorts them.
-/

namespace HypeLlm.Routing

open HypeLlm.Precedence HypeLlm.Sorting HypeLlm.Lists List

/-- The same binding with its denies and allows written in another order. -/
structure Binding.Reordered (b b' : Binding) : Prop where
  id : b'.id = b.id
  scope : b'.scope = b.scope
  model : b'.model = b.model
  preferences : b'.preferences = b.preferences
  denies : b'.denies.Perm b.denies
  allows : b'.allows.Perm b.allows
  pin : b'.pin = b.pin
  emergencyFallback : b'.emergencyFallback = b.emergencyFallback
  priority : b'.priority = b.priority

/-- The same alias with its targets listed in another order. -/
structure Alias.Reordered (a a' : Alias) : Prop where
  id : a'.id = a.id
  capability : a'.capability = a.capability
  permittedTargets : a'.permittedTargets.Perm a.permittedTargets
  allowFamilyFailover : a'.allowFamilyFailover = a.allowFamilyFailover

/-- Another way of writing a snapshot. -/
structure Rewriting (s : PolicySnapshot) where
  bindings : List Binding
  grants : List AliasGrant
  fleetGrants : List FleetGrant
  aliases : Std.TreeMap AliasId Alias
  bindings_reordered : ∃ permuted, permuted.Perm s.bindings ∧
    Forall₂ Binding.Reordered permuted bindings
  grants_perm : grants.Perm s.grants
  fleetGrants_perm : fleetGrants.Perm s.fleetGrants
  aliases_reordered : ∀ id : AliasId, Option.Rel Alias.Reordered s.aliases[id]? aliases[id]?
  aliases_keyed : ∀ (id : AliasId) (a : Alias), aliases[id]? = some a → a.id = id

namespace PolicySnapshot

def rewrite (s : PolicySnapshot) (w : Rewriting s) : PolicySnapshot :=
  { s with
    bindings := w.bindings
    grants := w.grants
    fleetGrants := w.fleetGrants
    aliases := w.aliases
    aliases_keyed := w.aliases_keyed }

variable (s : PolicySnapshot) (w : Rewriting s) (ctx : RoutingContext)

/-! ### Grants -/

theorem authorizes_rewrite (aliasId : AliasId) (operation : Operation) :
    (s.rewrite w).authorizes ctx aliasId operation = s.authorizes ctx aliasId operation := by
  have hresolve := resolve_perm and (w.grants_perm.filterMap fun grant =>
    if !grant.covers operation || !s.inherits ctx grant.scope then none
    else (grant.precedence ctx aliasId).map fun level => (level, grant.allow))
  unfold authorizes decides
  split
  · rfl
  · exact congrArg (Option.any Prod.snd) hresolve

theorem fleetAccessPermits_rewrite (aliasId : AliasId) (target : TargetId) :
    (s.rewrite w).fleetAccessPermits ctx aliasId target = s.fleetAccessPermits ctx aliasId target := by
  have hpermits : ∀ host, fleetPermits w.fleetGrants s.fleetAccessDefault ctx aliasId target host =
      fleetPermits s.fleetGrants s.fleetAccessDefault ctx aliasId target host := by
    intro host
    unfold fleetPermits
    rw [resolve_perm and (w.fleetGrants_perm.filterMap _)]
  simp only [fleetAccessPermits, rewrite, hpermits]

/-! ### Bindings -/

theorem mem_applicable {a : Applicable} {aliasId : AliasId} (h : a ∈ s.applicable ctx aliasId) :
    a.binding ∈ s.bindings ∧ a.binding.precedence ctx aliasId = some a.level := by
  simp only [applicable, mem_filterMap, mem_filter, Option.map_eq_some_iff] at h
  obtain ⟨b, ⟨hb, -⟩, level, hlevel, rfl⟩ := h
  exact ⟨hb, hlevel⟩

end PolicySnapshot

def Applicable.Reordered (a a' : Applicable) : Prop :=
  a'.level = a.level ∧ a.binding.Reordered a'.binding

theorem Applicable.Reordered.key_eq {a a' : Applicable} (h : a.Reordered a') : a'.key = a.key := by
  rw [Applicable.key, Applicable.key, h.1, h.2.priority, h.2.id]

namespace PolicySnapshot

variable (s : PolicySnapshot) (w : Rewriting s) (ctx : RoutingContext)

/-- With distinct identifiers the order of the bindings is not felt, and their inside stays in
correspondence. -/
theorem strongestFirst_rewrite (hids : (s.bindings.map (·.id)).Nodup) (aliasId : AliasId) :
    Forall₂ Applicable.Reordered (s.strongestFirst ctx aliasId)
      ((s.rewrite w).strongestFirst ctx aliasId) := by
  obtain ⟨permuted, hperm, hcorr⟩ := w.bindings_reordered
  let level := fun b : Binding =>
    (b.precedence ctx aliasId).map fun level => (⟨level, b⟩ : Applicable)
  let middle := (permuted.filter fun b => s.inherits ctx b.scope).filterMap level
  -- First the permutation: equal keys come from one binding.
  have hsorted : s.strongestFirst ctx aliasId = middle.insertionSort Applicable.Before := by
    refine insertionSort_perm_eq Applicable.Before ((hperm.filter _).filterMap level).symm ?_
    intro a ha b hb hab hba
    have hkey : a.key = b.key := le_antisymm hab hba
    simp only [Applicable.key, EmbeddingLike.apply_eq_iff_eq, Prod.mk.injEq] at hkey
    obtain ⟨hlevel, -, hid⟩ := hkey
    have hbinding : a.binding = b.binding :=
      inj_on_of_nodup_map hids (mem_applicable s ctx ha).1 (mem_applicable s ctx hb).1 hid
    cases a
    cases b
    simp_all
  rw [hsorted]
  -- Then the correspondence: precedence and keys are the same on both sides.
  refine forall₂_insertionSort ?_ ?_
  · intro a b a' b' hab hab'
    rw [Applicable.Before, Applicable.Before, hab.key_eq, hab'.key_eq]
  · show Forall₂ Applicable.Reordered ((permuted.filter _).filterMap level)
      ((w.bindings.filter _).filterMap level)
    rw [filterMap_filter, filterMap_filter]
    refine forall₂_filterMap (fun b b' hb => ?_) hcorr
    have hlevel : b'.precedence ctx aliasId = b.precedence ctx aliasId := by
      rw [Binding.precedence, Binding.precedence, hb.scope, hb.model]
    simp only [level, hb.scope, hlevel]
    change Option.Rel Applicable.Reordered (if s.inherits ctx b.scope = true then _ else _)
      (if s.inherits ctx b.scope = true then _ else _)
    split
    · cases b.precedence ctx aliasId with
      | none => exact .none
      | some level => exact .some ⟨rfl, hb⟩
    · exact .none

end PolicySnapshot

namespace MergedBindings

variable {as as' : List Applicable}

theorem rules_reordered (h : Forall₂ Applicable.Reordered as as') :
    (ofApplicable as').rules.Perm (ofApplicable as).rules := by
  rw [ofApplicable_rules, ofApplicable_rules]
  induction h with
  | nil => exact .refl _
  | @cons a a' _ _ hab _ ih =>
    rw [flatMap_cons, flatMap_cons]
    refine .append ?_ ih
    rw [Binding.rulesAt, Binding.rulesAt, hab.1]
    exact (hab.2.denies.map _).append (hab.2.allows.map _)

theorem preferences_reordered (h : Forall₂ Applicable.Reordered as as') :
    (ofApplicable as').preferences = (ofApplicable as).preferences := by
  rw [ofApplicable_preferences, ofApplicable_preferences]
  induction h with
  | nil => rfl
  | cons hab _ ih =>
    rw [flatMap_cons, flatMap_cons, ih, Binding.preferencesAt, Binding.preferencesAt, hab.1,
      hab.2.preferences, hab.2.priority, hab.2.id]

theorem pinning_reordered (h : Forall₂ Applicable.Reordered as as') :
    (ofApplicable as').pinning = (ofApplicable as).pinning := by
  rw [ofApplicable_pinning, ofApplicable_pinning]
  induction h with
  | nil => rfl
  | cons hab _ ih =>
    rw [pinningOf, pinningOf, ih, hab.1, hab.2.pin, hab.2.emergencyFallback]

theorem isDenied_perm {m m' : MergedBindings} (h : m'.rules.Perm m.rules) (target : Target) :
    m'.isDenied target = m.isDenied target := by
  unfold isDenied rulesFor decides
  rw [resolve_perm or ((h.filter _).map _)]

end MergedBindings

/-! ### Verdicts and decisions -/

namespace PolicySnapshot

variable (s : PolicySnapshot) (w : Rewriting s) (ctx : RoutingContext)

/-- The filters do not feel the rewriting, given the same view without rules. -/
theorem evaluate_rewrite {entry entry' : Alias} (hentry : entry.Reordered entry')
    (req : CanonicalRequest) (target : Target) (m : MergedBindings) (live : LiveState) :
    (s.rewrite w).evaluate ctx req entry' target m live = s.evaluate ctx req entry target m live := by
  obtain ⟨id, capability, permittedTargets, failover⟩ := entry
  obtain ⟨id', capability', permittedTargets', failover'⟩ := entry'
  obtain ⟨rfl, rfl, -, rfl⟩ := hentry
  simp only [evaluate, screen, securityFilters, fleetAccessPermits_rewrite s w ctx]
  rfl

theorem consider_rewrite (hids : (s.bindings.map (·.id)).Nodup) {entry entry' : Alias}
    (hentry : entry.Reordered entry') (req : CanonicalRequest) (live : LiveState)
    (targetId : TargetId) :
    (s.rewrite w).consider ctx req entry' ((s.rewrite w).mergeBindings ctx req.requestedModel) live
        targetId =
      s.consider ctx req entry (s.mergeBindings ctx req.requestedModel) live targetId := by
  have hsorted := strongestFirst_rewrite s w ctx hids req.requestedModel
  have hrules := MergedBindings.rules_reordered hsorted
  have hview := withoutRules_eq (MergedBindings.preferences_reordered hsorted)
    (MergedBindings.pinning_reordered hsorted)
  have hlookup : (s.rewrite w).targets[targetId]? = s.targets[targetId]? := rfl
  unfold consider
  rw [hlookup]
  cases s.targets[targetId]? with
  | none => rfl
  | some target =>
    dsimp only
    rw [evaluate_eq, evaluate_eq s, evaluate_rewrite s w ctx hentry, mergeBindings_eq,
      mergeBindings_eq, hview, MergedBindings.isDenied_perm hrules]

theorem pin_rewrite (hids : (s.bindings.map (·.id)).Nodup) (aliasId : AliasId) :
    ((s.rewrite w).mergeBindings ctx aliasId).pin = (s.mergeBindings ctx aliasId).pin :=
  congrArg Prod.fst (MergedBindings.pinning_reordered (strongestFirst_rewrite s w ctx hids aliasId))

/-- An authorized decision does not feel the order of the alias's targets. -/
theorem sorted_lists_perm (req : CanonicalRequest) (entry : Alias) (m : MergedBindings)
    (live : LiveState) {l l' : List TargetId} (h : l'.Perm l) :
    let verdict := s.consider ctx req entry m live
    (l'.filterMap fun t => candidateOf (verdict t)).insertionSort Candidate.Before =
        (l.filterMap fun t => candidateOf (verdict t)).insertionSort Candidate.Before ∧
      (l'.filterMap fun t => exclusionOf t (verdict t)).insertionSort Exclusion.Before =
        (l.filterMap fun t => exclusionOf t (verdict t)).insertionSort Exclusion.Before := by
  intro verdict
  constructor
  · refine insertionSort_perm_eq _ (h.filterMap _) ?_
    intro a ha b hb hab hba
    obtain ⟨t, -, hat⟩ := mem_candidateOf.1 ha
    obtain ⟨t', -, hbt⟩ := mem_candidateOf.1 hb
    -- Equal keys name one target, and one target has one verdict.
    have htarget : t = t' := by
      rw [← consider_target hat, ← consider_target hbt]
      exact Candidate.Before.target_eq hab hba
    subst htarget
    rw [hat] at hbt
    exact Except.ok.inj hbt
  · exact insertionSort_perm_eq _ (h.filterMap _) fun _ _ _ _ => Exclusion.Before.antisymm

/-- **What a rewriting keeps.**  Authorization and fleet access are kept always.  A routing decision
is kept exactly when the alias is unknown, the caller is authorized for it, or the alias lists its
targets as before. -/
theorem rewriting_keeps_decisions (s : PolicySnapshot) (hids : (s.bindings.map (·.id)).Nodup)
    (w : Rewriting s) (ctx : RoutingContext) :
    (∀ aliasId operation,
      (s.rewrite w).authorizes ctx aliasId operation = s.authorizes ctx aliasId operation) ∧
    (∀ aliasId target,
      (s.rewrite w).fleetAccessPermits ctx aliasId target =
        s.fleetAccessPermits ctx aliasId target) ∧
    ∀ req live, (s.rewrite w).route ctx req live = s.route ctx req live ↔
      (s.authorizes ctx req.requestedModel req.operation = true ∨
        (s.rewrite w).aliases[req.requestedModel]?.map (·.permittedTargets) =
          s.aliases[req.requestedModel]?.map (·.permittedTargets)) := by
  refine ⟨authorizes_rewrite s w ctx, fleetAccessPermits_rewrite s w ctx, fun req live => ?_⟩
  have hauth := authorizes_rewrite s w ctx req.requestedModel req.operation
  have haliases : Option.Rel Alias.Reordered s.aliases[req.requestedModel]?
      (s.rewrite w).aliases[req.requestedModel]? := w.aliases_reordered req.requestedModel
  cases hentry : s.aliases[req.requestedModel]? with
  | none =>
    rw [hentry] at haliases
    have hentry' : (s.rewrite w).aliases[req.requestedModel]? = none := by
      cases hrel : (s.rewrite w).aliases[req.requestedModel]? with
      | none => rfl
      | some entry' =>
        rw [hrel] at haliases
        cases haliases
    rw [route_of_unknown hentry, route_of_unknown hentry', hentry']
    simp
  | some entry =>
    rw [hentry] at haliases
    obtain ⟨entry', hentry', hreordered⟩ : ∃ entry',
        (s.rewrite w).aliases[req.requestedModel]? = some entry' ∧ entry.Reordered entry' := by
      cases hrel : (s.rewrite w).aliases[req.requestedModel]? with
      | none =>
        rw [hrel] at haliases
        cases haliases
      | some entry' =>
        rw [hrel] at haliases
        cases haliases with
        | some h => exact ⟨entry', rfl, h⟩
    cases ha : s.authorizes ctx req.requestedModel req.operation with
    | true =>
      rw [ha] at hauth
      simp only [true_or, iff_true]
      rw [route_of_authorized hentry ha, route_of_authorized hentry' hauth]
      have hverdict : (s.rewrite w).consider ctx req entry'
          ((s.rewrite w).mergeBindings ctx req.requestedModel) live =
          s.consider ctx req entry (s.mergeBindings ctx req.requestedModel) live :=
        funext (consider_rewrite s w ctx hids hreordered req live)
      have hlists := sorted_lists_perm s ctx req entry (s.mergeBindings ctx req.requestedModel) live
        hreordered.permittedTargets
      simp only [hverdict, pin_rewrite s w ctx hids, hlists.1, hlists.2]
    | false =>
      rw [ha] at hauth
      rw [route_of_unauthorized hentry ha, route_of_unauthorized hentry' hauth, hentry']
      have hinj : Function.Injective fun t : TargetId =>
          (⟨t, .notAuthorizedForAlias⟩ : Exclusion) := fun t t' h => congrArg Exclusion.target h
      simp only [RouteOutcome.mk.injEq, true_and, and_true, Bool.false_eq_true, false_or,
        Option.map_some, Option.some.injEq]
      exact ⟨fun h => map_injective_iff.2 hinj h, fun h => by rw [h]⟩

end PolicySnapshot

/-! ### The sample alias with its targets turned round -/

namespace Sample

def turned : Rewriting snapshot where
  bindings := snapshot.bindings
  grants := snapshot.grants
  fleetGrants := snapshot.fleetGrants
  aliases := (∅ : Std.TreeMap AliasId Alias).insert "agent" (listing ["large", "small"])
  bindings_reordered := ⟨snapshot.bindings, .refl _,
    .cons ⟨rfl, rfl, rfl, rfl, .refl _, .refl _, rfl, rfl, rfl⟩ .nil⟩
  grants_perm := .refl _
  fleetGrants_perm := .refl _
  aliases_reordered := by
    intro id
    have hold : snapshot.aliases =
        (∅ : Std.TreeMap AliasId Alias).insert "agent" (listing ["small", "large"]) := rfl
    rw [hold, Maps.getElem?_insert, Maps.getElem?_insert]
    split
    · exact .some ⟨rfl, rfl, .swap _ _ _, rfl⟩
    · simp
  aliases_keyed := by
    intro id a h
    rw [Maps.getElem?_insert] at h
    split at h
    · rename_i hid
      cases h
      exact hid.symm
    · simp at h

/-- A caller of a tenant without a grant. -/
def stranger : RoutingContext := { caller with tenant := "other" }

end Sample

/-- A caller with a grant gets the same decision from the sample and from the turned sample. -/
theorem granted_caller_sees_no_order :
    (Sample.snapshot.bindings.map (·.id)).Nodup ∧
      (Sample.snapshot.rewrite Sample.turned).route Sample.caller Sample.request LiveState.ideal =
        Sample.snapshot.route Sample.caller Sample.request LiveState.ideal := by
  have hids : (Sample.snapshot.bindings.map (·.id)).Nodup := by decide
  have hkeeps := PolicySnapshot.rewriting_keeps_decisions Sample.snapshot hids Sample.turned
    Sample.caller
  exact ⟨hids, (hkeeps.2.2 Sample.request LiveState.ideal).2 (.inl (by decide))⟩

/-- A caller without a grant gets the exclusions in the order the alias lists its targets. -/
theorem stranger_sees_the_written_order :
    (Sample.snapshot.bindings.map (·.id)).Nodup ∧
      (Sample.snapshot.route Sample.stranger Sample.request LiveState.ideal).exclusions =
        [⟨"small", .notAuthorizedForAlias⟩, ⟨"large", .notAuthorizedForAlias⟩] ∧
      ((Sample.snapshot.rewrite Sample.turned).route Sample.stranger Sample.request
        LiveState.ideal).exclusions =
          [⟨"large", .notAuthorizedForAlias⟩, ⟨"small", .notAuthorizedForAlias⟩] ∧
      (Sample.snapshot.rewrite Sample.turned).route Sample.stranger Sample.request LiveState.ideal ≠
        Sample.snapshot.route Sample.stranger Sample.request LiveState.ideal := by
  decide

end HypeLlm.Routing
