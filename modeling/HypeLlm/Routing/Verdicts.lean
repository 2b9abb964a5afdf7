import HypeLlm.Lib.Lists
import HypeLlm.Routing.Policy

/-!
# What a verdict on a target depends on

The filters look at the merged view of the bindings in few places, and this file says which, so
that later proofs never open the filters again:

* `mergeBindings_rules`, `mergeBindings_preferences`, `mergeBindings_firstPin` — the merged view is
  read off the sorted bindings: rules and preferences in a row, the pin from the first that has one;
* **`evaluate_eq`** — a verdict is the deny filter, and then a verdict that reads no rule;
* `consider_target` — a candidate carries the identifier it was considered under.

Two lists come out of a decision.  `candidates_filter` is the rule by which a narrowing of the
verdicts narrows the sorted candidates and leaves the order of the rest.
-/

namespace HypeLlm.Routing

open HypeLlm.Precedence HypeLlm.Sorting List

/-! ### The merged view -/

namespace MergedBindings

theorem add_rules (m : MergedBindings) (level : ℕ) (b : Binding) :
    (m.add level b).rules = m.rules ++ b.rulesAt level := by
  unfold add
  cases b.pin <;> cases m.pin <;> rfl

theorem add_preferences (m : MergedBindings) (level : ℕ) (b : Binding) :
    (m.add level b).preferences = m.preferences ++ b.preferencesAt level := by
  unfold add
  cases b.pin <;> cases m.pin <;> rfl

/-- The pin and what came with it. -/
def pinning (m : MergedBindings) : Option TargetId × List TargetId × Option ℕ :=
  (m.pin, m.pinFallback, m.pinLevel)

theorem add_pinning_of_some {m : MergedBindings} (level : ℕ) (b : Binding) (h : m.pin.isSome) :
    (m.add level b).pinning = m.pinning := by
  unfold add
  cases hp : b.pin <;> cases hm : m.pin <;> simp_all [pinning]

theorem add_pinning_of_unpinned (m : MergedBindings) (level : ℕ) {b : Binding} (h : b.pin = none) :
    (m.add level b).pinning = m.pinning := by
  unfold add
  simp only [h]
  rfl

/-- The merged view of bindings that come in the order given. -/
def ofApplicable (as : List Applicable) : MergedBindings :=
  as.foldl (fun merged a => merged.add a.level a.binding) empty

theorem foldl_add_rules (as : List Applicable) (m : MergedBindings) :
    (as.foldl (fun merged a => merged.add a.level a.binding) m).rules =
      m.rules ++ as.flatMap fun a => a.binding.rulesAt a.level := by
  induction as generalizing m with
  | nil => simp
  | cons a as ih => rw [foldl_cons, ih, add_rules, flatMap_cons, append_assoc]

theorem foldl_add_preferences (as : List Applicable) (m : MergedBindings) :
    (as.foldl (fun merged a => merged.add a.level a.binding) m).preferences =
      m.preferences ++ as.flatMap fun a => a.binding.preferencesAt a.level := by
  induction as generalizing m with
  | nil => simp
  | cons a as ih => rw [foldl_cons, ih, add_preferences, flatMap_cons, append_assoc]

theorem foldl_add_pinning_of_some (as : List Applicable) {m : MergedBindings} (h : m.pin.isSome) :
    (as.foldl (fun merged a => merged.add a.level a.binding) m).pinning = m.pinning := by
  induction as generalizing m with
  | nil => rfl
  | cons a as ih =>
    have hadd := add_pinning_of_some a.level a.binding h
    have hpin : (m.add a.level a.binding).pin = m.pin := congrArg Prod.fst hadd
    rw [foldl_cons, ih (by rw [hpin]; exact h), hadd]

@[simp] theorem ofApplicable_rules (as : List Applicable) :
    (ofApplicable as).rules = as.flatMap fun a => a.binding.rulesAt a.level := by
  rw [ofApplicable, foldl_add_rules]
  rfl

@[simp] theorem ofApplicable_preferences (as : List Applicable) :
    (ofApplicable as).preferences = as.flatMap fun a => a.binding.preferencesAt a.level := by
  rw [ofApplicable, foldl_add_preferences]
  rfl

/-- The pin of the first binding that has one, with its level and fallbacks. -/
def pinningOf : List Applicable → Option TargetId × List TargetId × Option ℕ
  | [] => (none, [], none)
  | a :: as =>
    if a.binding.pin.isSome then (a.binding.pin, a.binding.emergencyFallback, some a.level)
    else pinningOf as

theorem ofApplicable_pinning (as : List Applicable) :
    (ofApplicable as).pinning = pinningOf as := by
  -- The accumulator is general in everything but the pin, which is still missing.
  suffices h : ∀ m : MergedBindings, m.pinning = (none, [], none) →
      (as.foldl (fun merged a => merged.add a.level a.binding) m).pinning = pinningOf as from
    h empty rfl
  induction as with
  | nil => exact fun m hm => hm
  | cons a as ih =>
    intro m hm
    have hnone : m.pin = none := congrArg Prod.fst hm
    rw [foldl_cons, pinningOf]
    cases hpin : a.binding.pin with
    | none =>
      rw [if_neg (by simp)]
      exact ih _ ((add_pinning_of_unpinned m a.level hpin).trans hm)
    | some pin =>
      rw [if_pos (by simp)]
      have hadd : (m.add a.level a.binding).pinning =
          (some pin, a.binding.emergencyFallback, some a.level) := by
        simp only [add, hpin, hnone, pinning]
      have hsome : (m.add a.level a.binding).pin = some pin := congrArg Prod.fst hadd
      rw [foldl_add_pinning_of_some as (by simp [hsome]), hadd]

end MergedBindings

/-- The bindings that apply, strongest first. -/
def PolicySnapshot.strongestFirst (s : PolicySnapshot) (ctx : RoutingContext) (aliasId : AliasId) :
    List Applicable := (s.applicable ctx aliasId).insertionSort Applicable.Before

theorem PolicySnapshot.mergeBindings_eq (s : PolicySnapshot) (ctx : RoutingContext)
    (aliasId : AliasId) :
    s.mergeBindings ctx aliasId = MergedBindings.ofApplicable (s.strongestFirst ctx aliasId) := rfl

/-! ### The deny filter stands apart -/

@[simp] theorem refuseIf_true (reason : ExclusionReason) : refuseIf true reason = .error reason := rfl

@[simp] theorem refuseIf_false (reason : ExclusionReason) : refuseIf false reason = .ok () := rfl

namespace PolicySnapshot

variable {s : PolicySnapshot} {ctx : RoutingContext} {req : CanonicalRequest} {entry : Alias}
  {target : Target} {merged : MergedBindings} {live : LiveState}

/-- The merged view with its rules left out. -/
def withoutRules (merged : MergedBindings) : MergedBindings := { merged with rules := [] }

/-- **The rules are read by the deny filter alone.** -/
theorem evaluate_eq (s : PolicySnapshot) (ctx : RoutingContext) (req : CanonicalRequest)
    (entry : Alias) (target : Target) (merged : MergedBindings) (live : LiveState) :
    s.evaluate ctx req entry target merged live =
      if merged.isDenied target then .error .deniedByPolicy
      else s.evaluate ctx req entry target (withoutRules merged) live := by
  have hnone : (withoutRules merged).isDenied target = false := rfl
  cases hdenied : merged.isDenied target with
  | true =>
    simp only [if_true, evaluate, screen, securityFilters, hdenied, refuseIf_true]
    rfl
  | false =>
    simp only [Bool.false_eq_true, if_false, evaluate, screen, securityFilters, hdenied, hnone]
    rfl

/-- A verdict without rules depends on the preferences and the pinning alone. -/
theorem withoutRules_eq {m m' : MergedBindings} (hprefs : m.preferences = m'.preferences)
    (hpin : m.pinning = m'.pinning) : withoutRules m = withoutRules m' := by
  simp only [MergedBindings.pinning, Prod.mk.injEq] at hpin
  obtain ⟨hpin, hfallback, hlevel⟩ := hpin
  simp only [withoutRules, hprefs, hpin, hfallback, hlevel]

theorem reach_target {residency : ResidencyClass} {c : Candidate}
    (h : s.reach req target merged live residency = .ok c) : c.target = target.id := by
  unfold reach at h
  dsimp only at h
  cases hpref : merged.preferenceFor target with
  | some pref =>
    rw [hpref] at h
    cases h
    rfl
  | none =>
    rw [hpref] at h
    dsimp only at h
    split at h
    · cases h
      rfl
    · cases h

theorem evaluate_target {c : Candidate} (h : s.evaluate ctx req entry target merged live = .ok c) :
    c.target = target.id := by
  unfold evaluate at h
  cases hscreen : s.screen ctx req entry target merged live with
  | error reason =>
    rw [hscreen] at h
    cases h
  | ok residency =>
    rw [hscreen] at h
    exact reach_target h

/-- **A candidate carries the identifier it was considered under.** -/
theorem consider_target {targetId : TargetId} {c : Candidate}
    (h : s.consider ctx req entry merged live targetId = .ok c) : c.target = targetId := by
  unfold consider at h
  split at h
  · cases h
  · rename_i target htarget
    rw [evaluate_target h]
    exact s.targets_keyed targetId target htarget

/-! ### The two lists of a decision -/

theorem mem_candidateOf {verdict : TargetId → Except ExclusionReason Candidate} {l : List TargetId}
    {c : Candidate} : c ∈ l.filterMap (fun t => candidateOf (verdict t)) ↔
      ∃ t ∈ l, verdict t = .ok c := by
  simp only [mem_filterMap]
  constructor
  · rintro ⟨t, ht, hc⟩
    refine ⟨t, ht, ?_⟩
    cases hv : verdict t with
    | ok c' =>
      rw [hv] at hc
      rw [Option.some.inj hc]
    | error reason =>
      rw [hv] at hc
      cases hc
  · rintro ⟨t, ht, hv⟩
    exact ⟨t, ht, by rw [hv]; rfl⟩

theorem route_of_authorized (hentry : s.aliases[req.requestedModel]? = some entry)
    (hauth : s.authorizes ctx req.requestedModel req.operation = true) :
    s.route ctx req live =
      let verdict := s.consider ctx req entry (s.mergeBindings ctx req.requestedModel) live
      { candidates := (entry.permittedTargets.filterMap fun t => candidateOf (verdict t)).insertionSort
          Candidate.Before
        exclusions := (entry.permittedTargets.filterMap fun t =>
          exclusionOf t (verdict t)).insertionSort Exclusion.Before
        pinned := (s.mergeBindings ctx req.requestedModel).pin.isSome } := by
  simp only [route, hentry, hauth, if_true]

theorem route_of_unauthorized (hentry : s.aliases[req.requestedModel]? = some entry)
    (hauth : s.authorizes ctx req.requestedModel req.operation = false) :
    s.route ctx req live =
      ⟨[], entry.permittedTargets.map (⟨·, .notAuthorizedForAlias⟩), false⟩ := by
  simp only [route, hentry, hauth, Bool.false_eq_true, if_false]

theorem route_of_unknown (hentry : s.aliases[req.requestedModel]? = none) :
    s.route ctx req live = ⟨[], [], false⟩ := by
  simp only [route, hentry]

/-- **A narrowing of the verdicts narrows the sorted candidates**, and leaves the others where they
were. -/
theorem candidates_filter {verdict verdict' : TargetId → Except ExclusionReason Candidate}
    {l : List TargetId} (keep : Candidate → Bool)
    (h : ∀ t ∈ l, candidateOf (verdict' t) = (candidateOf (verdict t)).filter keep) :
    (l.filterMap fun t => candidateOf (verdict' t)).insertionSort Candidate.Before =
      ((l.filterMap fun t => candidateOf (verdict t)).insertionSort Candidate.Before).filter keep := by
  rw [filter_insertionSort, filter_filterMap]
  exact congrArg _ (filterMap_congr h)

end PolicySnapshot

/-! ### A small deployment

One local provider, two targets, one alias that lists both, and one tenant that may use it.  Concrete
statements below are about this deployment. -/

namespace Sample

def target (id : TargetId) : Target where
  id := id
  providerId := "local"
  capabilities := { Capabilities.default with
    operations := [.chat], maxContextTokens := 4096, maxOutputTokens := 1024 }
  costClass := 0
  qualityClass := 0
  documentTokenEstimate := none
  bytesPerTokenHundredths := none
  residency := none
  isLocal := true
  adminState := .enabled

def binding : Binding where
  id := "b1"
  scope := .tenant "acme"
  model := .any
  preferences := [⟨.exactly "small", 0, 10⟩, ⟨.any, 1, 0⟩]
  denies := []
  allows := []
  pin := none
  emergencyFallback := []
  priority := 0

def listing (permittedTargets : List TargetId) : Alias := ⟨"agent", none, permittedTargets, false⟩

def snapshot : PolicySnapshot :=
  { ((PolicySnapshot.empty.insertTarget (target "small")).insertTarget (target "large")).insertAlias
      (listing ["small", "large"]) with
    providers := (∅ : Std.TreeMap ProviderId Provider).insert "local" ⟨"local", .llamaCpp, none, true⟩
    bindings := [binding]
    grants := [⟨.tenant "acme", .any, [], true⟩]
    allowlistedTargets := ["small", "large"] }

/-- A caller of the tenant, without a key restriction. -/
def caller : RoutingContext := ⟨"alice", [], "acme", [], 0, none⟩

def request : CanonicalRequest where
  requestId := 0
  operation := .chat
  requestedModel := "agent"
  messages := []
  inputs := []
  tools := []
  responseFormat := none
  reasoningEffort := .unset
  limits := ⟨none, 1000, none, none, none⟩
  stream := false
  hints := ⟨none, false⟩

end Sample

end HypeLlm.Routing
