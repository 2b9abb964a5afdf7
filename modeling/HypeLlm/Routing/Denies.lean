import HypeLlm.Routing.Verdicts

/-!
# Denies are monotone and sticky

A deny takes candidates away and does nothing else, and a deny at the best level stands against
everything that is weaker.

* **`denies_are_monotone_and_sticky`** — adding a binding that only denies, or one more deny to an
  existing binding, leaves a sublist of the candidates, so the others keep their order and scores;
  and a target denied by the rules of the best level that match it stays out whatever is done to
  bindings of lower precedence.

Both rest on the merged view.  `Grown` says what an added deny does to it: more denying rules, the
same preferences, the same pin.
-/

namespace HypeLlm.Routing

open HypeLlm.Precedence HypeLlm.Sorting HypeLlm.Lists List

/-- A binding that carries denies and nothing that selects or allows. -/
structure Binding.DeniesOnly (b : Binding) : Prop where
  preferences : b.preferences = []
  allows : b.allows = []
  pin : b.pin = none

/-- One more deny: in a binding of its own, or in an existing one. -/
inductive AddsDeny : List Binding → List Binding → Prop
  | binding (before after : List Binding) (b : Binding) (h : b.DeniesOnly) :
    AddsDeny (before ++ after) (before ++ b :: after)
  | selector (before after : List Binding) (b : Binding) (early late : List TargetSelector)
    (deny : TargetSelector) (h : b.denies = early ++ late) :
    AddsDeny (before ++ b :: after)
      (before ++ { b with denies := early ++ deny :: late } :: after)

/-- The snapshot with other bindings. -/
def PolicySnapshot.rebound (s : PolicySnapshot) (bindings : List Binding) : PolicySnapshot :=
  { s with bindings := bindings }

/-! ### What an added deny does to the merged view -/

/-- More denying rules; the rest as it was. -/
structure MergedBindings.Grown (m m' : MergedBindings) : Prop where
  rules : ∃ added, m'.rules.Perm (m.rules ++ added) ∧ ∀ rule ∈ added, rule.deny = true
  preferences : m'.preferences = m.preferences
  pinning : m'.pinning = m.pinning

namespace MergedBindings

theorem Grown.isDenied {m m' : MergedBindings} (h : m.Grown m') {target : Target}
    (hdenied : m.isDenied target = true) : m'.isDenied target = true := by
  obtain ⟨added, hperm, hdeny⟩ := h.rules
  have hrules := (hperm.filter fun rule => rule.selector.admits target).map fun rule =>
    (toLex (rule.level, OrderDual.toDual rule.selector.specificity), rule.deny)
  rw [filter_append, map_append] at hrules
  refine resolve_true_mono hrules ?_ hdenied
  intro rule hrule
  obtain ⟨r, hr, rfl⟩ := mem_map.1 hrule
  exact hdeny r (mem_filter.1 hr).1

/-- Bindings marked `false` only deny: leaving them out is undone by growing. -/
theorem grown_of_marked (marked : List (Applicable × Bool))
    (h : ∀ a ∈ marked, a.2 = false → a.1.binding.DeniesOnly) :
    (ofApplicable ((marked.filter (·.2)).map (·.1))).Grown (ofApplicable (marked.map (·.1))) := by
  refine ⟨?_, ?_, ?_⟩
  · rw [ofApplicable_rules, ofApplicable_rules]
    induction marked with
    | nil => exact ⟨[], .refl _, by simp⟩
    | cons a marked ih =>
      obtain ⟨added, hperm, hdeny⟩ := ih fun a' ha' => h a' (mem_cons_of_mem a ha')
      cases hmark : a.2 with
      | true =>
        refine ⟨added, ?_, hdeny⟩
        rw [filter_cons_of_pos hmark, map_cons, map_cons, flatMap_cons, flatMap_cons, append_assoc]
        exact hperm.append_left _
      | false =>
        have honly := h a mem_cons_self hmark
        refine ⟨added ++ a.1.binding.rulesAt a.1.level, ?_, ?_⟩
        · rw [filter_cons_of_neg (by simp [hmark]), map_cons, flatMap_cons, ← append_assoc]
          exact perm_append_comm.trans (hperm.append_right _)
        · intro rule hrule
          rcases mem_append.1 hrule with hrule | hrule
          · exact hdeny rule hrule
          · rw [Binding.rulesAt, honly.allows, map_nil, append_nil] at hrule
            obtain ⟨selector, -, rfl⟩ := mem_map.1 hrule
            rfl
  · rw [ofApplicable_preferences, ofApplicable_preferences]
    induction marked with
    | nil => rfl
    | cons a marked ih =>
      have htail := ih fun a' ha' => h a' (mem_cons_of_mem a ha')
      cases hmark : a.2 with
      | true => rw [filter_cons_of_pos hmark, map_cons, map_cons, flatMap_cons, flatMap_cons, htail]
      | false =>
        have honly := h a mem_cons_self hmark
        rw [filter_cons_of_neg (by simp [hmark]), map_cons, flatMap_cons, htail,
          Binding.preferencesAt, honly.preferences]
        rfl
  · rw [ofApplicable_pinning, ofApplicable_pinning]
    induction marked with
    | nil => rfl
    | cons a marked ih =>
      have htail := ih fun a' ha' => h a' (mem_cons_of_mem a ha')
      cases hmark : a.2 with
      | true => rw [filter_cons_of_pos hmark, map_cons, map_cons, pinningOf, pinningOf, htail]
      | false =>
        have honly := h a mem_cons_self hmark
        rw [filter_cons_of_neg (by simp [hmark]), map_cons, pinningOf, honly.pin, htail]
        rfl

end MergedBindings

/-- The second binding has more denies, and is the first otherwise. -/
structure Applicable.MoreDenies (a a' : Applicable) : Prop where
  level : a'.level = a.level
  id : a'.binding.id = a.binding.id
  priority : a'.binding.priority = a.binding.priority
  denies : ∃ more, a'.binding.denies.Perm (a.binding.denies ++ more)
  allows : a'.binding.allows = a.binding.allows
  preferences : a'.binding.preferences = a.binding.preferences
  pin : a'.binding.pin = a.binding.pin
  emergencyFallback : a'.binding.emergencyFallback = a.binding.emergencyFallback

theorem Applicable.MoreDenies.refl (a : Applicable) : a.MoreDenies a :=
  ⟨rfl, rfl, rfl, ⟨[], by simp⟩, rfl, rfl, rfl, rfl⟩

namespace MergedBindings

theorem grown_of_moreDenies {as as' : List Applicable}
    (h : Forall₂ Applicable.MoreDenies as as') : (ofApplicable as).Grown (ofApplicable as') := by
  refine ⟨?_, ?_, ?_⟩
  · rw [ofApplicable_rules, ofApplicable_rules]
    induction h with
    | nil => exact ⟨[], .refl _, by simp⟩
    | @cons a a' as as' hab _ ih =>
      obtain ⟨added, hperm, hdeny⟩ := ih
      obtain ⟨more, hmore⟩ := hab.denies
      let moreRules := more.map fun selector => (⟨a.level, selector, true⟩ : MergedRule)
      have hhead : (a'.binding.rulesAt a'.level).Perm (a.binding.rulesAt a.level ++ moreRules) := by
        rw [Binding.rulesAt, Binding.rulesAt, hab.level, hab.allows]
        refine ((hmore.map _).append_right _).trans ?_
        rw [map_append, append_assoc, append_assoc]
        exact perm_append_comm.append_left _
      refine ⟨moreRules ++ added, ?_, ?_⟩
      · rw [flatMap_cons, flatMap_cons]
        refine (hhead.append hperm).trans ?_
        rw [append_assoc, append_assoc]
        refine Perm.append_left _ ?_
        rw [← append_assoc, ← append_assoc]
        exact perm_append_comm.append_right _
      · intro rule hrule
        rcases mem_append.1 hrule with hrule | hrule
        · obtain ⟨selector, -, rfl⟩ := mem_map.1 hrule
          rfl
        · exact hdeny rule hrule
  · rw [ofApplicable_preferences, ofApplicable_preferences]
    induction h with
    | nil => rfl
    | cons hab _ ih =>
      rw [flatMap_cons, flatMap_cons, ih, Binding.preferencesAt, Binding.preferencesAt, hab.level,
        hab.preferences, hab.priority, hab.id]
  · rw [ofApplicable_pinning, ofApplicable_pinning]
    induction h with
    | nil => rfl
    | cons hab _ ih =>
      rw [pinningOf, pinningOf, ih, hab.level, hab.pin, hab.emergencyFallback]

end MergedBindings

namespace PolicySnapshot

variable (s : PolicySnapshot) (ctx : RoutingContext)

/-- The applicable entry of one binding, if it applies. -/
def appliesAs (aliasId : AliasId) (b : Binding) : Option Applicable :=
  if s.inherits ctx b.scope then (b.precedence ctx aliasId).map fun level => ⟨level, b⟩ else none

theorem appliesAs_binding {aliasId : AliasId} {b : Binding} {a : Applicable}
    (h : s.appliesAs ctx aliasId b = some a) : a.binding = b := by
  simp only [appliesAs] at h
  split at h
  · obtain ⟨level, -, rfl⟩ := Option.map_eq_some_iff.1 h
    rfl
  · cases h

theorem applicable_rebound (bindings : List Binding) (aliasId : AliasId) :
    (s.rebound bindings).applicable ctx aliasId = bindings.filterMap (s.appliesAs ctx aliasId) := by
  unfold applicable
  rw [filterMap_filter]
  rfl

/-- Sorting with the marked bindings and then leaving them out is sorting without them. -/
theorem sort_marked (marked : List (Applicable × Bool)) :
    let sorted := marked.insertionSort fun a b => Applicable.Before a.1 b.1
    (marked.map (·.1)).insertionSort Applicable.Before = sorted.map (·.1) ∧
      ((marked.filter (·.2)).map (·.1)).insertionSort Applicable.Before =
        (sorted.filter (·.2)).map (·.1) := by
  let before := fun a b : Applicable × Bool => Applicable.Before a.1 b.1
  have : IsTrans (Applicable × Bool) before := 
    ⟨fun a b c hab hbc => IsTrans.trans (r := Applicable.Before) a.1 b.1 c.1 hab hbc⟩
  have : Std.Total before := ⟨fun a b => Std.Total.total (r := Applicable.Before) a.1 b.1⟩
  intro sorted
  refine ⟨?_, ?_⟩
  · exact (map_insertionSort before Applicable.Before _ _ fun _ _ _ _ => Iff.rfl).symm
  · have hfilter : sorted.filter (·.2) = (marked.filter (·.2)).insertionSort before :=
      filter_insertionSort before (·.2) marked
    rw [hfilter]
    exact (map_insertionSort before Applicable.Before _ _ fun _ _ _ _ => Iff.rfl).symm

/-- **An added deny grows the merged view.** -/
theorem mergeBindings_grown {bindings bindings' : List Binding} (h : AddsDeny bindings bindings')
    (aliasId : AliasId) :
    ((s.rebound bindings).mergeBindings ctx aliasId).Grown
      ((s.rebound bindings').mergeBindings ctx aliasId) := by
  rw [mergeBindings_eq, mergeBindings_eq, strongestFirst, strongestFirst, applicable_rebound,
    applicable_rebound]
  cases h with
  | binding before after b honly =>
    let keep := fun b : Binding => (s.appliesAs ctx aliasId b).map fun a => (a, true)
    let marked := before.filterMap keep ++
      ((s.appliesAs ctx aliasId b).map fun a => (a, false)).toList ++ after.filterMap keep
    have hkeep : ∀ l : List Binding,
        ((l.filterMap keep).map (·.1) = l.filterMap (s.appliesAs ctx aliasId)) ∧
          (l.filterMap keep).filter (·.2) = l.filterMap keep := by
      intro l
      constructor
      · rw [map_filterMap]
        refine filterMap_congr fun b _ => ?_
        simp only [keep, Option.map_map]
        cases s.appliesAs ctx aliasId b <;> rfl
      · refine filter_eq_self.2 fun a ha => ?_
        obtain ⟨b, -, hb⟩ := mem_filterMap.1 ha
        obtain ⟨a', -, rfl⟩ := Option.map_eq_some_iff.1 hb
        rfl
    have hwith : (before ++ b :: after).filterMap (s.appliesAs ctx aliasId) =
        marked.map (·.1) := by
      simp only [marked, map_append, (hkeep _).1, filterMap_append, filterMap_cons]
      cases s.appliesAs ctx aliasId b <;> simp
    have hwithout : (before ++ after).filterMap (s.appliesAs ctx aliasId) =
        (marked.filter (·.2)).map (·.1) := by
      simp only [marked, filter_append, (hkeep _).2, map_append, (hkeep _).1, filterMap_append]
      cases s.appliesAs ctx aliasId b <;> simp
    obtain ⟨hsort, hsortKept⟩ := sort_marked marked
    rw [hwith, hwithout, hsort, hsortKept]
    refine MergedBindings.grown_of_marked _ fun a ha hmark => ?_
    -- The one marked binding is the one that was added.
    have hmem : a ∈ marked := (mem_insertionSort _).1 ha
    simp only [marked, mem_append, Option.mem_toList] at hmem
    rcases hmem with (hmem | hmem) | hmem
    · rw [← (hkeep before).2] at hmem
      simp [hmark] at hmem
    · obtain ⟨a', ha', rfl⟩ := Option.map_eq_some_iff.1 hmem
      rw [appliesAs_binding s ctx ha']
      exact honly
    · rw [← (hkeep after).2] at hmem
      simp [hmark] at hmem
  | selector before after b early late deny hdenies =>
    refine MergedBindings.grown_of_moreDenies (forall₂_insertionSort ?_ ?_)
    · intro a a' b b' ha hb
      have hkey : ∀ x y : Applicable, x.MoreDenies y → y.key = x.key := fun x y hxy => by
        rw [Applicable.key, Applicable.key, hxy.level, hxy.priority, hxy.id]
      rw [Applicable.Before, Applicable.Before, hkey _ _ ha, hkey _ _ hb]
    · have hsame : ∀ l : List Binding, Forall₂ Applicable.MoreDenies
          (l.filterMap (s.appliesAs ctx aliasId)) (l.filterMap (s.appliesAs ctx aliasId)) :=
        fun l => forall₂_same.2 fun a _ => .refl a
      rw [filterMap_append, filterMap_append]
      refine rel_append (hsame before) ?_
      have hentry : s.appliesAs ctx aliasId { b with denies := early ++ deny :: late } =
          (s.appliesAs ctx aliasId b).map fun a =>
            { a with binding := { b with denies := early ++ deny :: late } } := by
        simp only [appliesAs]
        split
        · rw [Option.map_map]
          rfl
        · rfl
      rw [filterMap_cons, filterMap_cons, hentry]
      cases happlies : s.appliesAs ctx aliasId b with
      | none => exact hsame after
      | some a =>
        have hbinding : a.binding = b := appliesAs_binding s ctx happlies
        refine .cons ⟨rfl, ?_, ?_, ⟨[deny], ?_⟩, ?_, ?_, ?_, ?_⟩ (hsame after)
        case refine_3 =>
          rw [hbinding, hdenies, append_assoc]
          exact (perm_middle.trans (perm_append_singleton _ _).symm).trans (by rw [append_assoc])
        all_goals rw [hbinding]

/-! ### Monotone -/

/-- The verdict under a grown view is the old one, or a deny. -/
theorem candidateOf_consider_grown {m m' : MergedBindings} (h : m.Grown m') (req : CanonicalRequest)
    (entry : Alias) (live : LiveState) (targetId : TargetId) :
    candidateOf (s.consider ctx req entry m' live targetId) =
      (candidateOf (s.consider ctx req entry m live targetId)).filter fun c =>
        s.targets[c.target]?.all fun target => !m'.isDenied target := by
  unfold consider
  cases htarget : s.targets[targetId]? with
  | none => rfl
  | some target =>
    have hrest : withoutRules m' = withoutRules m := withoutRules_eq h.preferences h.pinning
    have hid : s.targets[target.id]? = some target := by rw [s.targets_keyed _ _ htarget, htarget]
    simp only [s.evaluate_eq ctx req entry target m live, s.evaluate_eq ctx req entry target m' live,
      hrest]
    cases hdenied : m.isDenied target with
    | true =>
      rw [h.isDenied hdenied]
      rfl
    | false =>
      simp only [Bool.false_eq_true, if_false]
      cases hverdict : s.evaluate ctx req entry target (withoutRules m) live with
      | error reason => cases m'.isDenied target <;> rfl
      | ok c =>
        have hc : s.targets[c.target]? = some target := by rw [evaluate_target hverdict, hid]
        cases hdenied' : m'.isDenied target <;> simp [candidateOf, hc, hdenied', Option.filter]

theorem candidates_sublist {verdict verdict' : TargetId → Except ExclusionReason Candidate}
    {l : List TargetId} {keep : Candidate → Bool}
    (h : ∀ t ∈ l, candidateOf (verdict' t) = (candidateOf (verdict t)).filter keep) :
    ((l.filterMap fun t => candidateOf (verdict' t)).insertionSort Candidate.Before).Sublist
      ((l.filterMap fun t => candidateOf (verdict t)).insertionSort Candidate.Before) := by
  rw [candidates_filter keep h]
  exact filter_sublist

/-- An added deny leaves a sublist of the candidates. -/
theorem candidates_sublist_of_addsDeny {bindings bindings' : List Binding}
    (h : AddsDeny bindings bindings') (req : CanonicalRequest) (live : LiveState) :
    ((s.rebound bindings').route ctx req live).candidates.Sublist
      ((s.rebound bindings).route ctx req live).candidates := by
  cases hentry : s.aliases[req.requestedModel]? with
  | none =>
    rw [route_of_unknown (s := s.rebound bindings) hentry,
      route_of_unknown (s := s.rebound bindings') hentry]
  | some entry =>
    -- Neither the grants nor the filters read the bindings.
    cases hauth : s.authorizes ctx req.requestedModel req.operation with
    | false =>
      rw [route_of_unauthorized (s := s.rebound bindings) hentry hauth,
        route_of_unauthorized (s := s.rebound bindings') hentry hauth]
    | true =>
      rw [route_of_authorized (s := s.rebound bindings) hentry hauth,
        route_of_authorized (s := s.rebound bindings') hentry hauth]
      have hgrown := s.mergeBindings_grown ctx h req.requestedModel
      exact candidates_sublist fun t _ => s.candidateOf_consider_grown ctx hgrown req entry live t

/-! ### Sticky -/

end PolicySnapshot

namespace MergedBindings

/-- What the rules that match `target` come to: the best level and specificity, and whether the
rules there deny. -/
def resolution (m : MergedBindings) (target : Target) : Option ((ℕ ×ₗ ℕᵒᵈ) × Bool) :=
  resolve or (m.rulesFor target)

/-- The rules up to a level. -/
def upTo (m : MergedBindings) (level : ℕ) : List MergedRule :=
  m.rules.filter fun rule => rule.level ≤ level

theorem resolution_of_upTo {m m' : MergedBindings} {target : Target} {level : ℕ}
    {specificity : ℕᵒᵈ} {verdict : Bool} (h : (m'.upTo level).Perm (m.upTo level))
    (hm : m.resolution target = some (toLex (level, specificity), verdict)) :
    m'.resolution target = some (toLex (level, specificity), verdict) := by
  let entries := fun rules : List MergedRule =>
    (rules.filter fun rule => rule.selector.admits target).map fun rule =>
      (toLex (rule.level, OrderDual.toDual rule.selector.specificity), rule.deny)
  let weak := fun m : MergedBindings => m.rules.filter fun rule => !decide (rule.level ≤ level)
  have hsplit : ∀ m : MergedBindings,
      (entries (m.upTo level) ++ entries (weak m)).Perm (m.rulesFor target) := by
    intro m
    have hperm : (m.upTo level ++ weak m).Perm m.rules := filter_append_perm _ _
    have hentries := (hperm.filter fun rule => rule.selector.admits target).map fun rule =>
      (toLex (rule.level, OrderDual.toDual rule.selector.specificity), rule.deny)
    rwa [filter_append, map_append] at hentries
  have hweak : ∀ m : MergedBindings, ∀ rule ∈ entries (weak m),
      toLex (level, specificity) < rule.1 := by
    intro m rule hrule
    obtain ⟨r, hr, rfl⟩ := mem_map.1 hrule
    have hlevel : level < r.level := by
      simpa [weak] using (mem_filter.1 (mem_filter.1 hr).1).2
    exact Prod.Lex.toLex_lt_toLex.2 (.inl hlevel)
  have hstrong : resolve or (entries (m.upTo level)) = some (toLex (level, specificity), verdict) := by
    refine resolve_of_append_of_lt ?_ (hweak m)
    rw [resolve_perm or (hsplit m)]
    exact hm
  have hsame : (entries (m'.upTo level)).Perm (entries (m.upTo level)) := (h.filter _).map _
  rw [← resolve_perm or hsame] at hstrong
  rw [resolution, ← resolve_perm or (hsplit m')]
  exact resolve_append_of_lt hstrong (hweak m')

/-- The rules up to a level come from the bindings up to it. -/
theorem upTo_ofApplicable (as : List Applicable) (level : ℕ) :
    (ofApplicable as).upTo level =
      (as.filter fun a => a.level ≤ level).flatMap fun a => a.binding.rulesAt a.level := by
  rw [upTo, ofApplicable_rules]
  induction as with
  | nil => rfl
  | cons a as ih =>
    have hrules : ∀ rule ∈ a.binding.rulesAt a.level, rule.level = a.level := by
      intro rule hrule
      rcases mem_append.1 hrule with hrule | hrule
      · obtain ⟨selector, -, rfl⟩ := mem_map.1 hrule
        rfl
      · obtain ⟨selector, -, rfl⟩ := mem_map.1 hrule
        rfl
    rw [flatMap_cons, filter_append, ih]
    by_cases hlevel : a.level ≤ level
    · rw [filter_cons_of_pos (by simpa using hlevel), flatMap_cons,
        filter_eq_self.2 fun rule hrule => by simpa [hrules rule hrule] using hlevel]
    · rw [filter_cons_of_neg (by simpa using hlevel),
        filter_eq_nil_iff.2 fun rule hrule => by simpa [hrules rule hrule] using hlevel, nil_append]

end MergedBindings

namespace PolicySnapshot

variable (s : PolicySnapshot) (ctx : RoutingContext)

theorem mergeBindings_upTo (bindings : List Binding) {bindings' : List Binding} {aliasId : AliasId} {level : ℕ}
    (h : (((s.rebound bindings').applicable ctx aliasId).filter fun a => a.level ≤ level).Perm
      (((s.rebound bindings).applicable ctx aliasId).filter fun a => a.level ≤ level)) :
    (((s.rebound bindings').mergeBindings ctx aliasId).upTo level).Perm
      (((s.rebound bindings).mergeBindings ctx aliasId).upTo level) := by
  have hsorted : ∀ l : List Applicable,
      ((l.insertionSort Applicable.Before).filter fun a => a.level ≤ level).Perm
        (l.filter fun a => a.level ≤ level) := fun l => (perm_insertionSort _ l).filter _
  rw [mergeBindings_eq, mergeBindings_eq, MergedBindings.upTo_ofApplicable,
    MergedBindings.upTo_ofApplicable]
  exact (((hsorted _).trans h).trans (hsorted _).symm).flatMap_right _

/-- A denied target is no candidate. -/
theorem target_ne_of_isDenied {target : Target} (htarget : s.targets[target.id]? = some target)
    {req : CanonicalRequest} {live : LiveState}
    (hdenied : (s.mergeBindings ctx req.requestedModel).isDenied target = true) :
    ∀ c ∈ (s.route ctx req live).candidates, c.target ≠ target.id := by
  intro c hc hct
  cases hentry : s.aliases[req.requestedModel]? with
  | none =>
    rw [route_of_unknown hentry] at hc
    cases hc
  | some entry =>
    cases hauth : s.authorizes ctx req.requestedModel req.operation with
    | false =>
      rw [route_of_unauthorized hentry hauth] at hc
      cases hc
    | true =>
      rw [route_of_authorized hentry hauth] at hc
      obtain ⟨targetId, -, hverdict⟩ := mem_candidateOf.1 ((mem_insertionSort _).1 hc)
      have hid : targetId = target.id := by rw [← consider_target hverdict, hct]
      simp only [consider, hid, htarget] at hverdict
      rw [evaluate_eq, if_pos hdenied] at hverdict
      cases hverdict

/-- **Denies are monotone and sticky.**  An added deny leaves a sublist of the candidates, records
and all.  A target whose rules at the best level deny it is no candidate, whatever the bindings
below that level become. -/
theorem denies_are_monotone_and_sticky (s : PolicySnapshot) (ctx : RoutingContext)
    (req : CanonicalRequest) (live : LiveState) :
    (∀ bindings', AddsDeny s.bindings bindings' →
        ((s.rebound bindings').route ctx req live).candidates.Sublist
          (s.route ctx req live).candidates) ∧
      ∀ (target : Target) (level : ℕ) (specificity : ℕᵒᵈ) (bindings' : List Binding),
        s.targets[target.id]? = some target →
        (s.mergeBindings ctx req.requestedModel).resolution target =
          some (toLex (level, specificity), true) →
        (((s.rebound bindings').applicable ctx req.requestedModel).filter fun a =>
          a.level ≤ level).Perm
            ((s.applicable ctx req.requestedModel).filter fun a => a.level ≤ level) →
        ∀ c ∈ ((s.rebound bindings').route ctx req live).candidates, c.target ≠ target.id := by
  constructor
  · intro bindings' h
    exact s.candidates_sublist_of_addsDeny ctx h req live
  · intro target level specificity bindings' htarget hresolution hperm
    refine (s.rebound bindings').target_ne_of_isDenied ctx htarget ?_
    have hkept := MergedBindings.resolution_of_upTo
      (s.mergeBindings_upTo ctx s.bindings hperm) hresolution
    rw [MergedBindings.isDenied, decides]
    rw [MergedBindings.resolution] at hkept
    rw [hkept]
    rfl

end PolicySnapshot

namespace Sample

/-- The sample's binding for its one alias, with a deny of the small target. -/
def denySmall : Binding := { binding with model := .exactly "agent", denies := [.exactly "small"] }

/-- A weaker binding that allows and pins the small target. -/
def pinSmall : Binding := { binding with id := "b2", allows := [.any], pin := some "small" }

end Sample

/-- In the sample, one more deny takes the small target out, and a weaker binding that allows and
pins it does not bring it back. -/
theorem denied_small_stays_out :
    ((Sample.snapshot.rebound [Sample.binding, Sample.denySmall]).route Sample.caller Sample.request
        LiveState.ideal).candidates.Sublist
        ((Sample.snapshot.rebound [Sample.binding, { Sample.denySmall with denies := [] }]).route
          Sample.caller Sample.request LiveState.ideal).candidates ∧
      ∀ c ∈ ((Sample.snapshot.rebound [Sample.pinSmall, Sample.denySmall]).route Sample.caller
        Sample.request LiveState.ideal).candidates, c.target ≠ "small" := by
  constructor
  · exact (PolicySnapshot.denies_are_monotone_and_sticky
      (Sample.snapshot.rebound [Sample.binding, { Sample.denySmall with denies := [] }])
      Sample.caller Sample.request LiveState.ideal).1 _
      (.selector [Sample.binding] [] _ [] [] (.exactly "small") rfl)
  · exact (PolicySnapshot.denies_are_monotone_and_sticky
      (Sample.snapshot.rebound [Sample.binding, Sample.denySmall]) Sample.caller Sample.request
      LiveState.ideal).2 (Sample.target "small") 5 (OrderDual.toDual 3)
      [Sample.pinSmall, Sample.denySmall] (by decide) (by decide) (by decide)

end HypeLlm.Routing
