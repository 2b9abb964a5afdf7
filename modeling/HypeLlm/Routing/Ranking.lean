import HypeLlm.Lib.Results
import HypeLlm.Routing.Verdicts

/-!
# What orders the candidates

A candidate's score is a sum of terms that are clamped first, so one step of the preference rank
outweighs all the others together, whatever the weights and the live state say.  A pin stands before
the score.  The affinity term is shared by the warmth of the target, a conversation's last target and a
hint of the client.

* `ScoreTerms.total_clamped` — the sum of clamped terms is the plain sum;
* `PolicySnapshot.Judged` — what is known of a candidate, whatever filters it passed;
* **`pins_and_ranks_order`** — the pin first, then the ranks;
* **`warmer_first_iff`** — when the warmer of two targets is first.
-/

namespace HypeLlm.Routing

open HypeLlm.Words HypeLlm.Results List

/-! ### Sums of clamped terms -/

/-- A sum that stays far from both ends of the word is the plain sum. -/
theorem foldl_satAddInt (bound : ℤ) {terms : List ℤ} {start : ℤ} (hterms : ∀ t ∈ terms, -bound ≤ t ∧ t ≤ bound)
    (hlow : -i64Max - 1 ≤ start - bound * terms.length) (hhigh : start + bound * terms.length ≤ i64Max) :
    terms.foldl satAddInt start = start + terms.sum := by
  induction terms generalizing start with
  | nil => simp
  | cons t terms ih =>
    obtain ⟨htLow, htHigh⟩ := hterms t mem_cons_self
    have hpos : 0 ≤ bound * (terms.length : ℤ) := mul_nonneg (by omega) (Int.natCast_nonneg _)
    have hlength : bound * ((t :: terms).length : ℤ) = bound * terms.length + bound := by
      rw [length_cons]
      push_cast
      ring
    have hstep : satAddInt start t = start + t := by
      rw [satAddInt, min_eq_left (by omega), max_eq_right (by omega)]
    rw [foldl_cons, hstep, ih (fun t ht => hterms t (mem_cons_of_mem _ ht)) (by omega) (by omega), sum_cons]
    ring

namespace ScoreTerms

theorem clamp_mem {lo hi : ℤ} (h : lo ≤ hi) (v : ℤ) : lo ≤ clamp v lo hi ∧ clamp v lo hi ≤ hi := by
  simp only [clamp]
  omega

theorem clamp_eq {v lo hi : ℤ} (hlo : lo ≤ v) (hhi : v ≤ hi) : clamp v lo hi = v := by
  simp only [clamp]
  omega

/-- Everything but the rank. -/
def rest (t : ScoreTerms) : ℤ :=
  t.policyWeight + t.health + t.latency + t.queue + t.cost + t.locality + t.affinity + t.jitter

/-- The terms are in their documented ranges. -/
structure InRange (t : ScoreTerms) : Prop where
  priorityRank : 0 ≤ t.priorityRank ∧ t.priorityRank ≤ maxRank * rankUnit
  policyWeight : -100000 ≤ t.policyWeight ∧ t.policyWeight ≤ 100000
  health : -50000 ≤ t.health ∧ t.health ≤ 0
  latency : -50000 ≤ t.latency ∧ t.latency ≤ 0
  queue : -50000 ≤ t.queue ∧ t.queue ≤ 0
  cost : -50000 ≤ t.cost ∧ t.cost ≤ 0
  locality : 0 ≤ t.locality ∧ t.locality ≤ 50000
  affinity : 0 ≤ t.affinity ∧ t.affinity ≤ 50000
  jitter : 0 ≤ t.jitter ∧ t.jitter ≤ 999

theorem inRange_clamped (t : ScoreTerms) : t.clamped.InRange where
  priorityRank := clamp_mem (by decide) _
  policyWeight := clamp_mem (by decide) _
  health := clamp_mem (by decide) _
  latency := clamp_mem (by decide) _
  queue := clamp_mem (by decide) _
  cost := clamp_mem (by decide) _
  locality := clamp_mem (by decide) _
  affinity := clamp_mem (by decide) _
  jitter := clamp_mem (by decide) _

/-- **The sum of terms in their ranges stops nowhere.** -/
theorem InRange.total {t : ScoreTerms} (h : t.InRange) : t.total = t.priorityRank + t.rest := by
  obtain ⟨hrank, hweight, hhealth, hlatency, hqueue, hcost, hlocality, haffinity, hjitter⟩ := h
  have hbound : maxRank * rankUnit = 64000000 := by decide
  have hword : i64Max = 9223372036854775807 := by decide
  rw [ScoreTerms.total, foldl_satAddInt 100000, rest]
  · simp only [sum_cons, sum_nil]
    ring
  · intro x hx
    simp only [mem_cons, not_mem_nil, or_false] at hx
    rcases hx with rfl | rfl | rfl | rfl | rfl | rfl | rfl | rfl <;> omega
  · simp only [length_cons, length_nil]
    omega
  · simp only [length_cons, length_nil]
    omega

/-- All terms but the rank together are worth less than a step of the rank. -/
theorem InRange.rest_lt {t t' : ScoreTerms} (h : t.InRange) (h' : t'.InRange) : t'.rest < t.rest + rankUnit := by
  obtain ⟨-, hweight, hhealth, hlatency, hqueue, hcost, hlocality, haffinity, hjitter⟩ := h
  obtain ⟨-, hweight', hhealth', hlatency', hqueue', hcost', hlocality', haffinity', hjitter'⟩ := h'
  have hunit : rankUnit = 1000000 := rfl
  simp only [rest]
  omega

/-- A strictly better rank is worth a step at least. -/
theorem rankTerm_step {rank rank' : ℕ} (hlt : rank < rank') (hle : rank' ≤ 64) :
    rankTerm rank' + rankUnit ≤ rankTerm rank := by
  simp only [rankTerm, maxRank, rankUnit]
  omega

theorem rankTerm_mem (rank : ℕ) : 0 ≤ rankTerm rank ∧ rankTerm rank ≤ maxRank * rankUnit := by
  simp only [rankTerm, maxRank, rankUnit]
  omega

end ScoreTerms

/-! ### Candidates -/

theorem refuseIf_ok {refused : Bool} {reason : ExclusionReason} {u : Unit} (h : refuseIf refused reason = .ok u) :
    refused = false := by
  cases refused with
  | true => cases h
  | false => rfl

namespace PolicySnapshot

variable {s : PolicySnapshot} {ctx : RoutingContext} {req : CanonicalRequest} {entry : Alias} {target : Target}
  {merged : MergedBindings} {live : LiveState} {c : Candidate}

theorem securityFilters_pin (h : s.securityFilters ctx req entry target merged = .ok ()) :
    (merged.pin.any fun pin => pin != target.id && !merged.pinFallback.contains target.id) = false := by
  obtain ⟨_, -, h⟩ := bind_eq_ok h
  obtain ⟨_, -, h⟩ := bind_eq_ok h
  obtain ⟨_, -, h⟩ := bind_eq_ok h
  obtain ⟨_, hpin, -⟩ := bind_eq_ok h
  exact refuseIf_ok hpin

theorem residencyFilter_ok {residency : ResidencyClass} (h : s.residencyFilter ctx req target live = .ok residency) :
    residency = live.residencyClass target.id := by
  unfold residencyFilter at h
  cases hexclusion : (live.residencyClass target.id).exclusion with
  | some reason =>
    simp only [hexclusion] at h
    cases h
  | none =>
    simp only [hexclusion] at h
    obtain ⟨_, -, h⟩ := bind_eq_ok h
    obtain ⟨_, -, h⟩ := bind_eq_ok h
    exact (Except.ok.inj h).symm

/-- What is known of a candidate, whatever filters it passed. -/
structure Judged (s : PolicySnapshot) (req : CanonicalRequest) (merged : MergedBindings) (live : LiveState)
    (target : Target) (c : Candidate) : Prop where
  /-- It is the pinned target or one of its fallbacks. -/
  pinned : ∀ pin, merged.pin = some pin → target.id = pin ∨ target.id ∈ merged.pinFallback
  /-- It was scored with its winning preference, or without one for the sake of the pin. -/
  scored : ∃ level rank weight, c = s.score req target level rank weight
      (if merged.pin.any (· != target.id) then Candidate.pinFallback else Candidate.pinTarget)
      (live.residencyClass target.id) live ∧
    match merged.preferenceFor target with
    | some pref => level = pref.level ∧ rank = pref.rank ∧ weight = pref.weight
    | none => rank = 0 ∧ weight = 0 ∧ (merged.pin = some target.id ∨ target.id ∈ merged.pinFallback)

theorem evaluate_judged (h : s.evaluate ctx req entry target merged live = .ok c) :
    s.Judged req merged live target c := by
  obtain ⟨residency, hscreen, hreach⟩ := bind_eq_ok h
  obtain ⟨_, hsecurity, hrest⟩ := bind_eq_ok hscreen
  obtain ⟨_, -, hrest⟩ := bind_eq_ok hrest
  obtain ⟨_, -, hrest⟩ := bind_eq_ok hrest
  obtain ⟨_, -, hrest⟩ := bind_eq_ok hrest
  obtain rfl := residencyFilter_ok hrest
  refine ⟨fun pin hpin => ?_, ?_⟩
  · have hfilter := securityFilters_pin hsecurity
    rw [hpin, Option.any_some] at hfilter
    by_cases hsame : pin = target.id
    · exact .inl hsame.symm
    · right
      simpa [hsame] using hfilter
  · simp only [reach] at hreach
    cases hpref : merged.preferenceFor target with
    | some pref =>
      rw [hpref] at hreach
      exact ⟨_, _, _, (Except.ok.inj hreach).symm, rfl, rfl, rfl⟩
    | none =>
      rw [hpref] at hreach
      dsimp only at hreach
      split at hreach
      · rename_i hpin
        refine ⟨_, _, _, (Except.ok.inj hreach).symm, rfl, rfl, ?_⟩
        simpa using hpin
      · cases hreach

/-- **Every candidate of a decision is judged**, in the alias's merged view. -/
theorem route_judged (h : c ∈ (s.route ctx req live).candidates) :
    ∃ target, s.targets[c.target]? = some target ∧ target.id = c.target ∧
      s.Judged req (s.mergeBindings ctx req.requestedModel) live target c := by
  cases hentry : s.aliases[req.requestedModel]? with
  | none =>
    rw [route_of_unknown hentry] at h
    exact absurd h not_mem_nil
  | some entry =>
    cases hauth : s.authorizes ctx req.requestedModel req.operation with
    | false =>
      rw [route_of_unauthorized hentry hauth] at h
      exact absurd h not_mem_nil
    | true =>
      rw [route_of_authorized hentry hauth] at h
      obtain ⟨targetId, -, hverdict⟩ := mem_candidateOf.1 ((mem_insertionSort _).1 h)
      have htarget := consider_target hverdict
      unfold consider at hverdict
      split at hverdict
      · cases hverdict
      · rename_i target hlookup
        have hid := evaluate_target hverdict
        exact ⟨target, htarget ▸ hlookup, hid.symm, evaluate_judged hverdict⟩

/-- The candidates are sorted. -/
theorem route_pairwise (s : PolicySnapshot) (ctx : RoutingContext) (req : CanonicalRequest) (live : LiveState) :
    (s.route ctx req live).candidates.Pairwise Candidate.Before := by
  cases hentry : s.aliases[req.requestedModel]? with
  | none =>
    rw [route_of_unknown hentry]
    exact .nil
  | some entry =>
    cases hauth : s.authorizes ctx req.requestedModel req.operation with
    | false =>
      rw [route_of_unauthorized hentry hauth]
      exact .nil
    | true =>
      rw [route_of_authorized hentry hauth]
      exact pairwise_insertionSort _ _

end PolicySnapshot

/-! ### Places -/

/-- A strictly better key stands earlier in a sorted list. -/
theorem index_lt_of_key_lt {l : List Candidate} (hl : l.Pairwise Candidate.Before) {i j : ℕ} {a b : Candidate}
    (ha : l[i]? = some a) (hb : l[j]? = some b) (hkey : a.orderingKey < b.orderingKey) : i < j := by
  rcases Nat.lt_trichotomy i j with hlt | rfl | hgt
  · exact hlt
  · cases ha.symm.trans hb
    exact absurd hkey (lt_irrefl _)
  · obtain ⟨hi, rfl⟩ := List.getElem?_eq_some_iff.1 ha
    obtain ⟨hj, rfl⟩ := List.getElem?_eq_some_iff.1 hb
    exact absurd hkey (not_lt_of_ge (pairwise_iff_getElem.1 hl j i hj hi hgt))

theorem index_lt_iff {l : List Candidate} (hl : l.Pairwise Candidate.Before) {i j : ℕ} {a b : Candidate}
    (ha : l[i]? = some a) (hb : l[j]? = some b) (hne : a.orderingKey ≠ b.orderingKey) :
    i < j ↔ a.orderingKey < b.orderingKey := by
  constructor
  · intro hij
    rcases lt_or_gt_of_ne hne with hlt | hgt
    · exact hlt
    · exact absurd (index_lt_of_key_lt hl hb ha hgt) (Nat.lt_asymm hij)
  · exact index_lt_of_key_lt hl ha hb

/-- Equal standing under a pin leaves the score, and then the identifier. -/
theorem key_lt_iff {a b : Candidate} (hpin : a.pinRank = b.pinRank) :
    a.orderingKey < b.orderingKey ↔ b.score < a.score ∨ a.score = b.score ∧ a.target < b.target := by
  simp only [Candidate.orderingKey, Prod.Lex.toLex_lt_toLex, hpin, lt_irrefl, false_or, true_and,
    OrderDual.toDual_lt_toDual, EmbeddingLike.apply_eq_iff_eq]

namespace MergedBindings

/-- The pin is that of a binding no other pinning one is before. -/
theorem pinningOf_sorted {as : List Applicable} (hsorted : as.Pairwise Applicable.Before) {a : Applicable}
    (ha : a ∈ as) (hpin : a.binding.pin.isSome) :
    ∃ top ∈ as, top.binding.pin.isSome ∧
      pinningOf as = (top.binding.pin, top.binding.emergencyFallback, some top.level) ∧
      ∀ a ∈ as, a.binding.pin.isSome → top.key ≤ a.key := by
  induction as with
  | nil => exact absurd ha not_mem_nil
  | cons b as ih =>
    rw [pinningOf]
    by_cases hb : b.binding.pin.isSome
    · rw [if_pos hb]
      refine ⟨b, mem_cons_self, hb, rfl, fun a' ha' _ => ?_⟩
      rcases mem_cons.1 ha' with rfl | ha'
      · exact le_rfl
      · exact rel_of_pairwise_cons hsorted ha'
    · rw [if_neg hb]
      rcases mem_cons.1 ha with rfl | ha
      · exact absurd hpin hb
      obtain ⟨top, htop, hsome, hpinning, hleast⟩ := ih hsorted.of_cons ha
      refine ⟨top, mem_cons_of_mem _ htop, hsome, hpinning, fun a' ha' hp => ?_⟩
      rcases mem_cons.1 ha' with rfl | ha'
      · exact absurd hp hb
      · exact hleast a' ha' hp

theorem pinningOf_none {as : List Applicable} (h : ∀ a ∈ as, a.binding.pin = none) : pinningOf as = (none, [], none) := by
  induction as with
  | nil => rfl
  | cons a as ih =>
    rw [pinningOf, if_neg (by simp [h a mem_cons_self])]
    exact ih fun b hb => h b (mem_cons_of_mem _ hb)

end MergedBindings

namespace PolicySnapshot

variable (s : PolicySnapshot) (ctx : RoutingContext) (req : CanonicalRequest) (live : LiveState)

/-- The candidates under a pin: the pinned target, first, and what its binding falls back to. -/
structure PinFirst (top : Applicable) : Prop where
  reached : ∀ pin, top.binding.pin = some pin → ∀ c ∈ (s.route ctx req live).candidates,
    c.target = pin ∨ c.target ∈ top.binding.emergencyFallback
  first : ∀ pin, top.binding.pin = some pin → (∃ c ∈ (s.route ctx req live).candidates, c.target = pin) →
    ∃ c, (s.route ctx req live).candidates.head? = some c ∧ c.target = pin

variable {s ctx req live}

theorem pinFirst_of_pinning {top : Applicable}
    (h : (s.mergeBindings ctx req.requestedModel).pinning =
      (top.binding.pin, top.binding.emergencyFallback, some top.level)) : s.PinFirst ctx req live top := by
  obtain ⟨hpin, hrest⟩ := Prod.mk.inj h
  obtain ⟨hfallback, -⟩ := Prod.mk.inj hrest
  have hrank : ∀ pin, top.binding.pin = some pin → ∀ c ∈ (s.route ctx req live).candidates,
      c.pinRank = if c.target = pin then 0 else 1 := by
    intro pin htop c hc
    obtain ⟨target, -, hid, hjudged⟩ := route_judged hc
    obtain ⟨level, rank, weight, rfl, -⟩ := hjudged.scored
    show (if (s.mergeBindings ctx req.requestedModel).pin.any (· != target.id) then Candidate.pinFallback
      else Candidate.pinTarget) = if target.id = pin then 0 else 1
    rw [hpin, htop, Option.any_some]
    by_cases hsame : target.id = pin
    · simp [hsame, Candidate.pinTarget]
    · simp [hsame, Ne.symm hsame, Candidate.pinFallback]
  constructor
  · intro pin htop c hc
    obtain ⟨target, -, hid, hjudged⟩ := route_judged hc
    rw [← hid, ← hfallback]
    exact hjudged.pinned pin (hpin.trans htop)
  · rintro pin htop ⟨c, hc, hmine⟩
    cases hlist : (s.route ctx req live).candidates with
    | nil =>
      rw [hlist] at hc
      exact absurd hc not_mem_nil
    | cons d rest =>
      refine ⟨d, rfl, ?_⟩
      have hd : d ∈ (s.route ctx req live).candidates := by
        rw [hlist]
        exact mem_cons_self
      by_contra hother
      -- The head stands before the pin, and has a worse standing.
      have hsorted := s.route_pairwise ctx req live
      rw [hlist] at hsorted hc
      have hcMem : c ∈ (s.route ctx req live).candidates := hlist ▸ hc
      rcases mem_cons.1 hc with rfl | hc
      · exact hother hmine
      have hbefore : d.orderingKey ≤ c.orderingKey := rel_of_pairwise_cons hsorted hc
      have hdRank := hrank pin htop d hd
      have hcRank := hrank pin htop c hcMem
      rw [if_neg hother] at hdRank
      rw [if_pos hmine] at hcRank
      have hlt : c.orderingKey < d.orderingKey := by
        rw [Candidate.orderingKey, Candidate.orderingKey, Prod.Lex.toLex_lt_toLex]
        exact .inl (by dsimp only; omega)
      exact absurd hbefore (not_le_of_gt hlt)

/-- The candidates without a pin: each has a winning preference, and a better rank stands earlier. -/
structure RankFirst (s : PolicySnapshot) (ctx : RoutingContext) (req : CanonicalRequest) (live : LiveState) :
    Prop where
  ranked : ∀ c ∈ (s.route ctx req live).candidates, ∃ target pref, s.targets[c.target]? = some target ∧
    (s.mergeBindings ctx req.requestedModel).preferenceFor target = some pref ∧ c.rank = pref.rank
  first : ∀ (i j : ℕ) (a b : Candidate), (s.route ctx req live).candidates[i]? = some a →
    (s.route ctx req live).candidates[j]? = some b → a.rank < b.rank → b.rank ≤ 64 → i < j

theorem score_terms (target : Target) (level rank : ℕ) (weight : ℤ) (pinRank : ℕ) (residency : ResidencyClass) :
    (s.score req target level rank weight pinRank residency live).terms.InRange ∧
      (s.score req target level rank weight pinRank residency live).terms.priorityRank = ScoreTerms.rankTerm rank := by
  refine ⟨ScoreTerms.inRange_clamped _, ?_⟩
  exact ScoreTerms.clamp_eq (ScoreTerms.rankTerm_mem rank).1 (ScoreTerms.rankTerm_mem rank).2

theorem rankFirst_of_unpinned
    (h : (s.mergeBindings ctx req.requestedModel).pinning = (none, [], none)) : s.RankFirst ctx req live := by
  obtain ⟨hpin, hrest⟩ := Prod.mk.inj h
  obtain ⟨hfallback, -⟩ := Prod.mk.inj hrest
  constructor
  · intro c hc
    obtain ⟨target, hlookup, -, hjudged⟩ := route_judged hc
    obtain ⟨level, rank, weight, rfl, hscored⟩ := hjudged.scored
    cases hpref : (s.mergeBindings ctx req.requestedModel).preferenceFor target with
    | some pref =>
      rw [hpref] at hscored
      exact ⟨target, pref, hlookup, hpref, hscored.2.1⟩
    | none =>
      rw [hpref, hpin, hfallback] at hscored
      simp at hscored
  · intro i j a b ha hb hlt hle
    have hfacts : ∀ {k : ℕ} {c : Candidate}, (s.route ctx req live).candidates[k]? = some c →
        c.pinRank = 0 ∧ c.terms.InRange ∧ c.terms.priorityRank = ScoreTerms.rankTerm c.rank := by
      intro k c hc
      obtain ⟨target, -, -, hjudged⟩ := route_judged (mem_of_getElem? hc)
      obtain ⟨level, rank, weight, rfl, -⟩ := hjudged.scored
      refine ⟨?_, score_terms target level rank weight _ _⟩
      show (if (s.mergeBindings ctx req.requestedModel).pin.any (· != target.id) then Candidate.pinFallback
        else Candidate.pinTarget) = 0
      rw [hpin]
      rfl
    obtain ⟨hpinA, hrangeA, hrankA⟩ := hfacts ha
    obtain ⟨hpinB, hrangeB, hrankB⟩ := hfacts hb
    have hstep := ScoreTerms.rankTerm_step hlt hle
    have hrest := hrangeA.rest_lt hrangeB
    have hscore : b.score < a.score := by
      rw [Candidate.score, Candidate.score, hrangeA.total, hrangeB.total, hrankA, hrankB]
      omega
    exact index_lt_of_key_lt (s.route_pairwise ctx req live) ha hb
      ((key_lt_iff (hpinA.trans hpinB.symm)).2 (.inl hscore))

/-- **Pins and ranks order the candidates**, whatever the weights and the live state. -/
theorem pins_and_ranks_order (s : PolicySnapshot) (ctx : RoutingContext) (req : CanonicalRequest) (live : LiveState) :
    ((∃ a ∈ s.applicable ctx req.requestedModel, a.binding.pin.isSome) →
      ∃ top ∈ s.applicable ctx req.requestedModel, top.binding.pin.isSome ∧
        (∀ a ∈ s.applicable ctx req.requestedModel, a.binding.pin.isSome → top.key ≤ a.key) ∧
        s.PinFirst ctx req live top) ∧
      ((∀ a ∈ s.applicable ctx req.requestedModel, a.binding.pin = none) → s.RankFirst ctx req live) := by
  have hpinning : (s.mergeBindings ctx req.requestedModel).pinning =
      MergedBindings.pinningOf (s.strongestFirst ctx req.requestedModel) := by
    rw [mergeBindings_eq, MergedBindings.ofApplicable_pinning]
  have hmem : ∀ a, a ∈ s.strongestFirst ctx req.requestedModel ↔ a ∈ s.applicable ctx req.requestedModel :=
    fun a => mem_insertionSort _
  constructor
  · rintro ⟨a, ha, hpin⟩
    obtain ⟨top, htop, hsome, hfirst, hleast⟩ := MergedBindings.pinningOf_sorted
      (pairwise_insertionSort _ _) ((hmem a).2 ha) hpin
    exact ⟨top, (hmem top).1 htop, hsome, fun a ha => hleast a ((hmem a).2 ha),
      pinFirst_of_pinning (hpinning.trans hfirst)⟩
  · intro h
    exact rankFirst_of_unpinned (hpinning.trans (MergedBindings.pinningOf_none fun a ha => h a ((hmem a).1 ha)))

/-! ### Warmth and what a client steers -/

/-- What a conversation adds to the affinity of a target. -/
def conversationBonus (live : LiveState) (target : TargetId) : ℤ :=
  ScoreTerms.clamp (live.affinityBonus target) 0 ScoreTerms.conversationSlice

/-- What the client's hint adds to the affinity of a target. -/
def hintBonus (req : CanonicalRequest) (target : TargetId) : ℤ :=
  if req.hints.preferTarget = some target then ScoreTerms.hintSlice else 0

theorem warmthBonus_mem (r : ResidencyClass) : ∃ rung : ℤ, 0 ≤ rung ∧ rung ≤ 5 ∧ r.warmthBonus = 8000 * rung := by
  cases r with
  | unmanaged => exact ⟨5, by decide⟩
  | resident => exact ⟨5, by decide⟩
  | residentBusy => exact ⟨4, by decide⟩
  | activating => exact ⟨3, by decide⟩
  | coldFits => exact ⟨2, by decide⟩
  | coldRequiresEviction => exact ⟨1, by decide⟩
  | coldRequiresFetch => exact ⟨0, by decide⟩
  | infeasible reason => exact ⟨0, le_rfl, by decide, rfl⟩

theorem conversationBonus_mem (live : LiveState) (target : TargetId) :
    0 ≤ conversationBonus live target ∧ conversationBonus live target ≤ 4000 :=
  ScoreTerms.clamp_mem (by decide) _

theorem hintBonus_mem (req : CanonicalRequest) (target : TargetId) :
    hintBonus req target = 0 ∨ hintBonus req target = 6000 ∧ req.hints.preferTarget = some target := by
  rw [hintBonus]
  split
  · exact .inr ⟨rfl, by assumption⟩
  · exact .inl rfl

/-- The three contributors fill the affinity term and never pass it. -/
theorem candidate_affinity {c : Candidate} (h : c ∈ (s.route ctx req live).candidates) :
    c.residency = live.residencyClass c.target ∧ c.terms.InRange ∧
      c.terms.affinity = conversationBonus live c.target + c.residency.warmthBonus + hintBonus req c.target := by
  obtain ⟨target, -, hid, hjudged⟩ := route_judged h
  obtain ⟨level, rank, weight, rfl, -⟩ := hjudged.scored
  refine ⟨rfl, (score_terms target level rank weight _ _).1, ?_⟩
  show ScoreTerms.clamp (satAddInt (satAddInt (conversationBonus live target.id)
    (live.residencyClass target.id).warmthBonus) (hintBonus req target.id)) 0 50000 =
      conversationBonus live target.id + (live.residencyClass target.id).warmthBonus + hintBonus req target.id
  have hconversation := conversationBonus_mem live target.id
  have hhint := hintBonus_mem req target.id
  obtain ⟨rung, hlow, hhigh, hwarmth⟩ := warmthBonus_mem (live.residencyClass target.id)
  have hword : i64Max = 9223372036854775807 := by decide
  simp only [ScoreTerms.clamp, satAddInt]
  omega

/-- The colder of two targets one rung apart is the hinted one, and the conversation's bonus takes it past
the step between the rungs, or up to it where its identifier comes first. -/
def PromotesColder (req : CanonicalRequest) (live : LiveState) (warm cold : Candidate) : Prop :=
  req.hints.preferTarget = some cold.target ∧
    warm.residency.warmthBonus = cold.residency.warmthBonus + warmthLadderStep ∧
    (conversationBonus live warm.target + 2000 < conversationBonus live cold.target ∨
      conversationBonus live warm.target + 2000 = conversationBonus live cold.target ∧ cold.target < warm.target)

/-- **When the warmer of two targets is first** that differ in nothing but their affinity. -/
theorem warmer_first_iff (s : PolicySnapshot) (ctx : RoutingContext) (req : CanonicalRequest) (live : LiveState)
    {i j : ℕ} {warm cold : Candidate} (hwarm : (s.route ctx req live).candidates[i]? = some warm)
    (hcold : (s.route ctx req live).candidates[j]? = some cold) (hpin : warm.pinRank = cold.pinRank)
    (hterms : { warm.terms with affinity := 0 } = { cold.terms with affinity := 0 })
    (hrung : cold.residency.warmthBonus < warm.residency.warmthBonus) :
    i < j ↔ ¬PromotesColder req live warm cold := by
  obtain ⟨hresidencyW, hrangeW, haffinityW⟩ := candidate_affinity (mem_of_getElem? hwarm)
  obtain ⟨hresidencyC, hrangeC, haffinityC⟩ := candidate_affinity (mem_of_getElem? hcold)
  have hne : warm.target ≠ cold.target := by
    intro hsame
    rw [hresidencyW, hresidencyC, hsame] at hrung
    exact lt_irrefl _ hrung
  have hkeys : warm.orderingKey ≠ cold.orderingKey := by
    intro hsame
    simp only [Candidate.orderingKey, EmbeddingLike.apply_eq_iff_eq, Prod.mk.injEq] at hsame
    exact hne hsame.2.2
  rw [index_lt_iff (s.route_pairwise ctx req live) hwarm hcold hkeys, key_lt_iff hpin]
  -- The scores differ by the affinities.
  simp only [ScoreTerms.mk.injEq] at hterms
  have hscores : warm.score - cold.score = warm.terms.affinity - cold.terms.affinity := by
    rw [Candidate.score, Candidate.score, hrangeW.total, hrangeC.total, ScoreTerms.rest, ScoreTerms.rest]
    omega
  have horder : cold.target < warm.target ↔ ¬warm.target < cold.target :=
    ⟨fun h => lt_asymm h, fun h => (lt_or_gt_of_ne hne).resolve_left h⟩
  have hconversationW := conversationBonus_mem live warm.target
  have hconversationC := conversationBonus_mem live cold.target
  obtain ⟨rungW, -, -, hwarmthW⟩ := warmthBonus_mem warm.residency
  obtain ⟨rungC, -, -, hwarmthC⟩ := warmthBonus_mem cold.residency
  have hstep : warmthLadderStep = 8000 := rfl
  rw [PromotesColder, hstep, horder]
  rcases hintBonus_mem req cold.target with hnone | ⟨hhintC, hmine⟩
  · -- A step of warmth is more than a conversation is worth.
    have hhintW : 0 ≤ hintBonus req warm.target := by
      rcases hintBonus_mem req warm.target with h | ⟨h, -⟩ <;> omega
    have hnot : req.hints.preferTarget ≠ some cold.target := by
      intro h
      rw [hintBonus, if_pos h] at hnone
      exact absurd hnone (by decide)
    constructor
    · exact fun _ h => hnot h.1
    · exact fun _ => .inl (by omega)
  · have hhintW : hintBonus req warm.target = 0 := by
      rw [hintBonus, if_neg]
      rw [hmine]
      exact fun h => hne (Option.some.inj h).symm
    by_cases hlt : warm.target < cold.target
    · simp only [hlt, not_true, and_false, or_false, and_true, hmine, true_and]
      omega
    · simp only [hlt, not_false_eq_true, and_false, or_false, and_true, hmine, true_and]
      omega

end PolicySnapshot

namespace Sample

/-- Both targets at one rank and one weight. -/
def level : PolicySnapshot := { snapshot with bindings := [{ binding with preferences := [⟨.any, 0, 0⟩] }] }

/-- The large target is busy, and the conversation was with it, for what that is worth. -/
def busy (bonus : ℤ) : LiveState :=
  { LiveState.ideal with
    residencyClass := fun t => if t = "large" then .residentBusy else .resident
    affinityBonus := fun t => if t = "large" then bonus else 0 }

/-- The client would rather have the large one. -/
def hinted : CanonicalRequest := { request with hints := ⟨some "large", false⟩ }

/-- The candidate a decision has for a target. -/
def candidate (bonus : ℤ) (target : TargetId) : Candidate :=
  level.score hinted (Sample.target target) 6 0 0 0 ((busy bonus).residencyClass target) (busy bonus)

end Sample

namespace PolicySnapshot

open Sample in
theorem hint_alone_promotes_nothing :
    (level.route caller hinted (busy 0)).candidates = [candidate 0 "small", candidate 0 "large"] ∧
      ((0 : ℕ) < 1 ↔ ¬PromotesColder hinted (busy 0) (candidate 0 "small") (candidate 0 "large")) := by
  have hcandidates : (level.route caller hinted (busy 0)).candidates =
      [candidate 0 "small", candidate 0 "large"] := by decide
  refine ⟨hcandidates, warmer_first_iff level caller hinted (busy 0) ?_ ?_ (by decide) (by decide) (by decide)⟩
  · rw [hcandidates]
    rfl
  · rw [hcandidates]
    rfl

open Sample in
/-- The hint and the conversation together take the busy target past the idle one. -/
theorem hint_and_conversation_promote :
    (level.route caller hinted (busy 4000)).candidates = [candidate 4000 "large", candidate 4000 "small"] ∧
      (candidate 4000 "large").pinRank = (candidate 4000 "small").pinRank ∧
      { (candidate 4000 "large").terms with affinity := 0 } = { (candidate 4000 "small").terms with affinity := 0 } ∧
      (candidate 4000 "large").residency.warmthBonus < (candidate 4000 "small").residency.warmthBonus := by
  decide

end PolicySnapshot

end HypeLlm.Routing
