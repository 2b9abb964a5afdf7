import Mathlib

/-!
# Resolving by precedence

Rules that apply to the same question are resolved by precedence: the rules with the least key
decide, and where several share it their verdicts are combined.  A program does it in one pass,
keeping the best key so far and the verdict there.

`resolve` is that pass.  The combination is commutative and associative, so the pass does not
depend on the order of the rules (**`resolve_perm`**), and a rule whose key is above another
rule's is not felt at all (**`resolve_append_of_lt`**).  For a combination by `||`, where `true`
wins a tie, adding a rule that says `true` can only turn the answer to `true`
(**`resolve_true_mono`**).
-/

namespace HypeLlm.Precedence

variable {K : Type*} [LinearOrder K]

/-- Take one more rule into account. -/
def absorb (combine : Bool → Bool → Bool) (best : Option (K × Bool)) (rule : K × Bool) :
    Option (K × Bool) :=
  match best with
  | none => some rule
  | some (key, verdict) =>
    if rule.1 < key then some rule
    else if rule.1 = key then some (key, combine verdict rule.2)
    else some (key, verdict)

/-- The best key among the rules and the verdict there. -/
def resolve (combine : Bool → Bool → Bool) (rules : List (K × Bool)) : Option (K × Bool) :=
  rules.foldl (absorb combine) none

/-- Whether the rules resolve to `true`; with no rule at all they do not. -/
def decides (combine : Bool → Bool → Bool) (rules : List (K × Bool)) : Bool :=
  (resolve combine rules).any (·.2)

variable {combine : Bool → Bool → Bool}

theorem absorb_right_comm [Std.Commutative combine] [Std.Associative combine]
    (best : Option (K × Bool)) (a b : K × Bool) :
    absorb combine (absorb combine best a) b = absorb combine (absorb combine best b) a := by
  have hcomm : ∀ x y, combine x y = combine y x := Std.Commutative.comm
  have hassoc : ∀ x y z, combine (combine x y) z = combine x (combine y z) :=
    Std.Associative.assoc
  obtain ⟨ka, va⟩ := a
  obtain ⟨kb, vb⟩ := b
  cases best with
  | none =>
    simp only [absorb]
    rcases lt_trichotomy ka kb with h | rfl | h
    · simp [h, h.not_gt, h.ne']
    · simp [hcomm va vb]
    · simp [h, h.not_gt, h.ne']
  | some best =>
    obtain ⟨k, v⟩ := best
    simp only [absorb]
    rcases lt_trichotomy ka k with ha | ha | ha
    · rcases lt_trichotomy ka kb with h | h | h <;> grind
    · rcases lt_trichotomy kb k with h | h | h <;> grind
    · rcases lt_trichotomy kb k with h | h | h <;> grind

/-- **The order of the rules is not felt.** -/
theorem resolve_perm (combine : Bool → Bool → Bool) [Std.Commutative combine]
    [Std.Associative combine] {rules rules' : List (K × Bool)} (h : rules.Perm rules') :
    resolve combine rules = resolve combine rules' :=
  h.foldl_eq' (fun a _ b _ best => absorb_right_comm best a b) none

theorem resolve_snoc (rules : List (K × Bool)) (rule : K × Bool) :
    resolve combine (rules ++ [rule]) = absorb combine (resolve combine rules) rule := by
  simp [resolve, List.foldl_append]

theorem resolve_eq_none {rules : List (K × Bool)} (h : resolve combine rules = none) :
    rules = [] := by
  rcases rules.eq_nil_or_concat with rfl | ⟨l, a, rfl⟩
  · rfl
  · rw [List.concat_eq_append, resolve_snoc] at h
    cases hl : resolve combine l with
    | none => simp [hl, absorb] at h
    | some best =>
      simp only [hl, absorb] at h
      split_ifs at h

/-- The best key is the key of one of the rules. -/
theorem resolve_key_mem {rules : List (K × Bool)} {key : K} {verdict : Bool}
    (h : resolve combine rules = some (key, verdict)) : ∃ v, (key, v) ∈ rules := by
  induction rules using List.reverseRecOn generalizing key verdict with
  | nil => simp [resolve] at h
  | append_singleton rules rule ih =>
    rw [resolve_snoc] at h
    cases hr : resolve combine rules with
    | none =>
      rw [hr] at h
      obtain rfl : rule = (key, verdict) := by simpa [absorb] using h
      exact ⟨verdict, by simp⟩
    | some best =>
      obtain ⟨k, v⟩ := best
      rw [hr] at h
      simp only [absorb] at h
      split_ifs at h with hlt heq
      · obtain rfl : rule = (key, verdict) := by simpa using h
        exact ⟨verdict, by simp⟩
      · obtain ⟨rfl, -⟩ : k = key ∧ combine v rule.2 = verdict := by simpa using h
        obtain ⟨v', hv'⟩ := ih hr
        exact ⟨v', by simp [hv']⟩
      · obtain ⟨rfl, -⟩ : k = key ∧ v = verdict := by simpa using h
        obtain ⟨v', hv'⟩ := ih hr
        exact ⟨v', by simp [hv']⟩

/-- The best key is below the key of every rule. -/
theorem resolve_key_le {rules : List (K × Bool)} {key : K} {verdict : Bool}
    (h : resolve combine rules = some (key, verdict)) : ∀ rule ∈ rules, key ≤ rule.1 := by
  induction rules using List.reverseRecOn generalizing key verdict with
  | nil => simp
  | append_singleton rules rule ih =>
    rw [resolve_snoc] at h
    intro other hother
    rw [List.mem_append, List.mem_singleton] at hother
    cases hr : resolve combine rules with
    | none =>
      have hnil : rules = [] := resolve_eq_none hr
      obtain rfl : rule = (key, verdict) := by simpa [hr, absorb] using h
      rcases hother with hmem | rfl
      · simp [hnil] at hmem
      · exact le_rfl
    | some best =>
      obtain ⟨k, v⟩ := best
      rw [hr] at h
      simp only [absorb] at h
      split_ifs at h with hlt heq
      · obtain rfl : rule = (key, verdict) := by simpa using h
        rcases hother with hmem | rfl
        · exact hlt.le.trans (ih hr other hmem)
        · exact le_rfl
      · obtain ⟨rfl, -⟩ : k = key ∧ combine v rule.2 = verdict := by simpa using h
        rcases hother with hmem | rfl
        · exact ih hr other hmem
        · exact heq.ge
      · obtain ⟨rfl, -⟩ : k = key ∧ v = verdict := by simpa using h
        rcases hother with hmem | rfl
        · exact ih hr other hmem
        · exact not_lt.1 hlt

/-- **Rules of lower precedence are not felt.** -/
theorem resolve_append_of_lt {rules lower : List (K × Bool)} {key : K} {verdict : Bool}
    (h : resolve combine rules = some (key, verdict)) (hlower : ∀ rule ∈ lower, key < rule.1) :
    resolve combine (rules ++ lower) = some (key, verdict) := by
  induction lower using List.reverseRecOn with
  | nil => simpa using h
  | append_singleton lower rule ih =>
    have hrule : key < rule.1 := hlower rule (by simp)
    have hbefore := ih fun r hr => hlower r (by simp [hr])
    rw [← List.append_assoc, resolve_snoc, hbefore]
    simp [absorb, hrule.not_gt, hrule.ne']

/-- Rules of lower precedence can be left out as well. -/
theorem resolve_of_append_of_lt {rules lower : List (K × Bool)} {key : K} {verdict : Bool}
    (h : resolve combine (rules ++ lower) = some (key, verdict))
    (hlower : ∀ rule ∈ lower, key < rule.1) : resolve combine rules = some (key, verdict) := by
  obtain ⟨v, hv⟩ := resolve_key_mem h
  have hmem : (key, v) ∈ rules := by
    rcases List.mem_append.1 hv with hv | hv
    · exact hv
    · exact absurd (hlower _ hv) (lt_irrefl key)
  cases hr : resolve combine rules with
  | none =>
    rw [resolve_eq_none hr] at hmem
    cases hmem
  | some best =>
    obtain ⟨k, w⟩ := best
    have hle : k ≤ key := resolve_key_le hr _ hmem
    rw [← resolve_append_of_lt hr fun rule hrule => hle.trans_lt (hlower rule hrule)]
    exact h

/-- Where `true` wins a tie, one more rule that says `true` never turns the answer to `false`. -/
theorem decides_snoc_true (rules : List (K × Bool)) (key : K) (h : decides or rules = true) :
    decides or (rules ++ [(key, true)]) = true := by
  rw [decides, resolve_snoc]
  rw [decides] at h
  cases hr : resolve or rules with
  | none => simp [absorb]
  | some best =>
    obtain ⟨k, v⟩ := best
    obtain rfl : v = true := by simpa [hr] using h
    simp only [absorb]
    split_ifs <;> simp

/-- **Adding rules that say `true` is monotone** where `true` wins a tie. -/
theorem resolve_true_mono {rules rules' added : List (K × Bool)} (h : rules'.Perm (rules ++ added))
    (hadded : ∀ rule ∈ added, rule.2 = true) (hdecides : decides or rules = true) :
    decides or rules' = true := by
  have hsame : decides or rules' = decides or (rules ++ added) := by rw [decides, decides, resolve_perm or h]
  rw [hsame]
  clear h hsame
  induction added using List.reverseRecOn with
  | nil => simpa using hdecides
  | append_singleton added rule ih =>
    obtain ⟨key, verdict⟩ := rule
    obtain rfl : verdict = true := hadded (key, verdict) (by simp)
    rw [← List.append_assoc]
    exact decides_snoc_true _ key (ih fun r hr => hadded r (by simp [hr]))

end HypeLlm.Precedence
