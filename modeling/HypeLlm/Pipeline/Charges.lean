import HypeLlm.Pipeline.Rounds
import HypeLlm.Pipeline.Visits

/-!
# Every dispatch is paid for

Up to four things are taken for a candidate and there are a dozen ways out between them; each is
given back exactly once on every one of them.  The hold on the budget of the key is finished by the
failure that stands, or by the usage of the answer, which charges what the exchange costs as long as
there is one exchange.  Where the credential overlaps there are two, and the failure that stands is
the first one's, before acceptance, whatever became of the second.

* **`dispatches_paid_iff`** — in a pass of a metered key everything taken is given back once and
  every exchange is charged what it costs if and only if no exchange with the superseded credential
  fails after the upstream accepted it;
* `Sample.superseded_failure_unpaid` — one that does, and is not charged.
-/

namespace HypeLlm.Pipeline

open HypeLlm.Routing
open HypeLlm.Budget (BudgetReservation BudgetLedger Settlement)

/-! ### What a finish charges -/

namespace HoldFinish

/-- What is charged of a hold on `tokens`. -/
def charged (tokens : ℕ) : HoldFinish → ℕ
  | .settle actual => actual
  | .retain => tokens
  | .release => 0

/-- The finish carried out on the reservation. -/
def apply (r : BudgetReservation) (l : BudgetLedger) : HoldFinish → Settlement × BudgetLedger
  | .settle actual => r.settle actual l
  | .retain => r.retain l
  | .release => r.release l

/-- The ledger is told to charge just that. -/
theorem apply_eq_finish (how : HoldFinish) (r : BudgetReservation) (l : BudgetLedger) :
    how.apply r l = l.finish r.key r.tokens (how.charged r.tokens) := by
  cases how <;> rfl

end HoldFinish

/-- What an exchange costs that ended so: what the provider reported, else what was reserved, and
nothing if it was not accepted. -/
def cost (tokens : ℕ) : Except AttemptFailure AttemptSummary → ℕ
  | .ok summary => if summary.usage.isReported then summary.usage.total else tokens
  | .error f => if f.phase = .beforeAcceptance then 0 else tokens

/-- **The finish of a single exchange charges its cost.** -/
theorem holdFinish_charged (tokens : ℕ) (result : Except AttemptFailure AttemptSummary) :
    (holdFinish result).charged tokens = cost tokens result := by
  cases result with
  | ok summary =>
    simp only [holdFinish, cost]
    split
    · rfl
    · rfl
  | error f =>
    cases hphase : f.phase <;> simp [holdFinish, cost, hphase, HoldFinish.charged]

section Charges

variable {σ : Type}

/-! ### What was taken for a candidate, and what was charged -/

inductive Resource where
  | permit
  | reservation
  | hold
  | dispatch
  deriving Repr, DecidableEq

/-- Whether the action takes the resource, or gives it back. -/
def Action.step (r : Resource) : Action σ → Option Bool
  | .permitTaken => if r = .permit then some true else none
  | .permitFinished _ => if r = .permit then some false else none
  | .reserved => if r = .reservation then some true else none
  | .reservationFinished _ => if r = .reservation then some false else none
  | .held _ => if r = .hold then some true else none
  | .holdFinished _ => if r = .hold then some false else none
  | .dispatchEntered => if r = .dispatch then some true else none
  | .dispatchLeft => if r = .dispatch then some false else none
  | .sent _ | .delivered _ | .ended .. => none

/-- Each resource was not taken, or taken and then finished once. -/
def Settled (visit : List (Action σ)) : Prop :=
  ∀ r, visit.filterMap (Action.step r) = [] ∨ visit.filterMap (Action.step r) = [true, false]

def Action.heldTokens : Action σ → Option ℕ
  | .held tokens => some tokens
  | _ => none

def Action.chargedTokens (tokens : ℕ) : Action σ → Option ℕ
  | .holdFinished how => some (how.charged tokens)
  | _ => none

def Action.dueTokens (tokens : ℕ) : Action σ → Option ℕ
  | .ended _ result => some (cost tokens result)
  | _ => none

/-- The tokens held for a candidate. -/
def reservedTokens (visit : List (Action σ)) : ℕ := (visit.filterMap Action.heldTokens).sum

/-- What the key was charged for a candidate. -/
def chargedTokens (visit : List (Action σ)) : ℕ :=
  (visit.filterMap (Action.chargedTokens (reservedTokens visit))).sum

/-- What the exchanges of a candidate cost. -/
def dueTokens (visit : List (Action σ)) : ℕ :=
  (visit.filterMap (Action.dueTokens (reservedTokens visit))).sum

/-- The key was charged what the exchanges cost. -/
def Paid (visit : List (Action σ)) : Prop := chargedTokens visit = dueTokens visit

instance (visit : List (Action σ)) : Decidable (Paid visit) :=
  inferInstanceAs (Decidable (chargedTokens visit = dueTokens visit))

/-! ### Exchanges take nothing -/

variable {s : Setting σ}

/-- What is read off the actions around an exchange is not read off the exchange. -/
theorem exchange_filterMap {β : Type} {g : Action σ → Option β} (hsent : ∀ d, g (.sent d) = none)
    (hdelivered : ∀ e, g (.delivered e) = none) (hended : ∀ c r, g (.ended c r) = none)
    (target : TargetId) (provider : Provider) (t : Turn) (p : PassState σ) :
    (attempt s target provider t p).actions.filterMap g = [] := by
  have hone : ∀ d : Dispatch σ, (exchangeActions s d).filterMap g = [] := by
    intro d
    simp [exchangeActions, hsent, hdelivered, hended]
  rcases attempt_cases s target provider t p with
    ⟨d, -, -, -, -, hactions⟩ | ⟨d, d', f, -, -, -, -, -, -, -, -, -, -, hactions⟩
  · rw [hactions, hone]
  · rw [hactions, List.filterMap_append, hone]
    simp [hsent, hended]

/-- **Everything taken for a dispatch is finished once.** -/
theorem dispatch_settled (tokens : ℕ) (entered : Bool) (target : TargetId) (provider : Provider)
    (t : Turn) (p : PassState σ) :
    Settled (dispatchActions s (some tokens) entered (attempt s target provider t p)) := by
  intro r
  have hquiet : (attempt s target provider t p).actions.filterMap (Action.step r) = [] :=
    exchange_filterMap (fun _ => rfl) (fun _ => rfl) (fun _ _ => rfl) target provider t p
  simp only [dispatchActions, List.filterMap_append, hquiet]
  cases r <;> cases entered <;> simp [taken, concluded, onHold, Action.step]

theorem reservedTokens_dispatch (tokens : ℕ) (entered : Bool) (target : TargetId)
    (provider : Provider) (t : Turn) (p : PassState σ) :
    reservedTokens (dispatchActions s (some tokens) entered (attempt s target provider t p)) =
      tokens := by
  have hquiet : (attempt s target provider t p).actions.filterMap Action.heldTokens = [] :=
    exchange_filterMap (fun _ => rfl) (fun _ => rfl) (fun _ _ => rfl) target provider t p
  simp only [reservedTokens, dispatchActions, List.filterMap_append, hquiet]
  cases entered <;> simp [taken, concluded, onHold, List.filterMap_cons, Action.heldTokens]

theorem chargedTokens_dispatch (tokens : ℕ) (entered : Bool) (target : TargetId)
    (provider : Provider) (t : Turn) (p : PassState σ) :
    chargedTokens (dispatchActions s (some tokens) entered (attempt s target provider t p)) =
      (holdFinish (attempt s target provider t p).result).charged tokens := by
  have hquiet : (attempt s target provider t p).actions.filterMap (Action.chargedTokens tokens) =
      [] :=
    exchange_filterMap (fun _ => rfl) (fun _ => rfl) (fun _ _ => rfl) target provider t p
  rw [chargedTokens, reservedTokens_dispatch]
  simp only [dispatchActions, List.filterMap_append, hquiet]
  cases entered <;> simp [taken, concluded, onHold, List.filterMap_cons, Action.chargedTokens]

theorem dueTokens_dispatch (tokens : ℕ) (entered : Bool) (target : TargetId)
    (provider : Provider) (t : Turn) (p : PassState σ) :
    dueTokens (dispatchActions s (some tokens) entered (attempt s target provider t p)) =
      ((attempt s target provider t p).actions.filterMap (Action.dueTokens tokens)).sum := by
  rw [dueTokens, reservedTokens_dispatch]
  simp only [dispatchActions, List.filterMap_append]
  cases entered <;> simp [taken, concluded, onHold, List.filterMap_cons, Action.dueTokens]

theorem due_exchange (tokens : ℕ) (d : Dispatch σ) :
    ((exchangeActions s d).filterMap (Action.dueTokens tokens)).sum =
      cost tokens (d.exchange s).result := by
  have hquiet : ((d.exchange s).delivered.map (Action.delivered : _ → Action σ)).filterMap
      (Action.dueTokens tokens) = [] := by
    simp [Action.dueTokens]
  simp [exchangeActions, List.filterMap_cons, List.filterMap_append, hquiet, Action.dueTokens]

/-! ### One candidate -/

/-- The tokens reserved for an attempt against a target. -/
def Setting.reservedFor (s : Setting σ) (target : TargetId) : ℕ :=
  s.snapshot.targets[target]?.elim 0 fun target =>
    budgetTokens s.request target s.snapshot.defaultDocumentTokenEstimate

/-- An exchange with the superseded credential that fails was not accepted, or costs nothing. -/
def Dispatch.Covered (s : Setting σ) (d : Dispatch σ) : Prop :=
  d.choice = .superseded → ∀ f, (d.exchange s).result = .error f →
    f.phase = .beforeAcceptance ∨ s.reservedFor d.target = 0

theorem sent_mem_exchangeActions {d e : Dispatch σ} :
    Action.sent e ∈ exchangeActions s d ↔ e = d := by
  simp [exchangeActions]

theorem sent_mem_dispatch {hold : Option ℕ} {entered : Bool} {sent : Sent σ} {d : Dispatch σ} :
    .sent d ∈ dispatchActions s hold entered sent ↔ .sent d ∈ sent.actions := by
  have hbefore : Action.sent d ∉ (taken hold ++ if entered then [.dispatchEntered] else []) :=
    fun h => absurd (before_isExchange h) (by simp [Action.isExchange])
  have hafter : Action.sent d ∉ concluded s hold entered sent.result :=
    fun h => absurd (concluded_isExchange h) (by simp [Action.isExchange])
  rw [dispatchActions, List.mem_append, List.mem_append]
  simp [hbefore, hafter]

/-- **A dispatch is paid for if and only if its exchanges are covered.** -/
theorem dispatch_paid_iff {target : Target} (entered : Bool) (provider : Provider) (t : Turn)
    (p : PassState σ) (htarget : s.snapshot.targets[target.id]? = some target) :
    Paid (dispatchActions s
        (some (budgetTokens s.request target s.snapshot.defaultDocumentTokenEstimate)) entered
        (attempt s target.id provider t p)) ↔
      ∀ d, .sent d ∈ (attempt s target.id provider t p).actions → d.Covered s := by
  have hreserved : s.reservedFor target.id =
      budgetTokens s.request target s.snapshot.defaultDocumentTokenEstimate := by
    simp [Setting.reservedFor, htarget]
  rw [Paid, chargedTokens_dispatch, dueTokens_dispatch, ← hreserved]
  rcases attempt_cases s target.id provider t p with
    ⟨d, hchoice, -, -, hresult, hone⟩ |
    ⟨d, d', f, hchoice, -, -, hchoice', htarget', -, -, hphase, -, hresult, htwo⟩
  · refine iff_of_true ?_ ?_
    · rw [hone, due_exchange, hresult, holdFinish_charged]
    · intro e he hsuperseded
      rw [hone, sent_mem_exchangeActions] at he
      rw [he, hchoice] at hsuperseded
      cases hsuperseded
  · have hdue : ((attempt s target.id provider t p).actions.filterMap
        (Action.dueTokens (s.reservedFor target.id))).sum =
          cost (s.reservedFor target.id) (d'.exchange s).result := by
      rw [htwo, List.filterMap_append, List.sum_append, due_exchange]
      simp [List.filterMap_cons, Action.dueTokens, cost, hphase]
    have hsent : ∀ e, .sent e ∈ (attempt s target.id provider t p).actions ↔ e = d ∨ e = d' := by
      intro e
      rw [htwo, List.mem_append, sent_mem_exchangeActions]
      simp
    rw [hdue, hresult]
    constructor
    · intro hpaid e he hsuperseded f' herror
      rcases (hsent e).1 he with rfl | rfl
      · rw [hchoice] at hsuperseded
        cases hsuperseded
      · -- The refusal stands and the hold is released; it was due unless not accepted.
        rw [herror, htarget'] at *
        rw [standing, holdFinish_charged, cost, if_pos hphase, cost] at hpaid
        split at hpaid
        case isTrue hbefore => exact .inl hbefore
        case isFalse => exact .inr hpaid.symm
    · intro hcovered
      cases hretried : (d'.exchange s).result with
      | ok summary => rw [standing, holdFinish_charged]
      | error f' =>
        rw [standing, holdFinish_charged, cost, if_pos hphase, cost]
        rcases hcovered d' ((hsent d').2 (.inr rfl)) hchoice' f' hretried with hbefore | hzero
        · rw [if_pos hbefore]
        · rw [← htarget', hzero]
          split <;> rfl

theorem idle_settled {actions : List (Action σ)} (h : Idle actions) :
    Settled actions ∧ Paid actions := by
  cases h with
  | refused =>
    refine ⟨?_, rfl⟩
    intro r
    cases r <;> simp [Action.step]
  | unused hold =>
    cases hold with
    | none =>
      refine ⟨?_, rfl⟩
      intro r
      cases r <;> simp [taken, unused, onHold, Action.step]
    | some tokens =>
      refine ⟨?_, rfl⟩
      intro r
      cases r <;> simp [taken, unused, onHold, Action.step]

/-! ### One pass -/

/-- Everything was settled and paid for so far if and only if every dispatch so far was covered. -/
def PaidWhenCovered (s : Setting σ) (p : PassState σ) : Prop :=
  (∀ visit ∈ p.visits, Settled visit ∧ Paid visit) ↔ ∀ d, .sent d ∈ p.log → d.Covered s

theorem PaidWhenCovered.visited {p p' : PassState σ} {actions : List (Action σ)}
    (h : PaidWhenCovered s p) (hvisits : p'.visits = p.visits ++ [actions])
    (hactions : Settled actions ∧ Paid actions ↔ ∀ d, .sent d ∈ actions → d.Covered s) :
    PaidWhenCovered s p' := by
  unfold PaidWhenCovered at h ⊢
  rw [hvisits, log_of_visits hvisits]
  simp only [List.mem_append, List.mem_singleton, or_imp, forall_and, forall_eq]
  simp only [forall_and] at h
  rw [← h, ← hactions]
  tauto

theorem PaidWhenCovered.passed {p p' : PassState σ} (h : PaidWhenCovered s p)
    (hpassed : Passed p p') : PaidWhenCovered s p' := by
  rcases hpassed.visits with hsame | ⟨actions, hidle, hmore⟩
  · unfold PaidWhenCovered PassState.log at h ⊢
    rw [hsame]
    exact h
  · refine h.visited hmore (iff_of_true (idle_settled hidle) ?_)
    intro d hd
    exact absurd (hidle.isExchange hd) (by simp [Action.isExchange])

theorem paidWhenCovered_carries (hkey : s.request.key.isSome = true)
    (hmetered : s.request.metered = true) :
    Carries s (fun _ => True) (PaidWhenCovered s) fun _ p => PaidWhenCovered s p where
  start exclusions state := by
    unfold PaidWhenCovered
    simp [PassState.start, PassState.log]
  passed := PaidWhenCovered.passed
  stopped _ h := h
  dispatched target provider t entered p htarget h _ := by
    have hhold : holdFor s target =
        some (budgetTokens s.request target s.snapshot.defaultDocumentTokenEstimate) := by
      simp [holdFor, hkey, hmetered]
    have hcase := dispatchTo_cases s target.id provider t (holdFor s target) entered p
    have hgood := h.visited hcase.visits_eq (by
      simp only [sent_mem_dispatch]
      rw [hhold, ← dispatch_paid_iff entered provider t p htarget]
      exact and_iff_right (dispatch_settled _ entered target.id provider t p))
    generalize dispatchTo s target.id provider t (holdFor s target) entered p = v at hgood
    cases v with
    | next p' => exact hgood
    | done o p' => exact hgood

/-- **Every dispatch is paid for by its phase, if and only if the failures that are forgotten cost
nothing.**  In every pass of a request charged to a key: for each candidate everything taken was
finished exactly once and the key was charged what the exchanges cost, just when no exchange with a
superseded credential failed after acceptance with tokens reserved for it. -/
theorem dispatches_paid_iff (s : Setting σ) (hkey : s.request.key.isSome = true)
    (hmetered : s.request.metered = true) (round : Round) (state : σ) :
    (∀ visit ∈ (executeOnce s round state).2.visits, Settled visit ∧ Paid visit) ↔
      ∀ d, .sent d ∈ (executeOnce s round state).2.log → d.Covered s :=
  (paidWhenCovered_carries hkey hmetered).executeOnce round state fun _ _ => trivial

end Charges

namespace Sample

/-- The current credential is refused, and the superseded one meets `superseded`. -/
def overlap (superseded : Upstream) : Round := round (turn .held refused superseded) stopping

/-- An answer under the superseded credential is paid for. -/
theorem superseded_answer_paid :
    setting.request.key.isSome = true ∧ setting.request.metered = true ∧
      ∀ visit ∈ (executeOnce setting (overlap whole) ()).2.visits, Settled visit ∧ Paid visit := by
  have hsent : ∀ a ∈ (executeOnce setting (overlap whole) ()).2.log, a.IsSent →
      a = .sent ⟨"small", .llamaCpp, .current, refused, (), []⟩ ∨
        a = .sent ⟨"small", .llamaCpp, .superseded, whole, (), []⟩ := by decide +kernel
  have hok : (Dispatch.exchange setting
      ⟨"small", .llamaCpp, .superseded, whole, (), []⟩).result.isOk = true := by decide +kernel
  refine ⟨rfl, rfl, (dispatches_paid_iff setting rfl rfl (overlap whole) ()).2 ?_⟩
  intro d hd hsuperseded f hresult
  rcases hsent _ hd ⟨d, rfl⟩ with heq | heq
  · cases heq
    cases hsuperseded
  · cases heq
    rw [hresult] at hok
    cases hok

/-- **An exchange that fails under the superseded credential after it was accepted is not paid
for.** -/
theorem superseded_failure_unpaid :
    ¬∀ (s : Setting Unit) (round : Round) (state : Unit), s.request.key.isSome = true →
      s.request.metered = true →
        ∀ visit ∈ (executeOnce s round state).2.visits, Settled visit ∧ Paid visit := by
  intro hall
  have hunpaid : ¬∀ visit ∈ (executeOnce setting (overlap brokenEarly) ()).2.visits, Paid visit := by
    decide +kernel
  exact hunpaid fun visit hvisit => (hall setting (overlap brokenEarly) () rfl rfl visit hvisit).2

end Sample

end HypeLlm.Pipeline
