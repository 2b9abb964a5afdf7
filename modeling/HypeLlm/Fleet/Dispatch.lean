import HypeLlm.Fleet.Snapshot
import HypeLlm.Lib.Runs

/-!
# Dispatches and stops

The router counts the dispatches in flight on each deployment, and marks a deployment that is about to
be stopped; both are kept in one book under one lock.  An idle stop, or an activation that evicts, claims
a deployment only while nothing is in flight on it, and no dispatch is counted while a claim stands.
Requests, idle stops and activations go on in any order, each section under the lock on its own.

* `StopTask.claims` — the claims a thread has taken and not released;
* `Guarded` — no claim is taken twice, and none stands over a dispatch;
* **`never_pass`** — a claimed stop is sent while its claim stands and nothing is in flight, in every
  run in which no deployment has more dispatches at once than a count can hold.
-/

namespace HypeLlm.Fleet

open HypeLlm.Words HypeLlm.Routing HypeLlm.Runs

/-- Dispatches in flight, against stops in progress. -/
structure DispatchBook where
  inFlight : DeploymentId → ℕ
  stopping : DeploymentId → Bool

namespace DispatchBook

variable (b : DispatchBook) (d : DeploymentId)

/-- A dispatch is counted, unless the deployment is claimed. -/
def enterDispatch : Option DispatchBook :=
  if b.stopping d then none
  else some { b with inFlight := Function.update b.inFlight d (satAdd u32Max (b.inFlight d) 1) }

def leaveDispatch : DispatchBook := { b with inFlight := Function.update b.inFlight d (b.inFlight d - 1) }

/-- A deployment is claimed for a stop, unless a dispatch holds it or it is claimed. -/
def claimForStop : Option DispatchBook :=
  if b.inFlight d = 0 ∧ b.stopping d = false then
    some { b with stopping := Function.update b.stopping d true }
  else none

def releaseStopClaim : DispatchBook := { b with stopping := Function.update b.stopping d false }

end DispatchBook

/-- What a thread that may stop deployments has still to do. -/
inductive StopTask where
  | idle
  /-- An idle stop: the candidates that are left. -/
  | idleStopping (candidates : List DeploymentId)
  /-- A candidate is claimed, and what waits for it is to be looked up. -/
  | idleClaimed (d : DeploymentId) (rest : List DeploymentId)
  /-- Its stop is done with, and the claim is to be released. -/
  | idleStopped (d : DeploymentId) (rest : List DeploymentId)
  /-- A plan holds its lease, and its victims are to be claimed. -/
  | claiming (p : Plan) (victims claimed : List DeploymentId)
  /-- Its steps are executed. -/
  | running (steps : List PlanStep) (claimed : List DeploymentId)
  /-- It is over, and may have to be rolled back. -/
  | finishing (claimed : List DeploymentId)
  /-- Its claims are to be released. -/
  | unclaiming (claimed : List DeploymentId)
  deriving Repr, DecidableEq

namespace StopTask

/-- The claims that were taken and not released. -/
def claims : StopTask → List DeploymentId
  | .idle | .idleStopping _ => []
  | .idleClaimed d _ | .idleStopped d _ => [d]
  | .claiming _ _ claimed | .running _ claimed | .finishing claimed | .unclaiming claimed => claimed

def isIdle : StopTask → Bool
  | .idle => true
  | _ => false

end StopTask

/-- A `DEACTIVATE` that an idle stop or a plan sends. -/
structure StopVerb where
  deployment : DeploymentId
  /-- The deployment was claimed for it. -/
  claimed : Bool
  deriving Repr, DecidableEq

/-- What the rest of the world answers in one step of a thread. -/
structure StopAnswers where
  /-- The deployment and its agent are found, and time is left. -/
  found : Bool := true
  /-- Slots held on the host, by activations. -/
  slotsHeld : ℕ := 0
  /-- What is parked or queued for the capability. -/
  waiting : ℕ := 0
  /-- The lease is made durable. -/
  durable : Bool := true
  /-- The step of the plan went well. -/
  succeeded : Bool := true
  deriving Repr, DecidableEq

structure Dispatcher where
  book : DispatchBook
  /-- The dispatches that were entered and not left. -/
  holds : List DeploymentId
  tasks : ℕ → StopTask
  /-- The stops sent, latest first. -/
  stops : List StopVerb

inductive DispatchEvent where
  /-- A request enters a dispatch, on the deployment its target has, if any. -/
  | enter (d : Option DeploymentId)
  | leave (d : DeploymentId)
  | idleStop (w : ℕ) (candidates : List DeploymentId)
  | activate (w : ℕ) (p : Plan)
  | proceed (w : ℕ) (a : StopAnswers)
  deriving Repr, DecidableEq

namespace Dispatcher

variable (s : Dispatcher) (w : ℕ)

def boot : Dispatcher := ⟨⟨fun _ => 0, fun _ => false⟩, [], fun _ => .idle, []⟩

def goTo (t : StopTask) : Dispatcher := { s with tasks := Function.update s.tasks w t }

def withBook (book : DispatchBook) : Dispatcher := { s with book := book }

def send (verb : StopVerb) : Dispatcher := { s with stops := verb :: s.stops }

/-- The next candidate of an idle stop is claimed, or passed over. -/
def idleNext (a : StopAnswers) : List DeploymentId → Dispatcher
  | [] => s.goTo w .idle
  | d :: rest =>
    if !a.found || 0 < a.slotsHeld then s.goTo w (.idleStopping rest)
    else
      match s.book.claimForStop d with
      | none => s.goTo w (.idleStopping rest)
      | some book => (s.withBook book).goTo w (.idleClaimed d rest)

/-- The next victim of a plan is claimed, if nothing is in flight on it; then the lease is written. -/
def claimNext (p : Plan) (a : StopAnswers) (claimed : List DeploymentId) : List DeploymentId → Dispatcher
  | [] => s.goTo w (if a.durable then .running p.steps claimed else .unclaiming claimed)
  | d :: victims =>
    match s.book.claimForStop d with
    | none => s.goTo w (.claiming p victims claimed)
    | some book => (s.withBook book).goTo w (.claiming p victims (claimed ++ [d]))

/-- The next step of a plan. -/
def runNext (a : StopAnswers) (claimed : List DeploymentId) : List PlanStep → Dispatcher
  | [] => s.goTo w (.finishing claimed)
  | step :: steps =>
    let next := StopTask.running steps claimed
    if !a.found then s.goTo w (.finishing claimed)
    else
      match step with
      | .evict victim =>
        (s.send ⟨victim, decide (victim ∈ claimed)⟩).goTo w (if a.succeeded then next else .finishing claimed)
      | _ => s.goTo w (if a.succeeded then next else .finishing claimed)

/-- The next section of a thread. -/
def proceed (a : StopAnswers) : Dispatcher :=
  match s.tasks w with
  | .idle => s
  | .idleStopping candidates => s.idleNext w a candidates
  | .idleClaimed d rest =>
    if 0 < a.waiting || !a.found || !a.durable then s.goTo w (.idleStopped d rest)
    else (s.send ⟨d, true⟩).goTo w (.idleStopped d rest)
  | .idleStopped d rest => (s.withBook (s.book.releaseStopClaim d)).goTo w (.idleStopping rest)
  | .claiming p victims claimed => s.claimNext w p a claimed victims
  | .running steps claimed => s.runNext w a claimed steps
  | .finishing claimed => s.goTo w (.unclaiming claimed)
  | .unclaiming [] => s.goTo w .idle
  | .unclaiming (d :: claimed) => (s.withBook (s.book.releaseStopClaim d)).goTo w (.unclaiming claimed)

def step : DispatchEvent → Dispatcher
  | .enter none => s
  | .enter (some d) => (s.book.enterDispatch d).elim s fun book => { s with book := book, holds := d :: s.holds }
  | .leave d =>
    if d ∈ s.holds then { s with book := s.book.leaveDispatch d, holds := s.holds.erase d } else s
  | .idleStop w candidates => if (s.tasks w).isIdle then s.goTo w (.idleStopping candidates) else s
  | .activate w p => if (s.tasks w).isIdle then s.goTo w (.claiming p p.evictionSet []) else s
  | .proceed w a => s.proceed w a

/-! ### What a step of a thread does -/

variable {s w} {a : StopAnswers} {d : DeploymentId}

/-- **A section of a thread** claims one deployment, or releases one, or neither; and what it sends with
a claim, it has claimed. -/
inductive Proceeds (s : Dispatcher) (w : ℕ) : Dispatcher → Prop
  | claim {d : DeploymentId} {t : StopTask} (hfree : s.book.inFlight d = 0) (hdown : s.book.stopping d = false)
      (hclaims : t.claims = (s.tasks w).claims ++ [d]) :
      Proceeds s w ((s.withBook { s.book with stopping := Function.update s.book.stopping d true }).goTo w t)
  | release {d : DeploymentId} {t : StopTask} (hclaims : (s.tasks w).claims = d :: t.claims) :
      Proceeds s w ((s.withBook (s.book.releaseStopClaim d)).goTo w t)
  | goOn {t : StopTask} (hclaims : t.claims = (s.tasks w).claims) : Proceeds s w (s.goTo w t)
  | send {d : DeploymentId} {claimed : Bool} {t : StopTask}
      (hclaimed : claimed = true → d ∈ (s.tasks w).claims) (hclaims : t.claims = (s.tasks w).claims) :
      Proceeds s w ((s.send ⟨d, claimed⟩).goTo w t)

theorem goTo_self (s : Dispatcher) (w : ℕ) : s.goTo w (s.tasks w) = s := by
  rw [goTo, Function.update_eq_self]

theorem claimForStop_eq_some {b b' : DispatchBook} (h : b.claimForStop d = some b') :
    b.inFlight d = 0 ∧ b.stopping d = false ∧ b' = { b with stopping := Function.update b.stopping d true } := by
  unfold DispatchBook.claimForStop at h
  split at h
  · rename_i hfree
    exact ⟨hfree.1, hfree.2, (Option.some.inj h).symm⟩
  · cases h

/-- **What a section of a thread does.** -/
theorem proceeds (s : Dispatcher) (w : ℕ) (a : StopAnswers) : s.Proceeds w (s.proceed w a) := by
  unfold proceed
  cases ht : s.tasks w with
  | idle =>
    have hsame := Proceeds.goOn (s := s) (w := w) (t := s.tasks w) rfl
    rwa [goTo_self] at hsame
  | idleStopping candidates =>
    cases candidates with
    | nil => exact .goOn (by rw [ht]; rfl)
    | cons d rest =>
      simp only [idleNext]
      split
      · exact .goOn (by rw [ht]; rfl)
      · split
        · exact .goOn (by rw [ht]; rfl)
        · rename_i book hclaim
          obtain ⟨hfree, hdown, rfl⟩ := claimForStop_eq_some hclaim
          exact .claim hfree hdown (by rw [ht]; rfl)
  | idleClaimed d rest =>
    simp only
    split
    · exact .goOn (by rw [ht]; rfl)
    · exact .send (fun _ => by rw [ht]; exact List.mem_singleton_self d) (by rw [ht]; rfl)
  | idleStopped d rest => exact .release (by rw [ht]; rfl)
  | claiming p victims claimed =>
    cases victims with
    | nil =>
      refine .goOn ?_
      rw [ht]
      split <;> rfl
    | cons d victims =>
      simp only [claimNext]
      split
      · exact .goOn (by rw [ht]; rfl)
      · rename_i book hclaim
        obtain ⟨hfree, hdown, rfl⟩ := claimForStop_eq_some hclaim
        exact .claim hfree hdown (by rw [ht]; rfl)
  | running steps claimed =>
    have hnext : ∀ steps, (if a.succeeded then StopTask.running steps claimed else .finishing claimed).claims =
        (s.tasks w).claims := by
      intro steps
      rw [ht]
      split <;> rfl
    cases steps with
    | nil => exact .goOn (by rw [ht]; rfl)
    | cons step steps =>
      simp only [runNext]
      split
      · exact .goOn (by rw [ht]; rfl)
      · cases step with
        | evict victim =>
          refine .send (fun hmem => ?_) (hnext steps)
          rw [ht]
          exact of_decide_eq_true hmem
        | fetch | copy | activate => exact .goOn (hnext steps)
  | finishing claimed => exact .goOn (by rw [ht]; rfl)
  | unclaiming claimed =>
    cases claimed with
    | nil => exact .goOn (by rw [ht]; rfl)
    | cons d claimed => exact .release (by rw [ht]; rfl)

/-! ### Claims stand alone -/

/-- What holds between steps. -/
structure Guarded (s : Dispatcher) : Prop where
  counted : ∀ d, s.book.inFlight d = s.holds.count d
  free : ∀ d, s.book.stopping d = true → s.holds.count d = 0
  held : ∀ w, ∀ d ∈ (s.tasks w).claims, s.book.stopping d = true
  nodup : ∀ w, (s.tasks w).claims.Nodup
  apart : ∀ w w' d, d ∈ (s.tasks w).claims → d ∈ (s.tasks w').claims → w = w'

@[simp] theorem goTo_tasks (s : Dispatcher) (w : ℕ) (t : StopTask) (w' : ℕ) :
    (s.goTo w t).tasks w' = if w' = w then t else s.tasks w' := Function.update_apply ..

namespace Guarded

/-- What claims are taken does not depend on what a thread has left to do. -/
theorem goTo {t : StopTask} (h : s.Guarded) (hclaims : t.claims = (s.tasks w).claims) : (s.goTo w t).Guarded := by
  have hsame : ∀ w', ((s.goTo w t).tasks w').claims = (s.tasks w').claims := by
    intro w'
    rw [goTo_tasks]
    split
    · rename_i hw
      rw [hw, hclaims]
    · rfl
  refine ⟨h.counted, h.free, fun w' => ?_, fun w' => ?_, fun w' w'' => ?_⟩
  · rw [hsame]
    exact h.held w'
  · rw [hsame]
    exact h.nodup w'
  · rw [hsame, hsame]
    exact h.apart w' w''

theorem claim {t : StopTask} (h : s.Guarded) (hfree : s.book.inFlight d = 0) (hdown : s.book.stopping d = false)
    (hclaims : t.claims = (s.tasks w).claims ++ [d]) :
    ((s.withBook { s.book with stopping := Function.update s.book.stopping d true }).goTo w t).Guarded := by
  have hnew : ∀ w', d ∉ (s.tasks w').claims := by
    intro w' hmem
    rw [h.held w' d hmem] at hdown
    cases hdown
  obtain ⟨hcounted, hall, hheld, hnodup, hapart⟩ := h
  refine ⟨hcounted, fun d' => ?_, fun w' d' => ?_, fun w' => ?_, fun w' w'' d' => ?_⟩
  · show Function.update s.book.stopping d true d' = true → s.holds.count d' = 0
    rw [Function.update_apply]
    split
    · rename_i hd
      rw [hd, ← hcounted]
      exact fun _ => hfree
    · exact hall d'
  · show d' ∈ (((s.withBook _).goTo w t).tasks w').claims → Function.update s.book.stopping d true d' = true
    rw [goTo_tasks, Function.update_apply]
    split
    · rw [hclaims, List.mem_append, List.mem_singleton]
      rintro (hold | rfl)
      · split
        · rfl
        · exact hheld w d' hold
      · rw [if_pos rfl]
    · intro hmem
      split
      · rfl
      · exact hheld w' d' hmem
  · rw [goTo_tasks]
    split
    · rw [hclaims, List.nodup_append]
      refine ⟨hnodup w, List.nodup_singleton d, fun d' hd' d'' hd'' => ?_⟩
      rintro rfl
      exact hnew w (List.mem_singleton.1 hd'' ▸ hd')
    · exact hnodup w'
  · have hclaimed : ∀ w', d' ∈ (((s.withBook { s.book with
        stopping := Function.update s.book.stopping d true }).goTo w t).tasks w').claims →
          d' ∈ (s.tasks w').claims ∨ d' = d ∧ w' = w := by
      intro w'
      rw [goTo_tasks]
      split
      · rename_i hw
        rw [hclaims, List.mem_append, List.mem_singleton, hw]
        exact Or.imp_right fun hd => ⟨hd, rfl⟩
      · exact .inl
    intro hmem hmem'
    rcases hclaimed w' hmem with hold | ⟨rfl, rfl⟩ <;> rcases hclaimed w'' hmem' with hold' | ⟨hd, rfl⟩
    · exact hapart w' w'' d' hold hold'
    · exact absurd (hd ▸ hold) (hnew w')
    · exact absurd hold' (hnew w'')
    · rfl

theorem release {t : StopTask} (h : s.Guarded) (hclaims : (s.tasks w).claims = d :: t.claims) :
    ((s.withBook (s.book.releaseStopClaim d)).goTo w t).Guarded := by
  obtain ⟨hcounted, hall, hheld, hnodup, hapart⟩ := h
  have hmine : d ∈ (s.tasks w).claims := by
    rw [hclaims]
    exact List.mem_cons_self ..
  have hnodupw := hnodup w
  rw [hclaims, List.nodup_cons] at hnodupw
  have hsub : ∀ w' d', d' ∈ (((s.withBook (s.book.releaseStopClaim d)).goTo w t).tasks w').claims →
      d' ∈ (s.tasks w').claims ∧ d' ≠ d := by
    intro w' d'
    rw [goTo_tasks]
    split
    · rename_i hw
      intro hmem
      rw [hw, hclaims]
      exact ⟨List.mem_cons_of_mem _ hmem, fun hd => hnodupw.1 (hd ▸ hmem)⟩
    · rename_i hw
      exact fun hmem => ⟨hmem, fun hd => hw (hapart w' w d (hd ▸ hmem) hmine)⟩
  refine ⟨hcounted, fun d' => ?_, fun w' d' hmem => ?_, fun w' => ?_, fun w' w'' d' hmem hmem' => ?_⟩
  · show Function.update s.book.stopping d false d' = true → s.holds.count d' = 0
    rw [Function.update_apply]
    split
    · exact fun h => nomatch h
    · exact hall d'
  · show Function.update s.book.stopping d false d' = true
    rw [Function.update_of_ne (hsub w' d' hmem).2]
    exact hheld w' d' (hsub w' d' hmem).1
  · rw [goTo_tasks]
    split
    · exact hnodupw.2
    · exact hnodup w'
  · exact hapart w' w'' d' (hsub w' d' hmem).1 (hsub w'' d' hmem').1

/-- What was sent says nothing about the claims. -/
theorem send {verb : StopVerb} {t : StopTask} (h : (s.goTo w t).Guarded) : ((s.send verb).goTo w t).Guarded :=
  ⟨h.counted, h.free, h.held, h.nodup, h.apart⟩

/-- **A section of a thread keeps the claims apart.** -/
theorem proceed (h : s.Guarded) (w : ℕ) (a : StopAnswers) : (s.proceed w a).Guarded := by
  have hnext := s.proceeds w a
  generalize s.proceed w a = s' at hnext ⊢
  cases hnext with
  | claim hfree hdown hclaims => exact h.claim hfree hdown hclaims
  | release hclaims => exact h.release hclaims
  | goOn hclaims => exact h.goTo hclaims
  | send hclaimed hclaims => exact (h.goTo hclaims).send

end Guarded

/-- A count can hold one more dispatch on the deployment that a request enters. -/
def Counts (s : Dispatcher) : DispatchEvent → Prop
  | .enter (some d) => s.holds.count d < u32Max
  | _ => True

instance (s : Dispatcher) (e : DispatchEvent) : Decidable (s.Counts e) := by
  unfold Counts
  split <;> infer_instance

/-- A dispatch is entered where no claim stands, and is counted. -/
theorem enter_cases (s : Dispatcher) (d : DeploymentId) :
    s.book.stopping d = true ∧ s.step (.enter (some d)) = s ∨
      s.book.stopping d = false ∧ s.step (.enter (some d)) =
        { s with
          book := { s.book with inFlight := Function.update s.book.inFlight d (satAdd u32Max (s.book.inFlight d) 1) }
          holds := d :: s.holds } := by
  unfold step DispatchBook.enterDispatch
  simp only
  cases hstopping : s.book.stopping d with
  | true => exact .inl ⟨rfl, rfl⟩
  | false => exact .inr ⟨rfl, rfl⟩

/-- **Steps keep the claims apart**, and the counts exact as long as they hold them. -/
theorem Guarded.step (h : s.Guarded) {e : DispatchEvent} (hcounts : s.Counts e) : (s.step e).Guarded := by
  cases e with
  | enter found =>
    cases found with
    | none => exact h
    | some d =>
      rcases s.enter_cases d with ⟨-, hsame⟩ | ⟨hdown, hstep⟩
      · rw [hsame]
        exact h
      · rw [hstep]
        obtain ⟨hcounted, hfree, hheld, hnodup, hapart⟩ := h
        refine ⟨fun d' => ?_, fun d' hd' => ?_, hheld, hnodup, hapart⟩
        · have hroom : s.holds.count d < u32Max := hcounts
          show Function.update s.book.inFlight d _ d' = (d :: s.holds).count d'
          rw [Function.update_apply, List.count_cons, hcounted, hcounted]
          split
          · rename_i hd
            rw [hd, beq_self_eq_true, if_pos rfl, satAdd]
            omega
          · rename_i hd
            rw [if_neg (by simpa using Ne.symm hd)]
            rfl
        · have hne : d' ≠ d := by
            rintro rfl
            rw [show s.book.stopping d' = true from hd'] at hdown
            cases hdown
          rw [List.count_cons_of_ne (Ne.symm hne)]
          exact hfree d' hd'
  | leave d =>
    unfold Dispatcher.step
    simp only
    split
    · obtain ⟨hcounted, hfree, hheld, hnodup, hapart⟩ := h
      refine ⟨fun d' => ?_, fun d' hd' => ?_, hheld, hnodup, hapart⟩
      · show Function.update s.book.inFlight d _ d' = (s.holds.erase d).count d'
        rw [Function.update_apply]
        split
        · rename_i hd
          rw [hd, List.count_erase_self, hcounted]
        · rename_i hd
          rw [List.count_erase_of_ne hd, hcounted]
      · exact Nat.le_zero.1 (((List.erase_sublist ..).count_le d').trans_eq (hfree d' hd'))
    · exact h
  | idleStop w candidates | activate w p =>
    unfold Dispatcher.step
    simp only
    split
    · rename_i hidle
      refine h.goTo ?_
      cases ht : s.tasks w <;> rw [ht] at hidle <;> first | rfl | cases hidle
    · exact h
  | proceed w a => exact h.proceed w a

/-! ### Every run -/

/-- What is to hold in every state. -/
structure NeverPass (s : Dispatcher) : Prop where
  counted : ∀ d, s.book.inFlight d = s.holds.count d
  /-- A claim is granted while nothing is in flight and no other claim stands. -/
  grants : ∀ w a d, d ∈ ((s.step (.proceed w a)).tasks w).claims → d ∉ (s.tasks w).claims →
    s.book.inFlight d = 0 ∧ d ∉ s.holds ∧ ∀ w', d ∉ (s.tasks w').claims
  /-- A dispatch is entered while no claim stands. -/
  enters : ∀ d, (s.step (.enter (some d))).holds ≠ s.holds → ∀ w, d ∉ (s.tasks w).claims
  /-- What is sent with a claim is sent while the claim stands, with nothing in flight. -/
  sends : ∀ w a verb, (s.step (.proceed w a)).stops = verb :: s.stops → verb.claimed = true →
    verb.deployment ∈ (s.tasks w).claims ∧ verb.deployment ∈ ((s.step (.proceed w a)).tasks w).claims ∧
      (s.step (.proceed w a)).book.stopping verb.deployment = true ∧ verb.deployment ∉ s.holds

theorem Guarded.neverPass (h : s.Guarded) : s.NeverPass := by
  have hnone : ∀ {d}, s.book.stopping d = true → d ∉ s.holds :=
    fun hd => List.count_eq_zero.1 (h.free _ hd)
  refine ⟨h.counted, fun w a d hnow hbefore => ?_, fun d hnew w hmem => ?_, fun w a verb hsent hclaimed => ?_⟩
  · have hnext : s.Proceeds w (s.step (.proceed w a)) := s.proceeds w a
    generalize s.step (.proceed w a) = s' at hnext hnow
    cases hnext with
    | claim hfree hdown hclaims =>
      rw [goTo_tasks, if_pos rfl, hclaims] at hnow
      obtain rfl := List.mem_singleton.1 ((List.mem_append.1 hnow).resolve_left hbefore)
      refine ⟨hfree, ?_, fun w' hmem => ?_⟩
      · rw [← List.count_eq_zero, ← h.counted]
        exact hfree
      · rw [h.held w' _ hmem] at hdown
        cases hdown
    | release hclaims =>
      rw [goTo_tasks, if_pos rfl] at hnow
      rw [hclaims] at hbefore
      exact absurd (List.mem_cons_of_mem _ hnow) hbefore
    | goOn hclaims | send _ hclaims =>
      rw [goTo_tasks, if_pos rfl, hclaims] at hnow
      exact absurd hnow hbefore
  · rcases s.enter_cases d with ⟨-, hsame⟩ | ⟨hdown, -⟩
    · rw [hsame] at hnew
      exact hnew rfl
    · rw [h.held w d hmem] at hdown
      cases hdown
  · have hnext : s.Proceeds w (s.step (.proceed w a)) := s.proceeds w a
    generalize s.step (.proceed w a) = s' at hnext hsent
    cases hnext with
    | claim | release | goOn => exact absurd hsent.symm (List.cons_ne_self verb s.stops)
    | send hmem hclaims =>
      obtain ⟨rfl, -⟩ := List.cons.inj hsent
      have hmine := hmem hclaimed
      refine ⟨hmine, ?_, h.held w _ hmine, hnone (h.held w _ hmine)⟩
      rw [goTo_tasks, if_pos rfl, hclaims]
      exact hmine

theorem boot_guarded : boot.Guarded :=
  ⟨fun _ => rfl, (fun _ h => nomatch h), (fun _ _ h => nomatch h), fun _ => List.nodup_nil,
    (fun _ _ _ h => nomatch h)⟩

/-- **A dispatch and a stop never pass each other**, in every state of a run in which no deployment has
more dispatches at once than a count can hold. -/
theorem never_pass (es : List DispatchEvent) (h : StepsMeet step Counts boot es) : (run step boot es).NeverPass :=
  (run_invariant_of_steps (P := Guarded) (fun _ _ hguarded hcounts => hguarded.step hcounts) boot_guarded es
    h).neverPass

namespace Sample

/-- A request is dispatched to one deployment while a plan that evicts two claims the other; an idle
stop is refused the one that is claimed, and later stops the first. -/
def swapAndIdle : List DispatchEvent :=
  [.enter (some "a"), .activate 0 ⟨"c", "host", [.evict "a", .evict "b", .activate "c"], 1000⟩,
    .proceed 0 {}, .proceed 0 {}, .idleStop 1 ["b", "a"], .proceed 1 {}, .proceed 0 {}, .proceed 0 {},
    .enter (some "b"), .leave "a", .proceed 1 {}, .proceed 0 {}, .proceed 1 {}]

theorem swap_and_idle :
    (run step boot swapAndIdle).NeverPass ∧
      (run step boot swapAndIdle).stops = [⟨"a", true⟩, ⟨"b", true⟩, ⟨"a", false⟩] :=
  ⟨never_pass swapAndIdle (by decide +kernel), by decide +kernel⟩

/-- So many requests are dispatched to one deployment. -/
theorem run_enters (d : DeploymentId) (n : ℕ) :
    (run step boot (List.replicate n (.enter (some d)))).holds = List.replicate n d ∧
      (run step boot (List.replicate n (.enter (some d)))).book.stopping d = false ∧
      (run step boot (List.replicate n (.enter (some d)))).book.inFlight d = min n u32Max := by
  induction n with
  | zero => exact ⟨rfl, rfl, rfl⟩
  | succ n ih =>
    obtain ⟨hholds, hdown, hcount⟩ := ih
    rw [List.replicate_succ', run_snoc]
    generalize run step boot (List.replicate n (.enter (some d))) = s at *
    rcases s.enter_cases d with ⟨hup, -⟩ | ⟨-, hstep⟩
    · rw [hdown] at hup
      cases hup
    · rw [hstep]
      refine ⟨congrArg (d :: ·) hholds, hdown, ?_⟩
      show Function.update s.book.inFlight d _ d = _
      rw [Function.update_self, hcount, satAdd]
      omega

/-- With one request more than a count can hold, the count is not what is in flight. -/
theorem count_saturates : ¬(run step boot (List.replicate (2 ^ 32) (.enter (some "a")))).NeverPass := by
  intro h
  obtain ⟨hholds, -, hcount⟩ := run_enters "a" (2 ^ 32)
  have hcounted := h.counted "a"
  rw [hcount, hholds, List.count_replicate_self, u32Max] at hcounted
  omega

end Sample

end Dispatcher

end HypeLlm.Fleet
