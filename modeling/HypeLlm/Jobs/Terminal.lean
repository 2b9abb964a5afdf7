import HypeLlm.Jobs.OneTry

/-!
# A terminal job stays as it is

A worker reads the flag of a job a last time, and then records how the job ended whatever its record
says by then.  Six writers change a state; that of a worker that has decided is the only one that does
not look at the state first.  So a job that is cancelled between the two is cancelled, and then fails
or succeeds.

* `Life.Open` — a job under way is not terminal, unless it was cancelled;
* **`terminal_stays`** — in every orderly run in which no job is cancelled between the two, a record
  that is terminal stays as it is until it is swept;
* `Sample.cancelled_then_failed` — a job its client found cancelled is found failed.
-/

namespace HypeLlm.Jobs

open HypeLlm.Words HypeLlm.Routing HypeLlm.Tables HypeLlm.Runs

namespace Role

/-- The flag was read for the last time, and it was down. -/
@[grind] def decided : Role → Bool
  | .deciding cancelled => !cancelled
  | .discarded _ expired => expired
  | _ => false

/-- The job is under way, as the thread sees it, or it was cancelled. -/
@[grind] def minds (flagged : Bool) : Role → Bool
  | .enlisting _ | .trying .. | .dropping | .settling _ => true
  | .deciding cancelled => cancelled
  | .discarding _ => !flagged
  | .away | .naming _ | .refused _ | .discarded _ _ => false

/-- A job that a thread minds is in its hands, or is being submitted by it. -/
theorem owns_of_minds {r : Role} {flagged : Bool} (h : r.minds flagged = true) :
    r.owns flagged = true ∨ r.submits = true := by
  cases r <;> first | exact .inl h | exact .inl rfl | exact .inr rfl | cases h

theorem owns_of_decided {r : Role} {flagged : Bool} (h : r.decided = true) : r.owns flagged = true := by
  cases r <;> first | exact h | rfl | cases h

/-- When the flag goes up nobody minds more. -/
theorem minds_of_flagged {r : Role} {flagged : Bool} (h : r.minds true = true) : r.minds flagged = true := by
  cases r <;> first | exact h | rfl | cases h

end Role

namespace Life

variable {j j' : Life} {w : ℕ} {r : Role}

/-- A job that is under way is not terminal, unless it was cancelled; and it was not, if what is
recorded next is something else. -/
structure Open (j : Life) : Prop where
  queued : j.entry.isSome = true → ∀ state, j.record = some state → state.isTerminal = true →
    state = .cancelled ∧ j.flagged = true
  minded : ∀ w, (j.roles w).minds j.flagged = true → ∀ state, j.record = some state →
    state.isTerminal = true → state = .cancelled ∧ j.flagged = true
  decided : ∀ w, (j.roles w).decided = true → ∀ state, j.record = some state → state.isTerminal = false

namespace Open

/-- Nothing is said of a job that is not terminal. -/
theorem of_live (hlive : ∀ state, j.record = some state → state.isTerminal = false) : j.Open := by
  have hnever : ∀ {state}, j.record = some state → state.isTerminal = true → False := by
    intro state hstate hterminal
    rw [hlive state hstate] at hterminal
    cases hterminal
  constructor
  · exact fun _ state hstate hterminal => (hnever hstate hterminal).elim
  · exact fun _ _ state hstate hterminal => (hnever hstate hterminal).elim
  · exact fun _ _ => hlive

/-- What is said of a job depends on its record, its flag, whether it is queued, and on the threads. -/
theorem congr (h : j.Open) (hrecord : j'.record = j.record) (hflag : j'.flagged = j.flagged)
    (hentry : j'.entry.isSome = j.entry.isSome) (hroles : j'.roles = j.roles) : j'.Open := by
  obtain ⟨h1, h2, h3⟩ := h
  constructor <;> simp only [hrecord, hflag, hentry, hroles] <;> assumption

/-- **The job goes on**: it is queued, or minded by a thread, if it was one or the other; and who has
decided did mind it, and found the flag down. -/
theorem goOn (h : j.Open) {e : Option Place}
    (hqueued : e.isSome = true → j.entry.isSome = true ∨ (j.roles w).minds j.flagged = true)
    (hminds : r.minds j.flagged = true → j.entry.isSome = true ∨ (j.roles w).minds j.flagged = true)
    (hdecided : r.decided = true → (j.roles w).decided = true ∨
      (j.roles w).minds j.flagged = true ∧ j.flagged = false) :
    ({ j with entry := e }.goTo w r).Open := by
  have hunder : j.entry.isSome = true ∨ (j.roles w).minds j.flagged = true → ∀ state,
      j.record = some state → state.isTerminal = true → state = .cancelled ∧ j.flagged = true :=
    fun hunder => hunder.elim h.queued (h.minded w)
  refine ⟨fun he => hunder (hqueued he), fun w' hw' => ?_, fun w' hw' => ?_⟩
  · obtain rfl | hne := eq_or_ne w' w
    · rw [goTo_roles_self] at hw'
      exact hunder (hminds hw')
    · rw [goTo_roles_of_ne hne] at hw'
      exact h.minded w' hw'
  · obtain rfl | hne := eq_or_ne w' w
    · rw [goTo_roles_self] at hw'
      rcases hdecided hw' with hbefore | ⟨hminds, hflag⟩
      · exact h.decided w' hbefore
      · intro state hstate
        rw [← Bool.not_eq_true]
        intro hterminal
        have hflagged := (h.minded w' hminds state hstate hterminal).2
        rw [hflag] at hflagged
        cases hflagged
    · rw [goTo_roles_of_ne hne] at hw'
      exact h.decided w' hw'

/-- The flag goes up. -/
theorem flag (h : j.Open) : j.flag.Open := by
  refine ⟨fun he state hstate hterminal => ?_, fun w hw state hstate hterminal => ?_, h.decided⟩
  · exact ⟨(h.queued he state hstate hterminal).1, rfl⟩
  · exact ⟨(h.minded w (Role.minds_of_flagged hw) state hstate hterminal).1, rfl⟩

/-- A job that waits is cancelled before anyone has decided. -/
theorem cancel (hdecided : ∀ w, (j.roles w).decided = false) : j.cancel.Open := by
  refine ⟨fun _ state hstate _ => ⟨(Option.some.inj hstate).symm, rfl⟩,
    fun _ _ state hstate _ => ⟨(Option.some.inj hstate).symm, rfl⟩, fun w hw => ?_⟩
  rw [show (j.cancel.roles w).decided = false from hdecided w] at hw
  cases hw

/-- The job ends: nobody else has anything to do with it. -/
theorem finish (hsound : j.Sound) {cancelled : Bool} (hw : j.roles w = .deciding cancelled)
    {record : Option JobState} {expires : Bool} :
    ({ j with record := record, expires := expires }.goTo w .away).Open := by
  have howner : j.Owner w := by
    rw [Owner, hw]
    rfl
  have halone : ∀ w', w' ≠ w → ¬j.Owner w' ∧ (j.roles w').submits = false := by
    intro w' hne
    refine ⟨fun howner' => hne (hsound.unique w' w howner' howner), ?_⟩
    rw [Bool.eq_false_iff]
    intro hsubmits
    rw [hsound.alone w' hsubmits w hne.symm] at hw
    cases hw
  have hentry : j.entry = none := hsound.outside w (by rw [hw]; rfl)
  refine ⟨fun he => ?_, fun w' hw' => ?_, fun w' hw' => ?_⟩
  · have he : j.entry.isSome = true := he
    rw [hentry] at he
    cases he
  · obtain rfl | hne := eq_or_ne w' w
    · rw [goTo_roles_self] at hw'
      cases hw'
    · rw [goTo_roles_of_ne hne] at hw'
      obtain ⟨hnot, hsubmits⟩ := halone w' hne
      rcases Role.owns_of_minds hw' with howns | hsub
      · exact absurd howns hnot
      · rw [show (j.roles w').submits = false from hsubmits] at hsub
        cases hsub
  · obtain rfl | hne := eq_or_ne w' w
    · rw [goTo_roles_self] at hw'
      cases hw'
    · rw [goTo_roles_of_ne hne] at hw'
      exact absurd (Role.owns_of_decided hw') (halone w' hne).1

end Open

end Life

/-- **Moves keep a life open.** -/
theorem Move.isOpen {j j' : Life} (hsound : j.Sound) (h : j.Open) (hmove : Move j j') : j'.Open := by
  have hqueued : ∀ {w : ℕ} {e : Place}, j.entry = some e →
      j.entry.isSome = true ∨ (j.roles w).minds j.flagged = true := by
    intro w e he
    rw [he]
    exact .inl rfl
  have hnotDecided : ∀ {w : ℕ} {r : Role}, r.decided = false → r.decided = true →
      (j.roles w).decided = true ∨ (j.roles w).minds j.flagged = true ∧ j.flagged = false := by
    intro w r hr htrue
    rw [hr] at htrue
    cases htrue
  cases hmove with
  | name _ _ held =>
    refine (h.goOn (w := _) (r := .naming held) (e := j.entry) .inl ?_ (hnotDecided rfl)).congr rfl rfl rfl rfl
    exact Bool.noConfusion
  | accept hw =>
    refine .of_live fun state hstate => ?_
    cases hstate
    rfl
  | rollback hw | sweep hexpires =>
    refine .of_live fun state hstate => ?_
    cases hstate
  | refuse hw | repay hw =>
    refine (h.goOn (w := _) (r := _) (e := j.entry) .inl ?_ (hnotDecided rfl)).congr rfl rfl rfl rfl
    exact Bool.noConfusion
  | enqueue hw model =>
    exact h.goOn (fun _ => .inr (by rw [hw]; rfl)) Bool.noConfusion (hnotDecided rfl)
  | take hw he _ _ => exact h.goOn (fun _ => hqueued he) (fun _ => hqueued he) (hnotDecided rfl)
  | discard hw he _ => exact h.goOn Bool.noConfusion (fun _ => hqueued he) (hnotDecided rfl)
  | reread hw =>
    refine h.goOn .inl Bool.noConfusion fun hdown => .inr ?_
    rw [hw]
    exact ⟨hdown, by simpa [Role.decided] using hdown⟩
  | discharge hw =>
    refine (h.goOn (w := _) (r := _) (e := j.entry) .inl ?_ ?_).congr rfl rfl rfl rfl
    · split <;> exact Bool.noConfusion
    · rw [hw]
      split
      · rename_i hexpired
        exact fun _ => .inl hexpired
      · exact Bool.noConfusion
  | reserve hw =>
    have hminds : _ = true := congrArg (Role.minds j.flagged) hw
    exact h.goOn (fun _ => .inr hminds) (fun _ => .inr hminds) (hnotDecided rfl)
  | park hw held =>
    refine (h.goOn (w := _) (r := _) (e := j.entry) .inl ?_ (hnotDecided rfl)).congr rfl rfl rfl rfl
    exact fun _ => .inr (by rw [hw]; rfl)
  | putBack hw he _ => exact h.goOn (fun _ => hqueued he) Bool.noConfusion (hnotDecided rfl)
  | putDown hw he => exact h.goOn (fun _ => hqueued he) (fun _ => hqueued he) (hnotDecided rfl)
  | missing hw _ => exact h.goOn .inl (fun _ => .inr (by rw [hw]; rfl)) (hnotDecided rfl)
  | leave hw =>
    refine h.goOn Bool.noConfusion (fun _ => .inr ?_) (hnotDecided rfl)
    rcases hw with hw | ⟨_, _, _, hw⟩ <;> rw [hw] <;> rfl
  | release hw =>
    refine (h.goOn (w := _) (r := _) (e := j.entry) .inl ?_ (hnotDecided rfl)).congr rfl rfl rfl rfl
    exact fun _ => .inr (by rw [hw]; rfl)
  | decide hw =>
    have hminds : _ = true := congrArg (Role.minds j.flagged) hw
    refine h.goOn .inl (fun _ => .inr hminds) fun hdown => .inr ⟨hminds, ?_⟩
    exact by simpa [Role.decided] using hdown
  | finish hw _ _ => exact .finish hsound hw
  | requeue _ _ | start _ _ =>
    refine .of_live fun state hstate => ?_
    cases hstate
    rfl

/-! ### What has ended -/

/-- The job was submitted, and its record was terminal: it is as it was, or swept. -/
structure Life.Ended (state : JobState) (j : Life) : Prop where
  named : j.named = true
  submitted : ∀ w held, j.roles w ≠ .naming held
  record : j.record = some state ∨ j.record = none

/-- **Moves leave what has ended.** -/
theorem Move.ended {state : JobState} (hterminal : state.isTerminal = true) {j j' : Life} (hopen : j.Open)
    (h : j.Ended state) (hmove : Move j j') : j'.Ended state := by
  obtain ⟨hnamed, hsubmitted, hrecord⟩ := h
  have hroles : ∀ {w : ℕ} {r : Role}, (∀ held, r ≠ .naming held) →
      ∀ w' held, (j.goTo w r).roles w' ≠ .naming held := by
    intro w r hr w' held
    obtain rfl | hne := eq_or_ne w' w
    · rw [Life.goTo_roles_self]
      exact hr held
    · rw [Life.goTo_roles_of_ne hne]
      exact hsubmitted w' held
  cases hmove with
  | name hnew _ held =>
    rw [hnamed] at hnew
    cases hnew
  | accept hw | refuse hw => exact absurd hw (hsubmitted _ _)
  | rollback hw => exact ⟨hnamed, hroles fun _ => Role.noConfusion, .inr rfl⟩
  | sweep _ => exact ⟨hnamed, hsubmitted, .inr rfl⟩
  | discharge hw =>
    refine ⟨hnamed, hroles fun held => ?_, hrecord⟩
    split <;> exact Role.noConfusion
  | finish hw hcancelled hended =>
    refine ⟨hnamed, hroles fun _ => Role.noConfusion, ?_⟩
    rcases hrecord with hrecord | hrecord
    · left
      rename_i cancelled state'
      cases cancelled with
      | true =>
        have hstate := (hopen.minded _ (by rw [hw]; rfl) state hrecord hterminal).1
        show j.record.map _ = _
        rw [hrecord, hcancelled rfl, hstate]
        rfl
      | false =>
        rw [hopen.decided _ (by rw [hw]; rfl) state hrecord] at hterminal
        cases hterminal
    · right
      show j.record.map _ = _
      rw [hrecord]
      rfl
  | requeue hlive hnot | start hlive hnot =>
    rcases hrecord with hrecord | hrecord
    · rw [hrecord] at hlive
      cases hlive
      first | cases hterminal | (rw [hterminal] at hnot; cases hnot)
    · rw [hrecord] at hlive
      cases hlive
  | _ => exact ⟨hnamed, hroles fun _ => Role.noConfusion, hrecord⟩

namespace Router

variable {s : Router} {id : JobId} {e : Event}

/-- No job that waits is cancelled once a worker has read its flag for the last time, and before that
worker has recorded how the job ended. -/
def Timely (s : Router) (e : Event) : Prop :=
  ∀ id, s.Cancels id e → ∀ w, ((s.tasks w).role id).decided = false

/-- What orderly steps keep that cancel no job too late. -/
structure Steady (s : Router) : Prop where
  sound : s.Sound
  isOpen : ∀ id, (s.life id).Open

theorem Steady.step (h : s.Steady) (horderly : s.Orderly e) (htimely : s.Timely e) : (s.step e).Steady := by
  refine ⟨h.sound.step horderly, fun id => ?_⟩
  rcases step_follows h.sound e id with (heq | hmove) | ⟨hcancels, heq⟩ | ⟨-, heq⟩
  · rw [heq]
    exact h.isOpen id
  · exact hmove.isOpen (h.sound.lives id) (h.isOpen id)
  · rw [heq]
    exact .cancel (htimely id hcancels)
  · rw [heq]
    exact (h.isOpen id).flag

theorem boot_steady (limits : JobLimits) : (boot limits).Steady :=
  ⟨boot_sound limits, fun _ => .of_live fun _ hstate => nomatch hstate⟩

theorem ended_step {state : JobState} (hterminal : state.isTerminal = true) (hsteady : s.Steady)
    (h : (s.life id).Ended state) (e : Event) : ((s.step e).life id).Ended state := by
  rcases step_follows hsteady.sound e id with (heq | hmove) | ⟨hcancels, -⟩ | ⟨-, heq⟩
  · rw [heq]
    exact h
  · exact hmove.ended hterminal (hsteady.isOpen id) h
  · -- Only a job that waits is cancelled.
    rcases h.record with hrecord | hrecord
    · rw [hcancels.record, Option.some.injEq] at hrecord
      rw [← hrecord] at hterminal
      cases hterminal
    · rw [hcancels.record] at hrecord
      cases hrecord
  · rw [heq]
    exact ⟨h.named, h.submitted, h.record⟩

/-- **A terminal job never changes its state**: in every orderly run that cancels no job too late, what
was found terminal is found the same, until it is swept. -/
theorem terminal_stays (limits : JobLimits) (es fs : List Event)
    (h : StepsMeet step (fun s e => s.Orderly e ∧ s.Timely e) (boot limits) (es ++ fs)) (id : JobId)
    (state : JobState) (hstate : (run step (boot limits) es).store.record? id = some state)
    (hterminal : state.isTerminal = true) :
    (run step (boot limits) (es ++ fs)).store.record? id = some state ∨
      (run step (boot limits) (es ++ fs)).store.record? id = none := by
  have hsteady : (run step (boot limits) es).Steady :=
    run_invariant_of_steps (P := Steady) (fun _ _ hsteady hmeets => hsteady.step hmeets.1 hmeets.2)
      (boot_steady limits) es h.append_left
  have hended : ((run step (boot limits) es).life id).Ended state := by
    have hblank : ¬(((run step (boot limits) es).life id).named = false ∨
        ∃ w held, ((run step (boot limits) es).life id).roles w = .naming held) := by
      intro hnew
      have hnone := hsteady.sound.blank id hnew
      rw [show ((run step (boot limits) es).life id).record = some state from hstate] at hnone
      cases hnone
    rw [not_or, Bool.not_eq_false, not_exists] at hblank
    exact ⟨hblank.1, fun w held hw => hblank.2 w ⟨held, hw⟩, .inl hstate⟩
  rw [run_append]
  exact (run_invariant_of_steps (P := fun s : Router => s.Steady ∧ (s.life id).Ended state)
    (fun s e hs hmeets => ⟨hs.1.step hmeets.1 hmeets.2, ended_step hterminal hs.1 hs.2 e⟩)
    ⟨hsteady, hended⟩ fs h.append_right).2.record

namespace Sample

/-- A job is cancelled while its record says that it runs, and it is recorded as cancelled. -/
def cancelledRunning : List Event :=
  submitted 0 "a" none ++ [Event.work 1] ++ goesOn 1 3 ++ [Event.cancel "a" "tenant" 5 5, fails 1] ++ goesOn 1 6

/-- A sufficient condition that can be evaluated: nothing that waits is cancelled. -/
def Waits (s : Router) : Event → Prop
  | .cancel id _ _ _ => ∃ job ∈ s.store.job? id, job.view.state = .queued
  | _ => False

instance (s : Router) (e : Event) : Decidable (Waits s e) := by
  unfold Waits
  split <;> infer_instance

theorem timely_of_not_waits (s : Router) (e : Event) (h : ¬Waits s e) : s.Timely e := by
  intro id hcancels
  cases e with
  | cancel k tenant nowWallMs nowMs =>
    obtain ⟨rfl, job, hjob, -, hqueued⟩ := hcancels
    exact absurd ⟨job, hjob, hqueued⟩ h
  | _ => cases hcancels

theorem cancelled_running_stays :
    (run step (boot .default) cancelledRunning).store.record? "a" = some .cancelled ∧
      ((run step (boot .default) (cancelledRunning ++ [Event.cancel "a" "tenant" 9 9])).store.record? "a" =
          some .cancelled ∨
        (run step (boot .default) (cancelledRunning ++ [Event.cancel "a" "tenant" 9 9])).store.record? "a" = none) := by
  have hmeets : StepsMeet step (fun s e => s.Orderly e ∧ ¬Waits s e) (boot .default)
      (cancelledRunning ++ [Event.cancel "a" "tenant" 9 9]) := by
    decide +kernel
  have hstate : (run step (boot .default) cancelledRunning).store.record? "a" = some .cancelled := by
    decide +kernel
  exact ⟨hstate, terminal_stays .default cancelledRunning [.cancel "a" "tenant" 9 9]
    (hmeets.mono fun s e h => ⟨h.1, timely_of_not_waits s e h.2⟩) "a" .cancelled hstate rfl⟩

/-- A worker takes a job that fails at once, and reads its flag; then the job is cancelled, as its
record says that it waits. -/
def cancelledLate : List Event :=
  submitted 0 "a" none ++ [Event.work 1] ++ goesOn 1 1 ++ [fails 1] ++ goesOn 1 5 ++ [Event.cancel "a" "tenant" 5 5]

/-- A job that was found cancelled is found failed. -/
theorem cancelled_then_failed :
    (run step (boot .default) cancelledLate).store.record? "a" = some .cancelled ∧
      (run step (boot .default) (cancelledLate ++ goesOn 1 1)).store.record? "a" = some .failed := by
  decide +kernel

end Sample

end Router

end HypeLlm.Jobs
