import HypeLlm.Jobs.Terminal

/-!
# What leaves the queue ends

A job whose entry leaves the queue is finished by the worker that took it out, unless its flag is up by
then: in that case its record is taken to say already that it was cancelled.  It does not where the
client cancelled it while its record still said that it runs, and its worker had put its entry back
already: the flag is up, the record is put back as well, and nobody finishes the job.

* `Life.Owed` — a job that has not ended waits unflagged, or is in hand;
* **`ends_of_run`** — in every run without a shutdown in which no running job is cancelled that nobody
  has in hand, a job nobody deals with has ended, and its record expires;
* `Sample.queued_for_ever` — otherwise a job stays in the table as one that waits.
-/

namespace HypeLlm.Jobs

open HypeLlm.Words HypeLlm.Routing HypeLlm.Tables HypeLlm.Runs

namespace Role

/-- The job ends by this thread, or is queued by it. -/
@[grind] def keeps (flagged : Bool) : Role → Bool
  | .enlisting _ => !flagged
  | r => r.owns flagged

theorem keeps_of_owns {r : Role} {flagged : Bool} (h : r.owns flagged = true) : r.keeps flagged = true := by
  cases r <;> first | exact h | cases h

end Role

namespace Life

variable {j j' : Life} {w : ℕ} {r : Role}

/-- The job waits, and can be taken. -/
def Waits (j : Life) : Prop := ∃ e, j.entry = some e ∧ e.trying = false ∧ j.flagged = false

/-- Somebody will see to the job: it waits, or a thread has it in hand. -/
def Cared (j : Life) : Prop := j.Waits ∨ ∃ w, (j.roles w).keeps j.flagged = true

/-- The job is being named, or was not yet. -/
def Fresh (j : Life) : Prop := j.named = false ∨ ∃ w held, j.roles w = .naming held

/-- What holds of a life while nobody shuts the store down. -/
structure Owed (j : Life) : Prop where
  live : ∀ state, j.record = some state → state.isTerminal = false → j.Cared
  ended : ∀ state, j.record = some state → state.isTerminal = true → j.expires = true
  fresh : j.Fresh → j.flagged = false

/-- **A thread goes on**: it cares for the job if it did, or leaves it to the queue. -/
theorem Cared.goOn (h : j.Cared) {e : Option Place}
    (hgoOn : j.Waits ∨ (j.roles w).keeps j.flagged = true →
      Waits { j with entry := e } ∨ r.keeps j.flagged = true) :
    ({ j with entry := e }.goTo w r).Cared := by
  have hnow : j.Waits ∨ (j.roles w).keeps j.flagged = true → ({ j with entry := e }.goTo w r).Cared := by
    intro hbefore
    rcases hgoOn hbefore with hwaits | hr
    · exact .inl hwaits
    · exact .inr ⟨w, by rw [goTo_roles_self]; exact hr⟩
  rcases h with hwaits | ⟨w', hw'⟩
  · exact hnow (.inl hwaits)
  · obtain rfl | hne := eq_or_ne w' w
    · exact hnow (.inr hw')
    · exact .inr ⟨w', by rw [goTo_roles_of_ne hne]; exact hw'⟩

/-- A thread that does not name the job makes it no fresher. -/
theorem Fresh.of_goTo (hr : ∀ held, r ≠ .naming held) (h : (j.goTo w r).Fresh) : j.Fresh := by
  rcases h with hnew | ⟨w', held, hw'⟩
  · exact .inl hnew
  · obtain rfl | hne := eq_or_ne w' w
    · rw [goTo_roles_self] at hw'
      exact absurd hw' (hr held)
    · rw [goTo_roles_of_ne hne] at hw'
      exact .inr ⟨w', held, hw'⟩

namespace Owed

/-- Nothing is owed to a job without a record. -/
theorem of_none (hrecord : j.record = none) (hfresh : j.Fresh → j.flagged = false) : j.Owed := by
  refine ⟨fun state hstate => ?_, fun state hstate => ?_, hfresh⟩ <;> rw [hrecord] at hstate <;> cases hstate

/-- What is said of a job does not depend on the counts. -/
theorem congr (h : j.Owed) (hnamed : j'.named = j.named) (hrecord : j'.record = j.record)
    (hexpires : j'.expires = j.expires) (hflag : j'.flagged = j.flagged) (hentry : j'.entry = j.entry)
    (hroles : j'.roles = j.roles) : j'.Owed := by
  obtain ⟨h1, h2, h3⟩ := h
  constructor <;> simp only [Cared, Waits, Fresh, hnamed, hrecord, hexpires, hflag, hentry, hroles] at * <;> assumption

/-- **A thread goes on**: it cares for the job if it did, or leaves it to the queue. -/
theorem goOn (h : j.Owed) {e : Option Place} (hr : ∀ held, r ≠ .naming held)
    (hgoOn : j.Waits ∨ (j.roles w).keeps j.flagged = true →
      Waits { j with entry := e } ∨ r.keeps j.flagged = true) :
    ({ j with entry := e }.goTo w r).Owed :=
  ⟨fun state hstate hlive => (h.live state hstate hlive).goOn hgoOn, h.ended,
    fun hfresh => h.fresh (Fresh.of_goTo (j := { j with entry := e }) hr hfresh)⟩

/-- A job that is under way is written to, and stays under way. -/
theorem write (h : j.Owed) {state state' : JobState} (hrecord : j.record = some state)
    (hlive : state.isTerminal = false) (hlive' : state'.isTerminal = false) :
    Owed { j with record := some state' } := by
  refine ⟨fun _ _ _ => h.live state hrecord hlive, fun state'' hstate hterminal => ?_, h.fresh⟩
  obtain rfl := Option.some.inj hstate
  rw [hlive'] at hterminal
  cases hterminal

/-- A job ends. -/
theorem finish (h : j.Owed) {state : JobState} (hterminal : state.isTerminal = true) :
    ({ j with record := j.record.map fun _ => state, expires := j.record.isSome }.goTo w .away).Owed := by
  refine ⟨fun state' hstate hlive => ?_, fun state' hstate _ => ?_, fun hfresh => ?_⟩
  · obtain ⟨-, -, rfl⟩ := Option.map_eq_some_iff.1 hstate
    rw [hterminal] at hlive
    cases hlive
  · obtain ⟨old, hold, -⟩ := Option.map_eq_some_iff.1 hstate
    exact Option.isSome_iff_exists.2 ⟨old, hold⟩
  · exact h.fresh (Fresh.of_goTo (fun _ => Role.noConfusion) hfresh)

/-- A job is cancelled while it waits. -/
theorem cancel (hrecord : j.record = some .queued) (hblank : j.Blank) : j.cancel.Owed := by
  refine ⟨fun state hstate hlive => ?_, fun _ _ _ => rfl, fun hfresh => ?_⟩
  · obtain rfl := Option.some.inj hstate
    cases hlive
  · rw [hblank hfresh] at hrecord
    cases hrecord

/-- A job that runs is flagged: a thread has it in hand, whether it is flagged or not. -/
theorem flag (hrecord : j.record = some .running) (hblank : j.Blank)
    (hhand : ∃ w, (j.roles w).owns true = true) : j.flag.Owed := by
  refine ⟨fun _ _ _ => ?_, fun state hstate hterminal => ?_, fun hfresh => ?_⟩
  · obtain ⟨w, hw⟩ := hhand
    exact .inr ⟨w, Role.keeps_of_owns hw⟩
  · rw [show j.record = some state from hstate, Option.some.injEq] at hrecord
    rw [hrecord] at hterminal
    cases hterminal
  · rw [hblank hfresh] at hrecord
    cases hrecord

end Owed

end Life

/-- **Moves leave no job uncared for.** -/
theorem Move.owed {j j' : Life} (hblank : j.Blank) (h : j.Owed) (hmove : Move j j') : j'.Owed := by
  -- The thread has the job in hand afterwards, whatever becomes of the entry.
  have hhand : ∀ {w : ℕ} {r : Role} {e : Option Place}, (∀ held, r ≠ .naming held) →
      r.keeps j.flagged = true → ({ j with entry := e }.goTo w r).Owed :=
    fun hr hkeeps => h.goOn hr fun _ => .inr hkeeps
  -- The thread leaves the entry alone, and has the job in hand if it had.
  have hstays : ∀ {w : ℕ} {r r' : Role}, j.roles w = r' → (∀ held, r ≠ .naming held) →
      (r'.keeps j.flagged = true → r.keeps j.flagged = true) → (j.goTo w r).Owed := by
    intro w r r' hw hr hkeeps
    refine h.goOn hr fun hbefore => ?_
    rw [hw] at hbefore
    exact hbefore.imp_right hkeeps
  cases hmove with
  | name hnew _ held => exact .of_none (hblank (.inl hnew)) fun _ => h.fresh (.inl hnew)
  | accept hw =>
    have hflag : j.flagged = false := h.fresh (.inr ⟨_, _, hw⟩)
    refine ⟨fun _ _ _ => .inr ⟨_, (congrArg (Role.keeps j.flagged) (Life.goTo_roles_self ..)).trans
      (congrArg not hflag)⟩, fun state hstate hterminal => ?_, fun _ => hflag⟩
    obtain rfl := Option.some.inj hstate
    cases hterminal
  | refuse hw => exact hstays hw (fun _ => Role.noConfusion) Bool.noConfusion
  | repay hw => exact (hstays hw (fun _ => Role.noConfusion) Bool.noConfusion).congr rfl rfl rfl rfl rfl rfl
  | rollback hw =>
    exact .of_none rfl fun hfresh => h.fresh (Life.Fresh.of_goTo (fun _ => Role.noConfusion) hfresh)
  | sweep _ => exact .of_none rfl h.fresh
  | enqueue hw model =>
    refine h.goOn (fun _ => Role.noConfusion) fun hbefore => .inl ⟨_, rfl, rfl, ?_⟩
    rw [hw] at hbefore
    rcases hbefore with ⟨_, _, _, hflag⟩ | hkeeps
    · exact hflag
    · exact (Bool.not_eq_true' _).mp hkeeps
  | take hw he _ _ => exact hhand (fun _ => Role.noConfusion) rfl
  | discard hw he _ =>
    -- Nobody finds the flag up who could have taken the job.
    refine h.goOn (fun _ => Role.noConfusion) fun hbefore => .inr ?_
    rw [hw] at hbefore
    rcases hbefore with ⟨_, _, _, hflag⟩ | hkeeps
    · exact congrArg not hflag
    · cases hkeeps
  | reread hw => exact hstays hw (fun _ => Role.noConfusion) id
  | discharge hw =>
    refine (hstays hw ?_ fun hkeeps => ?_).congr rfl rfl rfl rfl rfl rfl
    · split <;> exact fun _ => Role.noConfusion
    · split
      · rfl
      · rename_i hnot
        exact absurd hkeeps hnot
  | reserve hw => exact hhand (fun _ => Role.noConfusion) rfl
  | park hw held =>
    exact (hhand (e := j.entry) (fun _ => Role.noConfusion) rfl).congr rfl rfl rfl rfl rfl rfl
  | putBack hw he hflag => exact h.goOn (fun _ => Role.noConfusion) fun _ => .inl ⟨_, rfl, rfl, hflag⟩
  | putDown hw _ | missing hw _ | leave hw => exact hhand (fun _ => Role.noConfusion) rfl
  | release hw => exact (hhand (e := j.entry) (fun _ => Role.noConfusion) rfl).congr rfl rfl rfl rfl rfl rfl
  | decide hw => exact hhand (fun _ => Role.noConfusion) rfl
  | finish hw hcancelled hended =>
    refine h.finish ?_
    rename_i cancelled state
    cases cancelled with
    | true => rw [hcancelled rfl]; rfl
    | false => rcases hended rfl with hstate | hstate <;> rw [hstate] <;> rfl
  | requeue hrecord hlive => exact h.write hrecord hlive rfl
  | start hrecord _ => exact h.write hrecord rfl rfl

namespace Router

variable {s : Router} {id : JobId} {w : ℕ} {e : Event}

/-- Nobody shuts the store down, and a job that runs is cancelled only while a thread has it in hand
that finishes it whether it is flagged or not. -/
def InHand (s : Router) : Event → Prop
  | .shutdown _ => False
  | .cancel id tenant _ _ =>
    (∃ job ∈ s.store.job? id, job.tenant = tenant ∧ job.view.state = .running) →
      ∃ w, ((s.tasks w).role id).owns true = true
  | _ => True

/-- What such steps keep. -/
structure Tended (s : Router) : Prop where
  sound : s.Sound
  stopping : s.store.stopping = false
  flagging : ∀ w, s.tasks w ≠ .flagging
  owed : ∀ id, (s.life id).Owed

/-- Only a shutdown flags what waits. -/
theorem not_flagging_of_proceed (h : s.tasks w ≠ .flagging) (a : Answers) : (s.proceed w a).tasks w ≠ .flagging := by
  cases ht : s.tasks w with
  | flagging => exact absurd ht h
  | _ =>
    simp only [proceed, ht, mint, accept, enqueue, take, pass, judge, resolve, recover, count, putBack, leave]
    (repeat' split) <;> simp [ht]

theorem Tended.step (h : s.Tended) (hhand : s.InHand e) : (s.step e).Tended := by
  have horderly : s.Orderly e := by
    unfold Orderly
    split
    · split
      · intro hstopping
        rw [h.stopping] at hstopping
        cases hstopping
      · trivial
    · trivial
  refine ⟨h.sound.step horderly, ?_, ?_, fun id => ?_⟩
  · cases e with
    | proceed w a => exact (s.settings_proceed w a).2.trans h.stopping
    | shutdown w => exact hhand.elim
    | submit w call | work w =>
      unfold step
      dsimp only
      split <;> exact h.stopping
    | cancel k tenant nowWallMs nowMs =>
      rcases s.store.cancel_cases k nowWallMs nowMs tenant with
        hcancel | ⟨job, -, -, -, ⟨-, hcancel⟩ | ⟨job', -, -, -, -, hcancel⟩⟩ <;>
          simp only [Router.step, hcancel] <;> exact h.stopping
    | read k tenant nowMs => exact h.stopping
  · intro w'
    cases e with
    | proceed w a =>
      obtain rfl | hne := eq_or_ne w' w
      · exact not_flagging_of_proceed (h.flagging w') a
      · have hsame : (s.step (.proceed w a)).tasks w' = s.tasks w' := proceed_tasks_of_ne hne a
        rw [hsame]
        exact h.flagging w'
    | shutdown w => exact hhand.elim
    | submit w call | work w =>
      unfold step
      dsimp only
      split
      · rw [goTo_tasks]
        split
        · exact Task.noConfusion
        · exact h.flagging w'
      · exact h.flagging w'
    | cancel | read => exact h.flagging w'
  · rcases step_follows h.sound e id with (heq | hmove) | ⟨hcancels, heq⟩ | ⟨hflags, heq⟩
    · rw [heq]
      exact h.owed id
    · exact hmove.owed (h.sound.blank id) (h.owed id)
    · rw [heq]
      exact .cancel hcancels.record (h.sound.blank id)
    · rw [heq]
      cases e with
      | cancel k tenant nowWallMs nowMs =>
        obtain ⟨rfl, job, hjob, htenant, hrunning⟩ := hflags
        exact .flag ((life_of_job hjob).1.trans (congrArg some hrunning)) (h.sound.blank k)
          (hhand ⟨job, hjob, htenant, hrunning⟩)
      | proceed w a => exact absurd hflags (h.flagging w)
      | _ => cases hflags

theorem boot_tended (limits : JobLimits) : (boot limits).Tended :=
  ⟨boot_sound limits, rfl, fun _ => Task.noConfusion, fun _ => .of_none rfl fun _ => rfl⟩

/-- The job has ended, and its record expires; or it has no record any more. -/
def HasEnded (s : Router) (id : JobId) : Prop :=
  s.store.record? id = none ∨
    ∃ state, s.store.record? id = some state ∧ state.isTerminal = true ∧ s.store.isExpiring id = true

/-- No thread has anything left to do with the job. -/
def Unhandled (s : Router) (id : JobId) : Prop := ∀ w, (s.tasks w).role id = .away

/-- A job nobody cares for has ended. -/
theorem Tended.hasEnded (h : s.Tended) (hentry : s.store.entryOf id = none) (hunhandled : s.Unhandled id) :
    s.HasEnded id := by
  cases hrecord : s.store.record? id with
  | none => exact .inl hrecord
  | some state =>
    cases hterminal : state.isTerminal with
    | true => exact .inr ⟨state, hrecord, hterminal, (h.owed id).ended state hrecord hterminal⟩
    | false =>
      rcases (h.owed id).live state hrecord hterminal with ⟨e, he, -, -⟩ | ⟨w, hw⟩
      · have hnone : (s.life id).entry = none := congrArg (Option.map _) hentry
        rw [hnone] at he
        cases he
      · rw [show (s.life id).roles w = .away from hunhandled w] at hw
        cases hw

/-- **Every job that leaves the queue ends**: in every run without a shutdown in which each job that is
cancelled while it runs is in hand, a job that is not in the queue and that no thread deals with is
terminal and expires, or was swept. -/
theorem ends_of_run (limits : JobLimits) (es : List Event) (h : StepsMeet step InHand (boot limits) es)
    (id : JobId) (hentry : (run step (boot limits) es).store.entryOf id = none)
    (hunhandled : (run step (boot limits) es).Unhandled id) : (run step (boot limits) es).HasEnded id :=
  (run_invariant_of_steps (P := Tended) (fun _ _ htended hhand => htended.step hhand) (boot_tended limits)
    es h).hasEnded hentry hunhandled

namespace Sample

/-- A sufficient condition that can be evaluated: one of the first threads has the job in hand. -/
def InFirstHands (n : ℕ) (s : Router) : Event → Prop
  | .shutdown _ => False
  | .cancel id _ _ _ =>
    (∃ job ∈ s.store.job? id, job.view.state = .running) →
      ∃ w ∈ List.range n, ((s.tasks w).role id).owns true = true
  | _ => True

instance (n : ℕ) (s : Router) : ∀ e : Event, Decidable (InFirstHands n s e)
  | .shutdown _ => inferInstanceAs (Decidable False)
  | .cancel id _ _ _ =>
    inferInstanceAs (Decidable ((∃ job ∈ s.store.job? id, job.view.state = .running) →
      ∃ w ∈ List.range n, ((s.tasks w).role id).owns true = true))
  | .submit .. | .work .. | .proceed .. | .read .. => inferInstanceAs (Decidable True)

theorem inHand_of_first {n : ℕ} (s : Router) (e : Event) (h : InFirstHands n s e) : s.InHand e := by
  cases e with
  | cancel id tenant nowWallMs nowMs =>
    rintro ⟨job, hjob, -, hrunning⟩
    obtain ⟨w, -, hw⟩ := h ⟨job, hjob, hrunning⟩
    exact ⟨w, hw⟩
  | _ => exact h

/-- The event is a step of one of the first threads. -/
def OfFirst (n : ℕ) : Event → Prop
  | .submit w _ | .shutdown w | .work w | .proceed w _ => w < n
  | _ => True

instance (n : ℕ) : ∀ e : Event, Decidable (OfFirst n e)
  | .submit w _ | .shutdown w | .work w | .proceed w _ => inferInstanceAs (Decidable (w < n))
  | .cancel .. | .read .. => inferInstanceAs (Decidable True)

/-- The other threads stay as they are. -/
theorem tasks_of_ofFirst {n : ℕ} {es : List Event} (h : ∀ e ∈ es, OfFirst n e) {w : ℕ} (hw : n ≤ w) (s : Router) :
    (run step s es).tasks w = s.tasks w := by
  induction es generalizing s with
  | nil => rfl
  | cons e es ih =>
    have hfirst := h e (List.mem_cons_self ..)
    rw [run_cons, ih fun e he => h e (List.mem_cons_of_mem _ he)]
    cases e with
    | proceed w' a =>
      have hlt : w' < n := hfirst
      exact proceed_tasks_of_ne (by omega) a
    | submit w' call | work w' | shutdown w' =>
      have hlt : w' < n := hfirst
      have hne : w ≠ w' := by omega
      unfold step
      dsimp only
      split
      · exact (goTo_tasks ..).trans (if_neg hne)
      · rfl
    | cancel | read => rfl

theorem unhandled_of_ofFirst {n : ℕ} {es : List Event} {limits : JobLimits} (hes : ∀ e ∈ es, OfFirst n e)
    (hfirst : ∀ w ∈ List.range n, ((run step (boot limits) es).tasks w).role id = .away) :
    (run step (boot limits) es).Unhandled id := by
  intro w
  by_cases hw : w < n
  · exact hfirst w (List.mem_range.2 hw)
  · rw [tasks_of_ofFirst hes (not_lt.1 hw)]
    rfl

/-- A job that was cancelled while it ran has ended. -/
theorem cancelled_running_ends : (run step (boot .default) cancelledRunning).HasEnded "a" := by
  have hmeets : StepsMeet step (InFirstHands 2) (boot .default) cancelledRunning := by decide +kernel
  exact ends_of_run .default cancelledRunning (hmeets.mono inHand_of_first) "a" (by decide +kernel)
    (unhandled_of_ofFirst (n := 2) (by decide +kernel) (by decide +kernel))

/-- A job that ran is put back into the queue.  Before its record is, it is cancelled, and a second
worker takes its entry out; its flag is up, so it is not finished. -/
def cancelledBetween : List Event :=
  submitted 0 "a" none ++ [Event.work 1, .work 2] ++ goesOn 1 3 ++ [returns 1] ++ goesOn 1 2 ++
    [Event.cancel "a" "tenant" 5 5] ++ goesOn 2 3 ++ goesOn 1 1

/-- A job stays in the table as one that waits, and nobody deals with it. -/
theorem queued_for_ever :
    (run step (boot .default) cancelledBetween).store.entryOf "a" = none ∧
      (run step (boot .default) cancelledBetween).Unhandled "a" ∧
      (run step (boot .default) cancelledBetween).store.record? "a" = some .queued ∧
      (run step (boot .default) cancelledBetween).store.stopping = false ∧
      ¬(run step (boot .default) cancelledBetween).HasEnded "a" := by
  have hrecord : (run step (boot .default) cancelledBetween).store.record? "a" = some .queued := by
    decide +kernel
  refine ⟨by decide +kernel, unhandled_of_ofFirst (n := 3) (by decide +kernel) (by decide +kernel), hrecord,
    by decide +kernel, ?_⟩
  rintro (hnone | ⟨state, hstate, hterminal, -⟩)
  · rw [hrecord] at hnone
    cases hnone
  · rw [hrecord] at hstate
    cases hstate
    cases hterminal

end Sample

end Router

end HypeLlm.Jobs
