import HypeLlm.Jobs.Store

/-!
# The life of one job

What matters of one job while any number of threads deal with it: the state in its record, its flag,
its entry in the queue, how far each thread has come with it, and how often it was counted as parked
demand.  `Move` lists the moves such a life makes, whichever thread makes them.

* `Life.Sound` — at most one thread has the job in hand, and a thread that tries it has its entry
  marked;
* `Life.Balanced` — each count of parked demand is held by one thread or by the entry, until it is
  undone;
* **`Move.sound`, `Move.balanced`** — moves keep both, as long as no unflagged job is put down.
-/

namespace HypeLlm.Jobs

/-- What a thread has to do with a job.  `held` tells that it holds a count of parked demand. -/
inductive Role where
  | away
  /-- The job has an identifier, and no record yet. -/
  | naming (held : Bool)
  /-- It has a record, and is to be queued. -/
  | enlisting (held : Bool)
  | refused (held : Bool)
  /-- The job is tried: for a model, with what the entry held, and with or without reservations. -/
  | trying (model : AliasId) (parked admitted held : Bool)
  /-- The mark is cleared, and the entry is to be removed. -/
  | dropping
  /-- The job has left the queue and is to end. -/
  | settling (held : Bool)
  /-- What is recorded is decided. -/
  | deciding (cancelled : Bool)
  /-- The entry left the queue without running, and the flag is to be read again. -/
  | discarding (held : Bool)
  | discarded (held expired : Bool)
  deriving Repr, DecidableEq

namespace Role

/-- A count of parked demand is in the thread's hands. -/
@[grind] def holds : Role → Bool
  | .naming h | .enlisting h | .refused h | .trying _ _ _ h | .settling h | .discarding h
  | .discarded h _ => h
  | .away | .dropping | .deciding _ => false

/-- The thread tries the job, or is about to remove its entry. -/
@[grind] def tries : Role → Bool
  | .trying .. | .dropping => true
  | _ => false

/-- The thread has the job in hand, and the job ends or goes back to the queue by it. -/
@[grind] def owns (flagged : Bool) : Role → Bool
  | .trying .. | .dropping | .settling _ | .deciding _ => true
  | .discarding _ => !flagged
  | .discarded _ expired => expired
  | .away | .naming _ | .enlisting _ | .refused _ => false

/-- The thread submits the job. -/
@[grind] def submits : Role → Bool
  | .naming _ | .enlisting _ | .refused _ => true
  | _ => false

/-- The job is not in the queue while a thread is there. -/
@[grind] def outside : Role → Bool
  | .naming _ | .enlisting _ | .refused _ | .settling _ | .deciding _ | .discarding _
  | .discarded _ _ => true
  | .away | .trying .. | .dropping => false

/-- A thread that tries a job has it in hand. -/
theorem owns_of_tries {r : Role} {flagged : Bool} (h : r.tries = true) : r.owns flagged = true := by
  cases r <;> first | rfl | cases h

/-- Before the queue there is nothing in the queue. -/
theorem outside_of_submits {r : Role} (h : r.submits = true) : r.outside = true := by
  cases r <;> first | rfl | cases h

/-- A thread that tries no job holds a count only while the job is not in the queue. -/
theorem outside_of_holds {r : Role} (h : r.holds = true) (htries : r.tries = false) : r.outside = true := by
  cases r <;> first | rfl | (cases h; done) | cases htries

/-- A job that is flagged is in nobody's hands but those it is in anyway. -/
theorem owns_of_flagged {r : Role} {flagged : Bool} (h : r.owns true = true) : r.owns flagged = true := by
  cases r <;> first | exact h | cases h

/-- A thread that does not try the job goes from one place to another and gains nothing. -/
structure Yields (flagged : Bool) (r r' : Role) : Prop where
  present : r ≠ .away
  tries : r.tries = false
  tries' : r'.tries = false
  owns : r'.owns flagged = true → r.owns flagged = true
  submits : r'.submits = true → r.submits = true
  outside : r'.outside = true → r.outside = true

end Role

/-- An entry of the queue. -/
structure Place where
  model : AliasId
  trying : Bool
  started : Bool
  parked : Bool
  deriving Repr, DecidableEq

/-- One job, and what the threads do with it. -/
structure Life where
  named : Bool
  record : Option JobState
  expires : Bool
  flagged : Bool
  entry : Option Place
  roles : ℕ → Role
  parks : ℕ
  releases : ℕ

namespace Life

def goTo (j : Life) (w : ℕ) (r : Role) : Life := { j with roles := Function.update j.roles w r }

/-- The flag goes up. -/
def flag (j : Life) : Life := { j with flagged := true }

/-- A job that waits is cancelled. -/
def cancel (j : Life) : Life := { j with record := some .cancelled, expires := true, flagged := true }

end Life

/-- The moves of a life, but for its cancellation and its flag. -/
inductive Move : Life → Life → Prop where
  | name {j : Life} {w : ℕ} (hnew : j.named = false) (hw : j.roles w = .away) (held : Bool) :
      Move j ({ j with named := true, parks := j.parks + held.toNat }.goTo w (.naming held))
  | accept {j : Life} {w : ℕ} {held : Bool} (hw : j.roles w = .naming held) :
      Move j ({ j with record := some .queued, expires := false }.goTo w (.enlisting held))
  | refuse {j : Life} {w : ℕ} {held : Bool} (hw : j.roles w = .naming held) :
      Move j (j.goTo w (.refused held))
  | enqueue {j : Life} {w : ℕ} {held : Bool} (hw : j.roles w = .enlisting held) (model : AliasId) :
      Move j ({ j with entry := some ⟨model, false, false, held⟩ }.goTo w .away)
  | rollback {j : Life} {w : ℕ} {held : Bool} (hw : j.roles w = .enlisting held) :
      Move j ({ j with record := none, expires := false }.goTo w (.refused held))
  | repay {j : Life} {w : ℕ} {held : Bool} (hw : j.roles w = .refused held) :
      Move j ({ j with releases := j.releases + held.toNat }.goTo w .away)
  | take {j : Life} {w : ℕ} {e : Place} (hw : j.roles w = .away) (he : j.entry = some e)
      (htrying : e.trying = false) (hflag : j.flagged = false) :
      Move j ({ j with entry := some ⟨e.model, true, e.started, e.parked⟩ }.goTo w
        (.trying e.model e.parked false false))
  | discard {j : Life} {w : ℕ} {e : Place} (hw : j.roles w = .away) (he : j.entry = some e)
      (htrying : e.trying = false) : Move j ({ j with entry := none }.goTo w (.discarding e.parked))
  | reread {j : Life} {w : ℕ} {held : Bool} (hw : j.roles w = .discarding held) :
      Move j (j.goTo w (.discarded held (!j.flagged)))
  | discharge {j : Life} {w : ℕ} {held expired : Bool} (hw : j.roles w = .discarded held expired) :
      Move j ({ j with releases := j.releases + held.toNat }.goTo w
        (if expired then .deciding false else .away))
  | reserve {j : Life} {w : ℕ} {model : AliasId} {parked admitted held : Bool}
      (hw : j.roles w = .trying model parked admitted held) :
      Move j ({ j with entry := j.entry.map fun e : Place => ⟨e.model, e.trying, true, e.parked⟩ }.goTo w
        (.trying model parked true held))
  | park {j : Life} {w : ℕ} {model : AliasId} {admitted : Bool}
      (hw : j.roles w = .trying model false admitted false) (held : Bool) :
      Move j ({ j with parks := j.parks + held.toNat }.goTo w (.trying model false admitted held))
  | putBack {j : Life} {w : ℕ} {model : AliasId} {parked admitted held : Bool} {e : Place}
      (hw : j.roles w = .trying model parked admitted held) (he : j.entry = some e)
      (hflag : j.flagged = false) :
      Move j ({ j with entry := some ⟨e.model, false, false, e.parked || held⟩ }.goTo w .away)
  | putDown {j : Life} {w : ℕ} {model : AliasId} {parked admitted held : Bool} {e : Place}
      (hw : j.roles w = .trying model parked admitted held) (he : j.entry = some e) :
      Move j ({ j with entry := some ⟨e.model, false, e.started, e.parked || held⟩ }.goTo w .dropping)
  | missing {j : Life} {w : ℕ} {model : AliasId} {parked admitted held : Bool}
      (hw : j.roles w = .trying model parked admitted held) (he : j.entry = none) :
      Move j (j.goTo w (.settling held))
  | leave {j : Life} {w : ℕ}
      (hw : j.roles w = .dropping ∨ ∃ model parked admitted, j.roles w = .trying model parked admitted false) :
      Move j ({ j with entry := none }.goTo w (.settling (j.entry.any Place.parked)))
  | release {j : Life} {w : ℕ} {held : Bool} (hw : j.roles w = .settling held) :
      Move j ({ j with releases := j.releases + held.toNat }.goTo w (.settling false))
  | decide {j : Life} {w : ℕ} (hw : j.roles w = .settling false) : Move j (j.goTo w (.deciding j.flagged))
  | finish {j : Life} {w : ℕ} {cancelled : Bool} {state : JobState} (hw : j.roles w = .deciding cancelled)
      (hcancelled : cancelled = true → state = .cancelled)
      (hended : cancelled = false → state = .succeeded ∨ state = .failed) :
      Move j ({ j with record := j.record.map fun _ => state, expires := j.record.isSome }.goTo w .away)
  | requeue {j : Life} {state : JobState} (hrecord : j.record = some state) (hlive : state.isTerminal = false) :
      Move j { j with record := some .queued }
  | start {j : Life} (hrecord : j.record = some .queued) (hflag : j.flagged = false) :
      Move j { j with record := some .running }
  | sweep {j : Life} (hexpires : j.expires = true) : Move j { j with record := none, expires := false }

/-! ### One thread at a time -/

namespace Life

/-- The thread has the job in hand. -/
def Owner (j : Life) (w : ℕ) : Prop := (j.roles w).owns j.flagged = true

/-- What holds of a life between moves. -/
structure Sound (j : Life) : Prop where
  unnamed : j.named = false → j.entry = none ∧ ∀ w, j.roles w = .away
  alone : ∀ w, (j.roles w).submits = true → ∀ w', w' ≠ w → j.roles w' = .away
  outside : ∀ w, (j.roles w).outside = true → j.entry = none
  unique : ∀ w w', j.Owner w → j.Owner w' → w = w'
  tried : ∀ w model parked admitted held, j.roles w = .trying model parked admitted held →
    j.entry = some ⟨model, true, admitted, parked⟩ ∧ (held = true → parked = false)
  dropped : ∀ w, j.roles w = .dropping → j.flagged = true ∧ ∀ e, j.entry = some e → e.trying = false
  marked : ∀ e, j.entry = some e → e.trying = true → ∃ w, (j.roles w).tries = true
  waiting : ∀ e, j.entry = some e → e.trying = false → j.flagged = false → e.started = false

@[simp] theorem goTo_roles_self (j : Life) (w : ℕ) (r : Role) : (j.goTo w r).roles w = r :=
  Function.update_self ..

theorem goTo_roles_of_ne {j : Life} {w w' : ℕ} (h : w' ≠ w) (r : Role) : (j.goTo w r).roles w' = j.roles w' :=
  Function.update_of_ne h ..

namespace Sound

variable {j : Life} {w : ℕ} {r : Role} {e : Place} {model : AliasId} {parked admitted held : Bool}

/-- A job in the queue is not being submitted. -/
theorem submits_eq_false (h : j.Sound) (he : j.entry = some e) (w : ℕ) : (j.roles w).submits = false := by
  rw [Bool.eq_false_iff]
  intro hsubmits
  have hnone := h.outside w (Role.outside_of_submits hsubmits)
  rw [he] at hnone
  cases hnone

/-- Nobody has a job in hand that waits and is not flagged. -/
theorem not_owner (h : j.Sound) (he : j.entry = some e) (htrying : e.trying = false)
    (hflag : j.flagged = false) (w : ℕ) : ¬j.Owner w := by
  intro howner
  have hout := h.outside w
  rw [Owner, hflag] at howner
  cases hr : j.roles w with
  | trying model parked admitted held =>
    have hentry := (h.tried w _ _ _ _ hr).1
    grind -linarith
  | dropping => simp [(h.dropped w hr).1] at hflag
  | _ => simp_all [Role.owns, Role.outside]

/-- Nobody else holds a count of a job whose trying thread holds none, and was given none. -/
theorem not_held (h : j.Sound) (hw : j.roles w = .trying model false admitted false) :
    j.entry.any Place.parked = false ∧ ∀ w', (j.roles w').holds = false := by
  have hentry := (h.tried w _ _ _ _ hw).1
  refine ⟨by rw [hentry]; rfl, fun w' => ?_⟩
  rw [Bool.eq_false_iff]
  intro hholds
  cases htries : (j.roles w').tries with
  | true =>
    have hsame : w' = w := h.unique w' w (Role.owns_of_tries htries) (by rw [Owner, hw]; rfl)
    rw [hsame, hw] at hholds
    cases hholds
  | false =>
    have hnone := h.outside w' (Role.outside_of_holds hholds htries)
    rw [hentry] at hnone
    cases hnone

/-- What is said of a life does not depend on its record, or on the counts. -/
theorem congr {j' : Life} (h : j.Sound) (hnamed : j'.named = j.named) (hflag : j'.flagged = j.flagged)
    (hentry : j'.entry = j.entry) (hroles : j'.roles = j.roles) : j'.Sound := by
  obtain ⟨h1, h2, h3, h4, h5, h6, h7, h8⟩ := h
  constructor <;> simp only [Owner, hnamed, hflag, hentry, hroles] at * <;> assumption

theorem flag (h : j.Sound) : j.flag.Sound := by
  obtain ⟨h1, h2, h3, h4, h5, h6, h7, h8⟩ := h
  simp only [Owner] at h4
  have howns : ∀ w, (j.roles w).owns true = true → (j.roles w).owns j.flagged = true :=
    fun _ => Role.owns_of_flagged
  constructor <;> simp only [Owner, Life.flag] <;> grind -linarith

theorem cancel (h : j.Sound) : j.cancel.Sound := h.flag.congr rfl rfl rfl rfl

/-- **A thread goes on with a job it does not try.** -/
theorem relabel (h : j.Sound) (hyields : (j.roles w).Yields j.flagged r) : (j.goTo w r).Sound := by
  obtain ⟨hw, htries, htries', howns, hsubmits, hout⟩ := hyields
  obtain ⟨h1, h2, h3, h4, h5, h6, h7, h8⟩ := h
  simp only [Owner] at h4
  constructor <;> simp only [Owner, goTo, Function.update_apply] <;> grind -linarith

/-- An identifier is drawn: nobody knows it. -/
theorem name (h : j.Sound) (hnew : j.named = false) :
    ({ j with named := true }.goTo w (.naming held)).Sound := by
  obtain ⟨hentry, haway⟩ := h.unnamed hnew
  constructor <;> simp only [Owner, goTo, Function.update_apply] <;> grind -linarith

/-- The job is queued: its submitter is alone with it. -/
theorem enqueue (h : j.Sound) (hw : (j.roles w).submits = true) (hnamed : j.named = true) :
    ({ j with entry := some ⟨model, false, false, held⟩ }.goTo w .away).Sound := by
  have haway := h.alone w hw
  constructor <;> simp only [Owner, goTo, Function.update_apply] <;> grind -linarith

/-- A job that waits is tried: nobody has it in hand. -/
theorem take (h : j.Sound) (he : j.entry = some e) (htrying : e.trying = false)
    (hflag : j.flagged = false) :
    ({ j with entry := some ⟨e.model, true, e.started, e.parked⟩ }.goTo w
      (.trying e.model e.parked false false)).Sound := by
  have hsubmits := h.submits_eq_false he
  have hfree := h.not_owner he htrying hflag
  have hstarted := h.waiting e he htrying hflag
  obtain ⟨h1, h2, h3, -, h5, h6, -, -⟩ := h
  simp only [Owner] at hfree
  constructor <;> simp only [Owner, goTo, Function.update_apply]
  case marked => exact fun _ _ _ => ⟨w, by rw [if_pos rfl]; rfl⟩
  all_goals grind -linarith

/-- A job that waits is discarded: whoever has it in hand, its flag is up. -/
theorem discard (h : j.Sound) (he : j.entry = some e) (htrying : e.trying = false) :
    ({ j with entry := none }.goTo w (.discarding held)).Sound := by
  have hsubmits := h.submits_eq_false he
  have hfree := h.not_owner he htrying
  obtain ⟨h1, h2, h3, h4, h5, h6, h7, h8⟩ := h
  simp only [Owner] at hfree h4
  constructor <;> simp only [Owner, goTo, Function.update_apply] <;> grind -linarith

/-- The pass of the trying thread goes on. -/
theorem pass (h : j.Sound) {admitted' held' : Bool} (hw : j.roles w = .trying model parked admitted held)
    (he : j.entry = some e) (hheld : held' = true → parked = false) :
    ({ j with entry := some ⟨e.model, e.trying, admitted', e.parked⟩ }.goTo w
      (.trying model parked admitted' held')).Sound := by
  have hsubmits := h.submits_eq_false he
  obtain ⟨h1, h2, h3, h4, h5, h6, h7, h8⟩ := h
  simp only [Owner] at h4
  constructor <;> simp only [Owner, goTo, Function.update_apply] <;> grind -linarith

/-- A job is put back: its thread was the only one. -/
theorem putBack (h : j.Sound) (hw : j.roles w = .trying model parked admitted held) (he : j.entry = some e)
    {parked' : Bool} : ({ j with entry := some ⟨e.model, false, false, parked'⟩ }.goTo w .away).Sound := by
  have hsubmits := h.submits_eq_false he
  obtain ⟨h1, h2, h3, h4, h5, h6, h7, h8⟩ := h
  simp only [Owner] at h4
  constructor <;> simp only [Owner, goTo, Function.update_apply] <;> grind -linarith

/-- A flagged job is put down: it can be discarded, and not taken. -/
theorem putDown (h : j.Sound) (hw : j.roles w = .trying model parked admitted held) (he : j.entry = some e)
    (hflag : j.flagged = true) {started parked' : Bool} :
    ({ j with entry := some ⟨e.model, false, started, parked'⟩ }.goTo w .dropping).Sound := by
  have hsubmits := h.submits_eq_false he
  obtain ⟨h1, h2, h3, h4, h5, h6, h7, h8⟩ := h
  simp only [Owner] at h4
  constructor <;> simp only [Owner, goTo, Function.update_apply] <;> grind -linarith

/-- The thread that tried a job removes its entry. -/
theorem leave (h : j.Sound) (hw : (j.roles w).tries = true) :
    ({ j with entry := none }.goTo w (.settling held)).Sound := by
  have howner : (j.roles w).owns j.flagged = true := Role.owns_of_tries hw
  obtain ⟨h1, h2, h3, h4, h5, h6, h7, h8⟩ := h
  simp only [Owner] at h4
  constructor <;> simp only [Owner, goTo, Function.update_apply] <;> grind -linarith

end Sound

end Life

/-- **Moves keep a life sound**, as long as what is put down is flagged. -/
theorem Move.sound {j j' : Life} (h : j.Sound) (hmove : Move j j')
    (hput : ∀ w, j'.roles w = .dropping → j.roles w ≠ .dropping → j.flagged = true) : j'.Sound := by
  cases hmove with
  | name hnew _ held => exact (h.name hnew).congr rfl rfl rfl rfl
  | accept hw | refuse hw | rollback hw | repay hw | reread hw | release hw | decide hw =>
    refine (h.relabel (w := _) (r := _) ?_).congr rfl rfl rfl rfl
    rw [hw]
    constructor <;> simp [Role.owns, Role.tries, Role.submits, Role.outside]
  | discharge hw =>
    refine (h.relabel (w := _) (r := _) ?_).congr rfl rfl rfl rfl
    rw [hw]
    split <;> constructor <;> simp_all [Role.owns, Role.tries, Role.submits, Role.outside]
  | enqueue hw =>
    refine h.enqueue (by rw [hw]; rfl) ?_
    rw [← Bool.not_eq_false]
    intro hnew
    rw [(h.unnamed hnew).2] at hw
    cases hw
  | take hw he htrying hflag => exact h.take he htrying hflag
  | discard hw he htrying => exact h.discard he htrying
  | reserve hw =>
    have hentry := (h.tried _ _ _ _ _ hw).1
    have hheld := (h.tried _ _ _ _ _ hw).2
    refine (h.pass hw hentry hheld).congr rfl rfl ?_ rfl
    exact congrArg (Option.map _) hentry
  | park hw =>
    have hentry := (h.tried _ _ _ _ _ hw).1
    refine (h.pass hw hentry fun _ => rfl).congr rfl rfl hentry rfl
  | putBack hw he _ => exact h.putBack hw he
  | putDown hw he =>
    refine h.putDown hw he (hput _ (Life.goTo_roles_self ..) ?_)
    rw [hw]
    exact Role.noConfusion
  | missing hw he =>
    rw [(h.tried _ _ _ _ _ hw).1] at he
    cases he
  | leave hw =>
    refine h.leave ?_
    rcases hw with hw | ⟨_, _, _, hw⟩ <;> rw [hw] <;> rfl
  | finish hw _ _ =>
    refine (h.relabel (w := _) (r := _) ?_).congr rfl rfl rfl rfl
    rw [hw]
    constructor <;> simp [Role.owns, Role.tries, Role.submits, Role.outside]
  | requeue _ _ | start _ _ | sweep _ => exact h.congr rfl rfl rfl rfl

/-- Before it is submitted, a job has no record. -/
def Life.Blank (j : Life) : Prop :=
  j.named = false ∨ (∃ w held, j.roles w = .naming held) → j.record = none

theorem Life.Blank.flag {j : Life} (h : j.Blank) : j.flag.Blank := h

theorem Life.Blank.cancel {j : Life} (h : j.Blank) (hrecord : j.record = some .queued) : j.cancel.Blank := by
  intro hnew
  rw [h hnew] at hrecord
  cases hrecord

/-- **Moves write no record before the job is submitted.** -/
theorem Move.blank {j j' : Life} (hsound : j.Sound) (h : j.Blank) (hmove : Move j j') : j'.Blank := by
  obtain ⟨hunnamed, halone, -, -, -, -, -, -⟩ := hsound
  unfold Life.Blank at *
  cases hmove <;> simp only [Life.goTo, Function.update_apply] at * <;> grind -linarith

/-! ### Parked demand -/

namespace Life

/-- Each count of parked demand is in one thread's hands or in the entry, until it is undone. -/
structure Balanced (j : Life) : Prop where
  one : ∀ w w', (j.roles w).holds = true → (j.roles w').holds = true → w = w'
  apart : ∀ w, (j.roles w).holds = true → j.entry.any Place.parked = false
  count : j.parks = j.releases + 1 ∧
      (j.entry.any Place.parked = true ∨ ∃ w, (j.roles w).holds = true) ∨
    j.parks = j.releases ∧ j.entry.any Place.parked = false ∧ ∀ w, (j.roles w).holds = false

namespace Balanced

variable {j : Life} {w : ℕ} {r : Role} {e : Option Place}

/-- A thread keeps what it holds, and so does the entry. -/
theorem keep (h : j.Balanced) (hr : r.holds = (j.roles w).holds)
    (he : e.any Place.parked = j.entry.any Place.parked) : ({ j with entry := e }.goTo w r).Balanced := by
  obtain ⟨h1, h2, h3⟩ := h
  constructor <;> simp only [goTo, Function.update_apply] <;> grind -linarith

/-- A count is made where there is none. -/
theorem park {held : Bool} (h : j.Balanced)
    (hnone : j.entry.any Place.parked = false ∧ ∀ w, (j.roles w).holds = false) (hr : r.holds = held) :
    ({ j with parks := j.parks + held.toNat }.goTo w r).Balanced := by
  obtain ⟨h1, h2, h3⟩ := h
  have hcount : j.parks = j.releases := by grind -linarith
  cases held <;> constructor <;> simp only [goTo, Function.update_apply, Bool.toNat]
  case true.count => exact .inl ⟨by rw [hcount, cond_true], .inr ⟨w, by rw [if_pos rfl, hr]⟩⟩
  all_goals grind -linarith

/-- A thread undoes the count it holds. -/
theorem release {held : Bool} (h : j.Balanced) (hw : (j.roles w).holds = held) (hr : r.holds = false) :
    ({ j with releases := j.releases + held.toNat }.goTo w r).Balanced := by
  obtain ⟨h1, h2, h3⟩ := h
  cases held <;> constructor <;> simp only [goTo, Function.update_apply, Bool.toNat] <;> grind -linarith

/-- A thread gives what it holds to the entry. -/
theorem give (h : j.Balanced) (hr : r.holds = false)
    (he : e.any Place.parked = (j.entry.any Place.parked || (j.roles w).holds)) :
    ({ j with entry := e }.goTo w r).Balanced := by
  obtain ⟨h1, h2, h3⟩ := h
  constructor <;> simp only [goTo, Function.update_apply] <;> grind -linarith

/-- A thread removes the entry, and takes what it holds. -/
theorem claim (h : j.Balanced) (hw : (j.roles w).holds = false)
    (hr : r.holds = j.entry.any Place.parked) : ({ j with entry := none }.goTo w r).Balanced := by
  obtain ⟨h1, h2, h3⟩ := h
  constructor <;> simp only [goTo, Function.update_apply] <;> grind -linarith

/-- What is said of counts does not depend on the rest. -/
theorem congr {j' : Life} (h : j.Balanced) (hentry : j'.entry = j.entry) (hroles : j'.roles = j.roles)
    (hparks : j'.parks = j.parks) (hreleases : j'.releases = j.releases) : j'.Balanced := by
  obtain ⟨h1, h2, h3⟩ := h
  constructor <;> simp only [hentry, hroles, hparks, hreleases] <;> assumption

theorem flag (h : j.Balanced) : j.flag.Balanced := h.congr rfl rfl rfl rfl

theorem cancel (h : j.Balanced) : j.cancel.Balanced := h.congr rfl rfl rfl rfl

end Balanced

end Life

/-- **Moves keep the balance.** -/
theorem Move.balanced {j j' : Life} (hsound : j.Sound) (h : j.Balanced) (hmove : Move j j') : j'.Balanced := by
  cases hmove with
  | name hnew _ held =>
    obtain ⟨hentry, haway⟩ := hsound.unnamed hnew
    refine (h.park (w := _) (r := _) ⟨by rw [hentry]; rfl, fun w => ?_⟩ ?_).congr rfl rfl rfl rfl
    · rw [haway w]; rfl
    · rfl
  | accept hw | refuse hw | rollback hw | reread hw | decide hw =>
    exact (h.keep (w := _) (r := _) (by rw [hw]; rfl) rfl).congr rfl rfl rfl rfl
  | finish hw _ _ => exact (h.keep (w := _) (r := _) (by rw [hw]; rfl) rfl).congr rfl rfl rfl rfl
  | missing hw _ => exact h.keep (by rw [hw]; rfl) rfl
  | take hw he _ _ => exact h.keep (by rw [hw]; rfl) (by rw [he]; rfl)
  | reserve hw =>
    refine h.keep (by rw [hw]; rfl) ?_
    cases j.entry <;> rfl
  | enqueue hw =>
    have hnone := hsound.outside _ (by rw [hw]; rfl)
    exact h.give rfl (by rw [hnone, hw]; rfl)
  | repay hw | release hw => exact h.release (by rw [hw]; rfl) rfl
  | discharge hw => exact h.release (by rw [hw]; rfl) (by split <;> rfl)
  | discard hw he _ => exact h.claim (by rw [hw]; rfl) (by rw [he]; rfl)
  | park hw => exact h.park (hsound.not_held hw) rfl
  | putBack hw he _ => exact h.give rfl (by rw [hw, he]; rfl)
  | putDown hw he => exact h.give rfl (by rw [hw, he]; rfl)
  | leave hw =>
    refine h.claim ?_ rfl
    rcases hw with hw | ⟨_, _, _, hw⟩ <;> rw [hw] <;> rfl
  | requeue _ _ | start _ _ | sweep _ => exact h.congr rfl rfl rfl rfl

end HypeLlm.Jobs
