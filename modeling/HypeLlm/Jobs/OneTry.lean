import HypeLlm.Jobs.SoundRuns

/-!
# One try at a time

A job is tried by one worker at a time, and two workers never try for the reservations of one model at
once; the queue and the tables keep to their bounds; and each time a job is counted as parked demand,
that is undone once.

* **`one_try`** — all of this holds in every state of an orderly run;
* `Sample.shutdown_overlap` — in a shutdown, a job that is put down but not flagged is taken by a second
  worker, and when the first removes the entry a third tries for the same model.
-/

namespace HypeLlm.Jobs

open HypeLlm.Words HypeLlm.Routing HypeLlm.Tables HypeLlm.Runs

namespace Router

variable {s : Router} {w w' : ℕ} {id : JobId} {a : Answers} {e : Event}

/-! ### Threads and jobs -/

/-- The thread tries the job, from taking it until its entry is back or removed. -/
def Tries (s : Router) (w : ℕ) (id : JobId) : Prop := ((s.tasks w).role id).tries = true

/-- The thread is in a pass of the job that holds no reservations yet. -/
def Unstarted (s : Router) (w : ℕ) (id : JobId) (model : AliasId) : Prop :=
  ∃ parked held, (s.tasks w).role id = .trying model parked false held

/-- The job was submitted, is not in the queue, and is not about to be. -/
def Gone (s : Router) (id : JobId) : Prop :=
  id ∈ s.minted ∧ s.store.entryOf id = none ∧ ∀ w, ((s.tasks w).role id).submits = false

/-- No thread has a count of the job's demand in its hands. -/
def Unheld (s : Router) (id : JobId) : Prop := ∀ w, ((s.tasks w).role id).holds = false

/-- What is to hold in every state. -/
structure OneTry (s : Router) : Prop where
  /-- No two passes of one job overlap. -/
  one : ∀ w w' id, s.Tries w id → s.Tries w' id → w = w'
  /-- A pass begins with an entry of the queue that nobody tries. -/
  starts : ∀ w id e, (s.step e).Tries w id → ¬s.Tries w id →
    ∃ entry ∈ s.store.queue, entry.work.id = id ∧ entry.trying = false ∧ ∀ w', ¬s.Tries w' id
  /-- Two passes without reservations are for different models. -/
  models : ∀ w w' id id' model, s.Unstarted w id model → s.Unstarted w' id' model → w = w'
  queued : s.store.queue.length ≤ s.store.limits.maxQueued.toNat
  batch : (s.store.queue.countP fun e => e.work.priority = .batch) ≤ s.store.limits.maxQueuedBatch.toNat
  /-- A tenant whose job is accepted has no more records than it may. -/
  accepted : ∀ w id call a, s.tasks w = .minted id call → (s.step (.proceed w a)).tasks w = .recorded id call →
    (s.step (.proceed w a)).store.tenantHeld call.request.tenant ≤
      (call.terms.tenantCap.getD s.store.limits.maxPerTenant).toNat
  /-- Each count of parked demand is undone once. -/
  parks : ∀ id, s.parks id = s.releases id ∨ s.parks id = s.releases id + 1
  /-- From the release of its demand on, a job has as many releases as counts. -/
  settled : ∀ id, s.store.entryOf id = none → s.Unheld id → s.parks id = s.releases id

/-! ### How a pass begins -/

/-- **A job is tried** by a thread that did not try it only by being taken: nobody tries it, its flag
is down, and nobody tries for its model. -/
theorem taken_of_proceed (h : (s.proceed w a).Tries w id) (hbefore : ¬s.Tries w id) :
    s.tasks w = .taking ∧ ∃ entry ∈ s.store.queue, entry.work.id = id ∧ entry.trying = false ∧
      s.store.isCancelled id = false ∧ entry.work.request.requestedModel ∉ s.store.contested ∧
      (s.proceed w a).store = s.store.amendEntry id JobStore.tried := by
  unfold Tries at h hbefore
  cases ht : s.tasks w with
  | taking =>
    refine ⟨rfl, ?_⟩
    rcases s.store.take_cases a.nowMs a.order with
      ⟨entry, -, htake⟩ | ⟨entry, hmem, htrying, hflag, hmodel, htake⟩ | htake | ⟨moves, htake⟩
    · simp only [proceed, ht, take, htake, goTo_tasks, if_pos, Task.role] at h
      split at h <;> cases h
    · simp only [proceed, ht, take, htake] at h ⊢
      simp only [goTo_tasks, if_pos, Task.role] at h
      split at h
      · rename_i hid
        exact ⟨entry, hmem, hid, htrying, hid ▸ hflag, hmodel, by rw [← hid]; rfl⟩
      · cases h
    · simp only [proceed, ht, take, htake, goTo_tasks, if_pos] at h
      cases h
    · simp only [proceed, ht, take, htake, goTo_tasks, if_pos] at h
      cases h
  | _ =>
    rw [ht] at hbefore
    refine absurd ?_ hbefore
    simp only [proceed, ht, mint, accept, enqueue, pass, judge, resolve, recover, count, putBack, leave] at h
    (repeat' split at h) <;> simp_all [Task.role, Over.work] <;> grind -linarith

/-- Only a worker begins to try a job. -/
theorem proceeds_of_tries (h : (s.step e).Tries w id) (hbefore : ¬s.Tries w id) : ∃ a, e = .proceed w a := by
  have hdone : ∀ {s' : Router} {w' : ℕ} {t : Task}, s'.tasks = s.tasks → t.role id = .away →
      ¬(s'.goTo w' t).Tries w id := by
    intro s' w' t htasks hrole htries
    rw [Tries, goTo_tasks, htasks] at htries
    split at htries
    · rw [hrole] at htries
      cases htries
    · exact hbefore htries
  cases e with
  | proceed w' a =>
    obtain rfl | hne := eq_or_ne w w'
    · exact ⟨a, rfl⟩
    · exact absurd (by rwa [Tries, step, proceed_tasks_of_ne hne a] at h) hbefore
  | submit w' call | work w' | shutdown w' =>
    unfold step at h
    dsimp only at h
    split at h
    · exact absurd h (hdone rfl rfl)
    · exact absurd h hbefore
  | cancel | read => exact absurd h hbefore

/-- A thread tries one job at most. -/
theorem Tries.unique {id' : JobId} (h : s.Tries w id) (h' : s.Tries w id') : id = id' := by
  unfold Tries at h h'
  cases ht : s.tasks w <;> rw [ht] at h h' <;> simp only [Task.role] at h h' <;> grind -linarith

/-- **A pass begins** with an entry of the queue that nobody tries. -/
theorem starts_of_sound (hsound : s.Sound) (h : (s.step e).Tries w id) (hbefore : ¬s.Tries w id) :
    ∃ entry ∈ s.store.queue, entry.work.id = id ∧ entry.trying = false ∧ ∀ w', ¬s.Tries w' id := by
  obtain ⟨a, rfl⟩ := proceeds_of_tries h hbefore
  obtain ⟨-, entry, hmem, hid, htrying, hflag, -, -⟩ := taken_of_proceed h hbefore
  refine ⟨entry, hmem, hid, htrying, fun w' htries => ?_⟩
  have hentry := JobStore.entryOf_of_mem hsound.keyed hmem
  rw [hid] at hentry
  exact (hsound.lives id).not_owner (show s.store.place? id = some entry.place from congrArg (Option.map _) hentry)
    htrying hflag w' (Role.owns_of_tries htries)

/-! ### Models -/

/-- The job is tried for a model, and its pass holds no reservations. -/
def Contends (s : Router) (id : JobId) (model : AliasId) : Prop :=
  ∃ parked, s.store.place? id = some ⟨model, true, false, parked⟩

/-- No two jobs contend for one model. -/
def Apart (s : Router) : Prop :=
  ∀ id id' model, s.Contends id model → s.Contends id' model → id = id'

theorem Unstarted.contends (hsound : s.Sound) {model : AliasId} (h : s.Unstarted w id model) :
    s.Contends id model := by
  obtain ⟨parked, held, hrole⟩ := h
  exact ⟨parked, ((hsound.lives id).tried w _ _ _ _ hrole).1⟩

theorem Contends.contested {model : AliasId} (h : s.Contends id model) : model ∈ s.store.contested := by
  obtain ⟨parked, hplace⟩ := h
  obtain ⟨entry, hentry, hplace⟩ := Option.map_eq_some_iff.1 hplace
  have hmodel : entry.work.request.requestedModel = model := congrArg Place.model hplace
  have htrying : entry.trying = true := congrArg Place.trying hplace
  have hstarted : entry.started = false := congrArg Place.started hplace
  refine List.mem_map.2 ⟨entry, List.mem_filter.2 ⟨List.mem_of_find?_eq_some hentry, ?_⟩, hmodel⟩
  rw [htrying, hstarted]
  rfl

/-- A job that contends for a model did so before, or a thread begins to try it. -/
theorem contends_of_move {j j' : Life} (hmove : Move j j') {model : AliasId} {parked : Bool}
    (h : j'.entry = some ⟨model, true, false, parked⟩) :
    (∃ parked, j.entry = some ⟨model, true, false, parked⟩) ∨
      ∃ w, (j.roles w).tries = false ∧ (j'.roles w).tries = true := by
  cases hmove with
  | take hw he _ _ =>
    refine .inr ⟨_, by rw [hw]; rfl, ?_⟩
    rw [Life.goTo_roles_self]
    rfl
  | reserve hw =>
    simp only [Life.goTo, Option.map_eq_some_iff] at h
    obtain ⟨e, -, he⟩ := h
    exact absurd (congrArg Place.started he) (Bool.noConfusion)
  | _ => first | exact .inl ⟨_, h⟩ | cases h

theorem contends_of_step (hsound : s.Sound) {model : AliasId} (h : (s.step e).Contends id model) :
    s.Contends id model ∨ ∃ w, (s.step e).Tries w id ∧ ¬s.Tries w id := by
  obtain ⟨parked, hplace⟩ := h
  rcases step_follows hsound e id with (hsame | hmove) | ⟨-, hcancel⟩ | ⟨-, hflag⟩
  · exact .inl ⟨parked, (congrArg Life.entry hsame).symm.trans hplace⟩
  · rcases contends_of_move hmove hplace with hbefore | ⟨w, hbefore, hnow⟩
    · exact .inl hbefore
    · exact .inr ⟨w, hnow, fun htries => Bool.false_ne_true (hbefore.symm.trans htries)⟩
  · exact .inl ⟨parked, (congrArg Life.entry hcancel).symm.trans hplace⟩
  · exact .inl ⟨parked, (congrArg Life.entry hflag).symm.trans hplace⟩

/-- A job that begins to be tried is for a model nobody contends for. -/
theorem free_of_starts (hsound : s.Sound) {model : AliasId} (h : (s.step e).Contends id model)
    (hnow : (s.step e).Tries w id) (hbefore : ¬s.Tries w id) {id' : JobId} : ¬s.Contends id' model := by
  obtain ⟨a, rfl⟩ := proceeds_of_tries hnow hbefore
  obtain ⟨-, entry, hmem, hid, -, -, hfree, hstore⟩ := taken_of_proceed hnow hbefore
  obtain ⟨parked, hplace⟩ := h
  have hentry := JobStore.entryOf_of_mem hsound.keyed hmem
  rw [hid] at hentry
  have hstore : (s.step (.proceed w a)).store = s.store.amendEntry id JobStore.tried := hstore
  rw [hstore, JobStore.place?_amendEntry (f := JobStore.tried) fun _ => rfl, if_pos rfl, hentry,
    Option.map_some, Option.some.injEq] at hplace
  have hmodel : entry.work.request.requestedModel = model := congrArg Place.model hplace
  exact fun hcontends => hfree (hmodel ▸ hcontends.contested)

/-- **Steps keep jobs apart.** -/
theorem Apart.step (hsound : s.Sound) (h : s.Apart) (e : Event) : (s.step e).Apart := by
  intro id id' model hnow hnow'
  rcases contends_of_step hsound hnow with hold | ⟨w, hw, hwbefore⟩ <;>
    rcases contends_of_step hsound hnow' with hold' | ⟨w', hw', hwbefore'⟩
  · exact h id id' model hold hold'
  · exact absurd hold (free_of_starts hsound hnow' hw' hwbefore')
  · exact absurd hold' (free_of_starts hsound hnow hw hwbefore)
  · obtain ⟨a, rfl⟩ := proceeds_of_tries hw hwbefore
    obtain ⟨a', heq⟩ := proceeds_of_tries hw' hwbefore'
    cases heq
    exact hw.unique hw'

/-! ### Bounds -/

/-- The bounds of the queue, on the jobs in it. -/
def Within (limits : JobLimits) (works : List Work) : Prop :=
  works.length ≤ limits.maxQueued.toNat ∧
    (works.countP fun work => work.priority = .batch) ≤ limits.maxQueuedBatch.toNat

theorem lt_of_min_lt {n : ℕ} {bound : UInt32} (h : min n u32Max < bound.toNat) : n < bound.toNat := by
  have hbound := bound.toNat_lt
  simp only [u32Max] at h
  omega

/-- What only a submission, or a shutdown, changes. -/
def fixed (store : JobStore) : JobLimits × Bool × ℕ := (store.limits, store.stopping, store.sequence)

theorem fixed_amend {store : JobStore} (f : ℕ → Job → Option Job) : fixed (store.amend id f) = fixed store := by
  rw [JobStore.amend]
  cases (store.job? id).bind (f store.revisions) <;> rfl

theorem fixed_proceed (h : ∀ id call, s.tasks w ≠ .recorded id call) (a : Answers) :
    fixed (s.proceed w a).store = fixed s.store := by
  cases ht : s.tasks w with
  | recorded id call => exact absurd ht (h id call)
  | minted id call =>
    rcases s.store.accept_cases id call.nowWallMs call.nowMs call.request call.terms with ⟨_, h⟩ | ⟨h, -⟩ <;>
      simp only [proceed, ht, accept, h] <;> rfl
  | taking =>
    rcases s.store.take_cases a.nowMs a.order with ⟨e, -, h⟩ | ⟨e, -, -, -, -, h⟩ | h | ⟨moves, h⟩ <;>
      simp only [proceed, ht, take, h] <;> rfl
  | puttingBack o wait parked backoffMs =>
    rcases s.store.putBack_cases o.work.id o.nowMs wait o.pass.generation parked backoffMs with
      ⟨-, h⟩ | ⟨-, ⟨-, h⟩ | ⟨-, h⟩⟩ <;> simp only [proceed, ht, putBack, h] <;> rfl
  | _ =>
    simp only [proceed, ht, mint, pass, judge, resolve, recover, JobStore.recoveryRemaining, count, leave] <;>
      (repeat' split) <;> first | rfl | exact fixed_amend _

/-- A job that has its record is queued, or refused. -/
theorem enqueue_store (s : Router) (w : ℕ) (id : JobId) (call : Submission) :
    (s.enqueue w id call).store = s.store.remove id ∨
      s.store.isFull call.terms.priority = false ∧
        (s.enqueue w id call).store =
          { s.store with
            queue := s.store.queue ++ [s.store.newEntry id call.nowMs call.request call.terms]
            sequence := wrapAdd 64 s.store.sequence 1 } := by
  rcases s.store.enqueue_cases id call.nowMs call.request call.terms with h | ⟨h, hroom⟩
  · exact .inl (by simp only [enqueue, h]; rfl)
  · exact .inr ⟨hroom, by simp only [enqueue, h]; rfl⟩

/-- Workers change neither the limits, nor whether the store stops. -/
theorem settings_proceed (s : Router) (w : ℕ) (a : Answers) :
    (s.proceed w a).store.limits = s.store.limits ∧ (s.proceed w a).store.stopping = s.store.stopping := by
  by_cases hrecorded : ∃ id call, s.tasks w = .recorded id call
  · obtain ⟨id, call, ht⟩ := hrecorded
    simp only [proceed, ht]
    rcases s.enqueue_store w id call with h | ⟨-, h⟩ <;> rw [h] <;> exact ⟨rfl, rfl⟩
  · have hfixed := fixed_proceed (fun id call ht => hrecorded ⟨id, call, ht⟩) a
    exact ⟨congrArg Prod.fst hfixed, congrArg (fun fixed => fixed.2.1) hfixed⟩

theorem limits_step (s : Router) (e : Event) : (s.step e).store.limits = s.store.limits := by
  cases e with
  | proceed w a => exact (s.settings_proceed w a).1
  | submit w call | work w | shutdown w =>
    unfold step
    dsimp only
    split <;> rfl
  | cancel id tenant nowWallMs nowMs =>
    rcases s.store.cancel_cases id nowWallMs nowMs tenant with
      h | ⟨job, -, -, -, ⟨-, h⟩ | ⟨job', -, -, -, -, h⟩⟩ <;> simp only [step, h] <;> rfl
  | read id tenant nowMs => rfl

/-- **Steps keep the queue within its bounds.** -/
theorem within_step (h : Within s.store.limits s.store.works) (e : Event) :
    Within (s.step e).store.limits (s.step e).store.works := by
  rw [limits_step]
  rcases s.works_step e with hsub | ⟨w, id, call, -, hroom, hworks⟩
  · exact ⟨hsub.length_le.trans h.1, hsub.countP_le.trans h.2⟩
  · obtain ⟨hfull, hbatch⟩ := Bool.or_eq_false_iff.1 hroom
    have hlength := lt_of_min_lt (not_le.1 (of_decide_eq_false hfull))
    have hworks' : s.store.works.length = s.store.queue.length := List.length_map ..
    rw [hworks]
    constructor
    · rw [List.length_append, List.length_singleton]
      omega
    · rw [List.countP_append, List.countP_singleton]
      split
      · rename_i hpriority
        have hpriority : decide (call.terms.priority = .batch) = true := hpriority
        rw [hpriority, Bool.true_and] at hbatch
        have hcount := lt_of_min_lt (not_le.1 (of_decide_eq_false hbatch))
        have hsame : (s.store.works.countP fun work => work.priority = .batch) =
            s.store.queue.countP fun e => e.work.priority = .batch := List.countP_map ..
        omega
      · exact h.2

theorem accepted_le {call : Submission} (ht : s.tasks w = .minted id call)
    (h : (s.proceed w a).tasks w = .recorded id call) :
    (s.proceed w a).store.tenantHeld call.request.tenant ≤
      (call.terms.tenantCap.getD s.store.limits.maxPerTenant).toNat := by
  rcases s.store.accept_cases id call.nowWallMs call.nowMs call.request call.terms with
    ⟨refusal, haccept⟩ | ⟨haccept, hroom⟩
  · simp only [proceed, ht, accept, haccept, goTo_tasks, if_pos] at h
    cases h
  · have hroom := lt_of_min_lt hroom
    simp only [proceed, ht, accept, haccept]
    exact (Table.countP_insert_le ..).trans hroom

/-! ### Every state of a run -/

/-- What orderly steps keep. -/
structure Kept (s : Router) : Prop where
  sound : s.Sound
  balanced : ∀ id, (s.life id).Balanced
  apart : s.Apart
  within : Within s.store.limits s.store.works

theorem Kept.step (h : s.Kept) (horderly : s.Orderly e) : (s.step e).Kept := by
  refine ⟨h.sound.step horderly, fun id => ?_, h.apart.step h.sound e, within_step h.within e⟩
  rcases step_follows h.sound e id with (heq | hmove) | ⟨-, heq⟩ | ⟨-, heq⟩
  · rw [heq]
    exact h.balanced id
  · exact hmove.balanced (h.sound.lives id) (h.balanced id)
  · rw [heq]
    exact (h.balanced id).cancel
  · rw [heq]
    exact (h.balanced id).flag

theorem boot_kept (limits : JobLimits) : (boot limits).Kept := by
  refine ⟨boot_sound limits, fun id => ?_, ?_, Nat.zero_le _, Nat.zero_le _⟩
  · constructor
    · intro w w' h
      cases h
    · intro w h
      cases h
    · exact .inr ⟨rfl, rfl, fun _ => rfl⟩
  · rintro id id' model ⟨parked, h⟩
    cases h

theorem Kept.oneTry (h : s.Kept) : s.OneTry := by
  have hbatch : (s.store.works.countP fun work => work.priority = .batch) =
      s.store.queue.countP fun e => e.work.priority = .batch := List.countP_map ..
  have hlength : s.store.works.length = s.store.queue.length := List.length_map ..
  constructor
  · intro w w' id htries htries'
    exact (h.sound.lives id).unique w w' (Role.owns_of_tries htries) (Role.owns_of_tries htries')
  · intro w id e
    exact starts_of_sound h.sound
  · intro w w' id id' model hpass hpass'
    obtain rfl := h.apart id id' model (hpass.contends h.sound) (hpass'.contends h.sound)
    obtain ⟨parked, held, hrole⟩ := hpass
    obtain ⟨parked', held', hrole'⟩ := hpass'
    refine (h.sound.lives id).unique w w' ?_ ?_
    · show ((s.tasks w).role id).owns _ = true
      rw [hrole]
      rfl
    · show ((s.tasks w').role id).owns _ = true
      rw [hrole']
      rfl
  · rw [← hlength]
    exact h.within.1
  · rw [← hbatch]
    exact h.within.2
  · intro w id call a ht
    exact accepted_le ht
  · intro id
    rcases (h.balanced id).count with ⟨hcount, -⟩ | ⟨hcount, -⟩
    · exact .inr hcount
    · exact .inl hcount
  · intro id hentry hunheld
    rcases (h.balanced id).count with ⟨-, hparked | ⟨w, hholds⟩⟩ | ⟨hcount, -⟩
    · have hplace : (s.life id).entry = none := congrArg (Option.map _) hentry
      rw [hplace] at hparked
      cases hparked
    · rw [show ((s.life id).roles w).holds = false from hunheld w] at hholds
      cases hholds
    · exact hcount

/-- A job that has left the queue does not come back. -/
theorem Gone.step (hsound : s.Sound) (h : s.Gone id) (e : Event) : (s.step e).Gone id := by
  obtain ⟨hminted, hentry, hsubmits⟩ := h
  have hnamed : (s.life id).named = true := decide_eq_true hminted
  have hplace : (s.life id).entry = none := congrArg (Option.map _) hentry
  have hroles : ∀ w, ((s.life id).roles w).submits = false := hsubmits
  suffices hlife : ((s.step e).life id).named = true ∧ ((s.step e).life id).entry = none ∧
      ∀ w, (((s.step e).life id).roles w).submits = false by
    obtain ⟨hnamed', hplace', hroles'⟩ := hlife
    exact ⟨of_decide_eq_true hnamed', Option.map_eq_none_iff.1 hplace', hroles'⟩
  rcases step_follows hsound e id with (heq | hmove) | ⟨-, heq⟩ | ⟨-, heq⟩
  · rw [heq]
    exact ⟨hnamed, hplace, hroles⟩
  rotate_left
  · rw [heq]
    exact ⟨hnamed, hplace, hroles⟩
  · rw [heq]
    exact ⟨hnamed, hplace, hroles⟩
  · generalize s.life id = j at *
    generalize (s.step e).life id = j' at *
    cases hmove <;> simp only [Life.goTo, Function.update_apply] at * <;> grind -linarith

/-- **One try at a time.**  In every state of an orderly run no two workers try one job or contend for
one model, the queue and the tables are within their bounds, and parked demand is released once; and
once a job has left the queue no pass of it begins. -/
theorem one_try (limits : JobLimits) (es : List Event) (h : StepsMeet step Orderly (boot limits) es) :
    (run step (boot limits) es).OneTry ∧
      ∀ id, (run step (boot limits) es).Gone id → ∀ fs, StepsMeet step Orderly (run step (boot limits) es) fs →
        (run step (boot limits) (es ++ fs)).Gone id ∧
          ∀ e w, ((run step (boot limits) (es ++ fs)).step e).Tries w id →
            (run step (boot limits) (es ++ fs)).Tries w id := by
  have hkept : ∀ gs, StepsMeet step Orderly (boot limits) gs → (run step (boot limits) gs).Kept :=
    run_invariant_of_steps (P := Kept) (fun _ _ hkept horderly => hkept.step horderly) (boot_kept limits)
  refine ⟨(hkept es h).oneTry, fun id hgone fs hfs => ?_⟩
  have hgone' : (run step (boot limits) (es ++ fs)).Kept ∧ (run step (boot limits) (es ++ fs)).Gone id := by
    rw [run_append]
    exact run_invariant_of_steps (P := fun s => s.Kept ∧ s.Gone id)
      (fun s e hs horderly => ⟨hs.1.step horderly, hs.2.step hs.1.sound e⟩) ⟨hkept es h, hgone⟩ fs hfs
  refine ⟨hgone'.2, fun e w hnow => ?_⟩
  by_contra hbefore
  obtain ⟨entry, hmem, hid, -, -⟩ := starts_of_sound hgone'.1.sound hnow hbefore
  have hentry := JobStore.entryOf_of_mem hgone'.1.sound.keyed hmem
  rw [hid, hgone'.2.2.1] at hentry
  cases hentry

namespace Sample

def request : CanonicalRequest := ⟨"tenant", "principal", "model", 1000000⟩

def call (parked : Option Capability) : Submission := ⟨request, ⟨.standard, parked, none, none⟩, 0, 0⟩

/-- A job is submitted. -/
def submitted (w : ℕ) (id : JobId) (parked : Option Capability) : List Event :=
  [.submit w (call parked), .proceed w { id := some id }, .proceed w {}, .proceed w {}]

/-- So many sections of a thread, one after the other. -/
def goesOn (w n : ℕ) : List Event := List.replicate n (.proceed w {})

/-- A pass returns, with every slot taken. -/
def returns (w : ℕ) : Event :=
  .proceed w { event := .returned (.failed ⟨"capacity_exhausted", "no capacity"⟩ (some .slot)) }

/-- A pass fails, and nothing can be waited for. -/
def fails (w : ℕ) : Event :=
  .proceed w { event := .returned (.failed ⟨"model_not_found", "no such model"⟩ none) }

/-- A job is taken and put back, cancelled and discarded. -/
def cancelled : List Event :=
  submitted 0 "a" (some .chat) ++ [Event.work 1, .work 2] ++ goesOn 1 3 ++ [returns 1] ++ goesOn 1 3 ++
    [Event.cancel "a" "tenant" 5 5] ++ goesOn 2 3

theorem cancelled_released_once :
    (run step (boot .default) cancelled).OneTry ∧
      (run step (boot .default) cancelled).store.entryOf "a" = none ∧
      (run step (boot .default) cancelled).parks "a" = 1 ∧
      (run step (boot .default) cancelled).releases "a" = 1 :=
  ⟨(one_try .default cancelled (by decide +kernel)).1, by decide +kernel, by decide +kernel, by decide +kernel⟩

/-- A shutdown begins while a job whose pass held reservations is to be put back.  A second worker
takes the job, the first removes its entry, and a third takes another job for the same model. -/
def overlap : List Event :=
  submitted 0 "a" none ++ submitted 0 "b" none ++ [Event.work 1, .work 2, .work 3] ++ goesOn 1 3 ++ [returns 1] ++
    goesOn 1 1 ++ [Event.shutdown 4] ++ goesOn 1 1 ++ goesOn 2 1 ++ goesOn 1 1 ++ goesOn 3 1

/-- In a shutdown two workers try for one model at once. -/
theorem shutdown_overlap : ¬(run step (boot .default) overlap).OneTry := by
  intro h
  have hfirst : (run step (boot .default) overlap).Unstarted 2 "a" "model" :=
    ⟨false, false, by decide +kernel⟩
  have hsecond : (run step (boot .default) overlap).Unstarted 3 "b" "model" :=
    ⟨false, false, by decide +kernel⟩
  exact absurd (h.models 2 3 "a" "b" "model" hfirst hsecond) (by decide)

end Sample

end Router

end HypeLlm.Jobs
