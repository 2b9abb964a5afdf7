import HypeLlm.Jobs.Lives

/-!
# Orderly runs of the job store

A job is put down, its mark cleared before its entry is removed, when its flag is up or the store
stops.  A flagged job can only be discarded meanwhile.  One that is not flagged can be taken by another
worker, so in a shutdown the order is lost; where no job is put back while the store stops and its flag
is down, every state of a run is sound.

* `Router.Orderly` — the condition on a step;
* `Router.works_step` — the queue grows by the job a thread is to queue, where there is room;
* **`Router.Sound.step`** — an orderly step keeps sound lives.
-/

namespace HypeLlm.Jobs

open HypeLlm.Words HypeLlm.Routing HypeLlm.Tables HypeLlm.Runs

namespace JobStore

variable {s : JobStore} {id : JobId}

/-- The jobs in the queue. -/
def works (s : JobStore) : List Work := s.queue.map Entry.work

@[simp] theorem queue_amend (f : ℕ → Job → Option Job) : (s.amend id f).queue = s.queue := by
  rw [amend]
  cases (s.job? id).bind (f s.revisions) <;> rfl

theorem works_amendEntry {f : Entry → Entry} (hf : ∀ e, (f e).work = e.work) :
    (s.amendEntry id f).works = s.works := by
  simp only [works, amendEntry, mapAt, List.map_map]
  refine List.map_congr_left fun e _ => ?_
  rw [Function.comp_apply]
  split
  · exact hf e
  · rfl

theorem works_eraseP (p : Entry → Bool) :
    ({ s with queue := s.queue.eraseP p } : JobStore).works.Sublist s.works := List.eraseP_sublist.map _

theorem replaced_work (nowMs : ℕ) (wait : Wait) (generation backoffMs : ℕ) (e : Entry) :
    (replaced nowMs wait generation backoffMs e).work = e.work := by
  cases wait <;> rfl

end JobStore

namespace Router

variable {s : Router} {w w' : ℕ} {t : Task} {a : Answers}

@[simp] theorem goTo_tasks (s : Router) (w : ℕ) (t : Task) (w' : ℕ) :
    (s.goTo w t).tasks w' = if w' = w then t else s.tasks w' := Function.update_apply ..

@[simp] theorem withStore_tasks (s : Router) (store : JobStore) : (s.withStore store).tasks = s.tasks := rfl

@[simp] theorem park_tasks (s : Router) (id : JobId) (parked : Option Capability) :
    (s.park id parked).tasks = s.tasks := rfl

@[simp] theorem release_tasks (s : Router) (id : JobId) (parked : Option Capability) :
    (s.release id parked).tasks = s.tasks := rfl

/-- A thread whose step is another's stays where it is. -/
theorem proceed_tasks_of_ne (h : w' ≠ w) (a : Answers) : (s.proceed w a).tasks w' = s.tasks w' := by
  cases ht : s.tasks w <;>
    simp only [proceed, ht, mint, accept, enqueue, take, pass, judge, resolve, recover, count, putBack, leave] <;>
    (repeat' split) <;> simp [h]

/-- **A job is put down** only when it is to be put back, and the store stops or its flag is up. -/
theorem puttingDown_of_proceed {o : Over} (h : (s.proceed w a).tasks w = .puttingDown o) :
    ∃ wait parked backoffMs, s.tasks w = .puttingBack o wait parked backoffMs ∧
      (s.store.stopping || s.store.isCancelled o.work.id) = true := by
  cases ht : s.tasks w with
  | puttingBack o' wait parked backoffMs =>
    rcases s.store.putBack_cases o'.work.id o'.nowMs wait o'.pass.generation parked backoffMs with
      ⟨-, hput⟩ | ⟨-, ⟨hleaves, hput⟩ | ⟨-, hput⟩⟩
    · simp [proceed, ht, putBack, hput] at h
    · have hsame : o' = o := by simpa [proceed, ht, putBack, hput] using h
      exact ⟨wait, parked, backoffMs, by rw [hsame], hsame ▸ hleaves⟩
    · simp [proceed, ht, putBack, hput] at h
  | _ =>
    simp only [proceed, ht, mint, accept, enqueue, take, pass, judge, resolve, recover, count, leave] at h
    (repeat' split at h) <;> simp_all

/-- **The queue only grows where there is room**, by the job a thread is to queue. -/
theorem works_proceed (s : Router) (w : ℕ) (a : Answers) :
    (s.proceed w a).store.works.Sublist s.store.works ∨
      ∃ id call, s.tasks w = .recorded id call ∧ s.store.isFull call.terms.priority = false ∧
        (s.proceed w a).store.works =
          s.store.works ++ [(s.store.newEntry id call.nowMs call.request call.terms).work] := by
  have hsame : (s.proceed w a).store.works = s.store.works →
      (s.proceed w a).store.works.Sublist s.store.works := fun h => h ▸ List.Sublist.refl _
  cases ht : s.tasks w with
  | recorded id call =>
    rcases s.store.enqueue_cases id call.nowMs call.request call.terms with h | ⟨h, hroom⟩
    · exact .inl (hsame (by simp only [proceed, ht, enqueue, h]; rfl))
    · refine .inr ⟨id, call, rfl, hroom, ?_⟩
      simp only [proceed, ht, enqueue, h]
      exact List.map_append
  | taking =>
    left
    rcases s.store.take_cases a.nowMs a.order with ⟨e, -, h⟩ | ⟨e, -, -, -, -, h⟩ | h | ⟨moves, h⟩
    · simp only [proceed, ht, take, h]
      exact JobStore.works_eraseP _
    · refine hsame ?_
      simp only [proceed, ht, take, h]
      exact JobStore.works_amendEntry (f := JobStore.tried) fun _ => rfl
    · exact hsame (by simp only [proceed, ht, take, h]; rfl)
    · exact hsame (by simp only [proceed, ht, take, h]; rfl)
  | passing p =>
    refine .inl (hsame ?_)
    simp only [proceed, ht, pass]
    cases a.event with
    | admitted => exact JobStore.works_amendEntry (f := JobStore.begun) fun _ => rfl
    | progress permille etaMs => exact congrArg (List.map _) (JobStore.queue_amend _)
    | returned outcome => rfl
  | recovering o cancelled budgetMs =>
    refine .inl (hsame ?_)
    simp only [proceed, ht, recover, JobStore.recoveryRemaining]
    have hresolve : ∀ (s : Router) (remaining nowMs : ℕ),
        (s.resolve w o cancelled remaining nowMs).store = s.store := by
      intro s remaining nowMs
      unfold resolve
      split <;> rfl
    cases s.store.entryOf o.work.id with
    | none => rw [hresolve]; rfl
    | some e =>
      simp only [hresolve]
      exact JobStore.works_amendEntry (f := JobStore.awaiting _) fun _ => rfl
  | puttingBack o wait parked backoffMs =>
    refine .inl (hsame ?_)
    rcases s.store.putBack_cases o.work.id o.nowMs wait o.pass.generation parked backoffMs with
      ⟨-, h⟩ | ⟨-, ⟨-, h⟩ | ⟨-, h⟩⟩
    · simp only [proceed, ht, putBack, h]; rfl
    · simp only [proceed, ht, putBack, h]
      exact JobStore.works_amendEntry (f := JobStore.released parked) fun _ => rfl
    · simp only [proceed, ht, putBack, h]
      exact JobStore.works_amendEntry fun e => JobStore.replaced_work ..
  | leaving o | puttingDown o =>
    left
    simp only [proceed, ht, leave, JobStore.leave]
    exact JobStore.works_eraseP _
  | starting | requeued | recording =>
    refine .inl (hsame ?_)
    simp only [proceed, ht]
    exact congrArg (List.map _) (JobStore.queue_amend _)
  | minted id call =>
    refine .inl (hsame ?_)
    rcases s.store.accept_cases id call.nowWallMs call.nowMs call.request call.terms with ⟨_, h⟩ | ⟨h, -⟩ <;>
      simp only [proceed, ht, accept, h] <;> rfl
  | submitting call =>
    refine .inl (hsame ?_)
    simp only [proceed, ht, mint]
    (repeat' split) <;> rfl
  | ended o =>
    refine .inl (hsame ?_)
    simp only [proceed, ht, judge, resolve]
    (repeat' split) <;> rfl
  | counting o =>
    refine .inl (hsame ?_)
    simp only [proceed, ht, count]
    split <;> rfl
  | waiting moves =>
    refine .inl (hsame ?_)
    simp only [proceed, ht]
    cases moves <;> rfl
  | _ => exact .inl (hsame (by simp only [proceed, ht] <;> rfl))

theorem works_step (s : Router) (e : Event) :
    (s.step e).store.works.Sublist s.store.works ∨
      ∃ w id call, s.tasks w = .recorded id call ∧ s.store.isFull call.terms.priority = false ∧
        (s.step e).store.works =
          s.store.works ++ [(s.store.newEntry id call.nowMs call.request call.terms).work] := by
  have hrefl : s.store.works.Sublist s.store.works := List.Sublist.refl _
  cases e with
  | proceed w a =>
    rcases s.works_proceed w a with h | ⟨id, call, h⟩
    · exact .inl h
    · exact .inr ⟨w, id, call, h⟩
  | submit w call | work w | shutdown w =>
    left
    simp only [step]
    split <;> exact hrefl
  | cancel id tenant nowWallMs nowMs =>
    left
    simp only [step]
    rcases s.store.cancel_cases id nowWallMs nowMs tenant with
      h | ⟨job, -, -, -, ⟨-, h⟩ | ⟨job', -, -, -, -, h⟩⟩ <;> rw [h] <;> exact hrefl
  | read id tenant nowMs => exact .inl hrefl

/-! ### Orderly steps -/

/-- No job is put back while the store stops and the job's flag is down. -/
def Orderly (s : Router) : Event → Prop
  | .proceed w _ =>
    match s.tasks w with
    | .puttingBack o _ _ _ => s.store.stopping = true → s.store.isCancelled o.work.id = true
    | _ => True
  | _ => True

instance (s : Router) (e : Event) : Decidable (s.Orderly e) := by
  unfold Orderly
  split
  · split <;> infer_instance
  · infer_instance

theorem dropping_iff {id : JobId} : (s.tasks w).role id = .dropping ↔
    ∃ o, s.tasks w = .puttingDown o ∧ o.work.id = id := by
  constructor
  · intro h
    cases ht : s.tasks w <;> rw [ht] at h <;> simp only [Task.role] at h <;> try split at h
    all_goals first | exact ⟨_, rfl, by assumption⟩ | cases h
  · rintro ⟨o, ht, hid⟩
    rw [ht]
    exact if_pos hid

/-- In an orderly step only flagged jobs are put down. -/
theorem flagged_of_dropping {e : Event} (horderly : s.Orderly e) {id : JobId} {w' : ℕ}
    (hnow : ((s.step e).life id).roles w' = .dropping) (hbefore : (s.life id).roles w' ≠ .dropping) :
    (s.life id).flagged = true := by
  obtain ⟨o, ht, rfl⟩ := dropping_iff.1 hnow
  have hnew : s.tasks w' ≠ .puttingDown o := fun h => hbefore (dropping_iff.2 ⟨o, h, rfl⟩)
  cases e with
  | proceed w a =>
    obtain rfl | hne := eq_or_ne w' w
    · obtain ⟨wait, parked, backoffMs, hback, hleaves⟩ := puttingDown_of_proceed ht
      simp only [Orderly, hback] at horderly
      rcases Bool.or_eq_true_iff.1 hleaves with hstop | hflag
      · exact horderly hstop
      · exact hflag
    · exact absurd ((proceed_tasks_of_ne hne a).symm.trans ht) hnew
  | submit w call | work w | shutdown w =>
    unfold step at ht
    dsimp only at ht
    split at ht
    · rw [goTo_tasks] at ht
      split at ht
      · cases ht
      · exact absurd ht hnew
    · exact absurd ht hnew
  | cancel | read => exact absurd ht hnew

/-- **Orderly steps keep all lives sound.** -/
theorem Sound.step (h : s.Sound) {e : Event} (horderly : s.Orderly e) : (s.step e).Sound := by
  refine ⟨?_, fun id => ?_, fun id => ?_⟩
  · have hkeyed : (s.store.works.map Work.id).Nodup := by
      rw [JobStore.works, List.map_map]
      exact h.keyed
    show ((s.step e).store.queue.map fun e => e.work.id).Nodup
    suffices hworks : ((s.step e).store.works.map Work.id).Nodup by
      rwa [JobStore.works, List.map_map] at hworks
    rcases s.works_step e with hsub | ⟨w, id, call, ht, -, hworks⟩
    · exact (hsub.map _).nodup hkeyed
    · rw [hworks, List.map_append, List.nodup_append]
      refine ⟨hkeyed, List.nodup_singleton _, ?_⟩
      have hnone : (s.life id).entry = none := by
        refine (h.lives id).outside w ?_
        show ((s.tasks w).role id).outside = true
        rw [ht, Task.role, if_pos rfl]
        rfl
      intro k hk k' hk' hsame
      obtain ⟨work, hwork, rfl⟩ := List.mem_map.1 hk
      obtain ⟨e, he, rfl⟩ := List.mem_map.1 hwork
      have hid : e.work.id = id := hsame.trans (List.mem_singleton.1 hk')
      have hentry := JobStore.entryOf_of_mem h.keyed he
      rw [hid] at hentry
      have hplace : s.store.place? id = none := hnone
      rw [JobStore.place?, hentry] at hplace
      cases hplace
  · rcases step_follows h e id with (heq | hmove) | ⟨-, heq⟩ | ⟨-, heq⟩
    · rw [heq]
      exact h.lives id
    · exact hmove.sound (h.lives id) fun w => flagged_of_dropping horderly
    · rw [heq]
      exact (h.lives id).cancel
    · rw [heq]
      exact (h.lives id).flag
  · rcases step_follows h e id with (heq | hmove) | ⟨hcancels, heq⟩ | ⟨-, heq⟩
    · rw [heq]
      exact h.blank id
    · exact hmove.blank (h.lives id) (h.blank id)
    · rw [heq]
      exact (h.blank id).cancel hcancels.record
    · rw [heq]
      exact (h.blank id).flag

theorem boot_sound (limits : JobLimits) : (boot limits).Sound := by
  refine ⟨List.nodup_nil, fun id => ?_, fun id _ => rfl⟩
  constructor <;> intros <;> simp_all [life, boot, Life.Owner, Task.role, Role.submits, Role.outside, Role.owns,
    JobStore.place?, JobStore.entryOf, JobStore.new]

end Router

end HypeLlm.Jobs
