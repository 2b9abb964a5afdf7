import HypeLlm.Jobs.OneTry

/-!
# How long a job is kept back by others

A job that waits past the reordering bound goes before every job of its class that does not.  Among
those that do, the order is share, not age: the rounds a job was stamped with at its submission stay,
whatever has left the queue since.  So a job of a backlog that is gone is taken after a later one of
another principal; between jobs of equal rounds the order is that of submission.

* `Router.Stamped` — sequence numbers grow along the queue;
* **`starving_first`** — what a worker takes, in every state of a run, while a due job has waited past
  the bound;
* `Sample.younger_first` — the younger of two such jobs is taken.
-/

namespace HypeLlm.Jobs

open HypeLlm.Words HypeLlm.Routing HypeLlm.Runs

namespace JobStore

variable {s : JobStore} {nowMs : ℕ} {order : JobOrder}

/-- A due job that has waited past the bound. -/
def Starves (s : JobStore) (nowMs : ℕ) (order : JobOrder) (e : Entry) : Prop :=
  (s.jobEntry nowMs (some order) e).due = true ∧
    (s.jobEntry nowMs (some order) e).starving nowMs order.boundMs = true

instance (e : Entry) : Decidable (s.Starves nowMs order e) := by
  unfold Starves
  infer_instance

/-- The order of the jobs of one class within a step of the picker. -/
def shareKey (e : Entry) : ℕ ×ₗ ℕ ×ₗ ℕ := toLex (e.work.principalRound, toLex (e.work.tenantRound, e.work.seq))

/-- What one look at the queue takes is what the picker chose. -/
theorem take_eq_attempt {work : Work} {generation : ℕ} {parked : Bool} {order : Option JobOrder}
    (h : (s.take nowMs order).2 = .attempt work generation parked) :
    ∃ i e, s.pick nowMs order = some i ∧ s.queue[i]? = some e ∧ e.work = work := by
  unfold take at h
  split at h
  · cases h
  · split at h
    · rename_i e hpick
      obtain ⟨i, hi, hat⟩ := Option.bind_eq_some_iff.1 hpick
      cases h
      exact ⟨i, e, hi, hat, rfl⟩
    · split at h <;> cases h

/-- **What is taken while due jobs have waited past the bound.** -/
theorem take_starving (hbound : order.boundMs ≠ 0) {work : Work} {generation : ℕ} {parked : Bool}
    (h : (s.take nowMs (some order)).2 = .attempt work generation parked) :
    ∃ p ∈ s.queue, p.work = work ∧ ∀ e ∈ s.queue, s.Starves nowMs order e →
      p.work.priority.rank < e.work.priority.rank ∨
        p.work.priority = e.work.priority ∧ s.Starves nowMs order p ∧ shareKey p ≤ shareKey e := by
  obtain ⟨i, p, hpick, hat, hwork⟩ := take_eq_attempt h
  obtain ⟨q, hq, hdue, hstarving⟩ := pickJob_starving hbound hpick
  rw [List.getElem?_map, hat, Option.map_some, Option.some.injEq] at hq
  subst q
  refine ⟨p, List.mem_of_getElem? hat, hwork, fun e he ⟨hedue, hestarving⟩ => ?_⟩
  rcases hstarving _ (List.mem_map_of_mem he) hedue hestarving with hrank | ⟨hclass, hp, hshare⟩
  · exact .inl hrank
  · exact .inr ⟨hclass, ⟨hdue, hp⟩, hshare⟩

end JobStore

namespace Router

variable {s : Router} {n : ℕ}

/-- Sequence numbers grow along the queue, and the next is above all of them. -/
structure Stamped (n : ℕ) (s : Router) : Prop where
  sorted : s.store.works.Pairwise fun work work' => work.seq < work'.seq
  next : ∀ work ∈ s.store.works, work.seq < s.store.sequence
  bound : s.store.sequence ≤ n

/-- **A step stamps no number twice**, as long as they do not wrap. -/
theorem Stamped.step (h : s.Stamped n) (hn : n + 1 < 2 ^ 64) (e : Event) : (s.step e).Stamped (n + 1) := by
  obtain ⟨hsorted, hnext, hbound⟩ := h
  have hkeep : (s.step e).store.sequence = s.store.sequence → (s.step e).store.works.Sublist s.store.works →
      (s.step e).Stamped (n + 1) := by
    intro hsequence hsub
    refine ⟨hsorted.sublist hsub, fun work hwork => ?_, ?_⟩
    · rw [hsequence]
      exact hnext work (hsub.subset hwork)
    · rw [hsequence]
      omega
  have hrefl : s.store.works.Sublist s.store.works := List.Sublist.refl _
  cases e with
  | submit w call | work w | shutdown w =>
    refine hkeep ?_ ?_
    · unfold Router.step
      dsimp only
      split <;> rfl
    · unfold Router.step
      dsimp only
      split <;> exact hrefl
  | cancel id tenant nowWallMs nowMs =>
    rcases s.store.cancel_cases id nowWallMs nowMs tenant with
      hcancel | ⟨job, -, -, -, ⟨-, hcancel⟩ | ⟨job', -, -, -, -, hcancel⟩⟩
    all_goals
      refine hkeep ?_ ?_
      · simp only [Router.step, hcancel]
        rfl
      · simp only [Router.step, hcancel]
        exact hrefl
  | read id tenant nowMs => exact hkeep rfl hrefl
  | proceed w a =>
    by_cases hrecorded : ∃ id call, s.tasks w = .recorded id call
    · obtain ⟨id, call, ht⟩ := hrecorded
      have hproceed : s.step (.proceed w a) = s.enqueue w id call := by
        simp only [Router.step, proceed, ht]
      rw [hproceed] at hkeep ⊢
      rcases s.enqueue_store w id call with hstore | ⟨-, hstore⟩
      · rw [hstore] at hkeep
        exact hkeep rfl hrefl
      · -- The job is stamped with the number that was next.
        have hwrap : wrapAdd 64 s.store.sequence 1 = s.store.sequence + 1 := Nat.mod_eq_of_lt (by omega)
        have hworks : (s.enqueue w id call).store.works =
            s.store.works ++ [(s.store.newEntry id call.nowMs call.request call.terms).work] := by
          rw [hstore]
          exact List.map_append
        refine ⟨?_, fun work hwork => ?_, ?_⟩
        · rw [hworks, List.pairwise_append]
          refine ⟨hsorted, List.pairwise_singleton .., fun work hwork work' hwork' => ?_⟩
          rw [List.mem_singleton.1 hwork']
          exact hnext work hwork
        · rw [hstore, hwrap]
          rw [hworks] at hwork
          rcases List.mem_append.1 hwork with hold | hnew
          · exact Nat.lt_succ_of_lt (hnext work hold)
          · rw [List.mem_singleton.1 hnew]
            exact Nat.lt_succ_self _
        · rw [hstore, hwrap]
          exact Nat.succ_le_succ hbound
    · have hnot : ∀ id call, s.tasks w ≠ .recorded id call := fun id call ht => hrecorded ⟨id, call, ht⟩
      refine hkeep (congrArg (fun fixed => fixed.2.2) (fixed_proceed hnot a)) ?_
      rcases s.works_proceed w a with hsub | ⟨id, call, ht, -, -⟩
      · exact hsub
      · exact absurd ht (hnot id call)

/-- Jobs are queued in the order of their numbers. -/
theorem stamped_of_run (limits : JobLimits) (es : List Event) (h : es.length < 2 ^ 64) :
    (run step (boot limits) es).Stamped es.length := by
  induction es using List.reverseRecOn with
  | nil => exact ⟨List.Pairwise.nil, (fun _ hwork => nomatch hwork), Nat.le_refl _⟩
  | append_singleton es e ih =>
    rw [List.length_append, List.length_singleton] at h ⊢
    rw [run_snoc]
    exact (ih (by omega)).step h e

/-- **What a worker takes while a due job has waited past the bound**, in every state of a run: a job of
a higher class, or one of its class that has waited past the bound too, and that comes no later in share
order.  The last part of that order is the place in the queue. -/
theorem starving_first (limits : JobLimits) (es : List Event) (nowMs : ℕ) (order : JobOrder)
    (hbound : order.boundMs ≠ 0) (work : Work) (generation : ℕ) (parked : Bool)
    (h : ((run step (boot limits) es).store.take nowMs (some order)).2 = .attempt work generation parked) :
    (∃ p ∈ (run step (boot limits) es).store.queue, p.work = work ∧
      ∀ e ∈ (run step (boot limits) es).store.queue, (run step (boot limits) es).store.Starves nowMs order e →
        p.work.priority.rank < e.work.priority.rank ∨
          p.work.priority = e.work.priority ∧ (run step (boot limits) es).store.Starves nowMs order p ∧
            JobStore.shareKey p ≤ JobStore.shareKey e) ∧
      (es.length < 2 ^ 64 →
        (run step (boot limits) es).store.queue.Pairwise fun e e' => e.work.seq < e'.work.seq) := by
  refine ⟨JobStore.take_starving hbound h, fun hlength => ?_⟩
  have hsorted : ((run step (boot limits) es).store.queue.map Entry.work).Pairwise
      fun work work' => work.seq < work'.seq := (stamped_of_run limits es hlength).sorted
  exact (List.pairwise_map (f := Entry.work) (R := fun work work' : Work => work.seq < work'.seq)).1 hsorted

namespace Sample

/-- A job of a principal is submitted. -/
def submittedBy (w : ℕ) (id : JobId) (principal : PrincipalId) (nowMs : ℕ) : List Event :=
  [.submit w ⟨⟨"tenant", principal, "model", 1000000⟩, ⟨.standard, none, none, none⟩, 0, nowMs⟩,
    .proceed w { id := some id }, .proceed w {}, .proceed w {}]

def bound : JobOrder := ⟨5000, fun _ => .warm⟩

/-- Two jobs of one principal are submitted and the first is done; then another principal submits one. -/
def backlog : List Event :=
  submittedBy 0 "a" "p" 0 ++ submittedBy 0 "b" "p" 0 ++ [Event.work 1] ++ goesOn 1 1 ++ [fails 1] ++ goesOn 1 6 ++
    submittedBy 0 "c" "q" 10

/-- The job that worker 1 takes next. -/
def taken : Work := ⟨"c", ⟨"tenant", "q", "model", 1000000⟩, 2, 10, .standard, 0, 1⟩

theorem taken_at_last :
    ((run step (boot .default) backlog).store.take 10000 (some bound)).2 = .attempt taken 2 false ∧
      (∃ p ∈ (run step (boot .default) backlog).store.queue, p.work = taken ∧
        ∀ e ∈ (run step (boot .default) backlog).store.queue,
          (run step (boot .default) backlog).store.Starves 10000 bound e →
            p.work.priority.rank < e.work.priority.rank ∨
              p.work.priority = e.work.priority ∧ (run step (boot .default) backlog).store.Starves 10000 bound p ∧
                JobStore.shareKey p ≤ JobStore.shareKey e) := by
  have htake : ((run step (boot .default) backlog).store.take 10000 (some bound)).2 = .attempt taken 2 false := by
    decide +kernel
  exact ⟨htake, (starving_first .default backlog 10000 bound (by decide) taken 2 false htake).1⟩

/-- A job is taken although one of its class that was submitted before it has waited past the bound. -/
theorem younger_first :
    ((run step (boot .default) backlog).store.take 10000 (some bound)).2 = .attempt taken 2 false ∧
      ∃ e ∈ (run step (boot .default) backlog).store.queue,
        (run step (boot .default) backlog).store.Starves 10000 bound e ∧ e.work.priority = taken.priority ∧
          e.work.seq < taken.seq ∧ e.work.submittedMs < taken.submittedMs := by
  decide +kernel

end Sample

end Router

end HypeLlm.Jobs
