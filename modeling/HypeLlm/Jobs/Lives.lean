import HypeLlm.Jobs.Lifecycle
import HypeLlm.Jobs.Workers

/-!
# The store as so many lives

A router is looked at one job at a time.  A step of one of its threads is a move in the life of the job
it is at work on, and in the lives of the other jobs nothing happens, but for what is swept or flagged.

* `Router.life` — the life of a job;
* `Router.Cancels`, `Router.Flags` — when the flag of a job goes up;
* **`Router.step_follows`** — every step is a move of that life, or none, or its flag goes up.
-/

namespace HypeLlm.Jobs

open HypeLlm.Words HypeLlm.Routing HypeLlm.Tables

/-! ### What is written to a record -/

namespace Job

variable {job job' : Job} {limits : JobLimits} {nowWallMs nowMs revision : ℕ}

theorem cancel_eq_some (h : job.cancel limits nowWallMs nowMs revision = some job') :
    job.view.state = .queued ∧ job'.id = job.id ∧ job'.view.state = .cancelled ∧
      job'.expiresMs.isSome = true := by
  unfold cancel at h
  split at h
  · cases h
    exact ⟨by assumption, rfl, rfl, rfl⟩
  · cases h

theorem requeue_eq_some {wait : Wait} {backoffMs : ℕ}
    (h : job.requeue nowWallMs revision wait backoffMs = some job') :
    job.view.state.isTerminal = false ∧ job'.id = job.id ∧ job'.view.state = .queued ∧
      job'.expiresMs = job.expiresMs := by
  unfold requeue at h
  split at h
  · cases h
  · split at h
    · cases h
      exact ⟨Bool.eq_false_iff.2 (by assumption), rfl, rfl, rfl⟩
    · cases h

theorem start_eq_some {cancelled : Bool} (h : job.start nowWallMs revision cancelled = some job') :
    job.view.state = .queued ∧ cancelled = false ∧ job'.id = job.id ∧ job'.view.state = .running ∧
      job'.expiresMs = job.expiresMs := by
  unfold start at h
  split at h
  · cases h
  · rename_i hlive
    cases h
    rw [not_or, not_not, Bool.not_eq_true] at hlive
    exact ⟨hlive.1, hlive.2, rfl, rfl, rfl⟩

theorem progress_eq_some {permille etaMs : ℕ}
    (h : job.progress nowWallMs revision permille etaMs = some job') :
    job'.id = job.id ∧ job'.view.state = job.view.state ∧ job'.expiresMs = job.expiresMs := by
  unfold progress at h
  split at h
  · cases h
  · cases h
    exact ⟨rfl, rfl, rfl⟩

end Job

/-- **What is recorded of a job that ends**: it is cancelled if that is what is recorded, and otherwise
it has succeeded or failed. -/
theorem Ending.record_spec (ending : Ending) (limits : JobLimits) (nowWallMs nowMs revision : ℕ) (job : Job) :
    (ending.record limits nowWallMs nowMs revision job).id = job.id ∧
      (ending.record limits nowWallMs nowMs revision job).expiresMs.isSome = true ∧
      (ending = .cancelled →
        (ending.record limits nowWallMs nowMs revision job).view.state = .cancelled) ∧
      (ending ≠ .cancelled →
        (ending.record limits nowWallMs nowMs revision job).view.state = .succeeded ∨
          (ending.record limits nowWallMs nowMs revision job).view.state = .failed) := by
  cases ending with
  | cancelled => exact ⟨rfl, rfl, fun _ => rfl, fun h => absurd rfl h⟩
  | failed error => exact ⟨rfl, rfl, Ending.noConfusion, fun _ => .inr rfl⟩
  | spooled parts bytes => exact ⟨rfl, rfl, Ending.noConfusion, fun _ => .inl rfl⟩
  | succeeded payload =>
    simp only [Ending.record, Job.finish]
    split
    · exact ⟨rfl, rfl, Ending.noConfusion, fun _ => .inr rfl⟩
    · exact ⟨rfl, rfl, Ending.noConfusion, fun _ => .inl rfl⟩

/-! ### Lookups in the store -/

def Entry.place (e : Entry) : Place :=
  ⟨e.work.request.requestedModel, e.trying, e.started, e.parked.isSome⟩

namespace JobStore

variable (s : JobStore) (id : JobId)

def record? : Option JobState := (s.job? id).map fun job => job.view.state

def isExpiring : Bool := (s.job? id).any fun job => job.expiresMs.isSome

def place? : Option Place := (s.entryOf id).map Entry.place

variable {s id} {k : JobId}

theorem id_of_job? {job : Job} (h : s.job? id = some job) : job.id = id := key_of_find? h

theorem id_of_entryOf {e : Entry} (h : s.entryOf id = some e) : e.work.id = id := by
  simpa using List.find?_some h

/-- A record is rewritten, and the others stay. -/
theorem job?_amend {f : ℕ → Job → Option Job}
    (hf : ∀ job job', f s.revisions job = some job' → job'.id = job.id) :
    (s.amend id f).job? k =
      if k = id then (s.job? id).map fun job => (f s.revisions job).getD job else s.job? k := by
  rw [amend]
  cases hjob : s.job? id with
  | none =>
    rw [Option.bind_none, Option.elim_none]
    split
    · subst k
      rw [hjob, Option.map_none]
    · rfl
  | some job =>
    have hid := id_of_job? hjob
    rw [Option.bind_some, Option.map_some]
    cases hjob' : f s.revisions job with
    | none =>
      rw [Option.elim_none, Option.getD_none]
      split
      · subst k
        exact hjob
      · rfl
    | some job' =>
      have hid' : job'.id = id := (hf job job' hjob').trans hid
      rw [Option.elim_some, Option.getD_some]
      refine (Table.find?_replace s.jobs k job').trans ?_
      rw [hid']
      split
      · subst k
        exact congrArg (Option.map fun _ => job') hjob
      · rfl

@[simp] theorem entryOf_amend (f : ℕ → Job → Option Job) : (s.amend id f).entryOf k = s.entryOf k := by
  rw [amend]
  cases (s.job? id).bind (f s.revisions) <;> rfl

@[simp] theorem isCancelled_amend (f : ℕ → Job → Option Job) :
    (s.amend id f).isCancelled k = s.isCancelled k := by
  rw [amend]
  cases (s.job? id).bind (f s.revisions) <;> rfl

theorem entryOf_amendEntry {f : Entry → Entry} (hf : ∀ e, (f e).work = e.work) :
    (s.amendEntry id f).entryOf k = if k = id then (s.entryOf id).map f else s.entryOf k := by
  show (mapAt (fun e : Entry => e.work.id) id f s.queue).find? (fun e => e.work.id = k) = _
  have hkey : ∀ e : Entry, (fun e : Entry => e.work.id) (f e) = (fun e : Entry => e.work.id) e :=
    fun e => congrArg Work.id (hf e)
  exact find?_mapAt hkey k

/-- An entry is rewritten, and the others stay. -/
theorem place?_amendEntry {f : Entry → Entry} (hf : ∀ e, (f e).work = e.work) :
    (s.amendEntry id f).place? k = if k = id then (s.entryOf id).map fun e => (f e).place else s.place? k := by
  rw [place?, entryOf_amendEntry hf]
  split
  · rw [Option.map_map]
    rfl
  · rfl

theorem place?_amendEntry_of_ne {f : Entry → Entry} (hf : ∀ e, (f e).work = e.work) (hk : id ≠ k) :
    (s.amendEntry id f).place? k = s.place? k := (place?_amendEntry hf).trans (if_neg (Ne.symm hk))

/-- The first entry that satisfies `p` is taken out. -/
theorem place?_eraseP (hnodup : (s.queue.map (·.work.id)).Nodup) {p : Entry → Bool} {e : Entry}
    (hfirst : s.queue.find? p = some e) :
    ({ s with queue := s.queue.eraseP p } : JobStore).place? k = if k = e.work.id then none else s.place? k := by
  refine (congrArg (Option.map _) (find?_eraseP hnodup hfirst k)).trans ?_
  split <;> rfl

theorem entryOf_of_mem (hnodup : (s.queue.map (·.work.id)).Nodup) {e : Entry} (he : e ∈ s.queue) :
    s.entryOf e.work.id = some e := Lists.find?_key hnodup he

/-- A job is queued that is not in the queue. -/
theorem entryOf_enqueued (hnone : s.entryOf id = none) {nowMs sequence : ℕ} {request : CanonicalRequest}
    {terms : SubmitTerms} :
    ({ s with queue := s.queue ++ [s.newEntry id nowMs request terms], sequence := sequence } :
        JobStore).entryOf k =
      if k = id then some (s.newEntry id nowMs request terms) else s.entryOf k := by
  refine find?_concat k fun hmem => ?_
  obtain ⟨e, he, hid⟩ := List.mem_map.1 hmem
  exact List.find?_eq_none.1 hnone e he (decide_eq_true hid)

theorem job?_sweep (nowMs : ℕ) :
    (s.sweep nowMs).job? k = (s.job? k).filter fun job => job.expiresMs.all (nowMs < ·) :=
  Table.find?_filter ..

theorem job?_insert (job : Job) : (s.insert job).job? k = if k = job.id then some job else s.job? k :=
  Table.find?_insert ..

theorem job?_write (job : Job) :
    (s.write job).job? k = if k = job.id then (s.job? k).map fun _ => job else s.job? k :=
  Table.find?_replace ..

theorem job?_remove : (s.remove id).job? k = if k = id then none else s.job? k := Table.find?_remove ..

/-! ### What the operations of the store come to -/

/-- A submission is refused, or it has its record, and its tenant had room for it. -/
theorem accept_cases (id : JobId) (nowWallMs nowMs : ℕ) (request : CanonicalRequest) (terms : SubmitTerms) :
    (∃ refusal, s.accept id nowWallMs nowMs request terms = (s.sweep nowMs, some refusal)) ∨
      s.accept id nowWallMs nowMs request terms =
          ((s.sweep nowMs).insert ((s.sweep nowMs).newJob id nowWallMs request terms), none) ∧
        min ((s.sweep nowMs).tenantHeld request.tenant) u32Max <
          (terms.tenantCap.getD s.limits.maxPerTenant).toNat := by
  unfold accept
  simp only
  split
  · exact .inl ⟨_, rfl⟩
  · rename_i hroom
    split
    · exact .inl ⟨_, rfl⟩
    · exact .inr ⟨rfl, not_le.1 hroom⟩

/-- A job is refused for want of room, or it is queued. -/
theorem enqueue_cases (id : JobId) (nowMs : ℕ) (request : CanonicalRequest) (terms : SubmitTerms) :
    s.enqueue id nowMs request terms = (s.remove id, some .queueFull) ∨
      s.enqueue id nowMs request terms =
          ({ s with
            queue := s.queue ++ [s.newEntry id nowMs request terms]
            sequence := wrapAdd 64 s.sequence 1 }, none) ∧
        s.isFull terms.priority = false := by
  unfold enqueue
  split
  · exact .inl rfl
  · rename_i hroom
    exact .inr ⟨rfl, Bool.eq_false_iff.2 hroom⟩

/-- A cancellation finds nothing to do, or it raises the flag and writes to a record that waits. -/
theorem cancel_cases (id : JobId) (nowWallMs nowMs : ℕ) (tenant : TenantId) :
    (s.cancel id nowWallMs nowMs tenant).1 = s ∨
      ∃ job, s.job? id = some job ∧ job.tenant = tenant ∧ job.view.state.isTerminal = false ∧
        (job.view.state ≠ .queued ∧
            (s.cancel id nowWallMs nowMs tenant).1 = { s with cancelled := id :: s.cancelled } ∨
          ∃ job', job.view.state = .queued ∧ job'.id = id ∧ job'.view.state = .cancelled ∧
            job'.expiresMs.isSome = true ∧
            (s.cancel id nowWallMs nowMs tenant).1 =
              { s with cancelled := id :: s.cancelled }.write job') := by
  unfold cancel
  split
  · exact .inl rfl
  · rename_i job hjob
    obtain ⟨hjob, htenant⟩ := Option.filter_eq_some_iff.1 hjob
    split
    · exact .inl rfl
    · rename_i hlive
      refine .inr ⟨job, hjob, of_decide_eq_true htenant, Bool.eq_false_iff.2 hlive, ?_⟩
      cases hcancel : job.cancel s.limits nowWallMs nowMs s.revisions with
      | none =>
        refine .inl ⟨fun hqueued => ?_, by simp only [hcancel]⟩
        rw [Job.cancel, if_pos hqueued] at hcancel
        cases hcancel
      | some job' =>
        obtain ⟨hqueued, hid, hstate, hexpires⟩ := Job.cancel_eq_some hcancel
        exact .inr ⟨job', hqueued, hid.trans (id_of_job? hjob), hstate, hexpires, by simp only [hcancel]⟩

/-- What one look at the queue comes to. -/
theorem take_cases (nowMs : ℕ) (order : Option JobOrder) :
    (∃ entry, s.queue.find? (s.isSpent nowMs) = some entry ∧
        s.take nowMs order = ({ s with queue := s.queue.eraseP (s.isSpent nowMs) }, .discard entry)) ∨
      (∃ entry, entry ∈ s.queue ∧ entry.trying = false ∧ s.isCancelled entry.work.id = false ∧
        entry.work.request.requestedModel ∉ s.contested ∧
        s.take nowMs order = (s.amendEntry entry.work.id tried,
          .attempt entry.work s.generation entry.parked.isSome)) ∨
      s.take nowMs order = (s, .stopped) ∨ ∃ moves, s.take nowMs order = (s, .idle moves) := by
  unfold take
  cases hspent : s.queue.find? (s.isSpent nowMs) with
  | some entry => exact .inl ⟨entry, rfl, rfl⟩
  | none =>
    right
    cases hpick : (s.pick nowMs order).bind (s.queue[·]?) with
    | some entry =>
      left
      obtain ⟨i, hi, hat⟩ := Option.bind_eq_some_iff.1 hpick
      obtain ⟨top, picked, -, hmem⟩ := pickJob_due hi
      obtain ⟨hpicked, hdue, -⟩ := mem_dueOf.1 hmem
      rw [List.getElem?_map, hat, Option.map_some, Option.some.injEq] at hpicked
      have hmem : entry ∈ s.queue := List.mem_of_getElem? hat
      have hdue : (s.jobEntry nowMs order entry).due = true := by rw [hpicked]; exact hdue
      have hfields := Bool.and_eq_true_iff.1 hdue
      have htrying : entry.trying = false := by
        have hisDue := hfields.1
        simp only [Entry.isDue, Bool.and_eq_true] at hisDue
        simpa using hisDue.1.1
      have hspent := List.find?_eq_none.1 hspent entry hmem
      have hflag : s.isCancelled entry.work.id = false := by
        simp only [isSpent, htrying, Bool.not_false, Bool.true_and, Bool.or_eq_true, not_or] at hspent
        exact Bool.eq_false_iff.2 hspent.1
      exact ⟨entry, hmem, htrying, hflag, of_decide_eq_true hfields.2, rfl⟩
    | none =>
      right
      simp only
      split
      · exact .inl rfl
      · exact .inr ⟨_, rfl⟩

/-- What the queue's half of putting a job back comes to. -/
theorem putBack_cases (id : JobId) (nowMs : ℕ) (wait : Wait) (generation : ℕ) (parked : Option Capability)
    (backoffMs : ℕ) :
    (s.entryOf id = none ∧ s.putBack id nowMs wait generation parked backoffMs = (s, .missing parked)) ∨
      (∃ e, s.entryOf id = some e) ∧
        ((s.stopping || s.isCancelled id) = true ∧
            s.putBack id nowMs wait generation parked backoffMs =
              (s.amendEntry id (released parked), .leaves) ∨
          s.isCancelled id = false ∧
            s.putBack id nowMs wait generation parked backoffMs =
              (s.amendEntry id fun e => replaced nowMs wait generation backoffMs (keepParked parked e),
                .waits)) := by
  unfold putBack
  cases hentry : s.entryOf id with
  | none => exact .inl ⟨rfl, rfl⟩
  | some e =>
    refine .inr ⟨⟨e, rfl⟩, ?_⟩
    simp only
    split
    · rename_i hleaves
      exact .inl ⟨hleaves, rfl⟩
    · rename_i hwaits
      rw [Bool.not_eq_true, Bool.or_eq_false_iff] at hwaits
      exact .inr ⟨hwaits.2, rfl⟩

end JobStore

/-! ### Lives -/

/-- What a thread that has come so far has to do with a job. -/
def Task.role (id : JobId) : Task → Role
  | .minted id' call => if id' = id then .naming call.terms.parked.isSome else .away
  | .recorded id' call => if id' = id then .enlisting call.terms.parked.isSome else .away
  | .refused id' parked => if id' = id then .refused parked.isSome else .away
  | .discarding entry => if entry.work.id = id then .discarding entry.parked.isSome else .away
  | .discarded work parked expired => if work.id = id then .discarded parked.isSome expired else .away
  | .passing p | .starting p _ =>
    if p.work.id = id then .trying p.work.request.requestedModel p.parked p.admitted false else .away
  | .ended o | .recovering o _ _ | .counting o | .parking o | .leaving o =>
    if o.work.id = id then .trying o.work.request.requestedModel o.pass.parked o.pass.admitted false
    else .away
  | .puttingBack o _ parked _ =>
    if o.work.id = id then
      .trying o.work.request.requestedModel o.pass.parked o.pass.admitted parked.isSome
    else .away
  | .puttingDown o => if o.work.id = id then .dropping else .away
  | .left o parked | .releasing o parked => if o.work.id = id then .settling parked.isSome else .away
  | .finishing o => if o.work.id = id then .settling false else .away
  | .recording id' ending _ _ => if id' = id then .deciding (ending = .cancelled) else .away
  | .idle | .submitting _ | .flagging | .taking | .waiting _ | .requeued .. | .stopped => .away

namespace Router

variable (s : Router)

/-- The life of a job. -/
def life (id : JobId) : Life where
  named := decide (id ∈ s.minted)
  record := s.store.record? id
  expires := s.store.isExpiring id
  flagged := s.store.isCancelled id
  entry := s.store.place? id
  roles w := (s.tasks w).role id
  parks := s.parks id
  releases := s.releases id

/-- A step is a move in the life of a job, or none. -/
def Follows (id : JobId) (s' : Router) : Prop := s'.life id = s.life id ∨ Move (s.life id) (s'.life id)

variable {s} {w : ℕ} {t : Task} {id : JobId}

theorem life_goTo (w : ℕ) (t : Task) (id : JobId) : (s.goTo w t).life id = (s.life id).goTo w (t.role id) := by
  have hroles : (fun w' => (Function.update s.tasks w t w').role id) =
      Function.update (fun w' => (s.tasks w').role id) w (t.role id) :=
    funext fun w' => Function.apply_update (fun _ => Task.role id) s.tasks w t w'
  exact congrArg (fun roles => { s.life id with roles := roles }) hroles

theorem goTo_eq_self {j : Life} {r : Role} (h : j.roles w = r) : j.goTo w r = j := by
  subst h
  exact congrArg (fun roles => { j with roles := roles }) (Function.update_eq_self w j.roles)

theorem goTo_tasks_self (store : JobStore) : (s.withStore store).goTo w (s.tasks w) = s.withStore store :=
  congrArg (fun tasks => { s.withStore store with tasks := tasks }) (Function.update_eq_self w s.tasks)

theorem roles_update {s' : Router} (htasks : s'.tasks = Function.update s.tasks w t)
    (hrole : (s.tasks w).role id = t.role id) :
    (fun w' => (s'.tasks w').role id) = fun w' => (s.tasks w').role id := by
  funext w'
  rw [htasks, Function.update_apply]
  split
  · subst w'
    exact hrole.symm
  · rfl

/-- Nothing happens in the life of a job of which store and thread say what they said. -/
theorem follows_same {s' : Router} (hminted : decide (id ∈ s'.minted) = decide (id ∈ s.minted))
    (hrecord : s'.store.record? id = s.store.record? id)
    (hexpires : s'.store.isExpiring id = s.store.isExpiring id)
    (hflag : s'.store.isCancelled id = s.store.isCancelled id)
    (hplace : s'.store.place? id = s.store.place? id) (hparks : s'.parks id = s.parks id)
    (hreleases : s'.releases id = s.releases id) (htasks : s'.tasks = Function.update s.tasks w t)
    (hrole : (s.tasks w).role id = t.role id) : s.Follows id s' := by
  have hroles := roles_update htasks hrole
  refine .inl ?_
  simp only [life, hminted, hrecord, hexpires, hflag, hplace, hparks, hreleases, hroles]

theorem follows_of_life_eq {s' s'' : Router} (h : s'.life id = s.life id) (hfollows : s'.Follows id s'') :
    s.Follows id s'' := by
  rwa [Follows, h] at hfollows

/-- A thread goes on, and nothing happens in the life of the job. -/
theorem follows_goTo (hrole : (s.tasks w).role id = t.role id) : s.Follows id (s.goTo w t) :=
  follows_same rfl rfl rfl rfl rfl rfl rfl rfl hrole

theorem parked_toNat {α : Type*} (parked : Option α) : (parked.elim 0 fun _ => 1) = parked.isSome.toNat := by
  cases parked <;> rfl

theorem mint_follows {call : Submission} (ht : s.tasks w = .submitting call) (drawn : Option JobId) :
    s.Follows id (s.mint w call drawn) := by
  have haway : (s.tasks w).role id = .away := by rw [ht]; rfl
  unfold mint
  split
  · exact follows_goTo haway
  · split
    · exact follows_goTo haway
    · rename_i k
      split
      · exact .inl rfl
      · rename_i hnew
        by_cases hk : k = id
        · subst k
          right
          rw [life_goTo]
          have hmove : Move (s.life id) _ :=
            .name (decide_eq_false hnew) haway call.terms.parked.isSome
          convert hmove using 2
          · simp [life, park, parked_toNat]
          · simp [Task.role]
        · refine follows_same ?_ rfl rfl rfl rfl ?_ rfl rfl ?_
          · simp [goTo, park, Ne.symm hk]
          · exact Function.update_of_ne (Ne.symm hk) ..
          · rw [haway, Task.role, if_neg hk]

/-- A job whose record may be swept meanwhile. -/
theorem follows_swept {s' : Router} (nowMs : ℕ) (hminted : s'.minted = s.minted)
    (hjob : s'.store.job? id = (s.store.job? id).filter fun job => job.expiresMs.all (nowMs < ·))
    (hflag : s'.store.isCancelled id = s.store.isCancelled id)
    (hplace : s'.store.place? id = s.store.place? id) (hparks : s'.parks id = s.parks id)
    (hreleases : s'.releases id = s.releases id) (htasks : s'.tasks = Function.update s.tasks w t)
    (hrole : (s.tasks w).role id = t.role id) : s.Follows id s' := by
  have hsame : s'.store.job? id = s.store.job? id → s.Follows id s' := by
    intro h
    exact follows_same (by rw [hminted]) (congrArg (Option.map _) h) (congrArg (Option.any _) h) hflag hplace
      hparks hreleases htasks hrole
  cases hold : s.store.job? id with
  | none => exact hsame (by rw [hjob, hold]; rfl)
  | some job =>
    rw [hold, Option.filter_some] at hjob
    split at hjob
    · exact hsame (hjob.trans hold.symm)
    · rename_i hswept
      right
      have hexpires : (s.life id).expires = true := by
        show Option.any _ (s.store.job? id) = true
        rw [hold]
        cases hms : job.expiresMs with
        | none => simp [hms] at hswept
        | some ms => simp [hms]
      have hroles := roles_update htasks hrole
      have hlife : s'.life id = { s.life id with record := none, expires := false } := by
        simp only [life, hminted, hflag, hplace, hparks, hreleases, hroles, JobStore.record?,
          JobStore.isExpiring, hjob, Option.map_none, Option.any_none]
      rw [hlife]
      exact .sweep hexpires

theorem accept_follows {k : JobId} {call : Submission} (ht : s.tasks w = .minted k call)
    (hblank : (s.life k).record = none) : s.Follows id (s.accept w k call) := by
  have hrole : (s.tasks w).role id = if k = id then .naming call.terms.parked.isSome else .away := by
    rw [ht, Task.role]
  unfold accept
  rcases s.store.accept_cases k call.nowWallMs call.nowMs call.request call.terms with
    ⟨refusal, h⟩ | ⟨h, -⟩
  · simp only [h]
    by_cases hk : k = id
    · subst k
      rw [if_pos rfl] at hrole
      have hnone : s.store.job? id = none := Option.map_eq_none_iff.1 hblank
      have hswept : (s.store.sweep call.nowMs).job? id = s.store.job? id := by
        rw [JobStore.job?_sweep, hnone, Option.filter_none]
      right
      rw [life_goTo]
      have hmove := Move.refuse (j := s.life id) hrole
      convert hmove using 2
      · simp only [life, withStore, JobStore.record?, JobStore.isExpiring, hswept]
        rfl
      · simp [Task.role]
    · rw [if_neg hk] at hrole
      exact follows_swept call.nowMs rfl (JobStore.job?_sweep call.nowMs) rfl rfl rfl rfl rfl
        (hrole.trans (if_neg hk).symm)
  · simp only [h]
    by_cases hk : k = id
    · subst k
      rw [if_pos rfl] at hrole
      right
      rw [life_goTo]
      have hmove := Move.accept (j := s.life id) hrole
      have hjob := (JobStore.job?_insert (s := s.store.sweep call.nowMs) (k := id)
        ((s.store.sweep call.nowMs).newJob id call.nowWallMs call.request call.terms)).trans (if_pos rfl)
      convert hmove using 2
      · simp only [life, withStore, JobStore.record?, JobStore.isExpiring, hjob]
        rfl
      · simp [Task.role]
    · rw [if_neg hk] at hrole
      refine follows_swept call.nowMs rfl ?_ rfl rfl rfl rfl rfl (hrole.trans (if_neg hk).symm)
      refine (JobStore.job?_insert _).trans ?_
      exact (if_neg (Ne.symm hk)).trans (JobStore.job?_sweep call.nowMs)

theorem enqueue_follows {k : JobId} {call : Submission} (ht : s.tasks w = .recorded k call)
    (hfree : (s.life k).entry = none) : s.Follows id (s.enqueue w k call) := by
  have hrole : (s.tasks w).role id = if k = id then .enlisting call.terms.parked.isSome else .away := by
    rw [ht, Task.role]
  unfold enqueue
  rcases s.store.enqueue_cases k call.nowMs call.request call.terms with h | ⟨h, -⟩
  · simp only [h]
    by_cases hk : k = id
    · subst k
      rw [if_pos rfl] at hrole
      right
      rw [life_goTo]
      have hmove := Move.rollback (j := s.life id) hrole
      convert hmove using 2
      · simp only [life, withStore, JobStore.record?, JobStore.isExpiring, JobStore.job?_remove, if_pos]
        rfl
      · simp [Task.role]
    · rw [if_neg hk] at hrole
      have hjob : (s.store.remove k).job? id = s.store.job? id := by
        rw [JobStore.job?_remove, if_neg (Ne.symm hk)]
      exact follows_same rfl (congrArg (Option.map _) hjob) (congrArg (Option.any _) hjob) rfl rfl rfl rfl rfl
        (hrole.trans (if_neg hk).symm)
  · simp only [h]
    have hnone : s.store.entryOf k = none := Option.map_eq_none_iff.1 hfree
    by_cases hk : k = id
    · subst k
      rw [if_pos rfl] at hrole
      right
      rw [life_goTo]
      have hmove := Move.enqueue (j := s.life id) hrole call.request.requestedModel
      convert hmove using 2
      · simp only [life, withStore, JobStore.place?, JobStore.entryOf_enqueued hnone, if_pos]
        rfl
      · rfl
    · rw [if_neg hk] at hrole
      refine follows_same rfl rfl rfl rfl ?_ rfl rfl rfl hrole
      refine congrArg (Option.map _) ((JobStore.entryOf_enqueued hnone).trans ?_)
      rw [if_neg (Ne.symm hk)]

/-- A thread undoes a count of one job. -/
theorem release_same {k : JobId} {parked : Option Capability} (hk : k ≠ id)
    (hrole : (s.tasks w).role id = t.role id) : s.Follows id ((s.release k parked).goTo w t) :=
  follows_same rfl rfl rfl rfl rfl rfl (Function.update_of_ne (Ne.symm hk) ..) rfl hrole

theorem life_release (id : JobId) (parked : Option Capability) :
    (s.release id parked).life id =
      { s.life id with releases := (s.life id).releases + parked.isSome.toNat } := by
  simp only [life, release, Function.update_self, parked_toNat]

theorem refused_follows {k : JobId} {parked : Option Capability} (ht : s.tasks w = .refused k parked) :
    s.Follows id ((s.release k parked).goTo w .idle) := by
  have hrole : (s.tasks w).role id = if k = id then .refused parked.isSome else .away := by
    rw [ht, Task.role]
  by_cases hk : k = id
  · subst k
    rw [if_pos rfl] at hrole
    right
    rw [life_goTo, life_release]
    exact .repay hrole
  · rw [if_neg hk] at hrole
    exact release_same hk hrole

theorem discarded_follows {work : Work} {parked : Option Capability} {expired : Bool} {nowWallMs nowMs : ℕ}
    (ht : s.tasks w = .discarded work parked expired) :
    s.Follows id ((s.release work.id parked).goTo w
      (if expired then .recording work.id (.failed patienceRanOut) nowWallMs nowMs else .taking)) := by
  have hrole : (s.tasks w).role id = if work.id = id then .discarded parked.isSome expired else .away := by
    rw [ht, Task.role]
  by_cases hk : work.id = id
  · subst hk
    rw [if_pos rfl] at hrole
    right
    rw [life_goTo, life_release]
    have hmove := Move.discharge (j := s.life work.id) hrole
    convert hmove using 2
    cases expired with
    | false => rfl
    | true => simp [Task.role]
  · rw [if_neg hk] at hrole
    refine release_same hk (hrole.trans ?_)
    split
    · exact (if_neg hk).symm
    · rfl

theorem releasing_follows {o : Over} {parked : Option Capability} (ht : s.tasks w = .releasing o parked) :
    s.Follows id ((s.release o.work.id parked).goTo w (.finishing o)) := by
  have hrole : (s.tasks w).role id = if o.work.id = id then .settling parked.isSome else .away := by
    rw [ht, Task.role]
  by_cases hk : o.work.id = id
  · subst hk
    rw [if_pos rfl] at hrole
    right
    rw [life_goTo, life_release]
    have hmove := Move.release (j := s.life o.work.id) hrole
    convert hmove using 2
    simp [Task.role]
  · rw [if_neg hk] at hrole
    exact release_same hk (hrole.trans (if_neg hk).symm)

/-- A record is rewritten, and the thread does what it did. -/
theorem amend_follows {k : JobId} {f : ℕ → Job → Option Job}
    (hf : ∀ job job', f s.store.revisions job = some job' → job'.id = job.id)
    (hrole : (s.tasks w).role id = t.role id)
    (hmove : ∀ job job', s.store.job? k = some job → f s.store.revisions job = some job' →
      job'.view.state = job.view.state ∧ job'.expiresMs = job.expiresMs ∨
        Move (s.life k) { s.life k with
          record := some job'.view.state
          expires := job'.expiresMs.isSome }) :
    s.Follows id ((s.withStore (s.store.amend k f)).goTo w t) := by
  have hjob : (s.store.amend k f).job? id = _ := JobStore.job?_amend hf
  have hsame : (s.store.amend k f).record? id = s.store.record? id →
      (s.store.amend k f).isExpiring id = s.store.isExpiring id →
      s.Follows id ((s.withStore (s.store.amend k f)).goTo w t) := fun hrecord hexpires =>
    follows_same rfl hrecord hexpires (JobStore.isCancelled_amend f)
      (congrArg (Option.map _) (JobStore.entryOf_amend f)) rfl rfl rfl hrole
  by_cases hk : id = k
  · subst k
    rw [if_pos rfl] at hjob
    cases hold : s.store.job? id with
    | none =>
      rw [hold, Option.map_none] at hjob
      exact hsame (by simp only [JobStore.record?, hjob, hold]) (by simp only [JobStore.isExpiring, hjob, hold])
    | some job =>
      rw [hold, Option.map_some] at hjob
      cases hnew : f s.store.revisions job with
      | none =>
        rw [hnew, Option.getD_none] at hjob
        exact hsame (by simp only [JobStore.record?, hjob, hold])
          (by simp only [JobStore.isExpiring, hjob, hold])
      | some job' =>
        rw [hnew, Option.getD_some] at hjob
        rcases hmove job job' hold hnew with ⟨hstate, hexpires⟩ | hmove
        · exact hsame (by simp only [JobStore.record?, hjob, hold, Option.map_some, hstate])
            (by simp only [JobStore.isExpiring, hjob, hold, Option.any_some, hexpires])
        · right
          rw [life_goTo, goTo_eq_self (by exact hrole)]
          convert hmove using 1
          simp only [life, withStore, JobStore.record?, JobStore.isExpiring, hjob, Option.map_some,
            Option.any_some, JobStore.isCancelled_amend, JobStore.place?, JobStore.entryOf_amend]
          rfl
  · rw [if_neg hk] at hjob
    exact hsame (congrArg (Option.map _) hjob) (congrArg (Option.any _) hjob)

theorem life_of_job {k : JobId} {job : Job} (h : s.store.job? k = some job) :
    (s.life k).record = some job.view.state ∧ (s.life k).expires = job.expiresMs.isSome := by
  simp only [life, JobStore.record?, JobStore.isExpiring, h, Option.map_some, Option.any_some, and_self]

theorem starting_follows {p : Pass} {nowWallMs : ℕ} (ht : s.tasks w = .starting p nowWallMs) :
    s.Follows id ((s.withStore (s.store.amend p.work.id fun revision job =>
      job.start nowWallMs revision (s.store.isCancelled p.work.id))).goTo w (.passing p)) := by
  refine amend_follows (fun job job' h => (Job.start_eq_some h).2.2.1) (by rw [ht]; rfl) ?_
  intro job job' hjob h
  obtain ⟨hqueued, hflag, -, hrunning, hexpires⟩ := Job.start_eq_some h
  obtain ⟨hrecord, hexpires'⟩ := life_of_job hjob
  right
  rw [hrunning, hexpires, ← hexpires']
  exact .start (hrecord.trans (congrArg some hqueued)) hflag

theorem requeued_follows {k : JobId} {wait : Wait} {backoffMs nowWallMs : ℕ}
    (ht : s.tasks w = .requeued k wait backoffMs nowWallMs) :
    s.Follows id ((s.withStore (s.store.amend k fun revision job =>
      job.requeue nowWallMs revision wait backoffMs)).goTo w .taking) := by
  refine amend_follows (fun job job' h => (Job.requeue_eq_some h).2.1) (by rw [ht]; rfl) ?_
  intro job job' hjob h
  obtain ⟨hlive, -, hqueued, hexpires⟩ := Job.requeue_eq_some h
  obtain ⟨hrecord, hexpires'⟩ := life_of_job hjob
  right
  rw [hqueued, hexpires, ← hexpires']
  exact .requeue hrecord hlive

/-- A record is finished. -/
theorem recording_follows {k : JobId} {ending : Ending} {nowWallMs nowMs : ℕ}
    (ht : s.tasks w = .recording k ending nowWallMs nowMs) :
    s.Follows id ((s.withStore (s.store.amend k fun revision job =>
      some (ending.record s.store.limits nowWallMs nowMs revision job))).goTo w .taking) := by
  have hrole : (s.tasks w).role id = if k = id then .deciding (decide (ending = .cancelled)) else .away := by
    rw [ht, Task.role]
  have hjob : (s.store.amend k fun revision job =>
      some (ending.record s.store.limits nowWallMs nowMs revision job)).job? id = _ :=
    JobStore.job?_amend fun job job' h => Option.some.inj h ▸ (ending.record_spec _ _ _ _ job).1
  by_cases hk : k = id
  · subst hk
    rw [if_pos rfl] at hrole hjob
    right
    rw [life_goTo]
    cases hold : s.store.job? k with
    | none =>
      rw [hold, Option.map_none] at hjob
      have hended : ∀ h : decide (ending = .cancelled) = false,
          (if ending = .cancelled then JobState.cancelled else .failed) = .failed :=
        fun h => if_neg (of_decide_eq_false h)
      have hmove := Move.finish (j := s.life k) hrole (fun h => if_pos (of_decide_eq_true h)) fun h => .inr (hended h)
      convert hmove using 2
      · simp only [life, withStore, JobStore.record?, JobStore.isExpiring, hjob, hold,
          JobStore.isCancelled_amend, JobStore.place?, JobStore.entryOf_amend]
        rfl
      · rfl
    | some job =>
      rw [hold, Option.map_some, Option.getD_some] at hjob
      obtain ⟨-, hexpires, hcancelled, hended⟩ :=
        ending.record_spec s.store.limits nowWallMs nowMs s.store.revisions job
      have hmove := Move.finish (j := s.life k) hrole (fun h => hcancelled (of_decide_eq_true h))
        fun h => hended (of_decide_eq_false h)
      convert hmove using 2
      · simp only [life, withStore, JobStore.record?, JobStore.isExpiring, hjob, hold, hexpires,
          JobStore.isCancelled_amend, JobStore.place?, JobStore.entryOf_amend, Option.map_some,
          Option.any_some, Option.isSome_some]
        rfl
      · rfl
  · rw [if_neg (Ne.symm hk)] at hjob
    rw [if_neg hk] at hrole
    exact follows_same rfl (congrArg (Option.map _) hjob) (congrArg (Option.any _) hjob)
      (JobStore.isCancelled_amend _) (congrArg (Option.map _) (JobStore.entryOf_amend _)) rfl rfl rfl hrole

/-- The identifiers in the queue are distinct. -/
def Keyed (s : Router) : Prop := (s.store.queue.map (·.work.id)).Nodup

theorem take_follows (hkeyed : s.Keyed) (ht : s.tasks w = .taking) (a : Answers) :
    s.Follows id (s.take w a) := by
  have haway : (s.tasks w).role id = .away := by rw [ht]; rfl
  unfold take
  rcases s.store.take_cases a.nowMs a.order with ⟨e, hfirst, h⟩ | ⟨e, hmem, htrying, hflag, -, h⟩ | h | ⟨moves, h⟩
  · simp only [h]
    have hentry := JobStore.entryOf_of_mem hkeyed (List.mem_of_find?_eq_some hfirst)
    by_cases hk : e.work.id = id
    · subst hk
      have htrying : e.trying = false := by
        have hspent := List.find?_some hfirst
        simp only [JobStore.isSpent, Bool.and_eq_true, Bool.not_eq_true'] at hspent
        exact hspent.1
      right
      rw [life_goTo]
      have hmove := Move.discard (j := s.life e.work.id) haway
        (show s.store.place? e.work.id = some e.place from congrArg (Option.map _) hentry) htrying
      convert hmove using 2
      · simp only [life, withStore, JobStore.place?_eraseP hkeyed hfirst, if_pos]
        rfl
      · rw [Task.role, if_pos rfl]
        rfl
    · refine follows_same rfl rfl rfl rfl ?_ rfl rfl rfl (haway.trans ?_)
      · exact (JobStore.place?_eraseP hkeyed hfirst).trans (if_neg (Ne.symm hk))
      · rw [Task.role, if_neg hk]
  · simp only [h]
    have hentry := JobStore.entryOf_of_mem hkeyed hmem
    by_cases hk : e.work.id = id
    · subst hk
      right
      rw [life_goTo]
      have hmove := Move.take (j := s.life e.work.id) haway
        (show s.store.place? e.work.id = some e.place from congrArg (Option.map _) hentry) htrying hflag
      convert hmove using 2
      · simp only [life, withStore, JobStore.place?_amendEntry (f := JobStore.tried) fun _ => rfl, hentry, if_pos]
        rfl
      · rw [Task.role, if_pos rfl]
        rfl
    · refine follows_same rfl rfl rfl rfl ?_ rfl rfl rfl (haway.trans ?_)
      · exact JobStore.place?_amendEntry_of_ne (f := JobStore.tried) (fun _ => rfl) hk
      · rw [Task.role, if_neg hk]
  · simp only [h]
    exact follows_goTo haway
  · simp only [h]
    exact follows_goTo haway

theorem passing_follows {p : Pass} (ht : s.tasks w = .passing p) (a : Answers) : s.Follows id (s.pass w p a) := by
  have hrole : (s.tasks w).role id =
      if p.work.id = id then .trying p.work.request.requestedModel p.parked p.admitted false else .away := by
    rw [ht, Task.role]
  unfold pass
  cases a.event with
  | returned outcome => exact follows_goTo hrole
  | progress permille etaMs =>
    have hgo : s.Follows id (_ : Router) := amend_follows (w := w) (t := s.tasks w) (k := p.work.id)
      (f := fun revision job => job.progress a.nowWallMs revision permille etaMs)
      (fun job job' h => (Job.progress_eq_some h).1) rfl
      fun job job' _ h => .inl (Job.progress_eq_some h).2
    rwa [goTo_tasks_self] at hgo
  | admitted =>
    by_cases hk : p.work.id = id
    · subst hk
      rw [if_pos rfl] at hrole
      right
      rw [life_goTo]
      have hmove := Move.reserve (j := s.life p.work.id) hrole
      have hplace : (s.store.amendEntry p.work.id JobStore.begun).place? p.work.id =
          (s.store.place? p.work.id).map fun e => ⟨e.model, e.trying, true, e.parked⟩ := by
        rw [JobStore.place?_amendEntry (f := JobStore.begun) fun _ => rfl, if_pos rfl, JobStore.place?, Option.map_map]
        rfl
      convert hmove using 2
      · simp only [life, withStore, hplace]
        rfl
      · rw [Task.role, if_pos rfl]
    · rw [if_neg hk] at hrole
      refine follows_same rfl rfl rfl rfl ?_ rfl rfl rfl (hrole.trans ?_)
      · exact JobStore.place?_amendEntry_of_ne (f := JobStore.begun) (fun _ => rfl) hk
      · rw [Task.role, if_neg hk]

theorem flagging_follows (ht : s.tasks w = .flagging) :
    s.Follows id ((s.withStore s.store.flagWaiting).goTo w .idle) ∨
      ((s.withStore s.store.flagWaiting).goTo w .idle).life id = (s.life id).flag := by
  have haway : (s.tasks w).role id = .away := by rw [ht]; rfl
  have hup : s.store.isCancelled id = true → s.store.flagWaiting.isCancelled id = true := by
    simp only [JobStore.isCancelled, JobStore.flagWaiting, decide_eq_true_eq, List.mem_append]
    exact .inr
  by_cases hsame : s.store.flagWaiting.isCancelled id = s.store.isCancelled id
  · exact .inl (follows_same rfl rfl rfl hsame rfl rfl rfl rfl haway)
  · have hnow : s.store.flagWaiting.isCancelled id = true := by
      by_contra hdown
      have hbefore : ¬s.store.isCancelled id = true := fun h => hdown (hup h)
      rw [Bool.not_eq_true] at hdown hbefore
      exact hsame (hdown.trans hbefore.symm)
    right
    rw [life_goTo, goTo_eq_self (by exact haway)]
    simp only [life, withStore, hnow]
    rfl

/-- The counts are there, and nothing else of the store is looked at. -/
theorem resolve_follows {o : Over} {cancelled : Bool} {recoveryRemaining nowMs : ℕ}
    (hrole : (s.tasks w).role id = (Task.counting o).role id) :
    s.Follows id (s.resolve w o cancelled recoveryRemaining nowMs) := by
  unfold resolve
  split <;> exact follows_goTo hrole

theorem recovering_follows {o : Over} {cancelled : Bool} {budgetMs : ℕ}
    (ht : s.tasks w = .recovering o cancelled budgetMs) (a : Answers) :
    s.Follows id (s.recover w o cancelled budgetMs a) := by
  have hrole : (s.tasks w).role id = (Task.counting o).role id := by
    rw [ht]
    rfl
  unfold recover JobStore.recoveryRemaining
  cases s.store.entryOf o.work.id with
  | none => exact resolve_follows hrole
  | some e =>
    simp only
    -- The entry is only told when its recovery window ends.
    have hplace : ∀ untilMs, (s.store.amendEntry o.work.id (JobStore.awaiting untilMs)).place? id =
        s.store.place? id := by
      intro untilMs
      rw [JobStore.place?_amendEntry (f := JobStore.awaiting untilMs) fun _ => rfl]
      split
      · subst id
        rfl
      · rfl
    refine follows_of_life_eq ?_ (resolve_follows (s := s.withStore _) hrole)
    simp only [life, withStore, hplace]
    rfl

theorem parking_follows {o : Over} (ht : s.tasks w = .parking o) (parked : Option Capability) (backoffMs : ℕ) :
    s.Follows id ((s.park o.work.id (if o.pass.parked then none else parked)).goTo w
      (.puttingBack o .activation (if o.pass.parked then none else parked) backoffMs)) := by
  have hrole : (s.tasks w).role id =
      if o.work.id = id then .trying o.work.request.requestedModel o.pass.parked o.pass.admitted false
      else .away := by
    rw [ht, Task.role]
  by_cases hk : o.work.id = id
  · subst hk
    rw [if_pos rfl] at hrole
    cases hparked : o.pass.parked with
    | true =>
      rw [if_pos rfl]
      refine follows_same rfl rfl rfl rfl rfl ?_ rfl rfl (hrole.trans ?_)
      · exact (Function.update_self ..).trans (Nat.add_zero _)
      · rw [Task.role, if_pos rfl, Option.isSome_none]
    | false =>
      rw [if_neg Bool.false_ne_true]
      rw [hparked] at hrole
      right
      rw [life_goTo]
      have hmove := Move.park (j := s.life o.work.id) hrole parked.isSome
      convert hmove using 2
      · simp only [life, park, Function.update_self, parked_toNat]
      · rw [Task.role, if_pos rfl, hparked]
  · rw [if_neg hk] at hrole
    refine follows_same rfl rfl rfl rfl rfl ?_ rfl rfl (hrole.trans ?_)
    · exact Function.update_of_ne (Ne.symm hk) ..
    · rw [Task.role, if_neg hk]

theorem puttingBack_follows {o : Over} {wait : Wait} {parked : Option Capability} {backoffMs : ℕ}
    (ht : s.tasks w = .puttingBack o wait parked backoffMs) :
    s.Follows id (s.putBack w o wait parked backoffMs) := by
  have hrole : (s.tasks w).role id =
      if o.work.id = id then
        .trying o.work.request.requestedModel o.pass.parked o.pass.admitted parked.isSome
      else .away := by
    rw [ht]
    rfl
  have hparked : ∀ e : Entry, (e.parked.or parked).isSome = (e.parked.isSome || parked.isSome) := by
    intro e
    cases e.parked <;> rfl
  unfold putBack
  rcases s.store.putBack_cases o.work.id o.nowMs wait o.pass.generation parked backoffMs with
    ⟨hnone, h⟩ | ⟨⟨e, hentry⟩, ⟨-, h⟩ | ⟨hflag, h⟩⟩
  · simp only [h]
    by_cases hk : o.work.id = id
    · subst hk
      rw [if_pos rfl] at hrole
      right
      rw [life_goTo]
      have hmove := Move.missing (j := s.life o.work.id) hrole
        (show s.store.place? o.work.id = none from congrArg (Option.map _) hnone)
      convert hmove using 2
      · rfl
      · exact if_pos rfl
    · rw [if_neg hk] at hrole
      exact follows_goTo (hrole.trans (if_neg hk).symm)
  · simp only [h]
    by_cases hk : o.work.id = id
    · subst hk
      rw [if_pos rfl] at hrole
      right
      rw [life_goTo]
      have hmove := Move.putDown (j := s.life o.work.id) hrole
        (show s.store.place? o.work.id = some e.place from congrArg (Option.map _) hentry)
      have hplace : (s.store.amendEntry o.work.id (JobStore.released parked)).place? o.work.id =
          some ⟨e.place.model, false, e.place.started, e.place.parked || parked.isSome⟩ := by
        rw [JobStore.place?_amendEntry (f := JobStore.released parked) fun _ => rfl, if_pos rfl, hentry, Option.map_some]
        exact congrArg some (congrArg (Place.mk _ _ _) (hparked e))
      convert hmove using 2
      · simp only [life, withStore, hplace]
        rfl
      · rw [Task.role, if_pos rfl]
    · rw [if_neg hk] at hrole
      refine follows_same rfl rfl rfl rfl ?_ rfl rfl rfl (hrole.trans ?_)
      · exact JobStore.place?_amendEntry_of_ne (f := JobStore.released parked) (fun _ => rfl) hk
      · rw [Task.role, if_neg hk]
  · simp only [h]
    have hwork : ∀ e, (JobStore.replaced o.nowMs wait o.pass.generation backoffMs
        (JobStore.keepParked parked e)).work = e.work := fun e => by cases wait <;> rfl
    by_cases hk : o.work.id = id
    · subst hk
      rw [if_pos rfl] at hrole
      right
      rw [life_goTo]
      have hmove := Move.putBack (j := s.life o.work.id) hrole
        (show s.store.place? o.work.id = some e.place from congrArg (Option.map _) hentry) hflag
      have hplace : (s.store.amendEntry o.work.id fun e => JobStore.replaced o.nowMs wait o.pass.generation
          backoffMs (JobStore.keepParked parked e)).place? o.work.id =
          some ⟨e.place.model, false, false, e.place.parked || parked.isSome⟩ := by
        rw [JobStore.place?_amendEntry hwork, if_pos rfl, hentry, Option.map_some]
        refine congrArg some ?_
        cases wait <;> exact congrArg (Place.mk _ _ _) (hparked e)
      convert hmove using 2
      · simp only [life, withStore, hplace]
        rfl
      · rfl
    · rw [if_neg hk] at hrole
      refine follows_same rfl rfl rfl rfl ?_ rfl rfl rfl hrole
      exact JobStore.place?_amendEntry_of_ne hwork hk

theorem leave_follows (hkeyed : s.Keyed) {o : Over} (ht : s.tasks w = .leaving o ∨ s.tasks w = .puttingDown o) :
    s.Follows id (s.leave w o) := by
  have haway : o.work.id ≠ id → (s.tasks w).role id = .away := by
    intro hk
    rcases ht with ht | ht <;> rw [ht] <;> exact if_neg hk
  unfold leave JobStore.leave
  by_cases hk : o.work.id = id
  · subst hk
    right
    rw [life_goTo]
    have hmove := Move.leave (j := s.life o.work.id) (w := w) (by
      rcases ht with ht | ht
      · exact .inr ⟨_, _, _, by show (s.tasks w).role _ = _; rw [ht]; exact if_pos rfl⟩
      · exact .inl (by show (s.tasks w).role _ = _; rw [ht]; exact if_pos rfl))
    have hplace : ({ s.store with queue := s.store.queue.eraseP fun e => e.work.id = o.work.id } :
        JobStore).place? o.work.id = none := by
      cases hfirst : s.store.queue.find? fun e => e.work.id = o.work.id with
      | none =>
        rw [List.eraseP_of_forall_not (by simpa using hfirst)]
        exact congrArg (Option.map _) hfirst
      | some e =>
        refine (JobStore.place?_eraseP hkeyed hfirst).trans (if_pos ?_)
        exact (JobStore.id_of_entryOf hfirst).symm
    convert hmove using 2
    · simp only [life, withStore, hplace]
      rfl
    · refine (if_pos rfl).trans (congrArg Role.settling ?_)
      show ((s.store.entryOf o.work.id).bind Entry.parked).isSome = (s.store.place? o.work.id).any Place.parked
      cases hentry : s.store.entryOf o.work.id with
      | none => simp [JobStore.place?, hentry]
      | some e => simp [JobStore.place?, hentry, Entry.place]
  · refine follows_same rfl rfl rfl rfl ?_ rfl rfl rfl ((haway hk).trans (if_neg hk).symm)
    cases hfirst : s.store.queue.find? fun e => e.work.id = o.work.id with
    | none =>
      show JobStore.place? { s.store with queue := s.store.queue.eraseP _ } id = _
      rw [List.eraseP_of_forall_not (by simpa using hfirst)]
    | some e =>
      refine (JobStore.place?_eraseP hkeyed hfirst).trans (if_neg ?_)
      rw [JobStore.id_of_entryOf hfirst]
      exact Ne.symm hk

theorem discarding_follows {e : Entry} (ht : s.tasks w = .discarding e) :
    s.Follows id ((s.withStore s.store.leftQueue).goTo w
      (.discarded e.work e.parked (!s.store.isCancelled e.work.id))) := by
  have hrole : (s.tasks w).role id = if e.work.id = id then .discarding e.parked.isSome else .away := by
    rw [ht, Task.role]
  by_cases hk : e.work.id = id
  · subst hk
    rw [if_pos rfl] at hrole
    right
    rw [life_goTo]
    have hmove := Move.reread (j := s.life e.work.id) hrole
    convert hmove using 2
    · rfl
    · exact if_pos rfl
  · rw [if_neg hk] at hrole
    exact follows_same rfl rfl rfl rfl rfl rfl rfl rfl (hrole.trans (if_neg hk).symm)

theorem finishing_follows {o : Over} {nowWallMs nowMs : ℕ} (ht : s.tasks w = .finishing o) :
    s.Follows id (s.goTo w
      (.recording o.work.id (o.ending (s.store.isCancelled o.work.id)) nowWallMs nowMs)) := by
  have hrole : (s.tasks w).role id = if o.work.id = id then .settling false else .away := by
    rw [ht, Task.role]
  have hending : ∀ cancelled, decide (o.ending cancelled = .cancelled) = cancelled := by
    intro cancelled
    unfold Over.ending
    cases cancelled with
    | true => rfl
    | false =>
      rw [if_neg Bool.false_ne_true]
      split
      · rfl
      · split <;> rfl
  by_cases hk : o.work.id = id
  · subst hk
    rw [if_pos rfl] at hrole
    right
    rw [life_goTo]
    have hmove := Move.decide (j := s.life o.work.id) hrole
    convert hmove using 2
    rw [Task.role, if_pos rfl, hending]
    rfl
  · rw [if_neg hk] at hrole
    exact follows_goTo (hrole.trans (if_neg hk).symm)

/-- The client's tenant has the job, and it waits. -/
def Cancels (s : Router) (id : JobId) : Event → Prop
  | .cancel k tenant _ _ =>
    k = id ∧ ∃ job ∈ s.store.job? id, job.tenant = tenant ∧ job.view.state = .queued
  | _ => False

/-- The client's tenant has the job, and it runs; or a shutdown flags what waits. -/
def Flags (s : Router) (id : JobId) : Event → Prop
  | .cancel k tenant _ _ =>
    k = id ∧ ∃ job ∈ s.store.job? id, job.tenant = tenant ∧ job.view.state = .running
  | .proceed w _ => s.tasks w = .flagging
  | _ => False

/-- A cancellation raises the flag of one job, and writes to its record if it waits. -/
theorem cancel_follows (k : JobId) (tenant : TenantId) (nowWallMs nowMs : ℕ) :
    s.Follows id (s.step (.cancel k tenant nowWallMs nowMs)) ∨
      s.Cancels id (.cancel k tenant nowWallMs nowMs) ∧
        (s.step (.cancel k tenant nowWallMs nowMs)).life id = (s.life id).cancel ∨
      s.Flags id (.cancel k tenant nowWallMs nowMs) ∧
        (s.step (.cancel k tenant nowWallMs nowMs)).life id = (s.life id).flag := by
  rw [step]
  rcases s.store.cancel_cases k nowWallMs nowMs tenant with
    h | ⟨job, hjob, htenant, hlive, ⟨hqueued, h⟩ | ⟨job', hqueued, hid, hstate, hexpires, h⟩⟩
  · rw [h]
    exact .inl (.inl rfl)
  · rw [h]
    by_cases hk : id = k
    · subst hk
      right
      right
      have hrunning : job.view.state = .running := by
        cases hview : job.view.state with
        | queued => exact absurd hview hqueued
        | running => rfl
        | succeeded | failed | cancelled => rw [hview] at hlive; cases hlive
      refine ⟨⟨rfl, job, hjob, htenant, hrunning⟩, ?_⟩
      simp only [life, withStore, JobStore.isCancelled, List.mem_cons, true_or, decide_true]
      rfl
    · left
      refine follows_same (w := 0) rfl rfl rfl ?_ rfl rfl rfl (Function.update_eq_self 0 s.tasks).symm rfl
      simp [withStore, JobStore.isCancelled, hk]
  · rw [h]
    have hwritten := JobStore.job?_write (s := { s.store with cancelled := k :: s.store.cancelled }) (k := id) job'
    rw [hid] at hwritten
    by_cases hk : id = k
    · subst hk
      right
      left
      rw [if_pos rfl] at hwritten
      have hjob' : (JobStore.job? { s.store with cancelled := id :: s.store.cancelled } id) = some job := hjob
      rw [hjob', Option.map_some] at hwritten
      have hflag : ({ s.store with cancelled := id :: s.store.cancelled }.write job').isCancelled id = true := by
        simp [JobStore.write, JobStore.isCancelled]
      refine ⟨⟨rfl, job, hjob, htenant, hqueued⟩, ?_⟩
      simp only [life, withStore, JobStore.record?, JobStore.isExpiring, hwritten, Option.map_some,
        Option.any_some, hstate, hexpires, hflag]
      rfl
    · left
      rw [if_neg hk] at hwritten
      refine follows_same (w := 0) rfl (congrArg (Option.map _) hwritten) (congrArg (Option.any _) hwritten)
        ?_ rfl rfl rfl (Function.update_eq_self 0 s.tasks).symm rfl
      simp [withStore, JobStore.write, JobStore.isCancelled, hk]

/-- Who cancels a job finds it waiting. -/
theorem Cancels.record {e : Event} (h : s.Cancels id e) : (s.life id).record = some .queued := by
  cases e with
  | cancel k tenant nowWallMs nowMs =>
    obtain ⟨-, job, hjob, -, hqueued⟩ := h
    exact (life_of_job hjob).1.trans (congrArg some hqueued)
  | _ => cases h

/-- What the lives of all jobs have in common, and the queue. -/
structure Sound (s : Router) : Prop where
  keyed : s.Keyed
  lives : ∀ id, (s.life id).Sound
  blank : ∀ id, (s.life id).Blank

/-- **The next section of a thread is a move in the life of a job, or none**, unless it flags what
waits. -/
theorem proceed_follows (hsound : s.Sound) (hflags : s.tasks w ≠ .flagging) (a : Answers) (id : JobId) :
    s.Follows id (s.proceed w a) := by
  unfold proceed
  cases ht : s.tasks w with
  | idle | stopped => exact .inl rfl
  | submitting call => exact mint_follows ht a.id
  | minted k call =>
    refine accept_follows ht ((hsound.blank k) (.inr ⟨w, call.terms.parked.isSome, ?_⟩))
    show (s.tasks w).role k = _
    rw [ht]
    exact if_pos rfl
  | recorded k call =>
    refine enqueue_follows ht ((hsound.lives k).outside w ?_)
    show ((s.tasks w).role k).outside = true
    rw [ht, Task.role, if_pos rfl]
    rfl
  | refused k parked => exact refused_follows ht
  | flagging => exact absurd ht hflags
  | taking => exact take_follows hsound.keyed ht a
  | waiting moves =>
    have haway : (s.tasks w).role id = .away := by rw [ht]; rfl
    cases moves <;> exact follows_same rfl rfl rfl rfl rfl rfl rfl rfl haway
  | discarding e => exact discarding_follows ht
  | discarded work parked expired => exact discarded_follows ht
  | passing p => exact passing_follows ht a
  | starting p nowWallMs => exact starting_follows ht
  | ended o =>
    have hrole : (s.tasks w).role id = (Task.counting o).role id := by
      rw [ht]
      rfl
    simp only [judge]
    split
    · exact follows_goTo hrole
    · exact resolve_follows hrole
  | recovering o cancelled budgetMs => exact recovering_follows ht a
  | counting o =>
    have hrole : (s.tasks w).role id = (Task.counting o).role id := by rw [ht]
    simp only [count]
    split <;> exact follows_goTo hrole
  | parking o => exact parking_follows ht a.parked _
  | puttingBack o wait parked backoffMs => exact puttingBack_follows ht
  | requeued k wait backoffMs nowWallMs => exact requeued_follows ht
  | puttingDown o => exact leave_follows hsound.keyed (.inr ht)
  | leaving o => exact leave_follows hsound.keyed (.inl ht)
  | left o parked =>
    have hrole : (s.tasks w).role id = if o.work.id = id then .settling parked.isSome else .away := by
      rw [ht, Task.role]
    exact follows_same rfl rfl rfl rfl rfl rfl rfl rfl hrole
  | releasing o parked => exact releasing_follows ht
  | finishing o => exact finishing_follows ht
  | recording k ending nowWallMs nowMs => exact recording_follows ht

/-- **Every step is a move in the life of a job, or none, or the job is cancelled or flagged.** -/
theorem step_follows (hsound : s.Sound) (e : Event) (id : JobId) :
    s.Follows id (s.step e) ∨ s.Cancels id e ∧ (s.step e).life id = (s.life id).cancel ∨
      s.Flags id e ∧ (s.step e).life id = (s.life id).flag := by
  cases e with
  | submit w call | work w =>
    left
    unfold step
    simp only
    split
    · rename_i hidle
      exact follows_goTo (by rw [Task.eq_idle hidle]; rfl)
    · exact .inl rfl
  | shutdown w =>
    left
    unfold step
    simp only
    split
    · rename_i hidle
      exact follows_same rfl rfl rfl rfl rfl rfl rfl rfl (by rw [Task.eq_idle hidle]; rfl)
    · exact .inl rfl
  | cancel k tenant nowWallMs nowMs => exact cancel_follows k tenant nowWallMs nowMs
  | read k tenant nowMs =>
    left
    exact follows_swept (w := 0) nowMs rfl (JobStore.job?_sweep nowMs) rfl rfl rfl rfl
      (Function.update_eq_self 0 s.tasks).symm rfl
  | proceed w a =>
    by_cases hflags : s.tasks w = .flagging
    · have hproceed : s.step (.proceed w a) = (s.withStore s.store.flagWaiting).goTo w .idle := by
        simp only [step, proceed, hflags]
      rw [hproceed]
      rcases flagging_follows hflags with h | h
      · exact .inl h
      · exact .inr (.inr ⟨hflags, h⟩)
    · exact .inl (proceed_follows hsound hflags a id)

end Router

end HypeLlm.Jobs
