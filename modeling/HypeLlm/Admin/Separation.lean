import HypeLlm.Admin.DraftStore

/-!
# Separation of duty over drafts

Everything that lives — in the map, in a request, in the log — stands for the last creation that was
given its identifier, for the counter is past the identifiers of all of them.  A validation marks the
draft whose text it read, since no other draft can take its identifier in between.

* **`separation_of_duty`** — a configuration is given out for publication only where it is the load of
  the text of the last creation given that identifier, in the tenant asked for, written by none of the
  publishers and by none they answer for, and validated without errors since the last restart; and two
  creations have the same identifier only where a restart came between them that did not find the
  first in the log;
* `identifier_given_twice` — that restart happens, and so does the counter come round.
-/

namespace HypeLlm.Admin

open HypeLlm.Words HypeLlm.Runs

variable {C E D F : Type}

/-! ### The map -/

namespace DraftStore

variable (s : DraftStore E D)

@[simp] theorem evictOldest_nextId : s.evictOldest.nextId = s.nextId := by
  rw [evictOldest]
  split
  · split <;> rfl
  · rfl

@[simp] theorem evictOldest_allowSelfApproval :
    s.evictOldest.allowSelfApproval = s.allowSelfApproval := by
  rw [evictOldest]
  split
  · split <;> rfl
  · rfl

theorem of_get_evictOldest {id : String} {d : Draft E D} (h : s.evictOldest.drafts[id]? = some d) :
    s.drafts[id]? = some d := by
  rw [evictOldest] at h
  split at h
  · split at h
    · rw [Maps.getElem?_erase] at h
      split at h
      · cases h
      · exact h
    · exact h
  · exact h

@[simp] theorem insert_nextId (d : Draft E D) : (s.insert d).nextId = s.nextId := s.evictOldest_nextId

@[simp] theorem insert_allowSelfApproval (d : Draft E D) :
    (s.insert d).allowSelfApproval = s.allowSelfApproval := s.evictOldest_allowSelfApproval

theorem of_get_insert {d d' : Draft E D} {id : String} (h : (s.insert d).drafts[id]? = some d') :
    id = d.id ∧ d' = d ∨ s.drafts[id]? = some d' := by
  rw [insert, Maps.getElem?_insert] at h
  split at h
  · rename_i heq
    exact .inl ⟨heq, (Option.some.inj h).symm⟩
  · exact .inr (s.of_get_evictOldest h)

theorem of_get_close {id id' : String} {d : Draft E D} (h : (s.close id).drafts[id']? = some d) :
    s.drafts[id']? = some d := by
  rw [close, Maps.getElem?_erase] at h
  split at h
  · cases h
  · exact h

@[simp] theorem noteOutcome_nextId (loader : Loader C E D) (id text : String) (version : ℕ) :
    (s.noteOutcome loader id text version).nextId = s.nextId := by
  rw [noteOutcome]
  split <;> rfl

@[simp] theorem noteOutcome_allowSelfApproval (loader : Loader C E D) (id text : String)
    (version : ℕ) :
    (s.noteOutcome loader id text version).allowSelfApproval = s.allowSelfApproval := by
  rw [noteOutcome]
  split <;> rfl

theorem restore_nextId {d : Draft E D} {k : ℕ} (hid : d.id = draftId k) (hk : k < u64Max) :
    (s.restore d).nextId = max s.nextId (k + 1) := by
  rw [restore, insert_nextId, advancePast, hid, parseDraftId_draftId hk.le]
  show max s.nextId (satAdd u64Max k 1) = _
  rw [satAdd_eq hk]

theorem restore_drafts {d d' : Draft E D} {id : String} (h : (s.restore d).drafts[id]? = some d') :
    id = d.id ∧ d' = d ∨ s.drafts[id]? = some d' := by
  have hsame : (s.advancePast d.id).drafts = s.drafts := by
    rw [advancePast]
    split <;> rfl
  rcases (s.advancePast d.id).of_get_insert h with h | h
  · exact .inl h
  · rw [hsame] at h
    exact .inr h

@[simp] theorem restore_allowSelfApproval (d : Draft E D) :
    (s.restore d).allowSelfApproval = s.allowSelfApproval := by
  rw [restore, insert_allowSelfApproval, advancePast]
  split <;> rfl

/-- What a publication rests on. -/
theorem preparePublishBy_ok {loader : Loader C E D} {id : String} {publishers : List Id} {tenant : Id}
    {version : ℕ} {config : C}
    (h : s.preparePublishBy loader id publishers tenant version = .ok config) :
    ∃ d, s.drafts[id]? = some d ∧ d.tenant = tenant ∧ d.validated = true ∧ d.errors = [] ∧
      (s.allowSelfApproval = false → ∀ p ∈ publishers, d.author ≠ p ∧ d.authorAccountable ≠ some p) ∧
      loader.load d.text version = .ok config := by
  rw [preparePublishBy] at h
  split at h
  · cases h
  · rename_i d hget
    obtain ⟨hd, htenant⟩ := Option.filter_eq_some_iff.1 hget
    split at h
    · cases h
    · rename_i hvalidated
      split at h
      · cases h
      · rename_i herrors
        split at h
        · cases h
        · rename_i hself
          split at h
          · rename_i config' hload
            obtain rfl := Except.ok.inj h
            refine ⟨d, hd, of_decide_eq_true htenant, by simpa using hvalidated, by simpa using herrors,
              ?_, hload⟩
            intro hpolicy p hp
            rw [hpolicy, Bool.not_false, Bool.true_and, List.any_eq_true] at hself
            constructor
            · intro hauthor
              exact hself ⟨p, hp, by simp [authored, hauthor]⟩
            · intro haccountable
              exact hself ⟨p, hp, by simp [authored, haccountable]⟩
          · cases h

end DraftStore

/-! ### The store that a log gives -/

/-- The store has drafts of the log only, and a counter past all of them. -/
structure Rebuilt (wire : Wire F) (bound : ℕ) (log : List Record) (s : DraftStore E D) : Prop where
  policy : s.allowSelfApproval = false
  next_le : s.nextId ≤ bound + 1
  past : ∀ a k, .policyDraft (wire.toPayload a) ∈ log → wire.Accepts a → a.id = draftId k → k ≤ bound →
    k < s.nextId
  drafts : ∀ id d, s.drafts[id]? = some d →
    ∃ a, .policyDraft (wire.toPayload a) ∈ log ∧ a.id = id ∧ d = (Wire.recorded a).unvalidated

/-- Every draft of the log can be read, and its number is within a bound. -/
def Readable (wire : Wire F) (bound : ℕ) (log : List Record) : Prop :=
  ∀ p, .policyDraft p ∈ log → ∃ a k, p = wire.toPayload a ∧ wire.Accepts a ∧ a.id = draftId k ∧ k ≤ bound

theorem rebuilt_step {wire : Wire F} {bound : ℕ} (hbound : bound < u64Max) {log : List Record}
    {r : Record} {s : DraftStore E D} (h : Rebuilt wire bound log s)
    (hr : Readable wire bound [r]) : Rebuilt wire bound (log ++ [r]) (restoreRecord wire s r) := by
  cases r with
  | policyDraft p =>
    obtain ⟨a, k, rfl, haccepts, hid, hk⟩ := hr p (List.mem_singleton_self _)
    have hread : wire.fromPayload (wire.toPayload a) = some ((Wire.recorded a).unvalidated : Draft E D) :=
      wire.fromPayload_toPayload haccepts
    have hrestored : restoreRecord wire s (.policyDraft (wire.toPayload a)) =
        s.restore (Wire.recorded a).unvalidated := by
      rw [restoreRecord, hread]
    have hnext := s.restore_nextId (d := (Wire.recorded a).unvalidated) hid (lt_of_le_of_lt hk hbound)
    rw [hrestored]
    refine ⟨?_, ?_, ?_, ?_⟩
    · rw [DraftStore.restore_allowSelfApproval]
      exact h.policy
    · rw [hnext]
      exact max_le h.next_le (Nat.succ_le_succ hk)
    · intro a' k' hmem haccepts' hid' hk'
      rw [hnext]
      rcases List.mem_append.1 hmem with hmem | hmem
      · exact lt_max_of_lt_left (h.past a' k' hmem haccepts' hid' hk')
      · -- The same payload is read as the same draft.
        have hpayload : wire.toPayload a' = wire.toPayload a :=
          Record.policyDraft.inj (List.mem_singleton.1 hmem)
        have hrecorded := (wire.recorded_of_toPayload haccepts' hpayload).2
        have hsame : a'.id = a.id := (Authored.mk.inj hrecorded).1
        have hnumber : k' = k :=
          draftId_inj (by omega) (by omega) (by rw [← hid, ← hid', hsame])
        exact lt_max_of_lt_right (by omega)
    · intro id d hd
      rcases s.restore_drafts hd with ⟨rfl, rfl⟩ | hd
      · exact ⟨a, List.mem_append_right _ (List.mem_singleton_self _), rfl, rfl⟩
      · obtain ⟨a', hmem, hrest⟩ := h.drafts id d hd
        exact ⟨a', List.mem_append_left _ hmem, hrest⟩
  | policyDraftClosed p =>
    have hmem : ∀ q, Record.policyDraft q ∈ log ++ [Record.policyDraftClosed p] → Record.policyDraft q ∈ log := by
      intro q hq
      simpa using hq
    have hclosed : restoreRecord wire s (.policyDraftClosed p) = s ∨
        ∃ id, restoreRecord wire s (.policyDraftClosed p) = s.close id := by
      rw [restoreRecord]
      split
      · exact .inr ⟨_, rfl⟩
      · exact .inl rfl
    have hdrafts : ∀ (id : String) d,
        (restoreRecord wire s (.policyDraftClosed p)).drafts[id]? = some d → s.drafts[id]? = some d := by
      intro id d hd
      rcases hclosed with hsame | ⟨id', hsame⟩
      · rwa [hsame] at hd
      · rw [hsame] at hd
        exact s.of_get_close hd
    have hnext : (restoreRecord wire s (.policyDraftClosed p)).nextId = s.nextId := by
      rcases hclosed with hsame | ⟨id', hsame⟩ <;> rw [hsame]
      rfl
    have hpolicy : (restoreRecord wire s (.policyDraftClosed p)).allowSelfApproval =
        s.allowSelfApproval := by
      rcases hclosed with hsame | ⟨id', hsame⟩ <;> rw [hsame]
      rfl
    refine ⟨hpolicy.trans h.policy, hnext ▸ h.next_le, ?_, ?_⟩
    · intro a k ha
      rw [hnext]
      exact h.past a k (hmem _ ha)
    · intro id d hd
      obtain ⟨a, ha, hrest⟩ := h.drafts id d (hdrafts id d hd)
      exact ⟨a, List.mem_append_left _ ha, hrest⟩

/-- **A restart.**  The store holds drafts of the log, and its counter is past the log. -/
theorem rebuilt_restoreDrafts {wire : Wire F} {bound : ℕ} (hbound : bound < u64Max) {log : List Record}
    (h : Readable wire bound log) : Rebuilt wire bound log (restoreDrafts wire log : DraftStore E D) := by
  induction log using List.reverseRecOn with
  | nil =>
    refine ⟨rfl, Nat.le_add_left 1 bound, fun a k ha => absurd ha List.not_mem_nil, ?_⟩
    intro id d hd
    simp [restoreDrafts, DraftStore.new] at hd
  | append_singleton log r ih =>
    have hfront : Readable wire bound log := fun p hp => h p (List.mem_append_left _ hp)
    have hlast : Readable wire bound [r] := fun p hp => h p (List.mem_append_right _ hp)
    rw [restoreDrafts, List.foldl_append]
    exact rebuilt_step hbound (ih hfront) hlast

/-! ### What lives -/

namespace Node

variable (wire : Wire F) (loader : Loader C E D)

/-- The last creation given its identifier, which the counter is past. -/
structure Held (n : Node E D) (a : Authored) : Prop where
  number : ∃ k < n.store.nextId, a.id = draftId k
  latest : n.latest a.id = some a
  accepted : wire.Accepts a

/-- A draft is what was authored, up to the time it was created. -/
structure Proposes (d : Draft E D) (a : Authored) : Prop where
  text : d.text = a.text
  author : d.author = a.author
  tenant : d.tenant = a.tenant
  accountable : d.authorAccountable = a.authorAccountable

theorem Proposes.unvalidated (a : Authored) : Proposes (a.unvalidated : Draft E D) a := ⟨rfl, rfl, rfl, rfl⟩

theorem Proposes.recorded (a : Authored) : Proposes ((Wire.recorded a).unvalidated : Draft E D) a :=
  ⟨rfl, rfl, rfl, rfl⟩

/-- The errors of a draft that counts as validated are those of a validation since the restart. -/
def Checked (n : Node E D) (id : String) (a : Authored) (d : Draft E D) : Prop :=
  d.validated = true →
    ∃ v, .validated id v d.errors ∈ n.sinceRestart ∧ loader.errors a.text v = d.errors

def Stands (n : Node E D) (id : String) (d : Draft E D) : Prop :=
  ∃ a, n.Held wire a ∧ a.id = id ∧ Proposes d a ∧ n.Checked loader id a d

def TaskSound (n : Node E D) : Task → Prop
  | .idle => True
  | .inserting a => n.Held wire a
  | .recording a => n.Held wire a
  | .validating id text _ => ∃ a, n.Held wire a ∧ a.id = id ∧ a.text = text

/-- A restart among the marks did not find the draft in the log. -/
def Missed (a : Authored) (marks : List (Mark E)) : Prop :=
  ∃ log, .restarted log ∈ marks ∧ .policyDraft (wire.toPayload a) ∉ log

/-- The counter is past a creation, which is in the log if there was a restart since. -/
structure Past (n : Node E D) (a : Authored) (newer : List (Mark E)) : Prop where
  number : ∃ k < n.store.nextId, a.id = draftId k
  logged : .policyDraft (wire.toPayload a) ∈ n.log ∨ ∀ log, .restarted log ∉ newer

structure Sound (n : Node E D) : Prop where
  policy : n.store.allowSelfApproval = false
  next_le : n.store.nextId ≤ n.creations + 1
  few : n.creations < u64Max
  drafts : ∀ (id : String) d, n.store.drafts[id]? = some d → n.Stands wire loader id d
  tasks : ∀ t, n.TaskSound wire (n.tasks t)
  log : ∀ p, .policyDraft p ∈ n.log → ∃ a, p = wire.toPayload a ∧ n.Held wire a
  issued : ∀ (newer : List (Mark E)) (a : Authored) (older : List (Mark E)),
    n.history = newer ++ Mark.created a :: older → Missed wire a newer ∨ n.Past wire a newer
  again : ∀ (newer : List (Mark E)) (a' : Authored) (between : List (Mark E)) (a : Authored)
    (older : List (Mark E)),
    n.history = newer ++ Mark.created a' :: (between ++ Mark.created a :: older) → a'.id = a.id →
      Missed wire a between

variable {wire loader}

theorem Missed.cons {a : Authored} {marks : List (Mark E)} (m : Mark E) (h : Missed wire a marks) :
    Missed wire a (m :: marks) := by
  obtain ⟨log, hmem, hlog⟩ := h
  exact ⟨log, List.mem_cons_of_mem m hmem, hlog⟩

/-! ### Steps that draw no identifier -/

/-- The counter stands, the log grows, and at most an outcome is noted. -/
structure Quiet (n n' : Node E D) : Prop where
  nextId : n'.store.nextId = n.store.nextId
  policy : n'.store.allowSelfApproval = n.store.allowSelfApproval
  log : ∀ r ∈ n.log, r ∈ n'.log
  history : n'.history = n.history ∨ ∃ id v es, n'.history = .validated id v es :: n.history

section

variable {n n' : Node E D} {a : Authored} (hq : Quiet n n')

include hq

theorem Quiet.latest (id : String) : n'.latest id = n.latest id := by
  rcases hq.history with h | ⟨_, v, es, h⟩ <;> rw [Node.latest, h]
  · rfl
  · rfl

theorem Quiet.creations : n'.creations = n.creations := by
  rcases hq.history with h | ⟨_, v, es, h⟩ <;> rw [Node.creations, h]
  · rfl
  · rfl

theorem Quiet.sinceRestart {m : Mark E} (h : m ∈ n.sinceRestart) : m ∈ n'.sinceRestart := by
  rcases hq.history with hh | ⟨_, v, es, hh⟩ <;> rw [Node.sinceRestart, hh]
  · exact h
  · exact List.mem_cons_of_mem _ h

theorem Held.quiet (h : n.Held wire a) : n'.Held wire a := by
  refine ⟨?_, ?_, h.accepted⟩
  · rw [hq.nextId]
    exact h.number
  · rw [hq.latest]
    exact h.latest

theorem Stands.quiet {id : String} {d : Draft E D} (h : n.Stands wire loader id d) :
    n'.Stands wire loader id d := by
  obtain ⟨a, hheld, hid, hproposes, hchecked⟩ := h
  refine ⟨a, hheld.quiet hq, hid, hproposes, ?_⟩
  intro hvalidated
  obtain ⟨v, hmark, herrors⟩ := hchecked hvalidated
  exact ⟨v, hq.sinceRestart hmark, herrors⟩

theorem TaskSound.quiet {t : Task} (h : n.TaskSound wire t) : n'.TaskSound wire t := by
  cases t with
  | idle => trivial
  | inserting a => exact Held.quiet hq h
  | recording a => exact Held.quiet hq h
  | validating id text version =>
    obtain ⟨a, hheld, hrest⟩ := h
    exact ⟨a, hheld.quiet hq, hrest⟩

theorem Past.quiet {newer newer' : List (Mark E)} (h : n.Past wire a newer)
    (hnewer : ∀ log, Mark.restarted log ∈ newer' → Mark.restarted log ∈ newer) :
    n'.Past wire a newer' := by
  refine ⟨?_, ?_⟩
  · rw [hq.nextId]
    exact h.number
  · rcases h.logged with hlogged | hnone
    · exact .inl (hq.log _ hlogged)
    · exact .inr fun log hlog => hnone log (hnewer log hlog)

/-- A quiet step keeps what holds, where what is new in the map, in the requests and in the log
stands. -/
theorem Sound.quiet (h : n.Sound wire loader)
    (hdrafts : ∀ (id : String) d, n'.store.drafts[id]? = some d →
      n.store.drafts[id]? = some d ∨ n'.Stands wire loader id d)
    (htasks : ∀ t, n'.tasks t = n.tasks t ∨ n'.TaskSound wire (n'.tasks t))
    (hlog : ∀ p, .policyDraft p ∈ n'.log →
      .policyDraft p ∈ n.log ∨ ∃ a, p = wire.toPayload a ∧ n'.Held wire a) :
    n'.Sound wire loader := by
  refine ⟨?_, ?_, ?_, ?_, ?_, ?_, ?_, ?_⟩
  · rw [hq.policy]
    exact h.policy
  · rw [hq.nextId, hq.creations]
    exact h.next_le
  · rw [hq.creations]
    exact h.few
  · intro id d hd
    rcases hdrafts id d hd with hd | hd
    · exact (h.drafts id d hd).quiet hq
    · exact hd
  · intro t
    rcases htasks t with ht | ht
    · rw [ht]
      exact (h.tasks t).quiet hq
    · exact ht
  · intro p hp
    rcases hlog p hp with hp | hp
    · obtain ⟨a, hpayload, hheld⟩ := h.log p hp
      exact ⟨a, hpayload, hheld.quiet hq⟩
    · exact hp
  · intro newer a older hsplit
    rcases hq.history with hh | ⟨id, v, es, hh⟩ <;> rw [hh] at hsplit
    · rcases h.issued newer a older hsplit with hmissed | hpast
      · exact .inl hmissed
      · exact .inr (hpast.quiet hq fun _ hlog => hlog)
    · obtain ⟨rfl, hm⟩ | ⟨newer', rfl, hfront⟩ := List.cons_eq_append_iff.1 hsplit
      · cases hm
      · rcases h.issued newer' a older hfront with hmissed | hpast
        · exact .inl (hmissed.cons _)
        · refine .inr (hpast.quiet hq ?_)
          intro log hlog
          simpa using hlog
  · intro newer a' between a older hsplit hids
    rcases hq.history with hh | ⟨id, v, es, hh⟩ <;> rw [hh] at hsplit
    · exact h.again newer a' between a older hsplit hids
    · obtain ⟨rfl, hm⟩ | ⟨newer', rfl, hfront⟩ := List.cons_eq_append_iff.1 hsplit
      · cases hm
      · exact h.again newer' a' between a older hfront hids

end

theorem setTask_tasks (n : Node E D) (task : ℕ) {t : Task} {store : DraftStore E D} {log : List Record}
    {history : List (Mark E)} {n' : Node E D}
    (hn : n' = ⟨store, log, Function.update n.tasks task t, history⟩) (ht : n'.TaskSound wire t)
    (other : ℕ) : n'.tasks other = n.tasks other ∨ n'.TaskSound wire (n'.tasks other) := by
  subst hn
  by_cases h : other = task
  · subst h
    refine .inr ?_
    simpa using ht
  · exact .inl (Function.update_of_ne h _ _)

variable {n : Node E D}

theorem sound_createInsert (h : n.Sound wire loader) (task : ℕ) :
    (n.createInsert task).Sound wire loader := by
  rw [createInsert]
  split
  · rename_i a htask
    have hheld : n.Held wire a := by
      have hsound := h.tasks task
      rwa [htask] at hsound
    have hq : Quiet n { n.setTask task (.recording a) with store := n.store.insert a.unvalidated } :=
      ⟨DraftStore.insert_nextId _ _, DraftStore.insert_allowSelfApproval _ _, fun _ hr => hr, .inl rfl⟩
    refine h.quiet hq ?_ (setTask_tasks n task rfl (hheld.quiet hq)) (fun p hp => .inl hp)
    intro id d hd
    rcases n.store.of_get_insert hd with ⟨rfl, rfl⟩ | hd
    · exact .inr ⟨a, hheld.quiet hq, rfl, .unvalidated a, fun hvalidated => by cases hvalidated⟩
    · exact .inl hd
  · exact h

theorem sound_record (h : n.Sound wire loader) (task : ℕ) : (n.record wire task).Sound wire loader := by
  rw [record]
  split
  · rename_i a htask
    have hheld : n.Held wire a := by
      have hsound := h.tasks task
      rwa [htask] at hsound
    have hq : Quiet n
        { n.setTask task .idle with log := n.log ++ [Record.policyDraft (wire.toPayload a)] } :=
      ⟨rfl, rfl, fun _ => List.mem_append_left _, .inl rfl⟩
    refine h.quiet hq (fun _ _ => .inl) (setTask_tasks n task rfl trivial) ?_
    intro p hp
    rcases List.mem_append.1 hp with hp | hp
    · exact .inl hp
    · exact .inr ⟨a, Record.policyDraft.inj (List.mem_singleton.1 hp), hheld.quiet hq⟩
  · exact h

theorem sound_validateRead (h : n.Sound wire loader) (task : ℕ) (id : String) (tenant : Id)
    (version : ℕ) : (n.validateRead task id tenant version).Sound wire loader := by
  rw [validateRead]
  split
  · rename_i d hget
    obtain ⟨hd, -⟩ := Option.filter_eq_some_iff.1 hget
    obtain ⟨a, hheld, hid, hproposes, -⟩ := h.drafts id d hd
    have hq : Quiet n (n.setTask task (.validating id d.text version)) :=
      ⟨rfl, rfl, fun _ hr => hr, .inl rfl⟩
    exact h.quiet hq (fun _ _ => .inl)
      (setTask_tasks n task rfl ⟨a, hheld.quiet hq, hid, hproposes.text.symm⟩) (fun p hp => .inl hp)
  · exact h

theorem sound_validateWrite (h : n.Sound wire loader) (task : ℕ) :
    (n.validateWrite loader task).Sound wire loader := by
  rw [validateWrite]
  split
  · rename_i id text version htask
    obtain ⟨a, hheld, hid, htext⟩ : ∃ a, n.Held wire a ∧ a.id = id ∧ a.text = text := by
      have hsound := h.tasks task
      rwa [htask] at hsound
    have hq : Quiet n
        { n.setTask task .idle with
          store := n.store.noteOutcome loader id text version
          history := n.noted loader id text version } := by
      refine ⟨DraftStore.noteOutcome_nextId .., DraftStore.noteOutcome_allowSelfApproval ..,
        fun _ hr => hr, ?_⟩
      simp only [noted]
      split
      · exact .inr ⟨_, _, _, rfl⟩
      · exact .inl rfl
    refine h.quiet hq ?_ (setTask_tasks n task rfl trivial) (fun p hp => .inl hp)
    intro id' d' hd'
    simp only [DraftStore.noteOutcome] at hd'
    split at hd'
    · exact .inl hd'
    · rename_i d hd
      rw [Maps.getElem?_insert] at hd'
      split at hd'
      · -- The draft under the identifier is still the one whose text was read.
        rename_i heq
        obtain rfl := heq
        obtain rfl := Option.some.inj hd'
        obtain ⟨a', hheld', hid', hproposes, -⟩ := h.drafts _ d hd
        obtain rfl : a' = a := by
          have hsame := hheld'.latest
          rw [hid', ← hid, hheld.latest] at hsame
          exact (Option.some.inj hsame).symm
        refine .inr ⟨a', hheld.quiet hq, hid, ⟨hproposes.text, hproposes.author, hproposes.tenant,
          hproposes.accountable⟩, ?_⟩
        intro _
        refine ⟨version, ?_, ?_⟩
        · simp only [sinceRestart, noted, hd]
          exact List.mem_cons_self
        · rw [htext]
      · exact .inl hd'
  · exact h

theorem sound_recordClosed (h : n.Sound wire loader) (id : String) :
    Sound wire loader { n with log := n.log ++ [Record.policyDraftClosed (Utf8.encode id.toList)] } := by
  have hq : Quiet n { n with log := n.log ++ [Record.policyDraftClosed (Utf8.encode id.toList)] } :=
    ⟨rfl, rfl, fun _ => List.mem_append_left _, .inl rfl⟩
  refine h.quiet hq (fun _ _ => .inl) (fun t => .inl rfl) ?_
  intro p hp
  left
  simpa using hp

theorem sound_close (h : n.Sound wire loader) (id : String) :
    Sound wire loader { n with store := n.store.close id } := by
  have hq : Quiet n { n with store := n.store.close id } := ⟨rfl, rfl, fun _ hr => hr, .inl rfl⟩
  refine h.quiet hq ?_ (fun _ => .inl rfl) (fun _ => .inl)
  intro id' d hd
  exact .inl (n.store.of_get_close hd)

/-! ### Creations -/

section

variable {a' : Authored} (hnext : n.store.nextId < u64Max) (hid : a'.id = draftId n.store.nextId)

include hnext

theorem drawId_nextId (task : ℕ) : (n.drawId task a').store.nextId = n.store.nextId + 1 := by
  show (n.store.nextId + 1) % 2 ^ 64 = _
  refine Nat.mod_eq_of_lt ?_
  have hmax : u64Max = 2 ^ 64 - 1 := rfl
  omega

include hid

theorem Held.drawn {a : Authored} (h : n.Held wire a) (task : ℕ) :
    (n.drawId task a').Held wire a := by
  obtain ⟨k, hk, hk'⟩ := h.number
  have hne : a'.id ≠ a.id := by
    rw [hid, hk']
    intro hsame
    have hnumber := draftId_inj hnext.le (by omega) hsame
    omega
  refine ⟨⟨k, ?_, hk'⟩, ?_, h.accepted⟩
  · rw [drawId_nextId hnext]
    omega
  · have hlatest : (n.drawId task a').latest a.id = n.latest a.id := by
      simp [Node.latest, drawId, hne]
    rw [hlatest]
    exact h.latest

theorem Held.fresh (haccepts : wire.Accepts a') (task : ℕ) : (n.drawId task a').Held wire a' := by
  refine ⟨⟨n.store.nextId, ?_, hid⟩, ?_, haccepts⟩
  · rw [drawId_nextId hnext]
    exact Nat.lt_succ_self _
  · simp [Node.latest, drawId]

/-- A creation that finds the identifier given before comes after a restart that missed it. -/
theorem missed_of_drawn (h : n.Sound wire loader) {newer older : List (Mark E)} {a : Authored}
    (hsplit : n.history = newer ++ .created a :: older) (hids : a'.id = a.id) :
    Missed wire a newer := by
  rcases h.issued newer a older hsplit with hmissed | hpast
  · exact hmissed
  · obtain ⟨k, hk, hk'⟩ := hpast.number
    rw [hid, hk'] at hids
    have hnumber := draftId_inj hnext.le (by omega) hids
    omega

end

theorem sound_drawId (h : n.Sound wire loader) (hfew : n.creations + 1 < u64Max) {a' : Authored}
    (hid : a'.id = draftId n.store.nextId) (haccepts : wire.Accepts a') (task : ℕ) :
    (n.drawId task a').Sound wire loader := by
  have hnext : n.store.nextId < u64Max := lt_of_le_of_lt h.next_le hfew
  have hcount : (n.drawId task a').creations = n.creations + 1 := by
    simp [Node.creations, drawId]
  refine ⟨h.policy, ?_, ?_, ?_, ?_, ?_, ?_, ?_⟩
  · rw [drawId_nextId hnext, hcount]
    exact Nat.succ_le_succ h.next_le
  · rw [hcount]
    exact hfew
  · intro id d hd
    obtain ⟨a, hheld, hida, hproposes, hchecked⟩ := h.drafts id d hd
    refine ⟨a, hheld.drawn hnext hid task, hida, hproposes, ?_⟩
    intro hvalidated
    obtain ⟨v, hmark, herrors⟩ := hchecked hvalidated
    exact ⟨v, List.mem_cons_of_mem _ hmark, herrors⟩
  · intro t
    by_cases ht : t = task
    · subst ht
      have htask : (n.drawId t a').tasks t = .inserting a' := Function.update_self ..
      rw [htask]
      exact Held.fresh hnext hid haccepts t
    · have hsame : (n.drawId task a').tasks t = n.tasks t := Function.update_of_ne ht _ _
      rw [hsame]
      have hsound := h.tasks t
      cases htask : n.tasks t with
      | idle => trivial
      | inserting a => exact Held.drawn hnext hid (by rwa [htask] at hsound) task
      | recording a => exact Held.drawn hnext hid (by rwa [htask] at hsound) task
      | validating id text version =>
        rw [htask] at hsound
        obtain ⟨a, hheld, hrest⟩ := hsound
        exact ⟨a, hheld.drawn hnext hid task, hrest⟩
  · intro p hp
    obtain ⟨a, hpayload, hheld⟩ := h.log p hp
    exact ⟨a, hpayload, hheld.drawn hnext hid task⟩
  · intro newer a older hsplit
    obtain ⟨rfl, hm⟩ | ⟨newer', rfl, hfront⟩ := List.cons_eq_append_iff.1 hsplit
    · obtain ⟨rfl, rfl⟩ : a = a' ∧ older = n.history := by simpa using hm
      exact .inr ⟨⟨_, by rw [drawId_nextId hnext]; exact Nat.lt_succ_self _, hid⟩, .inr (by simp)⟩
    · rcases h.issued newer' a older hfront with hmissed | hpast
      · exact .inl (hmissed.cons _)
      · obtain ⟨k, hk, hk'⟩ := hpast.number
        refine .inr ⟨⟨k, ?_, hk'⟩, ?_⟩
        · rw [drawId_nextId hnext]
          omega
        · rcases hpast.logged with hlogged | hnone
          · exact .inl hlogged
          · exact .inr fun log hlog => hnone log (by simpa using hlog)
  · intro newer a₁ between a older hsplit hids
    obtain ⟨rfl, hm⟩ | ⟨newer', rfl, hfront⟩ := List.cons_eq_append_iff.1 hsplit
    · obtain ⟨rfl, hhistory⟩ : a₁ = a' ∧ between ++ .created a :: older = n.history := by simpa using hm
      exact missed_of_drawn hnext hid h hhistory.symm hids
    · exact h.again newer' a₁ between a older hfront hids

/-! ### Restarts -/

theorem sound_restart (h : n.Sound wire loader) : (n.restart wire).Sound wire loader := by
  have hreadable : Readable wire n.creations n.log := by
    intro p hp
    obtain ⟨a, hpayload, hheld⟩ := h.log p hp
    obtain ⟨k, hk, hid⟩ := hheld.number
    exact ⟨a, k, hpayload, hheld.accepted, hid, by have hle := h.next_le; omega⟩
  have hrebuilt := rebuilt_restoreDrafts (E := E) (D := D) h.few hreadable
  have hcount : (n.restart wire).creations = n.creations := by
    simp [Node.creations, restart]
  -- The counter is past every draft in the log.
  have hpast : ∀ a, .policyDraft (wire.toPayload a) ∈ n.log → wire.Accepts a →
      (∃ k < n.store.nextId, a.id = draftId k) →
      ∃ k < (n.restart wire).store.nextId, a.id = draftId k := by
    rintro a ha haccepts ⟨k, hk, hid⟩
    have hle := h.next_le
    exact ⟨k, hrebuilt.past a k ha haccepts hid (by omega), hid⟩
  have hheld : ∀ p, .policyDraft p ∈ n.log → ∃ a, p = wire.toPayload a ∧ (n.restart wire).Held wire a := by
    intro p hp
    obtain ⟨a, rfl, hheld⟩ := h.log p hp
    exact ⟨a, rfl, hpast a hp hheld.accepted hheld.number, hheld.latest, hheld.accepted⟩
  refine ⟨hrebuilt.policy, ?_, ?_, ?_, fun t => trivial, hheld, ?_, ?_⟩
  · rw [hcount]
    exact hrebuilt.next_le
  · rw [hcount]
    exact h.few
  · intro id d hd
    obtain ⟨a, ha, hid, rfl⟩ := hrebuilt.drafts id d hd
    obtain ⟨a', hpayload, hheld'⟩ := hheld _ ha
    have hsame := (wire.recorded_of_toPayload hheld'.accepted hpayload.symm).2
    refine ⟨a', hheld', ?_, ?_, fun hvalidated => by cases hvalidated⟩
    · exact (congrArg Authored.id hsame).trans hid
    · rw [← hsame]
      exact .recorded a'
  · intro newer a older hsplit
    obtain ⟨rfl, hm⟩ | ⟨newer', rfl, hfront⟩ := List.cons_eq_append_iff.1 hsplit
    · cases hm
    · rcases h.issued newer' a older hfront with hmissed | hp
      · exact .inl (hmissed.cons _)
      · by_cases hlogged : .policyDraft (wire.toPayload a) ∈ n.log
        · obtain ⟨a', hpayload, hheld'⟩ := h.log _ hlogged
          have haccepts := (wire.recorded_of_toPayload hheld'.accepted hpayload.symm).1
          exact .inr ⟨hpast a hlogged haccepts hp.number, .inl hlogged⟩
        · exact .inl ⟨n.log, List.mem_cons_self, hlogged⟩
  · intro newer a₁ between a older hsplit hids
    obtain ⟨rfl, hm⟩ | ⟨newer', rfl, hfront⟩ := List.cons_eq_append_iff.1 hsplit
    · cases hm
    · exact h.again newer' a₁ between a older hfront hids

/-! ### Runs -/

variable (wire) in
/-- A creation leaves a number for the next, and the parser accepts its record. -/
def Feasible (n : Node E D) : Event → Prop
  | .createBy _ text author authorAccountable tenant now =>
    n.creations + 1 < u64Max ∧ wire.Accepts (n.drafted text author authorAccountable tenant now)
  | _ => True

theorem step_sound (h : n.Sound wire loader) (e : Event) (he : n.Feasible wire e) :
    (n.step wire loader e).Sound wire loader := by
  cases e with
  | createBy task text author authorAccountable tenant now =>
    rw [step]
    split
    · exact sound_drawId h he.1 rfl he.2 task
    · exact h
  | createInsert task => exact sound_createInsert h task
  | record task => exact sound_record h task
  | validateRead task id tenant version =>
    rw [step]
    split
    · exact sound_validateRead h task id tenant version
    · exact h
  | validateWrite task => exact sound_validateWrite h task
  | recordClosed id => exact sound_recordClosed h id
  | close id => exact sound_close h id
  | restart => exact sound_restart h

theorem init_sound : (init : Node E D).Sound wire loader := by
  refine ⟨rfl, Nat.le_refl _, Nat.two_pow_pos 63 |>.trans (by decide), ?_, fun t => trivial, ?_, ?_, ?_⟩
  · intro id d hd
    simp [init, DraftStore.new] at hd
  · intro p hp
    cases hp
  · intro newer a older hsplit
    exact absurd hsplit.symm (by simp [init])
  · intro newer a' between a older hsplit
    exact absurd hsplit.symm (by simp [init])

/-- **Separation of duty.**  After every run, what is given out for publication is the load of the
text of the last creation given the identifier; it was proposed in the tenant, neither its author nor
who is accountable for it is among the publishers, and it was validated without errors since the last
restart.  Two creations have the same identifier only where a restart between them did not find the
first in the log. -/
theorem separation_of_duty (wire : Wire F) (loader : Loader C E D) (es : List Event)
    (h : StepsMeet (step wire loader) (Feasible wire) (init : Node E D) es) :
    let n := run (step wire loader) (init : Node E D) es
    (∀ (id : String) (publishers : List Id) (tenant : Id) (version : ℕ) (config : C),
      n.store.preparePublishBy loader id publishers tenant version = .ok config →
      ∃ a, n.latest id = some a ∧ loader.load a.text version = .ok config ∧ a.tenant = tenant ∧
        a.author ∉ publishers ∧ (∀ p, a.authorAccountable = some p → p ∉ publishers) ∧
        ∃ v, Mark.validated id v [] ∈ n.sinceRestart ∧ loader.errors a.text v = []) ∧
    ∀ (newer : List (Mark E)) (a' : Authored) (between : List (Mark E)) (a : Authored)
      (older : List (Mark E)),
      n.history = newer ++ Mark.created a' :: (between ++ Mark.created a :: older) → a'.id = a.id →
      ∃ log, Mark.restarted log ∈ between ∧ Record.policyDraft (wire.toPayload a) ∉ log := by
  intro n
  have hsound : n.Sound wire loader :=
    run_invariant_of_steps (P := Sound wire loader) (fun n e hn he => step_sound hn e he) init_sound es h
  refine ⟨?_, hsound.again⟩
  intro id publishers tenant version config hpublish
  obtain ⟨d, hd, htenant, hvalidated, herrors, hself, hload⟩ := n.store.preparePublishBy_ok hpublish
  obtain ⟨a, hheld, rfl, hproposes, hchecked⟩ := hsound.drafts id d hd
  obtain ⟨v, hmark, hclean⟩ := hchecked hvalidated
  rw [herrors] at hmark hclean
  refine ⟨a, hheld.latest, ?_, ?_, ?_, ?_, v, hmark, hclean⟩
  · rw [← hproposes.text]
    exact hload
  · rw [← hproposes.tenant]
    exact htenant
  · intro hauthor
    exact (hself hsound.policy _ hauthor).1 hproposes.author
  · intro p hp hpublisher
    refine (hself hsound.policy p hpublisher).2 ?_
    rw [hproposes.accountable]
    exact hp

/-! ### A configuration of one word -/

namespace Sample

def numbers : Wire Unit := ⟨Json.oneAndAHalf, fun _ => (), fun _ => Json.oneAndAHalf_exact ()⟩

/-- One text loads, as the version it is loaded at. -/
def oneText : Loader ℕ String ℕ :=
  ⟨fun text version => if text = "tenant id=acme" then .ok version else .error ["unknown record"], id⟩

def alice : Id := ⟨"user:alice", by decide⟩
def minter : Id := ⟨"user:minter", by decide⟩
def bob : Id := ⟨"user:bob", by decide⟩
def acme : Id := ⟨"acme", by decide⟩

/-- A draft is recorded, read back after a restart and validated. -/
def reviewed : List Event :=
  [.createBy 0 "tenant id=acme" alice (some minter) acme 1000, .createInsert 0, .record 0, .restart,
    .validateRead 0 "draft_1" acme 2, .validateWrite 0]

/-- The draft is given out to another person, after an accepted record was read back. -/
theorem reviewed_draft_published :
    (run (step numbers oneText) (init : Node String ℕ) reviewed).store.preparePublishBy oneText "draft_1"
        [bob] acme 3 = .ok 3 ∧
      ∃ a, (run (step numbers oneText) init reviewed).latest "draft_1" = some a ∧
        oneText.load a.text 3 = .ok 3 ∧ a.tenant = acme ∧ a.author ∉ [bob] ∧
        (∀ p, a.authorAccountable = some p → p ∉ [bob]) ∧
        ∃ v, Mark.validated "draft_1" v [] ∈ (run (step numbers oneText) init reviewed).sinceRestart ∧
          oneText.errors a.text v = [] := by
  have hfeasible : StepsMeet (step numbers oneText) (Feasible numbers) (init : Node String ℕ) reviewed := by
    refine ⟨⟨by decide +kernel, by decide +kernel⟩, trivial, trivial, trivial, trivial, trivial, trivial⟩
  have hpublish : (run (step numbers oneText) (init : Node String ℕ) reviewed).store.preparePublishBy
      oneText "draft_1" [bob] acme 3 = .ok 3 := by
    decide +kernel
  obtain ⟨hpublished, -⟩ := separation_of_duty numbers oneText reviewed hfeasible
  exact ⟨hpublish, hpublished "draft_1" [bob] acme 3 3 hpublish⟩

/-! #### Identifiers given twice -/

/-- A creation of request `i`. -/
def creation (i : ℕ) : Event := .createBy i "tenant id=acme" alice none acme 0

def created (i : ℕ) : Authored := ⟨draftId ((1 + i) % 2 ^ 64), "tenant id=acme", alice, acme, none, 0⟩

/-- The marks of `m` creations. -/
def createdMarks (m : ℕ) : List (Mark String) := ((List.range m).map fun i => .created (created i)).reverse

theorem run_creations (m : ℕ) :
    let n := run (step numbers oneText) (init : Node String ℕ) ((List.range m).map creation)
    n.store.nextId = (1 + m) % 2 ^ 64 ∧ (∀ t, m ≤ t → n.tasks t = .idle) ∧ n.history = createdMarks m := by
  induction m with
  | zero => exact ⟨rfl, fun _ _ => rfl, rfl⟩
  | succ m ih =>
    obtain ⟨hnext, htasks, hhistory⟩ := ih
    intro n
    have hn : n = step numbers oneText
        (run (step numbers oneText) init ((List.range m).map creation)) (creation m) := by
      show run _ _ ((List.range (m + 1)).map creation) = _
      rw [List.range_succ, List.map_append]
      exact run_snoc ..
    have hdraw : n = (run (step numbers oneText) (init : Node String ℕ)
        ((List.range m).map creation)).drawId m (created m) := by
      rw [hn, creation, step, if_pos (htasks m (Nat.le_refl m)), drafted, hnext]
      rfl
    rw [hdraw]
    refine ⟨?_, ?_, ?_⟩
    · show (_ + 1) % 2 ^ 64 = _
      rw [hnext]
      omega
    · intro t ht
      show Function.update _ m _ t = _
      rw [Function.update_of_ne (by omega)]
      exact htasks t (by omega)
    · show _ :: _ = _
      rw [hhistory, createdMarks, createdMarks, List.range_succ, List.map_append, List.reverse_append]
      rfl

theorem createdMarks_ends (m : ℕ) :
    ∃ between : List (Mark String),
      createdMarks (m + 2) = Mark.created (created (m + 1)) :: (between ++ [Mark.created (created 0)]) ∧
      ∀ log, Mark.restarted log ∉ between := by
  refine ⟨((List.range m).map fun i => .created (created (i + 1))).reverse, ?_, ?_⟩
  · rw [createdMarks, List.range_succ, List.map_append, List.reverse_append, List.range_succ_eq_map]
    simp [Function.comp_def]
  · intro log hlog
    simp at hlog

theorem comes_round {m : ℕ} (hm : (1 + (m + 1)) % 2 ^ 64 = 1) :
    ∃ (es : List Event) (between : List (Mark String)) (a a' : Authored),
      (run (step numbers oneText) (init : Node String ℕ) es).history =
        Mark.created a' :: (between ++ [Mark.created a]) ∧
      (∀ log, Mark.restarted log ∉ between) ∧ a'.id = a.id := by
  obtain ⟨between, hmarks, hnone⟩ := createdMarks_ends m
  refine ⟨(List.range (m + 2)).map creation, between, created 0, created (m + 1), ?_, hnone, ?_⟩
  · rw [(run_creations _).2.2, hmarks]
  · rw [created, hm]
    rfl

/-- Every draft is in the log when it is closed. -/
def RecordedFirst (n : Node String ℕ) : Event → Prop
  | .close id => ∀ a, .created a ∈ n.history → a.id = id → .policyDraft (numbers.toPayload a) ∈ n.log
  | .recordClosed id => ∀ a, .created a ∈ n.history → a.id = id → .policyDraft (numbers.toPayload a) ∈ n.log
  | _ => True

theorem created_accepted : numbers.Accepts (created 0) := by decide +kernel

/-- A creation interrupted by a restart, before it is recorded, leaves its identifier to the next; and
the counter of 64 bits comes round. -/
theorem identifier_given_twice :
    (¬ ∀ es : List Event, StepsMeet (step numbers oneText) (Feasible numbers) (init : Node String ℕ) es →
      StepsMeet (step numbers oneText) RecordedFirst (init : Node String ℕ) es →
      ∀ (newer : List (Mark String)) (a' : Authored) (between : List (Mark String)) (a : Authored)
        (older : List (Mark String)),
        (run (step numbers oneText) (init : Node String ℕ) es).history =
          newer ++ Mark.created a' :: (between ++ Mark.created a :: older) → a'.id ≠ a.id) ∧
    ∃ (es : List Event) (between : List (Mark String)) (a a' : Authored),
      (run (step numbers oneText) (init : Node String ℕ) es).history =
        Mark.created a' :: (between ++ [Mark.created a]) ∧
      (∀ log, Mark.restarted log ∉ between) ∧ a'.id = a.id := by
  constructor
  · intro h
    refine h [creation 0, .restart, creation 0] ?_ ?_ [] (created 0) [.restarted []] (created 0) [] ?_ rfl
    · exact ⟨⟨by decide +kernel, created_accepted⟩, trivial, ⟨by decide +kernel, created_accepted⟩, trivial⟩
    · exact ⟨trivial, trivial, trivial, trivial⟩
    · rfl
  · exact comes_round (m := 2 ^ 64 - 1) (by norm_num)

end Sample

end Node

end HypeLlm.Admin
