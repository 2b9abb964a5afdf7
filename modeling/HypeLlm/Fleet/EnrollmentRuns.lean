import HypeLlm.Fleet.Enrollment
import HypeLlm.Lib.Maps
import HypeLlm.Lib.Runs

/-!
# The lifecycle of an enrollment

What one call does to the registry is said once (`answer_effect`): it is refused and nothing changes, it
issues one record, or it moves one record a step along.  Records that are dropped are terminal.  A
record is followed over a run by the digest of its token, and beside the registry the registrations
that consumed a token are kept as a history.

* `answer_effect` — what one call does;
* `Kept.answer`, `Tokens.answer` — what every call keeps, of the records and of the tokens;
* **`lifecycle`** — a record moves along its lifecycle only, a token is consumed once and in time, a host
  is named by one enrollment, and the journal is the registry.
-/

namespace HypeLlm.Fleet

open Std HypeLlm.Maps HypeLlm.Runs List

/-! ### Records -/

theorem mem_records {m : Enrollments} {e : Enrollment} : e ∈ records m ↔ ∃ id : String, m[id]? = some e := by
  rw [records, mem_map]
  constructor
  · rintro ⟨⟨id, e⟩, hmem, rfl⟩
    exact ⟨id, TreeMap.mem_toList_iff_getElem?_eq_some.1 hmem⟩
  · rintro ⟨id, h⟩
    exact ⟨(id, e), TreeMap.mem_toList_iff_getElem?_eq_some.2 h, rfl⟩

/-- Every record is held under its identifier. -/
def Keyed (m : Enrollments) : Prop := ∀ (id : String) (e : Enrollment), m[id]? = some e → e.id = id

theorem Keyed.mem_records_iff {m : Enrollments} (h : Keyed m) {e : Enrollment} :
    e ∈ records m ↔ m[e.id]? = some e := by
  rw [mem_records]
  constructor
  · rintro ⟨id, he⟩
    rwa [h id e he]
  · exact fun he => ⟨e.id, he⟩

theorem Keyed.nodup_ids {m : Enrollments} (h : Keyed m) : ((records m).map (·.id)).Nodup := by
  have hkeys : (records m).map (·.id) = m.keys := by
    rw [records, map_map, ← TreeMap.map_fst_toList_eq_keys]
    refine map_congr_left ?_
    rintro ⟨id, e⟩ hmem
    exact h id e (TreeMap.mem_toList_iff_getElem?_eq_some.1 hmem)
  rw [hkeys]
  exact TreeMap.nodup_keys

theorem getElem?_foldl_erase (ids : List (ℕ × String)) (m : Enrollments) (id : String) :
    (ids.foldl (fun m old => m.erase old.2) m)[id]? = if id ∈ ids.map (·.2) then none else m[id]? := by
  induction ids generalizing m with
  | nil => rfl
  | cons old ids ih =>
    rw [foldl_cons, ih, Maps.getElem?_erase, map_cons]
    by_cases hhead : id = old.2 <;> by_cases htail : id ∈ ids.map (·.2) <;> simp [hhead, htail]

/-- Only terminal records are dropped. -/
theorem isTerminal_of_mem_excess {m : Enrollments} {id : String} (h : id ∈ (excess m).map (·.2)) :
    ∃ e ∈ records m, e.state.isTerminal = true ∧ e.id = id := by
  obtain ⟨old, hold, rfl⟩ := mem_map.1 h
  rw [excess] at hold
  obtain ⟨e, he, rfl⟩ := mem_map.1 ((mergeSort_perm ..).subset (mem_of_mem_take hold))
  obtain ⟨hmem, hterminal⟩ := mem_filter.1 he
  exact ⟨e, hmem, hterminal, rfl⟩

theorem getElem?_adopt (m : Enrollments) (r : Enrollment) (id : String) :
    (adopt m r)[id]? = if id ∈ (excess (m.insert r.id r)).map (·.2) then none
      else if id = r.id then some r else m[id]? := by
  rw [adopt, prune, getElem?_foldl_erase, Maps.getElem?_insert]

/-- What is held was installed or was held before. -/
theorem adopt_eq_some {m : Enrollments} {r e : Enrollment} {id : String}
    (h : (adopt m r)[id]? = some e) : id = r.id ∧ e = r ∨ id ≠ r.id ∧ m[id]? = some e := by
  rw [getElem?_adopt] at h
  split at h
  · cases h
  · split at h
    · rename_i hid
      exact .inl ⟨hid, (Option.some.inj h).symm⟩
    · rename_i hid
      exact .inr ⟨hid, h⟩

theorem Keyed.adopt {m : Enrollments} (h : Keyed m) (r : Enrollment) : Keyed (adopt m r) := by
  intro id e he
  obtain ⟨rfl, rfl⟩ | ⟨-, he⟩ := adopt_eq_some he
  · rfl
  · exact h id e he

/-- What is no longer held is terminal. -/
theorem Keyed.adopt_eq_none {m : Enrollments} (h : Keyed m) {r : Enrollment} {id : String}
    (hnone : (Fleet.adopt m r)[id]? = none) :
    id = r.id ∧ r.state.isTerminal = true ∨
      id ≠ r.id ∧ ∀ e : Enrollment, m[id]? = some e → e.state.isTerminal = true := by
  have hkeyed : Keyed (m.insert r.id r) := by
    intro id' e' he'
    rw [Maps.getElem?_insert] at he'
    split at he'
    · cases he'
      exact (‹id' = r.id›).symm
    · exact h id' e' he'
  rw [getElem?_adopt] at hnone
  split at hnone
  · rename_i hexcess
    obtain ⟨e, he, hterminal, rfl⟩ := isTerminal_of_mem_excess hexcess
    have hget := hkeyed.mem_records_iff.1 he
    rw [Maps.getElem?_insert] at hget
    split at hget
    · rename_i hid
      cases hget
      exact .inl ⟨rfl, hterminal⟩
    · rename_i hid
      refine .inr ⟨hid, fun e' he' => ?_⟩
      rw [hget] at he'
      cases he'
      exact hterminal
  · split at hnone
    · cases hnone
    · rename_i hid
      refine .inr ⟨hid, fun e he => ?_⟩
      rw [hnone] at he
      cases he

/-! ### What a record goes through -/

/-- A call moves a record a step along. -/
inductive Moves (nowMs : ℕ) : Call → Enrollment → Enrollment → Prop
  | register {e : Enrollment} {token : String} {registration : Registration} :
      e.tokenDigest = tokenDigest token → e.state = .issued → nowMs < e.expiresAtMs →
      Moves nowMs (.register token registration) e { e with
        state := .registered
        registration := some registration
        registeredAtMs := some nowMs }
  | approve {e : Enrollment} {actor draft : String} : e.state = .registered →
      Moves nowMs (.approve e.id actor draft) e { e with
        state := .approved
        decidedBy := some actor
        decidedAtMs := some nowMs
        draft := some draft }
  | reject {e : Enrollment} {actor : String} :
      e.state = .issued ∧ nowMs < e.expiresAtMs ∨ e.state = .registered →
      Moves nowMs (.reject e.id actor) e { e with
        state := .rejected
        decidedBy := some actor
        decidedAtMs := some nowMs }
  | revoke {e : Enrollment} {actor : String} : e.state = .approved →
      Moves nowMs (.revoke e.id actor) e { e with
        state := .revoked
        decidedBy := some actor
        decidedAtMs := some nowMs }

/-- The record that an issue makes. -/
def NewEnrollment.record (new : NewEnrollment) (nowMs : ℕ) : Enrollment where
  id := new.id
  host := new.host
  agent := new.agent
  tokenDigest := new.tokenDigest
  issuedBy := new.issuedBy
  issuedAtMs := nowMs
  expiresAtMs := Words.satAdd Words.u64Max nowMs (max minTtlMs (min new.ttlMs maxTtlMs))
  state := .issued
  registration := none
  registeredAtMs := none
  decidedBy := none
  decidedAtMs := none
  draft := none

/-- The record names its host: no other may be issued for it. -/
def Enrollment.Names (e : Enrollment) (nowMs : ℕ) : Prop := e.isOpen nowMs = true ∨ e.state = .approved

theorem Enrollment.isOpen_iff {e : Enrollment} {nowMs : ℕ} :
    e.isOpen nowMs = true ↔ e.state = .issued ∧ nowMs < e.expiresAtMs ∨ e.state = .registered := by
  rw [isOpen, stateAt]
  by_cases h : e.expiresAtMs ≤ nowMs
  · cases hs : e.state <;> simp [h]
  · cases hs : e.state <;> simp [h, Nat.lt_of_not_le h]

theorem Enrollment.stateAt_eq_issued_iff {e : Enrollment} {nowMs : ℕ} :
    e.stateAt nowMs = .issued ↔ e.state = .issued ∧ nowMs < e.expiresAtMs := by
  rw [stateAt]
  split
  · rename_i h
    refine iff_of_false (by simp) fun hissued => ?_
    omega
  · rename_i h
    refine ⟨fun hs => ⟨hs, ?_⟩, And.left⟩
    by_contra hlate
    exact h ⟨hs, by omega⟩

theorem Enrollment.stateAt_eq_iff {e : Enrollment} {nowMs : ℕ} {state : EnrollmentState}
    (hissued : state ≠ .issued) (hexpired : state ≠ .expired) :
    e.stateAt nowMs = state ↔ e.state = state := by
  rw [stateAt]
  split
  · rename_i h
    refine iff_of_false (fun hs => hexpired hs.symm) fun hs => hissued ?_
    rw [← hs, h.1]
  · exact Iff.rfl

namespace Moves

variable {nowMs : ℕ} {c : Call} {e e' : Enrollment}

theorem id_eq (h : Moves nowMs c e e') : e'.id = e.id := by cases h <;> rfl

theorem host_eq (h : Moves nowMs c e e') : e'.host = e.host := by cases h <;> rfl

theorem tokenDigest_eq (h : Moves nowMs c e e') : e'.tokenDigest = e.tokenDigest := by cases h <;> rfl

/-- A move opens nothing. -/
theorem isOpen_of_isOpen (h : Moves nowMs c e e') (hopen : e'.isOpen nowMs = true) :
    e.isOpen nowMs = true := by
  rw [Enrollment.isOpen_iff] at hopen ⊢
  cases h with
  | register _ hstate htime => exact .inl ⟨hstate, htime⟩
  | approve hstate => exact .inr hstate
  | reject hstate => exact hstate
  | revoke _ => obtain ⟨h, -⟩ | h := hopen <;> cases h

theorem names_of_names (h : Moves nowMs c e e') (hnames : e'.Names nowMs) : e.Names nowMs := by
  obtain hopen | happroved := hnames
  · exact .inl (h.isOpen_of_isOpen hopen)
  · refine .inl (Enrollment.isOpen_iff.2 ?_)
    cases h with
    | approve hstate => exact .inr hstate
    | register | reject | revoke => cases happroved

/-- Nothing moves a terminal record. -/
theorem not_isTerminal (h : Moves nowMs c e e') : e.state.isTerminal = false := by
  cases h with
  | register _ hstate _ => rw [hstate]; rfl
  | approve hstate => rw [hstate]; rfl
  | reject hstate => obtain ⟨hstate, -⟩ | hstate := hstate <;> (rw [hstate]; rfl)
  | revoke hstate => rw [hstate]; rfl

end Moves

/-! ### What one call does -/

namespace EnrollmentRegistry

/-- The records and the journal are the same. -/
structure SameRecords (s s' : EnrollmentRegistry) : Prop where
  byId : s'.byId = s.byId
  journal : s'.journal = s.journal

/-- A record was committed and installed. -/
structure Installed (s : EnrollmentRegistry) (r : Enrollment) (s' : EnrollmentRegistry) : Prop where
  byId : s'.byId = adopt s.byId r
  journal : s'.journal = s.journal ++ [r]

/-- What a call may do at a time. -/
inductive Effect (s : EnrollmentRegistry) (nowMs : ℕ) :
    Call → Except EnrollError Enrollment × EnrollmentRegistry → Prop
  | refused {c : Call} {e : EnrollError} {s' : EnrollmentRegistry} : s.SameRecords s' →
      Effect s nowMs c (.error e, s')
  | peeked {token : String} {r : Enrollment} {s' : EnrollmentRegistry} : s.SameRecords s' →
      Effect s nowMs (.redeemPeek token) (.ok r, s')
  | issued {new : NewEnrollment} {s' : EnrollmentRegistry} :
      ((records s.byId).filter (·.isOpen nowMs)).length < maxOpenEnrollments →
      (∀ e ∈ records s.byId, e.Names nowMs → e.host ≠ new.host) → s.byId[new.id]? = none →
      s.Installed (new.record nowMs) s' → Effect s nowMs (.issue new) (.ok (new.record nowMs), s')
  | moved {c : Call} {r r' : Enrollment} {s' : EnrollmentRegistry} : s.byId[r.id]? = some r →
      Moves nowMs c r r' → s.Installed r' s' → Effect s nowMs c (.ok r', s')

/-- A record is committed, or the call is refused. -/
theorem commitLocked_cases (s : EnrollmentRegistry) (commits : Bool) (r : Enrollment) :
    (∃ s', s.Installed r s' ∧ s.commitLocked commits r = (.ok r, s')) ∨
      s.commitLocked commits r = (.error .journal, s) := by
  rw [commitLocked]
  split
  · refine .inl ⟨_, ?_, rfl⟩
    exact ⟨by dsimp only, by dsimp only⟩
  · exact .inr rfl

theorem issue_effect (s : EnrollmentRegistry) (new : NewEnrollment) (nowMs : ℕ) (commits : Bool) :
    Effect s nowMs (.issue new) (s.issue new nowMs commits) := by
  rw [issue]
  split
  · exact .refused ⟨rfl, rfl⟩
  · rename_i hcount
    split
    · exact .refused ⟨rfl, rfl⟩
    · rename_i hhost
      split
      · exact .refused ⟨rfl, rfl⟩
      · rename_i hid
        show Effect s nowMs (.issue new) (s.commitLocked commits (new.record nowMs))
        obtain ⟨s', hs', hcommit⟩ | hfailed := s.commitLocked_cases commits (new.record nowMs)
        · rw [hcommit]
          refine .issued (Nat.lt_of_not_le hcount) ?_ ?_ hs'
          · intro e he hnames hsame
            refine hhost (any_eq_true.2 ⟨e, he, decide_eq_true ⟨hsame, hnames⟩⟩)
          · rwa [TreeMap.contains_eq_isSome_getElem?, Bool.not_eq_true, Option.isSome_eq_false_iff,
              Option.isNone_iff_eq_none] at hid
        · rw [hfailed]
          exact .refused ⟨rfl, rfl⟩

/-- A token finds the record that it was issued with, in time, or the call is refused. -/
theorem findIssued_cases {s : EnrollmentRegistry} (hkeyed : Keyed s.byId) (token : String) (nowMs : ℕ) :
    (∃ e s', s.SameRecords s' ∧ s.findIssued token nowMs = (.error e, s')) ∨
      ∃ r s', s.SameRecords s' ∧ s.byId[r.id]? = some r ∧ r.tokenDigest = tokenDigest token ∧
        r.state = .issued ∧ nowMs < r.expiresAtMs ∧ s.findIssued token nowMs = (.ok r, s') := by
  rw [findIssued]
  dsimp only
  split
  · refine .inl ⟨_, _, ?_, rfl⟩
    exact ⟨rfl, rfl⟩
  · split
    · rename_i e hfound
      split at hfound
      · have hmatch := find?_some hfound
        rw [decide_eq_true_eq] at hmatch
        obtain ⟨hstate, hdigest⟩ := hmatch
        obtain ⟨hissued, htime⟩ := Enrollment.stateAt_eq_issued_iff.1 hstate
        have hget := hkeyed.mem_records_iff.1 (mem_of_find?_eq_some hfound)
        rw [hget]
        refine .inr ⟨e, _, ?_, hget, hdigest, hissued, htime, rfl⟩
        exact ⟨rfl, rfl⟩
      · cases hfound
    · refine .inl ⟨_, _, ?_, rfl⟩
      exact ⟨rfl, rfl⟩

theorem register_effect {s : EnrollmentRegistry} (hkeyed : Keyed s.byId) (token : String)
    (registration : Registration) (nowMs : ℕ) (commits : Bool) :
    Effect s nowMs (.register token registration) (s.register token registration nowMs commits) := by
  rw [register]
  obtain ⟨e, s₁, hsame, hfind⟩ | ⟨r, s₁, hsame, hget, hdigest, hissued, htime, hfind⟩ :=
    findIssued_cases hkeyed token nowMs
  · rw [hfind]
    exact .refused hsame
  · rw [hfind]
    have hmoves : Moves nowMs (.register token registration) r _ := .register hdigest hissued htime
    obtain ⟨s', hs', hcommit⟩ | hfailed := s₁.commitLocked_cases commits { r with
      state := .registered
      registration := some registration
      registeredAtMs := some nowMs }
    · have hinstalled := Installed.mk (hsame.byId ▸ hs'.byId) (hsame.journal ▸ hs'.journal)
      exact Eq.subst (motive := Effect s nowMs _) hcommit.symm (.moved hget hmoves hinstalled)
    · exact Eq.subst (motive := Effect s nowMs _) hfailed.symm (.refused hsame)

/-- A transition is refused, or moves the record. -/
theorem transition_effect {s : EnrollmentRegistry} (hkeyed : Keyed s.byId) {c : Call} {id actor : String}
    {nowMs : ℕ} {states : List EnrollmentState} {after : EnrollmentState} {draft : Option String}
    {commits : Bool}
    (hmoves : ∀ r : Enrollment, r.id = id → r.stateAt nowMs ∈ states → Moves nowMs c r { r with
      state := after
      decidedBy := some actor
      decidedAtMs := some nowMs
      draft := draft <|> r.draft }) :
    Effect s nowMs c (s.transition id actor nowMs states after draft commits) := by
  rw [transition]
  split
  · exact .refused ⟨rfl, rfl⟩
  · rename_i r hget
    have hid := hkeyed id r hget
    split
    · exact .refused ⟨rfl, rfl⟩
    · rename_i hstate
      have hmove := hmoves r hid (not_not.1 hstate)
      obtain ⟨s', hs', hcommit⟩ | hfailed := s.commitLocked_cases commits { r with
        state := after
        decidedBy := some actor
        decidedAtMs := some nowMs
        draft := draft <|> r.draft }
      · exact Eq.subst (motive := Effect s nowMs c) hcommit.symm (.moved (hid ▸ hget) hmove hs')
      · exact Eq.subst (motive := Effect s nowMs c) hfailed.symm (.refused ⟨rfl, rfl⟩)

/-- **What one call does.** -/
theorem answer_effect {s : EnrollmentRegistry} (hkeyed : Keyed s.byId) (c : Call) (nowMs : ℕ)
    (commits : Bool) : Effect s nowMs c (s.answer c nowMs commits) := by
  cases c with
  | issue new => exact s.issue_effect new nowMs commits
  | redeemPeek token =>
    rw [answer, redeemPeek]
    obtain ⟨e, s', hsame, hfind⟩ | ⟨r, s', hsame, -, -, -, -, hfind⟩ :=
      findIssued_cases hkeyed token nowMs
    · rw [hfind]
      exact .refused hsame
    · rw [hfind]
      exact .peeked hsame
  | register token registration => exact register_effect hkeyed token registration nowMs commits
  | approve id actor draft =>
    refine transition_effect hkeyed fun r hid hstate => ?_
    subst hid
    exact .approve ((Enrollment.stateAt_eq_iff (by simp) (by simp)).1 (mem_singleton.1 hstate))
  | reject id actor =>
    refine transition_effect hkeyed fun r hid hstate => ?_
    subst hid
    refine .reject ?_
    obtain hissued | hregistered := by simpa using hstate
    · exact .inl (Enrollment.stateAt_eq_issued_iff.1 hissued)
    · exact .inr ((Enrollment.stateAt_eq_iff (by simp) (by simp)).1 hregistered)
  | revoke id actor =>
    refine transition_effect hkeyed fun r hid hstate => ?_
    subst hid
    exact .revoke ((Enrollment.stateAt_eq_iff (by simp) (by simp)).1 (mem_singleton.1 hstate))

end EnrollmentRegistry

/-! ### What every call keeps of the records -/

theorem Enrollment.isOpen_mono {e : Enrollment} {nowMs laterMs : ℕ} (h : nowMs ≤ laterMs)
    (hopen : e.isOpen laterMs = true) : e.isOpen nowMs = true := by
  rw [isOpen_iff] at hopen ⊢
  exact hopen.imp_left fun hissued => ⟨hissued.1, h.trans_lt hissued.2⟩

theorem Enrollment.Names.mono {e : Enrollment} {nowMs laterMs : ℕ} (h : nowMs ≤ laterMs)
    (hnames : e.Names laterMs) : e.Names nowMs := hnames.imp_left (isOpen_mono h)

theorem Keyed.mem_adopt {m : Enrollments} (h : Keyed m) {r e : Enrollment}
    (he : e ∈ records (Fleet.adopt m r)) : e = r ∨ e ∈ records m ∧ e.id ≠ r.id := by
  obtain ⟨id, hget⟩ := mem_records.1 he
  have hid := h.adopt r id e hget
  obtain ⟨-, rfl⟩ | ⟨hne, hget⟩ := adopt_eq_some hget
  · exact .inl rfl
  · exact .inr ⟨mem_records.2 ⟨id, hget⟩, hid ▸ hne⟩

theorem Keyed.eq_of_id_eq {m : Enrollments} (h : Keyed m) {e e' : Enrollment} (he : e ∈ records m)
    (he' : e' ∈ records m) (hid : e.id = e'.id) : e = e' := by
  rw [h.mem_records_iff] at he he'
  rw [hid, he'] at he
  exact (Option.some.inj he).symm

/-- There are no more open records than identifiers for them. -/
theorem Keyed.length_open_le {m : Enrollments} (h : Keyed m) {nowMs : ℕ} {ids : List String}
    (hids : ∀ e ∈ records m, e.isOpen nowMs = true → e.id ∈ ids) :
    ((records m).filter (·.isOpen nowMs)).length ≤ ids.length := by
  have hnodup : (((records m).filter (·.isOpen nowMs)).map (·.id)).Nodup :=
    h.nodup_ids.sublist (filter_sublist.map _)
  have hsubset : ((records m).filter (·.isOpen nowMs)).map (·.id) ⊆ ids := by
    intro id hid
    obtain ⟨e, he, rfl⟩ := mem_map.1 hid
    obtain ⟨hmem, hopen⟩ := mem_filter.1 he
    exact hids e hmem hopen
  rw [← length_map (·.id)]
  exact (hnodup.subperm hsubset).length_le

/-- A restart reads back every record. -/
theorem EnrollmentRegistry.restart_eq_of_replay (s : EnrollmentRegistry)
    (h : s.journal.foldl adopt ∅ = s.byId) : s.restart = ⟨s.byId, [], s.journal⟩ := by
  have hfold : ∀ (l : List Enrollment) (r : EnrollmentRegistry),
      l.foldl restore r = { r with byId := l.foldl adopt r.byId } := by
    intro l
    induction l with
    | nil => exact fun r => by rw [foldl_nil, foldl_nil]
    | cons e l ih => exact fun r => by rw [foldl_cons, foldl_cons, ih, restore]
  rw [restart, hfold, h]

/-- What holds of the records at every time from the last call on. -/
structure Kept (nowMs : ℕ) (s : EnrollmentRegistry) : Prop where
  keyed : Keyed s.byId
  replay : s.journal.foldl adopt ∅ = s.byId
  hosts : ∀ e ∈ records s.byId, ∀ e' ∈ records s.byId, e.Names nowMs → e'.Names nowMs →
    e.host = e'.host → e = e'
  bounded : ((records s.byId).filter (·.isOpen nowMs)).length ≤ maxOpenEnrollments

namespace Kept

variable {nowMs laterMs : ℕ} {s s' : EnrollmentRegistry}

theorem later (h : Kept nowMs s) (hle : nowMs ≤ laterMs) : Kept laterMs s where
  keyed := h.keyed
  replay := h.replay
  hosts e he e' he' hnames hnames' := h.hosts e he e' he' (hnames.mono hle) (hnames'.mono hle)
  bounded := (monotone_filter_right _ fun _ hopen => Enrollment.isOpen_mono hle hopen).length_le.trans
    h.bounded

theorem same (h : Kept nowMs s) (hsame : s.SameRecords s') : Kept nowMs s' where
  keyed := hsame.byId ▸ h.keyed
  replay := by rw [hsame.journal, hsame.byId, h.replay]
  hosts := by
    rw [hsame.byId]
    exact h.hosts
  bounded := hsame.byId ▸ h.bounded

theorem replay_installed (h : Kept nowMs s) {r : Enrollment} (hinstalled : s.Installed r s') :
    s'.journal.foldl adopt ∅ = s'.byId := by
  rw [hinstalled.journal, foldl_append, h.replay, hinstalled.byId, foldl_cons, foldl_nil]

theorem issued (h : Kept nowMs s) {new : NewEnrollment}
    (hcount : ((records s.byId).filter (·.isOpen nowMs)).length < maxOpenEnrollments)
    (hhost : ∀ e ∈ records s.byId, e.Names nowMs → e.host ≠ new.host)
    (hinstalled : s.Installed (new.record nowMs) s') : Kept nowMs s' where
  keyed := hinstalled.byId ▸ h.keyed.adopt _
  replay := h.replay_installed hinstalled
  hosts := by
    rw [hinstalled.byId]
    intro e he e' he' hnames hnames' hsame
    obtain rfl | ⟨he, -⟩ := h.keyed.mem_adopt he <;> obtain rfl | ⟨he', -⟩ := h.keyed.mem_adopt he'
    · rfl
    · exact absurd hsame.symm (hhost e' he' hnames')
    · exact absurd hsame (hhost e he hnames)
    · exact h.hosts e he e' he' hnames hnames' hsame
  bounded := by
    have hids : ∀ e ∈ records s'.byId, e.isOpen nowMs = true →
        e.id ∈ new.id :: ((records s.byId).filter (·.isOpen nowMs)).map (·.id) := by
      rw [hinstalled.byId]
      intro e he hopen
      obtain rfl | ⟨he, -⟩ := h.keyed.mem_adopt he
      · exact mem_cons_self
      · exact mem_cons_of_mem _ (mem_map_of_mem (mem_filter.2 ⟨he, hopen⟩))
    have hle := (hinstalled.byId ▸ h.keyed.adopt _ : Keyed s'.byId).length_open_le hids
    rw [length_cons, length_map] at hle
    omega

theorem moved (h : Kept nowMs s) {c : Call} {r r' : Enrollment} (hget : s.byId[r.id]? = some r)
    (hmoves : Moves nowMs c r r') (hinstalled : s.Installed r' s') : Kept nowMs s' := by
  have hr : r ∈ records s.byId := mem_records.2 ⟨_, hget⟩
  refine {
    keyed := hinstalled.byId ▸ h.keyed.adopt _
    replay := h.replay_installed hinstalled
    hosts := ?_
    bounded := ?_ }
  · rw [hinstalled.byId]
    intro e he e' he' hnames hnames' hsame
    obtain rfl | ⟨hold, hid⟩ := h.keyed.mem_adopt he <;>
      obtain rfl | ⟨hold', hid'⟩ := h.keyed.mem_adopt he'
    · rfl
    · have hrecord := h.hosts r hr e' hold' (hmoves.names_of_names hnames) hnames'
        (hmoves.host_eq.symm.trans hsame)
      exact absurd (by rw [← hrecord, hmoves.id_eq]) hid'
    · have hrecord := h.hosts e hold r hr hnames (hmoves.names_of_names hnames')
        (hsame.trans hmoves.host_eq)
      exact absurd (by rw [hrecord, hmoves.id_eq]) hid
    · exact h.hosts e hold e' hold' hnames hnames' hsame
  · have hids : ∀ e ∈ records s'.byId, e.isOpen nowMs = true →
        e.id ∈ ((records s.byId).filter (·.isOpen nowMs)).map (·.id) := by
      rw [hinstalled.byId]
      intro e he hopen
      obtain rfl | ⟨he, -⟩ := h.keyed.mem_adopt he
      · rw [hmoves.id_eq]
        have hopen' : r ∈ (records s.byId).filter (·.isOpen nowMs) :=
          mem_filter.2 ⟨hr, hmoves.isOpen_of_isOpen hopen⟩
        exact mem_map_of_mem hopen'
      · exact mem_map_of_mem (mem_filter.2 ⟨he, hopen⟩)
    have hle := (hinstalled.byId ▸ h.keyed.adopt _ : Keyed s'.byId).length_open_le hids
    rw [length_map] at hle
    exact hle.trans h.bounded

/-- **What every call keeps of the records.** -/
theorem answer (h : Kept nowMs s) (c : Call) (commits : Bool) : Kept nowMs (s.answer c nowMs commits).2 := by
  have heffect := EnrollmentRegistry.answer_effect h.keyed c nowMs commits
  generalize s.answer c nowMs commits = reply at heffect ⊢
  cases heffect with
  | refused hsame => exact h.same hsame
  | peeked hsame => exact h.same hsame
  | issued hcount hhost _ hinstalled => exact h.issued hcount hhost hinstalled
  | moved hget hmoves hinstalled => exact h.moved hget hmoves hinstalled

theorem restart_eq (h : Kept nowMs s) : s.restart = ⟨s.byId, [], s.journal⟩ :=
  s.restart_eq_of_replay h.replay

end Kept

/-! ### What every call keeps of the tokens -/

/-- A registration that consumed a token, with the record it left. -/
structure Consumption where
  token : String
  registration : Registration
  nowMs : ℕ
  record : Enrollment

def consumption (nowMs : ℕ) : Call → Except EnrollError Enrollment → List Consumption
  | .register token registration, .ok record => [⟨token, registration, nowMs, record⟩]
  | _, _ => []

theorem consumption_error (nowMs : ℕ) (c : Call) (e : EnrollError) : consumption nowMs c (.error e) = [] := by
  cases c <;> rfl

/-- The digest that a call is given for a new token. -/
def Call.minted : Call → Option (List UInt8)
  | .issue new => some new.tokenDigest
  | _ => none

/-- What holds of the tokens, after the digests that were minted and the registrations. -/
structure Tokens (minted : List (List UInt8)) (used : List Consumption) (s : EnrollmentRegistry) : Prop where
  known : ∀ e ∈ records s.byId, e.tokenDigest ∈ minted
  distinct : ∀ e ∈ records s.byId, ∀ e' ∈ records s.byId, e.tokenDigest = e'.tokenDigest → e = e'
  usedKnown : ∀ c ∈ used, tokenDigest c.token ∈ minted
  once : (used.map fun c => tokenDigest c.token).Nodup
  early : ∀ c ∈ used, c.record.tokenDigest = tokenDigest c.token ∧ c.nowMs < c.record.expiresAtMs
  unused : ∀ e ∈ records s.byId, e.state = .issued →
    e.registration = none ∧ ∀ c ∈ used, tokenDigest c.token ≠ e.tokenDigest
  holds : ∀ e ∈ records s.byId, e.state = .registered ∨ e.state = .approved ∨ e.state = .revoked →
    ∃ c ∈ used, tokenDigest c.token = e.tokenDigest ∧ e.registration = some c.registration

namespace Tokens

variable {minted : List (List UInt8)} {used : List Consumption} {nowMs : ℕ} {s s' : EnrollmentRegistry}

theorem same (h : Tokens minted used s) (hsame : s'.byId = s.byId) (digest : Option (List UInt8)) :
    Tokens (minted ++ digest.toList) used s' := by
  refine {
    known := fun e he => mem_append_left _ (h.known e (hsame ▸ he))
    distinct := ?_
    usedKnown := fun c hc => mem_append_left _ (h.usedKnown c hc)
    once := h.once
    early := h.early
    unused := fun e he => h.unused e (hsame ▸ he)
    holds := fun e he => h.holds e (hsame ▸ he) }
  rw [hsame]
  exact h.distinct

theorem issued (h : Tokens minted used s) (hkeyed : Keyed s.byId) {new : NewEnrollment}
    (hfresh : new.tokenDigest ∉ minted) (hinstalled : s.Installed (new.record nowMs) s') :
    Tokens (minted ++ [new.tokenDigest]) used s' := by
  have hmem : ∀ e ∈ records s'.byId, e = new.record nowMs ∨ e ∈ records s.byId := by
    rw [hinstalled.byId]
    exact fun e he => (hkeyed.mem_adopt he).imp_right And.left
  refine {
    known := fun e he => ?_
    distinct := fun e he e' he' hsame => ?_
    usedKnown := fun c hc => mem_append_left _ (h.usedKnown c hc)
    once := h.once
    early := h.early
    unused := fun e he hissued => ?_
    holds := fun e he hstate => ?_ }
  · obtain rfl | he := hmem e he
    · exact mem_append_right _ mem_cons_self
    · exact mem_append_left _ (h.known e he)
  · obtain rfl | he := hmem e he <;> obtain rfl | he' := hmem e' he'
    · rfl
    · have hknown := h.known e' he'
      rw [← hsame] at hknown
      exact absurd hknown hfresh
    · have hknown := h.known e he
      rw [hsame] at hknown
      exact absurd hknown hfresh
    · exact h.distinct e he e' he' hsame
  · obtain rfl | he := hmem e he
    · refine ⟨rfl, fun c hc hsame => hfresh ?_⟩
      rw [← show tokenDigest c.token = new.tokenDigest from hsame]
      exact h.usedKnown c hc
    · exact h.unused e he hissued
  · obtain rfl | he := hmem e he
    · obtain hstate | hstate | hstate := hstate <;> cases hstate
    · exact h.holds e he hstate

/-- A record moves and keeps its digest; the registration that moves it, if any, is the only one. -/
theorem moved (h : Tokens minted used s) (hkeyed : Keyed s.byId) {c : Call} {r r' : Enrollment}
    (hget : s.byId[r.id]? = some r) (hmoves : Moves nowMs c r r') (hinstalled : s.Installed r' s') :
    Tokens minted (used ++ consumption nowMs c (.ok r')) s' := by
  have hr : r ∈ records s.byId := mem_records.2 ⟨_, hget⟩
  have hdigest := hmoves.tokenDigest_eq
  have hmem : ∀ e ∈ records s'.byId, e = r' ∨ e ∈ records s.byId ∧ e.tokenDigest ≠ r.tokenDigest := by
    rw [hinstalled.byId]
    intro e he
    obtain rfl | ⟨he, hid⟩ := hkeyed.mem_adopt he
    · exact .inl rfl
    · refine .inr ⟨he, fun hsame => hid ?_⟩
      rw [h.distinct e he r hr hsame, hmoves.id_eq]
  have hknown : ∀ e ∈ records s'.byId, e.tokenDigest ∈ minted := by
    intro e he
    obtain rfl | ⟨he, -⟩ := hmem e he
    · rw [hdigest]
      exact h.known r hr
    · exact h.known e he
  have hdistinct : ∀ e ∈ records s'.byId, ∀ e' ∈ records s'.byId, e.tokenDigest = e'.tokenDigest →
      e = e' := by
    intro e he e' he' hsame
    obtain rfl | ⟨he, hne⟩ := hmem e he <;> obtain rfl | ⟨he', hne'⟩ := hmem e' he'
    · rfl
    · exact absurd (hsame.symm.trans hdigest) hne'
    · exact absurd (hsame.trans hdigest) hne
    · exact h.distinct e he e' he' hsame
  cases hmoves with
  | @register _ token registration htoken hissued htime =>
    obtain ⟨-, hunused⟩ := h.unused r hr hissued
    refine {
      known := hknown
      distinct := hdistinct
      usedKnown := fun c hc => ?_
      once := ?_
      early := fun c hc => ?_
      unused := fun e he hstate => ?_
      holds := fun e he hstate => ?_ }
    · obtain hc | hc := mem_append.1 hc
      · exact h.usedKnown c hc
      · obtain rfl := mem_singleton.1 hc
        show tokenDigest token ∈ minted
        rw [← htoken]
        exact h.known r hr
    · rw [map_append, nodup_append']
      refine ⟨h.once, nodup_singleton _, ?_⟩
      intro d hd hd'
      obtain ⟨c, hc, rfl⟩ := mem_map.1 hd
      refine hunused c hc ?_
      rw [htoken]
      exact mem_singleton.1 hd'
    · obtain hc | hc := mem_append.1 hc
      · exact h.early c hc
      · obtain rfl := mem_singleton.1 hc
        exact ⟨htoken, htime⟩
    · obtain rfl | ⟨he, hne⟩ := hmem e he
      · cases hstate
      · obtain ⟨hnone, hothers⟩ := h.unused e he hstate
        refine ⟨hnone, fun c hc => ?_⟩
        obtain hc | hc := mem_append.1 hc
        · exact hothers c hc
        · obtain rfl := mem_singleton.1 hc
          exact fun hsame => hne (hsame.symm.trans htoken.symm)
    · obtain rfl | ⟨he, -⟩ := hmem e he
      · exact ⟨_, mem_append_right _ mem_cons_self, htoken.symm, rfl⟩
      · obtain ⟨c, hc, hsame⟩ := h.holds e he hstate
        exact ⟨c, mem_append_left _ hc, hsame⟩
  | approve hstate | reject hstate | revoke hstate =>
    show Tokens minted (used ++ []) s'
    rw [append_nil]
    refine {
      known := hknown
      distinct := hdistinct
      usedKnown := h.usedKnown
      once := h.once
      early := h.early
      unused := fun e he hissued => ?_
      holds := fun e he hheld => ?_ }
    · obtain rfl | ⟨he, -⟩ := hmem e he
      · cases hissued
      · exact h.unused e he hissued
    · obtain rfl | ⟨he, -⟩ := hmem e he
      · first
          | exact h.holds r hr (.inl hstate)
          | exact h.holds r hr (.inr (.inl hstate))
          | (obtain hheld | hheld | hheld := hheld <;> cases hheld)
      · exact h.holds e he hheld

/-- **What every call keeps of the tokens.** -/
theorem answer (h : Tokens minted used s) (hkeyed : Keyed s.byId) (c : Call) (nowMs : ℕ) (commits : Bool)
    (hfresh : ∀ digest ∈ c.minted, digest ∉ minted) :
    Tokens (minted ++ c.minted.toList) (used ++ consumption nowMs c (s.answer c nowMs commits).1)
      (s.answer c nowMs commits).2 := by
  have heffect := EnrollmentRegistry.answer_effect hkeyed c nowMs commits
  generalize s.answer c nowMs commits = reply at heffect ⊢
  cases heffect with
  | refused hsame =>
    rw [consumption_error, append_nil]
    exact h.same hsame.byId _
  | peeked hsame =>
    show Tokens _ (used ++ []) _
    rw [append_nil]
    exact h.same hsame.byId _
  | issued _ _ _ hinstalled =>
    show Tokens _ (used ++ []) _
    rw [append_nil]
    exact h.issued hkeyed (hfresh _ rfl) hinstalled
  | moved hget hmoves hinstalled =>
    have hnone : c.minted = none := by cases hmoves <;> rfl
    rw [hnone, Option.toList_none, append_nil]
    exact h.moved hkeyed hget hmoves hinstalled

end Tokens

/-! ### A record over a run -/

theorem Keyed.held_or_terminal {m : Enrollments} (h : Keyed m) {e r : Enrollment} (he : e ∈ records m)
    (hid : e.id ≠ r.id) : e ∈ records (Fleet.adopt m r) ∨ e.state.isTerminal = true := by
  cases hget : (Fleet.adopt m r)[e.id]? with
  | none =>
    obtain ⟨hsame, -⟩ | ⟨-, hterminal⟩ := h.adopt_eq_none hget
    · exact absurd hsame hid
    · exact .inr (hterminal e (h.mem_records_iff.1 he))
  | some e' =>
    obtain ⟨hsame, -⟩ | ⟨-, hbefore⟩ := adopt_eq_some hget
    · exact absurd hsame hid
    · rw [h.mem_records_iff.1 he] at hbefore
      cases hbefore
      exact .inl (mem_records.2 ⟨_, hget⟩)

theorem Keyed.installed_or_terminal {m : Enrollments} (h : Keyed m) (r : Enrollment) :
    r ∈ records (Fleet.adopt m r) ∨ r.state.isTerminal = true := by
  cases hget : (Fleet.adopt m r)[r.id]? with
  | none =>
    obtain ⟨-, hterminal⟩ | ⟨hne, -⟩ := h.adopt_eq_none hget
    · exact .inr hterminal
    · exact absurd rfl hne
  | some e =>
    obtain ⟨-, rfl⟩ | ⟨hne, -⟩ := adopt_eq_some hget
    · exact .inl (mem_records.2 ⟨_, hget⟩)
    · exact absurd rfl hne

/-- Some call at some time moves the record. -/
def Next (e e' : Enrollment) : Prop := ∃ c nowMs, Moves nowMs c e e'

theorem Next.eq_of_isTerminal {e e' : Enrollment} (h : Relation.ReflTransGen Next e e')
    (hterminal : e.state.isTerminal = true) : e' = e := by
  obtain rfl | ⟨_, ⟨_, _, hmoves⟩, -⟩ := h.cases_head
  · rfl
  · rw [hmoves.not_isTerminal] at hterminal
    cases hterminal

/-- What is held under the token of a record was moved there from it, and is held until it is terminal. -/
structure Follows (e : Enrollment) (s : EnrollmentRegistry) : Prop where
  reached : ∀ e' ∈ records s.byId, e'.tokenDigest = e.tokenDigest → Relation.ReflTransGen Next e e'
  held : (∃ e' ∈ records s.byId, e'.tokenDigest = e.tokenDigest) ∨
    ∃ e', Relation.ReflTransGen Next e e' ∧ e'.state.isTerminal = true

namespace Follows

variable {e : Enrollment} {nowMs : ℕ} {s s' : EnrollmentRegistry}

theorem same (h : Follows e s) (hsame : s'.byId = s.byId) : Follows e s' := by
  refine ⟨?_, ?_⟩ <;> rw [hsame]
  · exact h.reached
  · exact h.held

theorem issued (h : Follows e s) (hkeyed : Keyed s.byId) {new : NewEnrollment}
    (hfree : s.byId[new.id]? = none) (hne : new.tokenDigest ≠ e.tokenDigest)
    (hinstalled : s.Installed (new.record nowMs) s') : Follows e s' := by
  refine ⟨?_, ?_⟩ <;> rw [hinstalled.byId]
  · intro e' he' hsame
    obtain rfl | ⟨he', -⟩ := hkeyed.mem_adopt he'
    · exact absurd hsame hne
    · exact h.reached e' he' hsame
  · obtain ⟨e', he', hsame⟩ | hended := h.held
    · have hid : e'.id ≠ (new.record nowMs).id := by
        intro hid
        have hget := hkeyed.mem_records_iff.1 he'
        rw [hid, show (new.record nowMs).id = new.id from rfl, hfree] at hget
        cases hget
      obtain hstill | hterminal := hkeyed.held_or_terminal he' hid
      · exact .inl ⟨e', hstill, hsame⟩
      · exact .inr ⟨e', h.reached e' he' hsame, hterminal⟩
    · exact .inr hended

theorem moved (h : Follows e s) (hkeyed : Keyed s.byId) {c : Call} {r r' : Enrollment}
    (hget : s.byId[r.id]? = some r) (hmoves : Moves nowMs c r r') (hinstalled : s.Installed r' s') :
    Follows e s' := by
  have hr : r ∈ records s.byId := mem_records.2 ⟨_, hget⟩
  have hreached : r.tokenDigest = e.tokenDigest → Relation.ReflTransGen Next e r' :=
    fun hsame => (h.reached r hr hsame).tail ⟨c, nowMs, hmoves⟩
  refine ⟨?_, ?_⟩ <;> rw [hinstalled.byId]
  · intro e' he' hsame
    obtain rfl | ⟨he', -⟩ := hkeyed.mem_adopt he'
    · exact hreached (hmoves.tokenDigest_eq.symm.trans hsame)
    · exact h.reached e' he' hsame
  · obtain ⟨e', he', hsame⟩ | hended := h.held
    · by_cases hid : e'.id = r'.id
      · obtain rfl := hkeyed.eq_of_id_eq he' hr (hid.trans hmoves.id_eq)
        obtain hstill | hterminal := hkeyed.installed_or_terminal r'
        · exact .inl ⟨r', hstill, hmoves.tokenDigest_eq.trans hsame⟩
        · exact .inr ⟨r', hreached hsame, hterminal⟩
      · obtain hstill | hterminal := hkeyed.held_or_terminal he' hid
        · exact .inl ⟨e', hstill, hsame⟩
        · exact .inr ⟨e', h.reached e' he' hsame, hterminal⟩
    · exact .inr hended

theorem answer (h : Follows e s) (hkeyed : Keyed s.byId) (c : Call) (commits : Bool)
    (hfresh : ∀ digest ∈ c.minted, digest ≠ e.tokenDigest) : Follows e (s.answer c nowMs commits).2 := by
  have heffect := EnrollmentRegistry.answer_effect hkeyed c nowMs commits
  generalize s.answer c nowMs commits = reply at heffect ⊢
  cases heffect with
  | refused hsame => exact h.same hsame.byId
  | peeked hsame => exact h.same hsame.byId
  | issued _ _ hfree hinstalled => exact h.issued hkeyed hfree (hfresh _ rfl) hinstalled
  | moved hget hmoves hinstalled => exact h.moved hkeyed hget hmoves hinstalled

end Follows

/-! ### Runs -/

theorem exists_bound (times : List ℕ) : ∃ nowMs, ∀ t ∈ times, t ≤ nowMs :=
  ⟨times.sum, fun _ ht => List.single_le_sum (fun _ _ => Nat.zero_le _) _ ht⟩

/-- When a call is made. -/
def EnrollmentEvent.time : EnrollmentEvent → Option ℕ
  | .call _ nowMs _ => some nowMs
  | .restart => none

def EnrollmentEvent.minted : EnrollmentEvent → Option (List UInt8)
  | .call c _ _ => c.minted
  | .restart => none

namespace EnrollmentRegistry

def consumedBy (s : EnrollmentRegistry) : EnrollmentEvent → List Consumption
  | .call c nowMs commits => consumption nowMs c (s.answer c nowMs commits).1
  | .restart => []

/-- The registrations of a run. -/
def consumed : EnrollmentRegistry → List EnrollmentEvent → List Consumption
  | _, [] => []
  | s, event :: events => s.consumedBy event ++ consumed (s.step event) events

theorem consumed_snoc (s : EnrollmentRegistry) (events : List EnrollmentEvent) (event : EnrollmentEvent) :
    s.consumed (events ++ [event]) = s.consumed events ++ (run step s events).consumedBy event := by
  induction events generalizing s with
  | nil => exact append_nil _
  | cons first events ih =>
    show s.consumedBy first ++ (s.step first).consumed (events ++ [event]) =
      s.consumedBy first ++ (s.step first).consumed events ++ _
    rw [ih, append_assoc]
    rfl

/-- What holds after the events of a run. -/
structure Sound (events : List EnrollmentEvent) (s : EnrollmentRegistry) : Prop where
  kept : ∀ nowMs, (∀ t ∈ events.filterMap EnrollmentEvent.time, t ≤ nowMs) → Kept nowMs s
  tokens : Tokens (events.filterMap EnrollmentEvent.minted) (new.consumed events) s

/-- The times do not decrease, and no digest is minted twice. -/
structure Proper (events : List EnrollmentEvent) : Prop where
  sorted : (events.filterMap EnrollmentEvent.time).Pairwise (· ≤ ·)
  distinct : (events.filterMap EnrollmentEvent.minted).Nodup

theorem Proper.left {before after : List EnrollmentEvent} (h : Proper (before ++ after)) : Proper before := by
  obtain ⟨hsorted, hdistinct⟩ := h
  rw [filterMap_append] at hsorted hdistinct
  exact ⟨(pairwise_append.1 hsorted).1, hdistinct.of_append_left⟩

theorem Proper.time_le {events : List EnrollmentEvent} {c : Call} {nowMs : ℕ} {commits : Bool}
    (h : Proper (events ++ [EnrollmentEvent.call c nowMs commits])) : ∀ t ∈ events.filterMap EnrollmentEvent.time, t ≤ nowMs := by
  have hsorted := h.sorted
  rw [filterMap_append] at hsorted
  exact fun t ht => (pairwise_append.1 hsorted).2.2 t ht nowMs mem_cons_self

theorem Proper.fresh {events : List EnrollmentEvent} {c : Call} {nowMs : ℕ} {commits : Bool}
    (h : Proper (events ++ [EnrollmentEvent.call c nowMs commits])) :
    ∀ digest ∈ c.minted, digest ∉ events.filterMap EnrollmentEvent.minted := by
  intro digest hdigest hmem
  have hdistinct := h.distinct
  rw [filterMap_append] at hdistinct
  have hlast : digest ∈ [EnrollmentEvent.call c nowMs commits].filterMap EnrollmentEvent.minted :=
    mem_filterMap.2 ⟨_, mem_cons_self, hdigest⟩
  exact (nodup_append.1 hdistinct).2.2 digest hmem digest hlast rfl

theorem sound_new : Sound [] new where
  kept nowMs _ := {
    keyed := fun id e he => by
      rw [new, TreeMap.getElem?_emptyc] at he
      cases he
    replay := rfl
    hosts := fun e he => by cases he
    bounded := Nat.zero_le _ }
  tokens := {
    known := fun e he => by cases he
    distinct := fun e he => by cases he
    usedKnown := fun c hc => by cases hc
    once := nodup_nil
    early := fun c hc => by cases hc
    unused := fun e he => by cases he
    holds := fun e he => by cases he }

theorem Sound.step {events : List EnrollmentEvent} {s : EnrollmentRegistry} (h : Sound events s)
    (event : EnrollmentEvent)
    (hs : s = run step new events) (hproper : Proper (events ++ [event])) :
    Sound (events ++ [event]) (s.step event) := by
  have hconsumed := consumed_snoc new events event
  rw [← hs] at hconsumed
  cases event with
  | call c nowMs commits =>
    have hnow := h.kept nowMs hproper.time_le
    refine ⟨fun laterMs hlater => ?_, ?_⟩
    · refine (hnow.answer c commits).later (hlater nowMs ?_)
      exact mem_filterMap.2 ⟨_, mem_append_right _ mem_cons_self, rfl⟩
    · rw [hconsumed, filterMap_append]
      have htokens := h.tokens.answer hnow.keyed c nowMs commits hproper.fresh
      have hlast : [EnrollmentEvent.call c nowMs commits].filterMap EnrollmentEvent.minted = c.minted.toList := by
        cases hminted : c.minted <;> simp [EnrollmentEvent.minted, hminted]
      rw [hlast]
      exact htokens
  | restart =>
    obtain ⟨boundMs, hbound⟩ := exists_bound (events.filterMap EnrollmentEvent.time)
    have hrestart : s.restart = ⟨s.byId, [], s.journal⟩ := (h.kept boundMs hbound).restart_eq
    have htime : (events ++ [EnrollmentEvent.restart]).filterMap EnrollmentEvent.time =
        events.filterMap EnrollmentEvent.time := by
      rw [filterMap_append]
      exact append_nil _
    refine ⟨fun nowMs hnow => ?_, ?_⟩
    · rw [htime] at hnow
      show Kept nowMs s.restart
      rw [hrestart]
      exact (h.kept nowMs hnow).same ⟨rfl, rfl⟩
    · rw [hconsumed, filterMap_append]
      show Tokens (_ ++ (none : Option (List UInt8)).toList) (_ ++ []) s.restart
      have hsame : (⟨s.byId, [], s.journal⟩ : EnrollmentRegistry).byId = s.byId := rfl
      rw [append_nil, hrestart]
      exact h.tokens.same hsame none

/-- **What holds after every run.** -/
theorem sound_run (events : List EnrollmentEvent) (hproper : Proper events) : Sound events (run step new events) := by
  induction events using reverseRecOn with
  | nil => exact sound_new
  | append_singleton events event ih =>
    rw [run_snoc]
    exact (ih hproper.left).step event rfl hproper

theorem follows_run {before : List EnrollmentEvent} {e : Enrollment} (after : List EnrollmentEvent)
    (hproper : Proper (before ++ after)) (he : e ∈ records (run step new before).byId) :
    Follows e (run step new (before ++ after)) := by
  have hsound := sound_run before hproper.left
  induction after using reverseRecOn with
  | nil =>
    rw [append_nil]
    refine ⟨fun e' he' hsame => ?_, .inl ⟨e, he, rfl⟩⟩
    rw [hsound.tokens.distinct e' he' e he hsame]
  | append_singleton after event ih =>
    rw [← append_assoc] at hproper ⊢
    have hbefore := sound_run (before ++ after) hproper.left
    have hfollows := ih hproper.left
    rw [run_snoc]
    cases event with
    | call c nowMs commits =>
      refine hfollows.answer (hbefore.kept nowMs hproper.time_le).keyed c commits ?_
      intro digest hdigest hsame
      refine hproper.fresh digest hdigest ?_
      rw [filterMap_append, hsame]
      exact mem_append_left _ (hsound.tokens.known e he)
    | restart =>
      obtain ⟨boundMs, hbound⟩ := exists_bound ((before ++ after).filterMap EnrollmentEvent.time)
      refine hfollows.same ?_
      show (restart _).byId = _
      rw [(hbefore.kept boundMs hbound).restart_eq]

/-- **The lifecycle of an enrollment.**  After every run in which times do not decrease and no token's
digest is minted twice, whatever the journal refuses and however often it is read back: what is held
under a token was moved along from every record of it that was held before, and is dropped in the end
only; a terminal record is never changed; a token was consumed once at most, and in time; an approved
record has the registration that consumed its token; one record at most names a host, and the open ones
are bounded; what is refused changes no record; and the journal is the registry. -/
theorem lifecycle (events : List EnrollmentEvent) (hproper : Proper events) :
    (∀ before after, events = before ++ after → ∀ e ∈ records (run step new before).byId,
      (∀ e' ∈ records (run step new events).byId, e'.tokenDigest = e.tokenDigest →
        Relation.ReflTransGen Next e e' ∧ (e.state.isTerminal = true → e' = e)) ∧
      ((∃ e' ∈ records (run step new events).byId, e'.tokenDigest = e.tokenDigest) ∨
        ∃ e', Relation.ReflTransGen Next e e' ∧ e'.state.isTerminal = true)) ∧
    ((new.consumed events).map fun c => tokenDigest c.token).Nodup ∧
    (∀ c ∈ new.consumed events,
      c.record.tokenDigest = tokenDigest c.token ∧ c.nowMs < c.record.expiresAtMs) ∧
    (∀ e ∈ records (run step new events).byId, e.state = .approved → ∃ c ∈ new.consumed events,
      tokenDigest c.token = e.tokenDigest ∧ e.registration = some c.registration) ∧
    (∀ nowMs, (∀ t ∈ events.filterMap EnrollmentEvent.time, t ≤ nowMs) →
      (∀ e ∈ records (run step new events).byId, ∀ e' ∈ records (run step new events).byId,
        e.Names nowMs → e'.Names nowMs → e.host = e'.host → e = e') ∧
      ((records (run step new events).byId).filter (·.isOpen nowMs)).length ≤ maxOpenEnrollments) ∧
    (∀ c nowMs commits e, ((run step new events).answer c nowMs commits).1 = .error e →
      ((run step new events).answer c nowMs commits).2.byId = (run step new events).byId ∧
      ((run step new events).answer c nowMs commits).2.journal = (run step new events).journal) ∧
    (run step new events).restart.byId = (run step new events).byId ∧
      (run step new events).restart.journal = (run step new events).journal := by
  have hsound := sound_run events hproper
  obtain ⟨boundMs, hbound⟩ := exists_bound (events.filterMap EnrollmentEvent.time)
  have hkept := hsound.kept boundMs hbound
  refine ⟨?_, hsound.tokens.once, hsound.tokens.early, ?_, ?_, ?_, ?_, ?_⟩
  · rintro before after rfl e he
    have hfollows := follows_run after hproper he
    refine ⟨fun e' he' hsame => ?_, hfollows.held⟩
    have hreached := hfollows.reached e' he' hsame
    exact ⟨hreached, Next.eq_of_isTerminal hreached⟩
  · exact fun e he happroved => hsound.tokens.holds e he (.inr (.inl happroved))
  · exact fun nowMs hnow => ⟨(hsound.kept nowMs hnow).hosts, (hsound.kept nowMs hnow).bounded⟩
  · intro c nowMs commits e herror
    have heffect := answer_effect hkept.keyed c nowMs commits
    generalize (run step new events).answer c nowMs commits = reply at heffect herror ⊢
    cases heffect with
    | refused hsame => exact ⟨hsame.byId, hsame.journal⟩
    | peeked | issued | moved => cases herror
  · rw [hkept.restart_eq]
  · rw [hkept.restart_eq]

namespace Sample

def token : String := "00112233445566778899aabbccddeeff00112233445566778899aabbccddeeff"

def registration : Registration :=
  ⟨.v4 ⟨100, 64, 0, 2⟩, .aarch64, "spark", "hypellm", "/var/lib/hypellm", [], 137438953472, ⟨[]⟩, ⟨[]⟩, "1.0.0"⟩

/-- A host registers with its token and is approved; the router restarts, and the approval is revoked. -/
def events : List EnrollmentEvent :=
  [.call (.issue ⟨"0123456789abcdef", "spark", "spark-agent", tokenDigest token, "ada", 3600000⟩) 0 true,
    .call (.register token registration) 60000 true,
    .call (.approve "0123456789abcdef" "ada" "draft-1") 90000 true,
    .restart,
    .call (.revoke "0123456789abcdef" "ada") 120000 true]

theorem proper_events : Proper events := ⟨by decide, nodup_singleton _⟩

theorem consumed_once : Proper events ∧ (new.consumed events).map (fun c => c.token) = [token] ∧
    ((new.consumed events).map fun c => tokenDigest c.token).Nodup ∧
    ∀ c ∈ new.consumed events, c.record.tokenDigest = tokenDigest c.token ∧ c.nowMs < c.record.expiresAtMs := by
  obtain ⟨-, honce, hearly, -⟩ := lifecycle events proper_events
  exact ⟨proper_events, by decide +kernel, honce, hearly⟩

end Sample

end EnrollmentRegistry

end HypeLlm.Fleet
