import HypeLlm.Fleet.EnrollmentRuns
import HypeLlm.Lib.Sorting

/-!
# What the enrollment registry keeps

Terminal records past a number are dropped, oldest first, whenever a record is installed.  What is
counted is everything that is held; what may be dropped is what a decision made terminal.  An unused
token only reads as expired: its record stays.  And an agent whose approval was withdrawn has to hear of
it, from a record that is terminal.

* `Whole.answer`, `size_adopt_le` — how much is held, after every call;
* `everApprovedFor_adopt` — when an agent is still known after a record is installed;
* **`retention_iff`** — what is held is bounded by what is live exactly while few unused tokens are held,
  and an approved agent is known as long as every installation leaves room for one of its records;
* `Sample.unused_kept` — 258 unused tokens, one after another, are all held.
-/

namespace HypeLlm.Fleet

open HypeLlm.Maps HypeLlm.Runs List
open Std (TreeMap LawfulEqCmp)

/-! ### Counting -/

/-- The record is not terminal, as it is stored. -/
def Enrollment.isPending (e : Enrollment) : Bool := !e.state.isTerminal

/-- The record is open, or approved. -/
def Enrollment.isLive (nowMs : ℕ) (e : Enrollment) : Bool := e.isOpen nowMs || e.state = .approved

/-- The record is of a token that was not used in time. -/
def Enrollment.isUnused (nowMs : ℕ) (e : Enrollment) : Bool := e.state = .issued && e.expiresAtMs ≤ nowMs

/-- What terminal records are ordered by. -/
def Enrollment.age (e : Enrollment) : ℕ × String := (e.decidedAtMs.getD e.issuedAtMs, e.id)

def countRecords (p : Enrollment → Bool) (m : Enrollments) : ℕ := (records m).countP p

/-- Nothing that was issued is stored as expired, so a record that is not terminal is live, or it is of an
unused token. -/
theorem countRecords_isPending (m : Enrollments) (nowMs : ℕ) :
    countRecords Enrollment.isPending m =
      countRecords (·.isLive nowMs) m + countRecords (·.isUnused nowMs) m := by
  unfold countRecords
  induction records m with
  | nil => rfl
  | cons e l ih =>
    have hone : (if e.isPending then 1 else 0) =
        (if e.isLive nowMs then 1 else 0) + if e.isUnused nowMs then 1 else 0 := by
      by_cases htime : e.expiresAtMs ≤ nowMs
      all_goals
        cases hstate : e.state <;>
          simp [Enrollment.isPending, Enrollment.isLive, Enrollment.isUnused, Enrollment.isOpen,
            Enrollment.stateAt, EnrollmentState.isTerminal, hstate, htime]
    rw [countP_cons, countP_cons, countP_cons, ih, hone]
    omega

theorem length_records (m : Enrollments) : (records m).length = m.size := by
  rw [records, length_map, TreeMap.length_toList]

theorem Keyed.nodup_records {m : Enrollments} (h : Keyed m) : (records m).Nodup := h.nodup_ids.of_map _

/-- Registries that hold the same records of a kind hold as many. -/
theorem Keyed.countRecords_congr {m m' : Enrollments} (h : Keyed m) (h' : Keyed m') {p q : Enrollment → Bool}
    (hsame : ∀ e, e ∈ records m ∧ p e ↔ e ∈ records m' ∧ q e) : countRecords p m = countRecords q m' := by
  unfold countRecords
  rw [countP_eq_length_filter, countP_eq_length_filter]
  refine Perm.length_eq ((perm_ext_iff_of_nodup (h.nodup_records.filter _) (h'.nodup_records.filter _)).2 ?_)
  intro e
  rw [mem_filter, mem_filter]
  exact hsame e

/-! ### What is dropped -/

theorem Keyed.insert {m : Enrollments} (h : Keyed m) (r : Enrollment) : Keyed (m.insert r.id r) := by
  intro id e he
  rw [Maps.getElem?_insert] at he
  split at he
  · cases he
    exact (‹id = r.id›).symm
  · exact h id e he

/-- The terminal records that were not decided before a record. -/
def notOlder (m : Enrollments) (e : Enrollment) : ℕ :=
  countRecords (fun a => a.state.isTerminal && terminalLe e.age a.age) m

theorem terminalLe_iff {a b : ℕ × String} : terminalLe a b = true ↔ a.1 < b.1 ∨ a.1 = b.1 ∧ a.2 ≤ b.2 := by
  rw [terminalLe, decide_eq_true_iff]

theorem terminalLe_refl (a : ℕ × String) : terminalLe a a = true := terminalLe_iff.2 (.inr ⟨rfl, le_rfl⟩)

theorem terminalLe_trans (a b c : ℕ × String) (hab : terminalLe a b = true) (hbc : terminalLe b c = true) :
    terminalLe a c = true := by
  rw [terminalLe_iff] at *
  obtain hab | ⟨hab, hab'⟩ := hab <;> obtain hbc | ⟨hbc, hbc'⟩ := hbc
  · exact .inl (hab.trans hbc)
  · exact .inl (hbc ▸ hab)
  · exact .inl (hab ▸ hbc)
  · exact .inr ⟨hab.trans hbc, hab'.trans hbc'⟩

theorem terminalLe_total (a b : ℕ × String) : (terminalLe a b || terminalLe b a) = true := by
  rw [Bool.or_eq_true, terminalLe_iff, terminalLe_iff]
  obtain hlt | heq | hgt := Nat.lt_trichotomy a.1 b.1
  · exact .inl (.inl hlt)
  · exact (le_total a.2 b.2).imp (fun h => .inr ⟨heq, h⟩) fun h => .inr ⟨heq.symm, h⟩
  · exact .inr (.inl hgt)

theorem terminalLe_antisymm {a b : ℕ × String} (hab : terminalLe a b = true) (hba : terminalLe b a = true) :
    a = b := by
  rw [terminalLe_iff] at *
  obtain hab | ⟨hab, hab'⟩ := hab <;> obtain hba | ⟨hba, hba'⟩ := hba
  · exact absurd (hab.trans hba) (Nat.lt_irrefl _)
  · exact absurd hab (hba ▸ Nat.lt_irrefl _)
  · exact absurd hba (hab ▸ Nat.lt_irrefl _)
  · exact Prod.ext hab (hab'.antisymm hba')

/-- The terminal records' ages, oldest first. -/
def agesSorted (m : Enrollments) : List (ℕ × String) :=
  (((records m).filter (·.state.isTerminal)).map Enrollment.age).mergeSort terminalLe

theorem agesSorted_perm (m : Enrollments) :
    (agesSorted m).Perm (((records m).filter (·.state.isTerminal)).map Enrollment.age) := mergeSort_perm ..

theorem excess_eq (m : Enrollments) : excess m = (agesSorted m).take (m.size - maxRetainedEnrollments) := rfl

theorem Keyed.nodup_agesSorted {m : Enrollments} (h : Keyed m) :
    ((agesSorted m).map (·.2)).Nodup := by
  refine ((agesSorted_perm m).map (·.2)).nodup_iff.2 ?_
  rw [map_map]
  exact h.nodup_ids.sublist (filter_sublist.map _)

theorem Keyed.pairwise_agesSorted {m : Enrollments} (h : Keyed m) :
    (agesSorted m).Pairwise fun a b => terminalLe a b ∧ ¬ terminalLe b a := by
  have hsorted : (agesSorted m).Pairwise fun a b => terminalLe a b = true :=
    pairwise_mergeSort terminalLe_trans terminalLe_total _
  have hnodup : (agesSorted m).Nodup := h.nodup_agesSorted.of_map _
  refine (hsorted.and hnodup).imp fun ⟨hle, hne⟩ => ⟨hle, fun hge => hne (terminalLe_antisymm hle hge)⟩

/-- **Which records are dropped**: the terminal ones that more than the number kept are not older than, if
what may not be dropped is counted too. -/
theorem Keyed.mem_excess_iff {m : Enrollments} (h : Keyed m) {e : Enrollment} (he : e ∈ records m) :
    e.id ∈ (excess m).map (·.2) ↔ e.state.isTerminal = true ∧
      maxRetainedEnrollments < countRecords Enrollment.isPending m + notOlder m e := by
  rw [excess_eq]
  by_cases hterminal : e.state.isTerminal = true
  · have hage : e.age ∈ agesSorted m := by
      rw [(agesSorted_perm m).mem_iff]
      exact mem_map_of_mem (f := Enrollment.age) (mem_filter.2 ⟨he, hterminal⟩)
    have hmem : e.id ∈ ((agesSorted m).take (m.size - maxRetainedEnrollments)).map (·.2) ↔
        e.age ∈ (agesSorted m).take (m.size - maxRetainedEnrollments) := by
      refine ⟨fun hid => ?_, fun hid => mem_map.2 ⟨e.age, hid, rfl⟩⟩
      obtain ⟨old, hold, hsame⟩ := mem_map.1 hid
      obtain ⟨a, ha, rfl⟩ := mem_map.1 ((agesSorted_perm m).subset (mem_of_mem_take hold))
      obtain rfl := h.eq_of_id_eq (mem_filter.1 ha).1 he hsame
      exact hold
    have hcount : (agesSorted m).countP (fun y => !terminalLe e.age y) + notOlder m e +
        countRecords Enrollment.isPending m = m.size := by
      rw [(agesSorted_perm m).countP_eq, countP_map, countP_filter, ← length_records, notOlder]
      unfold countRecords
      induction records m with
      | nil => rfl
      | cons a l ih =>
        rw [countP_cons, countP_cons, countP_cons, length_cons, ← ih]
        cases ha : a.state.isTerminal <;> cases hle : terminalLe e.age a.age <;>
          simp [Enrollment.isPending, ha, hle] <;> omega
    rw [hmem, Sorting.mem_take_iff h.pairwise_agesSorted hage (terminalLe_refl _)]
    simp only [hterminal, true_and]
    omega
  · refine iff_of_false (fun hid => ?_) fun hid => hterminal hid.1
    obtain ⟨old, hold, hsame⟩ := mem_map.1 hid
    obtain ⟨a, ha, rfl⟩ := mem_map.1 ((agesSorted_perm m).subset (mem_of_mem_take hold))
    obtain rfl := h.eq_of_id_eq (mem_filter.1 ha).1 he hsame
    exact hterminal (mem_filter.1 ha).2

/-- What is held after a record is installed. -/
theorem Keyed.mem_adopt_iff {m : Enrollments} (h : Keyed m) {r e : Enrollment} :
    e ∈ records (Fleet.adopt m r) ↔ e ∈ records (m.insert r.id r) ∧ ¬ (e.state.isTerminal = true ∧
      maxRetainedEnrollments <
        countRecords Enrollment.isPending (m.insert r.id r) + notOlder (m.insert r.id r) e) := by
  have hM := h.insert r
  have hget : (Fleet.adopt m r)[e.id]? = if e.id ∈ (excess (m.insert r.id r)).map (·.2) then none
      else (m.insert r.id r)[e.id]? := by
    rw [Fleet.adopt, prune, getElem?_foldl_erase]
  rw [(h.adopt r).mem_records_iff, hget]
  constructor
  · intro hmem
    split at hmem
    · cases hmem
    · rename_i hnot
      have he := hM.mem_records_iff.2 hmem
      exact ⟨he, fun hdropped => hnot ((hM.mem_excess_iff he).2 hdropped)⟩
  · rintro ⟨he, hnot⟩
    rw [if_neg fun hdropped => hnot ((hM.mem_excess_iff he).1 hdropped)]
    exact hM.mem_records_iff.1 he

/-! ### How much is held -/

theorem size_foldl_erase {olds : List (ℕ × String)} (hnodup : (olds.map (·.2)).Nodup) {m : Enrollments}
    (hmem : ∀ old ∈ olds, old.2 ∈ m) :
    (olds.foldl (fun m old => m.erase old.2) m).size + olds.length = m.size := by
  induction olds generalizing m with
  | nil => rfl
  | cons old olds ih =>
    obtain ⟨hhead, htail⟩ := nodup_cons.1 hnodup
    have hlater : ∀ o ∈ olds, o.2 ∈ m.erase old.2 := by
      intro o ho
      rw [TreeMap.mem_erase]
      refine ⟨fun hsame => hhead ?_, hmem o (mem_cons_of_mem _ ho)⟩
      have hkey : old.2 = o.2 := LawfulEqCmp.eq_of_compare hsame
      exact mem_map.2 ⟨o, ho, hkey.symm⟩
    have hheld : m.contains old.2 = true := TreeMap.mem_iff_contains.1 (hmem old mem_cons_self)
    have hpos : m.size ≠ 0 := by
      have hempty := TreeMap.isEmpty_eq_false_of_contains hheld
      rwa [TreeMap.isEmpty_eq_size_eq_zero, beq_eq_false_iff_ne] at hempty
    have herase : (m.erase old.2).size + 1 = m.size := by
      rw [TreeMap.size_erase, if_pos hheld]
      omega
    rw [foldl_cons, length_cons, ← herase, ← ih htail hlater]
    omega

/-- Records of a kind that is not terminal are not dropped. -/
theorem Keyed.countRecords_adopt {m : Enrollments} (h : Keyed m) (r : Enrollment) {p : Enrollment → Bool}
    (hp : ∀ e, p e = true → e.isPending = true) :
    countRecords p (Fleet.adopt m r) = countRecords p (m.insert r.id r) := by
  refine (h.adopt r).countRecords_congr (h.insert r) fun e => ?_
  rw [h.mem_adopt_iff]
  refine ⟨fun he => ⟨he.1.1, he.2⟩, fun he => ⟨⟨he.1, fun hdropped => ?_⟩, he.2⟩⟩
  have hpending := hp e he.2
  rw [Enrollment.isPending, hdropped.1] at hpending
  cases hpending

/-- **How much is held** after a record is installed: no more than the number kept, or else nothing but
records that are not terminal. -/
theorem Keyed.size_adopt_le {m : Enrollments} (h : Keyed m) (r : Enrollment) :
    (Fleet.adopt m r).size ≤ max maxRetainedEnrollments (countRecords Enrollment.isPending (Fleet.adopt m r)) := by
  have hM := h.insert r
  rw [h.countRecords_adopt r fun _ => id]
  have hsize : (Fleet.adopt m r).size + (excess (m.insert r.id r)).length = (m.insert r.id r).size := by
    refine size_foldl_erase ?_ fun old hold => ?_
    · rw [excess_eq]
      exact hM.nodup_agesSorted.sublist ((take_sublist _ _).map _)
    · obtain ⟨e, he, hid⟩ := isTerminal_of_mem_excess (mem_map_of_mem hold)
      rw [← hid.2, TreeMap.mem_iff_isSome_getElem?, hM.mem_records_iff.1 he, Option.isSome_some]
  have hlength : (excess (m.insert r.id r)).length = min ((m.insert r.id r).size - maxRetainedEnrollments)
      ((records (m.insert r.id r)).countP (·.state.isTerminal)) := by
    rw [excess_eq, length_take, (agesSorted_perm _).length_eq, length_map, ← countP_eq_length_filter]
  have hsplit : countRecords Enrollment.isPending (m.insert r.id r) +
      (records (m.insert r.id r)).countP (·.state.isTerminal) = (m.insert r.id r).size := by
    have hlen := length_eq_countP_add_countP (·.state.isTerminal) (l := records (m.insert r.id r))
    have hpending : countRecords Enrollment.isPending (m.insert r.id r) =
        (records (m.insert r.id r)).countP fun a => decide ¬ a.state.isTerminal = true := by
      refine countP_congr fun e _ => ?_
      rw [Enrollment.isPending]
      cases e.state.isTerminal <;> simp
    rw [hpending, ← length_records, hlen, Nat.add_comm]
  generalize (Fleet.adopt m r).size = size at hsize ⊢
  generalize (excess (m.insert r.id r)).length = dropped at hsize hlength
  omega

/-! ### Every call, whenever it is made -/

/-- The records are keyed, no more is held than what is kept, and the journal is the registry. -/
structure Whole (s : EnrollmentRegistry) : Prop where
  keyed : Keyed s.byId
  replay : s.journal.foldl adopt ∅ = s.byId
  size_le : s.byId.size ≤ max maxRetainedEnrollments (countRecords Enrollment.isPending s.byId)

namespace Whole

variable {s s' : EnrollmentRegistry}

theorem same (h : Whole s) (hsame : s.SameRecords s') : Whole s' where
  keyed := hsame.byId ▸ h.keyed
  replay := by rw [hsame.journal, hsame.byId, h.replay]
  size_le := hsame.byId ▸ h.size_le

theorem installed (h : Whole s) {r : Enrollment} (hinstalled : s.Installed r s') : Whole s' where
  keyed := hinstalled.byId ▸ h.keyed.adopt r
  replay := by rw [hinstalled.journal, foldl_append, h.replay, hinstalled.byId, foldl_cons, foldl_nil]
  size_le := hinstalled.byId ▸ h.keyed.size_adopt_le r

theorem answer (h : Whole s) (c : Call) (nowMs : ℕ) (commits : Bool) : Whole (s.answer c nowMs commits).2 := by
  have heffect := EnrollmentRegistry.answer_effect h.keyed c nowMs commits
  generalize s.answer c nowMs commits = reply at heffect ⊢
  cases heffect with
  | refused hsame => exact h.same hsame
  | peeked hsame => exact h.same hsame
  | issued _ _ _ hinstalled => exact h.installed hinstalled
  | moved _ _ hinstalled => exact h.installed hinstalled

theorem step (h : Whole s) (event : EnrollmentEvent) : Whole (s.step event) := by
  cases event with
  | call c nowMs commits => exact h.answer c nowMs commits
  | restart =>
    show Whole s.restart
    rw [s.restart_eq_of_replay h.replay]
    exact h.same ⟨rfl, rfl⟩

theorem run_new (events : List EnrollmentEvent) :
    Whole (run EnrollmentRegistry.step EnrollmentRegistry.new events) := by
  refine run_invariant (P := Whole) (fun s event h => h.step event) ?_ events
  exact {
    keyed := fun id e he => by
      rw [EnrollmentRegistry.new, TreeMap.getElem?_emptyc] at he
      cases he
    replay := rfl
    size_le := Nat.zero_le _ }

end Whole

/-! ### Unused tokens -/

theorem Enrollment.isUnused_iff {e : Enrollment} {nowMs : ℕ} :
    e.isUnused nowMs = true ↔ e.state = .issued ∧ e.expiresAtMs ≤ nowMs := by
  rw [isUnused, Bool.and_eq_true, decide_eq_true_iff, decide_eq_true_iff]

theorem Enrollment.isPending_of_isUnused {e : Enrollment} {nowMs : ℕ} (h : e.isUnused nowMs = true) :
    e.isPending = true := by
  rw [isPending, (isUnused_iff.1 h).1]
  rfl

theorem Keyed.mem_insert_iff {m : Enrollments} (h : Keyed m) {r e : Enrollment} :
    e ∈ records (m.insert r.id r) ↔ e = r ∨ e ∈ records m ∧ e.id ≠ r.id := by
  rw [(h.insert r).mem_records_iff, h.mem_records_iff, Maps.getElem?_insert]
  by_cases hid : e.id = r.id
  · rw [if_pos hid]
    simp [hid, eq_comm]
  · have hne : e ≠ r := fun hsame => hid (hsame ▸ rfl)
    simp [hid, hne]

/-- A record under a new identifier is one more. -/
theorem Keyed.countRecords_insert {m : Enrollments} (h : Keyed m) {r : Enrollment} (hfree : m[r.id]? = none)
    (p : Enrollment → Bool) :
    countRecords p (m.insert r.id r) = countRecords p m + if p r then 1 else 0 := by
  have hnew : ∀ e ∈ records m, e.id ≠ r.id := by
    intro e he hid
    rw [h.mem_records_iff, hid, hfree] at he
    cases he
  have hperm : (records (m.insert r.id r)).Perm (r :: records m) := by
    refine (perm_ext_iff_of_nodup (h.insert r).nodup_records ?_).2 fun e => ?_
    · exact nodup_cons.2 ⟨fun hr => hnew r hr rfl, h.nodup_records⟩
    · rw [h.mem_insert_iff, mem_cons]
      exact or_congr_right (and_iff_left_of_imp (hnew e))
  rw [countRecords, hperm.countP_eq, countP_cons]
  rfl

/-- Neither side of a move is of an unused token. -/
theorem Moves.not_isUnused {nowMs : ℕ} {c : Call} {e e' : Enrollment} (h : Moves nowMs c e e') :
    ¬ e.isUnused nowMs = true ∧ ¬ e'.isUnused nowMs = true := by
  rw [Enrollment.isUnused_iff, Enrollment.isUnused_iff]
  cases h with
  | register _ _ htime => exact ⟨fun hu => absurd hu.2 (Nat.not_le.2 htime), fun hu => by cases hu.1⟩
  | approve hstate | revoke hstate => exact ⟨fun hu => by simp [hstate] at hu, fun hu => by cases hu.1⟩
  | reject hstate =>
    refine ⟨fun hu => ?_, fun hu => by cases hu.1⟩
    obtain ⟨-, htime⟩ | hstate := hstate
    · exact absurd hu.2 (Nat.not_le.2 htime)
    · simp [hstate] at hu

/-- A token that is issued when the clock has no later time is of no use. -/
def Call.bornUnused (nowMs : ℕ) : Call → ℕ
  | .issue _ => if Words.u64Max ≤ nowMs then 1 else 0
  | _ => 0

theorem NewEnrollment.isUnused_record (new : NewEnrollment) (nowMs : ℕ) :
    (if (new.record nowMs).isUnused nowMs then 1 else 0) = Call.bornUnused nowMs (.issue new) := by
  have hiff : (new.record nowMs).isUnused nowMs = true ↔ Words.u64Max ≤ nowMs := by
    rw [Enrollment.isUnused_iff]
    show EnrollmentState.issued = .issued ∧
      Words.satAdd Words.u64Max nowMs (max minTtlMs (min new.ttlMs maxTtlMs)) ≤ nowMs ↔ _
    have hlate : nowMs < nowMs + max minTtlMs (min new.ttlMs maxTtlMs) :=
      Nat.lt_add_of_pos_right (Nat.lt_of_lt_of_le (by decide) (Nat.le_max_left minTtlMs _))
    rw [Words.satAdd, min_le_iff, and_iff_right rfl]
    exact or_iff_right (Nat.not_le.2 hlate)
  rw [Call.bornUnused]
  by_cases h : Words.u64Max ≤ nowMs
  · rw [if_pos (hiff.2 h), if_pos h]
  · rw [if_neg fun hu => h (hiff.1 hu), if_neg h]

namespace Whole

variable {s : EnrollmentRegistry}

/-- What an accepted call does to the number of unused tokens. -/
theorem countRecords_isUnused (h : Whole s) {c : Call} {nowMs : ℕ} {commits : Bool} {r : Enrollment}
    (hok : (s.answer c nowMs commits).1 = .ok r) :
    countRecords (·.isUnused nowMs) (s.answer c nowMs commits).2.byId =
      countRecords (·.isUnused nowMs) s.byId + c.bornUnused nowMs := by
  have heffect := EnrollmentRegistry.answer_effect h.keyed c nowMs commits
  generalize s.answer c nowMs commits = reply at heffect hok ⊢
  cases heffect with
  | refused => cases hok
  | peeked hsame =>
    rw [hsame.byId]
    rfl
  | @issued new s' _ _ hfree hinstalled =>
    rw [hinstalled.byId, h.keyed.countRecords_adopt _ fun _ => Enrollment.isPending_of_isUnused,
      h.keyed.countRecords_insert hfree, NewEnrollment.isUnused_record]
  | @moved c old new s' hget hmoves hinstalled =>
    have hborn : c.bornUnused nowMs = 0 := by cases hmoves <;> rfl
    rw [hinstalled.byId, h.keyed.countRecords_adopt _ fun _ => Enrollment.isPending_of_isUnused, hborn,
      Nat.add_zero]
    refine (h.keyed.insert new).countRecords_congr h.keyed fun e => ?_
    obtain ⟨hold, hnew⟩ := hmoves.not_isUnused
    rw [h.keyed.mem_insert_iff]
    constructor
    · rintro ⟨rfl | ⟨he, -⟩, hunused⟩
      · exact absurd hunused hnew
      · exact ⟨he, hunused⟩
    · rintro ⟨he, hunused⟩
      refine ⟨.inr ⟨he, fun hid => hold ?_⟩, hunused⟩
      obtain rfl := h.keyed.eq_of_id_eq he (h.keyed.mem_records_iff.2 hget) (hid.trans hmoves.id_eq)
      exact hunused

/-- **What is held is bounded by what is live**, exactly while few unused tokens are held. -/
theorem size_le_iff (h : Whole s) (nowMs : ℕ) :
    s.byId.size ≤ maxRetainedEnrollments + countRecords (·.isLive nowMs) s.byId ↔
      countRecords (·.isUnused nowMs) s.byId ≤ maxRetainedEnrollments := by
  have hsize := h.size_le
  have hsplit := countRecords_isPending s.byId nowMs
  have hpending : countRecords Enrollment.isPending s.byId ≤ s.byId.size := by
    rw [← length_records]
    exact countP_le_length
  generalize countRecords Enrollment.isPending s.byId = pending at *
  omega

end Whole

/-! ### Agents that were approved -/

/-- Whether any enrollment of the agent was ever approved, including one since revoked. -/
def EnrollmentRegistry.everApprovedFor (s : EnrollmentRegistry) (agent : AgentId) : Bool :=
  (records s.byId).any fun e => e.agent = agent && (e.state = .approved || e.state = .revoked)

/-- Among the records, the agent has one that is approved, or one that is revoked and with which what may
not be dropped and what was not decided before it are no more than the number kept. -/
def HasRoom (agent : AgentId) (m : Enrollments) : Prop :=
  ∃ e ∈ records m, e.agent = agent ∧ (e.state = .approved ∨
    e.state = .revoked ∧ countRecords Enrollment.isPending m + notOlder m e ≤ maxRetainedEnrollments)

theorem EnrollmentRegistry.everApprovedFor_iff {s : EnrollmentRegistry} {agent : AgentId} :
    s.everApprovedFor agent = true ↔
      ∃ e ∈ records s.byId, e.agent = agent ∧ (e.state = .approved ∨ e.state = .revoked) := by
  simp [everApprovedFor]

/-- **When an agent is still known** after a record is installed. -/
theorem Keyed.everApprovedFor_adopt {m : Enrollments} (h : Keyed m) {r : Enrollment} {agent : AgentId}
    {s : EnrollmentRegistry} (hs : s.byId = Fleet.adopt m r) :
    s.everApprovedFor agent = true ↔ HasRoom agent (m.insert r.id r) := by
  rw [EnrollmentRegistry.everApprovedFor_iff, hs]
  refine exists_congr fun e => ?_
  rw [h.mem_adopt_iff, and_assoc]
  refine and_congr_right fun _ => ?_
  constructor
  · rintro ⟨hkept, hagent, happroved | hrevoked⟩
    · exact ⟨hagent, .inl happroved⟩
    · refine ⟨hagent, .inr ⟨hrevoked, Nat.le_of_not_lt fun hlt => hkept ⟨?_, hlt⟩⟩⟩
      rw [hrevoked]
      rfl
  · rintro ⟨hagent, happroved | ⟨hrevoked, hroom⟩⟩
    · refine ⟨fun hdropped => ?_, hagent, .inl happroved⟩
      rw [happroved] at hdropped
      cases hdropped.1
    · exact ⟨fun hdropped => absurd hdropped.2 (Nat.not_lt.2 hroom), hagent, .inr hrevoked⟩

/-- The call writes a record where it succeeds. -/
def Call.writes : Call → Bool
  | .redeemPeek _ => false
  | _ => true

/-- With the record in place that the call writes, the agent has room. -/
def KeepsRoom (agent : AgentId) (s : EnrollmentRegistry) : EnrollmentEvent → Prop
  | .call c nowMs commits => c.writes = true →
    ∀ r, (s.answer c nowMs commits).1 = .ok r → HasRoom agent (s.byId.insert r.id r)
  | .restart => True

theorem Whole.everApprovedFor_step {s : EnrollmentRegistry} (h : Whole s) {agent : AgentId}
    (hknown : s.everApprovedFor agent = true) (event : EnrollmentEvent) :
    (s.step event).everApprovedFor agent = true ↔ KeepsRoom agent s event := by
  have hsame : ∀ s' : EnrollmentRegistry, s'.byId = s.byId → s'.everApprovedFor agent = true := by
    intro s' hbyId
    rwa [EnrollmentRegistry.everApprovedFor, hbyId]
  cases event with
  | restart =>
    refine iff_of_true (hsame _ ?_) trivial
    show s.restart.byId = _
    rw [s.restart_eq_of_replay h.replay]
  | call c nowMs commits =>
    have heffect := EnrollmentRegistry.answer_effect h.keyed c nowMs commits
    rw [KeepsRoom, EnrollmentRegistry.step]
    generalize s.answer c nowMs commits = reply at heffect ⊢
    cases heffect with
    | refused hrecords => exact iff_of_true (hsame _ hrecords.byId) fun _ r hr => by cases hr
    | peeked hrecords => exact iff_of_true (hsame _ hrecords.byId) fun hw => by cases hw
    | issued _ _ _ hinstalled =>
      rw [h.keyed.everApprovedFor_adopt hinstalled.byId]
      refine ⟨fun hroom _ r hr => ?_, fun hroom => hroom rfl _ rfl⟩
      cases hr
      exact hroom
    | moved _ hmoves hinstalled =>
      rw [h.keyed.everApprovedFor_adopt hinstalled.byId]
      have hwrites : c.writes = true := by cases hmoves <;> rfl
      refine ⟨fun hroom _ r hr => ?_, fun hroom => hroom hwrites _ rfl⟩
      cases hr
      exact hroom

/-- An approval leaves the agent known. -/
theorem Whole.everApprovedFor_approve {s : EnrollmentRegistry} (h : Whole s) {id actor draft : String}
    {nowMs : ℕ} {commits : Bool} {r : Enrollment}
    (hok : (s.answer (.approve id actor draft) nowMs commits).1 = .ok r) :
    (s.answer (.approve id actor draft) nowMs commits).2.everApprovedFor r.agent = true := by
  have heffect := EnrollmentRegistry.answer_effect h.keyed (.approve id actor draft) nowMs commits
  generalize s.answer (.approve id actor draft) nowMs commits = reply at heffect hok ⊢
  cases heffect with
  | refused => cases hok
  | moved _ hmoves hinstalled =>
    cases hok
    have hstate : r.state = .approved := by cases hmoves; rfl
    rw [h.keyed.everApprovedFor_adopt hinstalled.byId]
    exact ⟨r, h.keyed.mem_insert_iff.2 (.inl rfl), rfl, .inl hstate⟩

namespace EnrollmentRegistry

/-- **What is kept.**  After every run, for every call that is accepted: what is held is at most what is
kept and what is open or approved, if and only if the records of tokens that were not used in time are no
more than what is kept.  And after an approval, the agent is known all through the rest of the run if and
only if every record that is written leaves it room. -/
theorem retention_iff (before : List EnrollmentEvent) (c : Call) (nowMs : ℕ) (commits : Bool) (r : Enrollment)
    (hok : ((run step new before).answer c nowMs commits).1 = .ok r) :
    let s := run step new before
    let s' := run step new (before ++ [EnrollmentEvent.call c nowMs commits])
    (s'.byId.size ≤ maxRetainedEnrollments + countRecords (·.isLive nowMs) s'.byId ↔
      countRecords (·.isUnused nowMs) s.byId + c.bornUnused nowMs ≤ maxRetainedEnrollments) ∧
    ∀ id actor draft, c = .approve id actor draft → ∀ after,
      (∀ mid, mid <+: after → (run step s' mid).everApprovedFor r.agent = true) ↔
        StepsMeet step (KeepsRoom r.agent) s' after := by
  intro s s'
  have hwhole : Whole s := Whole.run_new before
  have hwhole' : Whole s' := Whole.run_new _
  have hstep : s' = (s.answer c nowMs commits).2 := run_snoc step new before (.call c nowMs commits)
  refine ⟨?_, ?_⟩
  · rw [hwhole'.size_le_iff nowMs, hstep, hwhole.countRecords_isUnused hok]
  · rintro id actor draft rfl after
    have hknown : s'.everApprovedFor r.agent = true := by
      rw [hstep]
      exact hwhole.everApprovedFor_approve hok
    exact stepsMeet_iff_prefixes (P := fun s => everApprovedFor s r.agent = true)
      (fun _ event h => Whole.step h event) (fun _ event h hk => h.everApprovedFor_step hk event)
      hwhole' hknown after

namespace Sample

def approved : Enrollment where
  id := "0123456789abcdef"
  host := "spark"
  agent := "spark-agent"
  tokenDigest := tokenDigest token
  issuedBy := "ada"
  issuedAtMs := 0
  expiresAtMs := 3600000
  state := .approved
  registration := some registration
  registeredAtMs := some 60000
  decidedBy := some "ada"
  decidedAtMs := some 90000
  draft := some "draft-1"

theorem token_wellFormed : tokenWellFormed token = true := by
  obtain ⟨text, htext, hlength, hhex⟩ : ∃ text, token = String.ofList text ∧
      (Utf8.encode text).length = 64 ∧
      (Utf8.encode text).all (fun b => (48 ≤ b ∧ b ≤ 57) ∨ (97 ≤ b ∧ b ≤ 102)) = true :=
    ⟨_, rfl, by decide +kernel, by decide +kernel⟩
  rw [tokenWellFormed, htext, String.toList_ofList]
  exact decide_eq_true ⟨hlength, fun b hb => of_decide_eq_true (all_eq_true.1 hhex b hb)⟩

theorem tokenDigest_token : tokenDigest token =
    [173, 202, 4, 49, 134, 169, 235, 90, 80, 176, 105, 214, 188, 58, 7, 193, 163, 165, 124, 248, 181, 4,
      202, 172, 58, 87, 107, 236, 65, 17, 158, 149] := by
  have htoken : token.toList = _ := String.toList_ofList
  rw [tokenDigest, htoken]
  decide +kernel

/-- The approval is followed by a restart and a revocation, and the agent is known throughout as long as
these leave it room. -/
theorem approved_known :
    let s' := run step new (events.take 2 ++ [EnrollmentEvent.call (.approve "0123456789abcdef" "ada" "draft-1") 90000 true])
    (∀ mid, mid <+: events.drop 3 → (run step s' mid).everApprovedFor "spark-agent" = true) ↔
      StepsMeet step (KeepsRoom "spark-agent") s' (events.drop 3) := by
  have hok : ((run step new (events.take 2)).answer
      (.approve "0123456789abcdef" "ada" "draft-1") 90000 true).1 = .ok approved := by
    have hevents : events.take 2 =
        [.call (.issue ⟨"0123456789abcdef", "spark", "spark-agent", tokenDigest token, "ada", 3600000⟩) 0 true,
          .call (.register token registration) 60000 true] :=
      rfl
    rw [hevents, run_cons, run_cons, run_nil, step, step, answer, answer, register, findIssued, approved,
      tokenDigest_token, token_wellFormed]
    decide +kernel
  exact (retention_iff (events.take 2) _ 90000 true approved hok).2 _ _ _ rfl (events.drop 3)

/-! ### Unused tokens, one after another -/

/-- The lowest sixteen bits of a number, as digits. -/
def digits (i : ℕ) : List Char := (List.range 16).map fun j => if i.testBit j then '1' else '0'

/-- The next token for the host, for as short a time as there is. -/
def another (i : ℕ) : NewEnrollment :=
  ⟨String.ofList (digits i), "spark", "spark-agent",
    tokenDigest (String.ofList (digits i ++ digits i ++ digits i ++ digits i)), "ada", minTtlMs⟩

/-- A token is issued each time that the last one has expired. -/
def oneAfterAnother (n : ℕ) : List EnrollmentEvent :=
  (List.range n).map fun i => .call (.issue (another i)) (i * minTtlMs) true

theorem digits_injective {i j : ℕ} (hi : i < 2 ^ 16) (hj : j < 2 ^ 16) (h : digits i = digits j) : i = j := by
  refine Nat.eq_of_testBit_eq fun k => ?_
  by_cases hk : k < 16
  · have hbit := map_inj_left.1 h k (List.mem_range.2 hk)
    cases hik : i.testBit k <;> cases hjk : j.testBit k <;> simp [hik, hjk] at hbit ⊢
  · have hpow : 2 ^ 16 ≤ 2 ^ k := Nat.pow_le_pow_right (by decide) (Nat.le_of_not_lt hk)
    rw [Nat.testBit_lt_two_pow (hi.trans_le hpow), Nat.testBit_lt_two_pow (hj.trans_le hpow)]

theorem another_id_injective {i j : ℕ} (hi : i < 2 ^ 16) (hj : j < 2 ^ 16) (h : (another i).id = (another j).id) :
    i = j := digits_injective hi hj (String.ofList_inj.1 h)

theorem oneAfterAnother_succ (n : ℕ) : oneAfterAnother (n + 1) =
    oneAfterAnother n ++ [EnrollmentEvent.call (.issue (another n)) (n * minTtlMs) true] := by
  rw [oneAfterAnother, List.range_succ, map_append]
  rfl

theorem another_expiresAtMs {i : ℕ} (hi : i < 2 ^ 16) :
    ((another i).record (i * minTtlMs)).expiresAtMs = (i + 1) * minTtlMs := by
  show Words.satAdd Words.u64Max (i * minTtlMs) (max minTtlMs (min minTtlMs maxTtlMs)) = _
  have hmax : max minTtlMs (min minTtlMs maxTtlMs) = minTtlMs := by decide
  have hmin : minTtlMs = 60000 := rfl
  have htop : Words.u64Max = 18446744073709551615 := by decide
  rw [hmax, Words.satAdd_eq (by rw [hmin, htop]; omega), Nat.add_mul, Nat.one_mul]

/-- What is held after some tokens: every one of them, as it was issued. -/
structure HoldsAll (n : ℕ) (s : EnrollmentRegistry) : Prop where
  mem_iff : ∀ e, e ∈ records s.byId ↔ ∃ i < n, e = (another i).record (i * minTtlMs)
  pending : countRecords Enrollment.isPending s.byId = n

theorem HoldsAll.answer {n : ℕ} {s : EnrollmentRegistry} (h : HoldsAll n s) (hs : Whole s) (hn : n < 2 ^ 16) :
    ∃ s', s.answer (.issue (another n)) (n * minTtlMs) true = (.ok ((another n).record (n * minTtlMs)), s') ∧
      HoldsAll (n + 1) s' := by
  have hunnamed : ∀ e ∈ records s.byId, e.isOpen (n * minTtlMs) = false ∧ e.state = .issued := by
    intro e he
    obtain ⟨i, hi, rfl⟩ := (h.mem_iff e).1 he
    refine ⟨?_, rfl⟩
    rw [← Bool.not_eq_true, Enrollment.isOpen_iff, another_expiresAtMs (hi.trans hn)]
    rintro (⟨-, htime⟩ | hstate)
    · exact absurd htime (Nat.not_lt.2 (Nat.mul_le_mul_right _ hi))
    · cases hstate
  have hopen : (records s.byId).filter (·.isOpen (n * minTtlMs)) = [] :=
    filter_eq_nil_iff.2 fun e he => by simp [(hunnamed e he).1]
  have hhost : (records s.byId).any (fun e => decide (e.host = (another n).host ∧
      (e.isOpen (n * minTtlMs) = true ∨ e.state = .approved))) = false := by
    rw [any_eq_false]
    intro e he
    obtain ⟨hclosed, hstate⟩ := hunnamed e he
    simp [hclosed, hstate]
  have hfree : s.byId[(another n).id]? = none := by
    cases hget : s.byId[(another n).id]? with
    | none => rfl
    | some e =>
      obtain ⟨i, hi, rfl⟩ := (h.mem_iff e).1 (mem_records.2 ⟨_, hget⟩)
      have hid := hs.keyed _ _ hget
      exact absurd (another_id_injective (hi.trans hn) hn hid) hi.ne
  have hnot : s.byId.contains (another n).id = false := by
    rw [TreeMap.contains_eq_isSome_getElem?, hfree]
    rfl
  have hissue : s.answer (.issue (another n)) (n * minTtlMs) true =
      s.commitLocked true ((another n).record (n * minTtlMs)) := by
    show s.issue (another n) (n * minTtlMs) true = _
    rw [issue, hopen, if_neg (by decide), hhost, if_neg (by decide), hnot, if_neg (by decide)]
    rfl
  have hlive : ∀ e ∈ records (s.byId.insert (another n).id ((another n).record (n * minTtlMs))),
      e.state.isTerminal = false := by
    intro e he
    obtain rfl | ⟨he, -⟩ := hs.keyed.mem_insert_iff (r := (another n).record (n * minTtlMs)).1 he
    · rfl
    · rw [(hunnamed e he).2]
      rfl
  generalize hr : (another n).record (n * minTtlMs) = r at *
  have hid : r.id = (another n).id := hr ▸ rfl
  rw [← hid] at hfree hlive
  refine ⟨{ s with byId := adopt s.byId r, journal := s.journal ++ [r] }, hissue.trans (if_pos rfl), ?_, ?_⟩
  · intro e
    dsimp only
    rw [hs.keyed.mem_adopt_iff]
    constructor
    · rintro ⟨he, -⟩
      obtain rfl | ⟨he, -⟩ := hs.keyed.mem_insert_iff.1 he
      · exact ⟨n, Nat.lt_succ_self n, hr.symm⟩
      · obtain ⟨i, hi, rfl⟩ := (h.mem_iff e).1 he
        exact ⟨i, hi.trans (Nat.lt_succ_self n), rfl⟩
    · rintro ⟨i, hi, he⟩
      have hmem : e ∈ records (s.byId.insert r.id r) := by
        rw [hs.keyed.mem_insert_iff]
        obtain hlt | rfl := Nat.lt_succ_iff_lt_or_eq.1 hi
        · refine .inr ⟨(h.mem_iff e).2 ⟨i, hlt, he⟩, fun hsame => ?_⟩
          rw [he, hid] at hsame
          exact absurd (another_id_injective (hlt.trans hn) hn hsame) hlt.ne
        · exact .inl (he.trans hr)
      refine ⟨hmem, fun hdropped => ?_⟩
      rw [hlive e hmem] at hdropped
      cases hdropped.1
  · dsimp only
    rw [hs.keyed.countRecords_adopt _ fun _ => id, hs.keyed.countRecords_insert hfree, h.pending, ← hr]
    rfl

theorem holdsAll_run {n : ℕ} (hn : n ≤ 2 ^ 16) : HoldsAll n (run step new (oneAfterAnother n)) := by
  induction n with
  | zero =>
    refine ⟨fun e => ?_, rfl⟩
    refine iff_of_false (fun he => ?_) fun ⟨_, hi, _⟩ => Nat.not_lt_zero _ hi
    cases he
  | succ n ih =>
    obtain ⟨s', hanswer, hall⟩ := (ih (Nat.le_of_succ_le hn)).answer (Whole.run_new _) hn
    rw [oneAfterAnother_succ, run_snoc]
    show HoldsAll (n + 1) (answer _ _ _ _).2
    rw [hanswer]
    exact hall

theorem oneAfterAnother_sorted (n : ℕ) :
    ((oneAfterAnother n).filterMap EnrollmentEvent.time).Pairwise (· ≤ ·) := by
  have htimes : (oneAfterAnother n).filterMap EnrollmentEvent.time = (List.range n).map (· * minTtlMs) := by
    rw [oneAfterAnother, filterMap_map]
    exact congrFun (filterMap_eq_map (f := (· * minTtlMs))) (List.range n)
  rw [htimes, pairwise_map]
  exact pairwise_lt_range.imp fun hlt => Nat.mul_le_mul_right _ hlt.le

/-- One token after another is issued for a host, and none is used.  When the last of them is issued, it
is the only one that is live, and all the 258 are held. -/
theorem unused_kept :
    ((oneAfterAnother 258).filterMap EnrollmentEvent.time).Pairwise (· ≤ ·) ∧
    ((run step new (oneAfterAnother 257)).answer (.issue (another 257)) (257 * minTtlMs) true).1 =
      .ok ((another 257).record (257 * minTtlMs)) ∧
    ¬ (run step new (oneAfterAnother 258)).byId.size ≤ maxRetainedEnrollments +
      countRecords (·.isLive (257 * minTtlMs)) (run step new (oneAfterAnother 258)).byId := by
  have hall := holdsAll_run (n := 258) (by decide)
  have hwhole : Whole (run step new (oneAfterAnother 258)) := Whole.run_new _
  refine ⟨oneAfterAnother_sorted 258, ?_, ?_⟩
  · obtain ⟨s', hanswer, -⟩ := (holdsAll_run (n := 257) (by decide)).answer (Whole.run_new _) (by decide)
    rw [hanswer]
  · rw [hwhole.size_le_iff]
    intro hunused
    have hsplit := countRecords_isPending (run step new (oneAfterAnother 258)).byId (257 * minTtlMs)
    rw [hall.pending] at hsplit
    have hlive : countRecords (·.isLive (257 * minTtlMs)) (run step new (oneAfterAnother 258)).byId ≤ 1 := by
      rw [countRecords, countP_eq_length_filter]
      have hlast : (records (run step new (oneAfterAnother 258)).byId).filter (·.isLive (257 * minTtlMs)) ⊆
          [(another 257).record (257 * minTtlMs)] := ?_
      · exact ((hwhole.keyed.nodup_records.filter _).subperm hlast).length_le
      intro e he
      obtain ⟨hmem, hlive⟩ := mem_filter.1 he
      obtain ⟨i, hi, rfl⟩ := (hall.mem_iff e).1 hmem
      have hopen : ((another i).record (i * minTtlMs)).isOpen (257 * minTtlMs) = true := by
        simpa [Enrollment.isLive, NewEnrollment.record] using hlive
      obtain ⟨-, htime⟩ | hstate := Enrollment.isOpen_iff.1 hopen
      · rw [another_expiresAtMs (hi.trans (by decide))] at htime
        have hlast : 257 < i + 1 := Nat.lt_of_mul_lt_mul_right htime
        obtain rfl : i = 257 := by omega
        exact mem_cons_self
      · cases hstate
    have hkept : maxRetainedEnrollments = 256 := rfl
    omega

end Sample

end EnrollmentRegistry

end HypeLlm.Fleet
