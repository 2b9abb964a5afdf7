import HypeLlm.Lib.Maps
import HypeLlm.Lib.Runs
import HypeLlm.Lib.Words
import HypeLlm.Ids

/-!
# Conversation affinity

The table remembers which target last served a conversation.  It holds its observations twice: under
their conversation, and under the time they expire at with a sequence number, so that what expires
soonest is found without a scan.

* `Matched` — the two maps describe the same set: what each operation has to keep;
* `purgeLoop_spec`, `evictLoop_spec` — what the two loops leave out;
* `observe_entries` — what an observation leaves of the other conversations;
* **`indexes_agree`** — what holds of every run.
-/

namespace HypeLlm.Routing

open HypeLlm.Words HypeLlm.Maps HypeLlm.Runs
open Std (TreeMap TransCmp LawfulEqCmp)

/-- The longest conversation identifier accepted, in bytes. -/
def maxConversationIdBytes : ℕ := 128

def validConversationId (id : String) : Bool :=
  !id.isEmpty && decide (id.utf8ByteSize ≤ maxConversationIdBytes) &&
    id.toList.all fun c => c.isAlphanum || ['-', '_', ':', '.'].contains c

/-- A conversation, scoped to the tenant, principal and alias that own it. -/
structure ConversationKey where
  tenant : TenantId
  principal : PrincipalId
  aliasId : AliasId
  conversationId : String
  valid : validConversationId conversationId = true
  deriving DecidableEq

namespace ConversationKey

/-- The derived order of the keys. -/
def order : ConversationKey → ConversationKey → Ordering :=
  compareLex (compareOn tenant) (compareLex (compareOn principal)
    (compareLex (compareOn aliasId) (compareOn conversationId)))

instance : TransCmp order := inferInstanceAs (TransCmp (compareLex _ _))

instance : LawfulEqCmp order where
  eq_of_compare {key key'} h := by
    have hall : compare key.tenant key'.tenant = .eq ∧ compare key.principal key'.principal = .eq ∧
        compare key.aliasId key'.aliasId = .eq ∧ compare key.conversationId key'.conversationId = .eq := by
      simpa [order, compareLex, compareOn, Ordering.then_eq_eq] using h
    obtain ⟨htenant, hprincipal, halias, hid⟩ := hall
    cases key
    cases key'
    obtain rfl := LawfulEqCmp.eq_of_compare htenant
    obtain rfl := LawfulEqCmp.eq_of_compare hprincipal
    obtain rfl := LawfulEqCmp.eq_of_compare halias
    obtain rfl := LawfulEqCmp.eq_of_compare hid
    rfl

end ConversationKey

/-- The table's limits, read from configuration at each observation. -/
structure AffinityLimits where
  /-- How long an observation stays usable.  Zero disables affinity. -/
  ttlMs : ℕ
  /-- The most conversations held at once.  Zero disables affinity. -/
  maxEntries : ℕ
  deriving Repr, DecidableEq

def AffinityLimits.disabled (limits : AffinityLimits) : Bool := limits.ttlMs == 0 || limits.maxEntries == 0

/-- The time an observation expires at and its sequence number, soonest first. -/
abbrev Index := ℕ ×ₗ ℕ

instance : LawfulEqCmp (compare : Index → Index → Ordering) where
  eq_of_compare h := compare_eq_iff_eq.1 h

/-- Where a conversation was last served. -/
structure Observation where
  target : TargetId
  /-- The target's activation epoch at the time. -/
  epoch : ℕ
  expiresAtMs : ℕ
  seq : ℕ
  deriving Repr, DecidableEq

def Observation.index (entry : Observation) : Index := toLex (entry.expiresAtMs, entry.seq)

structure ConversationAffinity where
  entries : TreeMap ConversationKey Observation ConversationKey.order
  /-- The key of each index, soonest-expiring first. -/
  byExpiry : TreeMap Index ConversationKey compare
  nextSeq : ℕ

namespace ConversationAffinity

def new : ConversationAffinity := ⟨∅, ∅, 0⟩

/-- The observation for a key, while it is still fresh. -/
def preferred (t : ConversationAffinity) (key : ConversationKey) (nowMs : ℕ) : Option Observation :=
  t.entries[key]?.filter fun entry => decide (nowMs < entry.expiresAtMs)

def len (t : ConversationAffinity) : ℕ := t.entries.size

def firstEntry (t : ConversationAffinity) : Option (Index × ConversationKey) := t.byExpiry.toList.head?

/-- One observation taken out of either map. -/
def remove (t : ConversationAffinity) (index : Index) (key : ConversationKey) : ConversationAffinity :=
  { t with entries := t.entries.erase key, byExpiry := t.byExpiry.erase index }

def purgeLoop (nowMs : ℕ) : ℕ → ConversationAffinity → ConversationAffinity
  | 0, t => t
  | fuel + 1, t =>
    match t.firstEntry with
    | some (index, key) => if nowMs < (ofLex index).1 then t else purgeLoop nowMs fuel (t.remove index key)
    | none => t

/-- Each round takes one index out, so there are no more rounds than indexes. -/
def purgeExpired (t : ConversationAffinity) (nowMs : ℕ) : ConversationAffinity :=
  purgeLoop nowMs t.byExpiry.size t

def evictLoop (maxEntries : ℕ) : ℕ → ConversationAffinity → ConversationAffinity
  | 0, t => t
  | fuel + 1, t =>
    if maxEntries ≤ t.entries.size then
      match t.firstEntry with
      | some (index, oldest) => evictLoop maxEntries fuel (t.remove index oldest)
      | none => t
    else t

/-- Drop one conversation's observation. -/
def forget (t : ConversationAffinity) (key : ConversationKey) : ConversationAffinity :=
  match t.entries[key]? with
  | some old => t.remove old.index key
  | none => t

/-- Record a successfully served request. -/
def observe (t : ConversationAffinity) (key : ConversationKey) (target : TargetId) (epoch nowMs : ℕ)
    (limits : AffinityLimits) : ConversationAffinity :=
  let purged := t.purgeExpired nowMs
  if limits.disabled then { purged with entries := ∅, byExpiry := ∅ }
  else
    let others := purged.forget key
    -- a reload may have lowered the cap, so it evicts until there is room
    let roomy := evictLoop limits.maxEntries others.byExpiry.size others
    let seq := roomy.nextSeq
    let expiresAtMs := satAdd u64Max nowMs limits.ttlMs
    { entries := roomy.entries.insert key ⟨target, epoch, expiresAtMs, seq⟩
      byExpiry := roomy.byExpiry.insert (toLex (expiresAtMs, seq)) key
      nextSeq := wrapAdd 64 seq 1 }

/-- Drop every observation of a target after a restart or outage. -/
def invalidateTarget (t : ConversationAffinity) (target : TargetId) : ConversationAffinity :=
  let stale := (t.entries.toList.filter fun e => e.2.target = target).map fun e => e.2.index
  { t with
    entries := t.entries.filter fun _ entry => entry.target ≠ target
    byExpiry := t.byExpiry.filter fun index _ => index ∉ stale }

/-! ### The two maps -/

/-- **The two maps describe the same set.** -/
def Matched (t : ConversationAffinity) : Prop :=
  ∀ (index : Index) (key : ConversationKey),
    t.byExpiry[index]? = some key ↔ ∃ entry : Observation, t.entries[key]? = some entry ∧ entry.index = index

variable {t : ConversationAffinity} {index : Index} {key : ConversationKey}

theorem matched_empty (n : ℕ) : Matched ⟨∅, ∅, n⟩ := by
  intro index key
  simp

theorem Matched.of_entry (h : t.Matched) {entry : Observation} (hentry : t.entries[key]? = some entry) :
    t.byExpiry[entry.index]? = some key :=
  (h entry.index key).2 ⟨entry, hentry, rfl⟩

/-- As many conversations as indexes: each map lists the other's keys. -/
theorem Matched.size_eq (h : t.Matched) : t.entries.size = t.byExpiry.size := by
  have hlists : (t.entries.toList.map fun e => (e.2.index, e.1)).Perm t.byExpiry.toList := by
    refine (List.perm_ext_iff_of_nodup ?_ (nodup_toList _)).2 fun e => ?_
    · refine (nodup_toList t.entries).map_on fun e he e' he' heq => ?_
      rw [Std.TreeMap.mem_toList_iff_getElem?_eq_some] at he he'
      have hkey : e.1 = e'.1 := congrArg Prod.snd heq
      rw [← hkey, he, Option.some.injEq] at he'
      exact Prod.ext hkey he'
    · rw [Std.TreeMap.mem_toList_iff_getElem?_eq_some, h e.1 e.2]
      simp only [List.mem_map, Prod.exists, Std.TreeMap.mem_toList_iff_getElem?_eq_some]
      constructor
      · rintro ⟨key, entry, hentry, rfl⟩
        exact ⟨entry, hentry, rfl⟩
      · rintro ⟨entry, hentry, hindex⟩
        exact ⟨e.2, entry, hentry, Prod.ext hindex rfl⟩
  rw [← Std.TreeMap.length_toList, ← Std.TreeMap.length_toList, ← hlists.length_eq, List.length_map]

/-- **A pair is taken out of both maps.** -/
theorem Matched.remove (h : t.Matched) (hpair : t.byExpiry[index]? = some key) : (t.remove index key).Matched := by
  obtain ⟨entry, hentry, hindex⟩ := (h index key).1 hpair
  intro i k
  simp only [ConversationAffinity.remove, getElem?_erase]
  by_cases hk : k = key
  · subst hk
    simp only [if_true, reduceCtorEq, false_and, exists_false, iff_false]
    split
    · exact Option.some_ne_none k ∘ Eq.symm
    · -- the conversation has no second index
      rename_i hi
      intro hother
      obtain ⟨other, hsame, hother⟩ := (h i k).1 hother
      rw [hentry, Option.some.injEq] at hsame
      rw [← hother, ← hsame, hindex] at hi
      exact hi rfl
  · rw [if_neg hk, ← h i k]
    split
    · rename_i hi
      rw [hi, hpair, Option.some.injEq]
      exact iff_of_false (Option.some_ne_none k ∘ Eq.symm) (Ne.symm hk)
    · exact Iff.rfl

/-- **A pair is put in both maps**, under a conversation and an index that are not in use. -/
theorem Matched.insert (h : t.Matched) {entry : Observation} (hkey : t.entries[key]? = none)
    (hindex : t.byExpiry[entry.index]? = none) (n : ℕ) :
    Matched ⟨t.entries.insert key entry, t.byExpiry.insert entry.index key, n⟩ := by
  intro i k
  simp only [getElem?_insert]
  by_cases hk : k = key
  · subst hk
    simp only [if_true, Option.some.injEq, exists_eq_left', eq_comm (a := entry.index)]
    split
    · rename_i hi
      exact iff_of_true rfl hi
    · rename_i hi
      refine iff_of_false (fun hold => ?_) hi
      obtain ⟨old, hold, -⟩ := (h i k).1 hold
      exact absurd hkey (by simp [hold])
  · rw [if_neg hk, ← h i k]
    split
    · rename_i hi
      rw [hi, hindex]
      simp [Ne.symm hk]
    · exact Iff.rfl

/-! ### The soonest-expiring entry -/

theorem Matched.first (h : t.Matched) (hfirst : t.firstEntry = some (index, key)) :
    t.byExpiry[index]? = some key ∧
      ∀ (k : ConversationKey) (entry : Observation), t.entries[k]? = some entry →
        index ≤ entry.index ∧ (k ≠ key → index < entry.index) := by
  have hpair : t.byExpiry[index]? = some key := getElem?_of_head?_toList hfirst
  refine ⟨hpair, fun k entry hentry => ?_⟩
  have hother := h.of_entry hentry
  by_cases hi : entry.index = index
  · rw [hi, hpair, Option.some.injEq] at hother
    exact ⟨hi.ge, fun hk => absurd hother.symm hk⟩
  · have hlt : index < entry.index := compare_lt_iff_lt.1 (lt_of_head?_toList hfirst hother hi)
    exact ⟨hlt.le, fun _ => hlt⟩

theorem Matched.size_of_no_first (h : t.Matched) (hfirst : t.firstEntry = none) : t.entries.size = 0 := by
  rw [h.size_eq, ← Std.TreeMap.length_toList, List.length_eq_zero_iff]
  exact List.head?_eq_none_iff.1 hfirst

theorem size_remove (hpair : t.byExpiry[index]? = some key) :
    (t.remove index key).byExpiry.size + 1 = t.byExpiry.size := by
  have hmem : t.byExpiry.contains index = true := by
    rw [Std.TreeMap.contains_eq_isSome_getElem?, hpair, Option.isSome_some]
  have hpos : t.byExpiry.size ≠ 0 := fun hzero => by
    rw [getElem?_of_size_eq_zero hzero] at hpair
    exact absurd hpair (by simp)
  simp only [remove, Std.TreeMap.size_erase, hmem, if_true]
  omega

theorem entries_remove (index : Index) (key k : ConversationKey) :
    (t.remove index key).entries[k]? = t.entries[k]?.filter fun _ => decide (k ≠ key) := by
  rw [remove, getElem?_erase]
  by_cases hk : k = key
  · simp [hk]
  · cases t.entries[k]? <;> simp [hk, Option.filter_some]

/-! ### The two loops -/

/-- How many entries expire no sooner than an index. -/
def above (t : ConversationAffinity) (index : Index) : ℕ :=
  t.entries.toList.countP fun e => decide (index ≤ e.2.index)

theorem above_le_size (t : ConversationAffinity) (index : Index) : t.above index ≤ t.entries.size := by
  rw [← Std.TreeMap.length_toList]
  exact List.countP_le_length

theorem above_eq_size
    (hleast : ∀ (k : ConversationKey) (entry : Observation), t.entries[k]? = some entry → index ≤ entry.index) :
    t.above index = t.entries.size := by
  rw [← Std.TreeMap.length_toList, above, List.countP_eq_length]
  exact fun e he => decide_eq_true (hleast e.1 e.2 (Std.TreeMap.mem_toList_iff_getElem?_eq_some.1 he))

/-- What is taken out at the front is not above what stays. -/
theorem Matched.above_remove (h : t.Matched) (hpair : t.byExpiry[index]? = some key) {i : Index} (hi : index < i) :
    (t.remove index key).above i = t.above i := by
  rw [above, countP_toList_filter fun k => entries_remove index key k]
  refine List.countP_congr fun e he => ?_
  rw [Std.TreeMap.mem_toList_iff_getElem?_eq_some] at he
  simp only [Bool.and_eq_true, decide_eq_true_eq, and_iff_left_iff_imp]
  intro hle hkey
  have hother := h.of_entry he
  obtain ⟨entry, hentry, hindex⟩ := (h index key).1 hpair
  rw [hkey, hentry, Option.some.injEq] at he
  rw [← he, hindex] at hle
  exact absurd hle (not_le.2 hi)

@[simp] theorem nextSeq_purgeLoop (nowMs fuel : ℕ) (t : ConversationAffinity) :
    (purgeLoop nowMs fuel t).nextSeq = t.nextSeq := by
  fun_induction purgeLoop nowMs fuel t <;> simp_all [remove]

@[simp] theorem nextSeq_evictLoop (maxEntries fuel : ℕ) (t : ConversationAffinity) :
    (evictLoop maxEntries fuel t).nextSeq = t.nextSeq := by
  fun_induction evictLoop maxEntries fuel t <;> simp_all [remove]

/-- **The purge leaves out what is expired**, and nothing else. -/
theorem purgeLoop_spec (nowMs : ℕ) (fuel : ℕ) (h : t.Matched) (hfuel : t.byExpiry.size ≤ fuel) :
    (purgeLoop nowMs fuel t).Matched ∧ ∀ k : ConversationKey, (purgeLoop nowMs fuel t).entries[k]? =
      t.entries[k]?.filter fun entry => decide (nowMs < entry.expiresAtMs) := by
  induction fuel generalizing t with
  | zero =>
    have hempty : t.entries.size = 0 := h.size_eq.trans (Nat.le_zero.1 hfuel)
    refine ⟨h, fun k => ?_⟩
    rw [purgeLoop, getElem?_of_size_eq_zero hempty, Option.filter_none]
  | succ fuel ih =>
    rw [purgeLoop]
    split
    · rename_i index key hfirst
      obtain ⟨hpair, hleast⟩ := h.first hfirst
      split
      · -- the first is fresh, and so are all others
        rename_i hfresh
        refine ⟨h, fun k => ?_⟩
        cases hk : t.entries[k]? with
        | none => rfl
        | some entry =>
          have hle : (ofLex index).1 ≤ entry.expiresAtMs := (Prod.Lex.monotone_fst_ofLex (hleast k entry hk).1)
          rw [Option.filter_some, if_pos (decide_eq_true (hfresh.trans_le hle))]
      · rename_i hexpired
        have hsize := size_remove hpair
        obtain ⟨hmatched, hentries⟩ := ih (h.remove hpair) (by omega)
        refine ⟨hmatched, fun k => ?_⟩
        rw [hentries, entries_remove, Option.filter_filter]
        by_cases hk : k = key
        · obtain ⟨entry, hentry, hindex⟩ := (h index key).1 hpair
          have hold : ¬ nowMs < entry.expiresAtMs := by
            rw [← hindex] at hexpired
            exact hexpired
          rw [hk, hentry]
          simp [hold, Option.filter_some]
        · simp [hk]
    · rename_i hfirst
      refine ⟨h, fun k => ?_⟩
      rw [getElem?_of_size_eq_zero (h.size_of_no_first hfirst), Option.filter_none]

/-- With room, no entry has too many above it. -/
theorem filter_above_of_room {maxEntries : ℕ} (hlt : t.entries.size < maxEntries) (k : ConversationKey) :
    t.entries[k]? = t.entries[k]?.filter fun entry => decide (t.above entry.index < maxEntries) := by
  cases t.entries[k]? with
  | none => rfl
  | some entry => rw [Option.filter_some, if_pos (decide_eq_true ((t.above_le_size _).trans_lt hlt))]

/-- **The eviction leaves out what has enough entries above it**, and there is room afterwards. -/
theorem evictLoop_spec {maxEntries : ℕ} (hpos : 0 < maxEntries) (fuel : ℕ) (h : t.Matched)
    (hfuel : t.byExpiry.size ≤ fuel) :
    (evictLoop maxEntries fuel t).Matched ∧ (evictLoop maxEntries fuel t).entries.size < maxEntries ∧
      ∀ k : ConversationKey, (evictLoop maxEntries fuel t).entries[k]? =
        t.entries[k]?.filter fun entry => decide (t.above entry.index < maxEntries) := by
  induction fuel generalizing t with
  | zero =>
    have hempty : t.entries.size = 0 := h.size_eq.trans (Nat.le_zero.1 hfuel)
    have hlt : t.entries.size < maxEntries := hempty.symm ▸ hpos
    exact ⟨h, hlt, filter_above_of_room hlt⟩
  | succ fuel ih =>
    rw [evictLoop]
    split
    · rename_i hfull
      split
      · rename_i index key hfirst
        obtain ⟨hpair, hleast⟩ := h.first hfirst
        have hsize := size_remove hpair
        obtain ⟨hmatched, hlt, hentries⟩ := ih (h.remove hpair) (by omega)
        refine ⟨hmatched, hlt, fun k => ?_⟩
        rw [hentries, entries_remove]
        by_cases hk : k = key
        · -- all entries are above the first
          obtain ⟨entry, hentry, hindex⟩ := (h index key).1 hpair
          have hall : t.above entry.index = t.entries.size :=
            hindex ▸ above_eq_size fun k entry hentry => (hleast k entry hentry).1
          rw [hk, hentry]
          simp [hall, hfull, Option.filter_some]
        · cases hentry : t.entries[k]? with
          | none => rfl
          | some entry => simp [hk, h.above_remove hpair ((hleast k entry hentry).2 hk), Option.filter_some]
      · rename_i hfirst
        have hlt : t.entries.size < maxEntries := (h.size_of_no_first hfirst).symm ▸ hpos
        exact ⟨h, hlt, filter_above_of_room hlt⟩
    · rename_i hlt
      exact ⟨h, not_le.1 hlt, filter_above_of_room (not_le.1 hlt)⟩

/-! ### The operations -/

theorem Matched.forget (h : t.Matched) (key : ConversationKey) : (t.forget key).Matched := by
  rw [ConversationAffinity.forget]
  split
  · rename_i old hold
    exact h.remove (h.of_entry hold)
  · exact h

theorem entries_forget (t : ConversationAffinity) (key k : ConversationKey) :
    (t.forget key).entries[k]? = t.entries[k]?.filter fun _ => decide (k ≠ key) := by
  rw [forget]
  split
  · exact entries_remove _ key k
  · rename_i hnone
    by_cases hk : k = key
    · rw [hk, hnone, Option.filter_none]
    · cases t.entries[k]? <;> simp [hk, Option.filter_some]

@[simp] theorem nextSeq_forget (t : ConversationAffinity) (key : ConversationKey) :
    (t.forget key).nextSeq = t.nextSeq := by
  rw [forget]
  split <;> rfl

theorem entries_invalidateTarget (t : ConversationAffinity) (target : TargetId) (k : ConversationKey) :
    (t.invalidateTarget target).entries[k]? = t.entries[k]?.filter fun entry => decide (entry.target ≠ target) := by
  rw [invalidateTarget, Std.TreeMap.getElem?_filter']

theorem Matched.invalidateTarget (h : t.Matched) (target : TargetId) : (t.invalidateTarget target).Matched := by
  intro i k
  rw [entries_invalidateTarget]
  simp only [ConversationAffinity.invalidateTarget, Std.TreeMap.getElem?_filter', Option.filter_eq_some_iff, h i k,
    decide_eq_true_eq, List.mem_map, List.mem_filter, Std.TreeMap.mem_toList_iff_getElem?_eq_some, Prod.exists]
  constructor
  · rintro ⟨⟨entry, hentry, rfl⟩, hstale⟩
    exact ⟨entry, ⟨hentry, fun htarget => hstale ⟨k, entry, ⟨hentry, htarget⟩, rfl⟩⟩, rfl⟩
  · rintro ⟨entry, ⟨hentry, htarget⟩, rfl⟩
    refine ⟨⟨entry, hentry, rfl⟩, ?_⟩
    -- an index that is stale is that of a conversation with the target
    rintro ⟨other, stale, ⟨hother, hstale⟩, hindex⟩
    have hkey := h.of_entry hother
    rw [hindex, h.of_entry hentry, Option.some.injEq] at hkey
    rw [← hkey, hentry, Option.some.injEq] at hother
    exact htarget (hother ▸ hstale)

/-- **How many conversations come before one** for the room an observation leaves: those that are
neither expired nor the observed one and expire no sooner, the one itself among them. -/
def rivals (t : ConversationAffinity) (key : ConversationKey) (nowMs : ℕ) (index : Index) : ℕ :=
  t.entries.toList.countP fun e => decide (e.1 ≠ key ∧ nowMs < e.2.expiresAtMs ∧ index ≤ e.2.index)

theorem rivals_antitone (t : ConversationAffinity) (key : ConversationKey) (nowMs : ℕ) :
    Antitone (t.rivals key nowMs) := fun _ _ hle =>
  List.countP_mono_left fun _ _ h => by
    obtain ⟨hkey, hfresh, habove⟩ := of_decide_eq_true h
    exact decide_eq_true ⟨hkey, hfresh, hle.trans habove⟩

/-- What an observation writes down. -/
def observed (t : ConversationAffinity) (target : TargetId) (epoch nowMs : ℕ) (limits : AffinityLimits) : Observation :=
  ⟨target, epoch, satAdd u64Max nowMs limits.ttlMs, t.nextSeq⟩

variable {target : TargetId} {epoch nowMs : ℕ} {limits : AffinityLimits}

/-- **An observation with affinity off** clears the table. -/
theorem observe_disabled (hoff : limits.disabled = true) :
    t.observe key target epoch nowMs limits = ⟨∅, ∅, t.nextSeq⟩ := by
  rw [observe]
  simp [hoff, purgeExpired]

/-- What is left of the other conversations before the new observation is written. -/
theorem roomy_spec (h : t.Matched) (key : ConversationKey) (nowMs : ℕ) {maxEntries : ℕ} (hpos : 0 < maxEntries) :
    let others := (t.purgeExpired nowMs).forget key
    let roomy := evictLoop maxEntries others.byExpiry.size others
    roomy.Matched ∧ roomy.entries.size < maxEntries ∧ roomy.nextSeq = t.nextSeq ∧
      ∀ k : ConversationKey, roomy.entries[k]? = t.entries[k]?.filter fun entry =>
        decide (k ≠ key ∧ nowMs < entry.expiresAtMs ∧ t.rivals key nowMs entry.index < maxEntries) := by
  intro others roomy
  obtain ⟨hpurged, hpurge⟩ := purgeLoop_spec nowMs t.byExpiry.size h le_rfl
  have hothers : others.Matched := hpurged.forget key
  obtain ⟨hroomy, hlt, hevict⟩ := evictLoop_spec hpos others.byExpiry.size hothers le_rfl
  have hentries (k : ConversationKey) : others.entries[k]? = t.entries[k]?.filter fun entry =>
      decide (k ≠ key ∧ nowMs < entry.expiresAtMs) := by
    rw [entries_forget, purgeExpired, hpurge, Option.filter_filter]
    congr 1
    funext entry
    rw [Bool.decide_and, Bool.and_comm]
  have habove (index : Index) : others.above index = t.rivals key nowMs index := by
    rw [above, countP_toList_filter hentries, rivals]
    congr 1
    funext e
    simp only [Bool.decide_and]
    rw [Bool.and_comm, Bool.and_assoc]
  refine ⟨hroomy, hlt, ?_, fun k => ?_⟩
  · rw [nextSeq_evictLoop, nextSeq_forget, purgeExpired, nextSeq_purgeLoop]
  · rw [hevict, hentries, Option.filter_filter]
    congr 1
    funext entry
    simp only [habove, Bool.decide_and]
    rw [Bool.and_assoc]

/-- Every entry was numbered before the next one. -/
structure Sound (t : ConversationAffinity) : Prop where
  matched : t.Matched
  numbered : ∀ (k : ConversationKey) (entry : Observation), t.entries[k]? = some entry → entry.seq < t.nextSeq

theorem sound_empty (n : ℕ) : Sound ⟨∅, ∅, n⟩ :=
  ⟨matched_empty n, fun k entry hentry => by simp at hentry⟩

theorem sound_new : new.Sound := sound_empty 0

/-- What only leaves entries out keeps the numbers. -/
theorem Sound.of_filter {t' : ConversationAffinity} {p : ConversationKey → Observation → Bool} (h : t.Sound)
    (hmatched : t'.Matched) (hseq : t'.nextSeq = t.nextSeq)
    (hentries : ∀ k : ConversationKey, t'.entries[k]? = t.entries[k]?.filter (p k)) : t'.Sound := by
  refine ⟨hmatched, fun k entry hentry => ?_⟩
  rw [hentries, Option.filter_eq_some_iff] at hentry
  rw [hseq]
  exact h.numbered k entry hentry.1

/-- **An observation** keeps the maps matched and the table within its cap, and leaves the others that
are fresh and have room. -/
theorem observe_spec (h : t.Sound) (key : ConversationKey) (target : TargetId) (epoch nowMs : ℕ)
    (hon : limits.disabled = false) :
    (t.observe key target epoch nowMs limits).Matched ∧
      (t.observe key target epoch nowMs limits).entries.size ≤ limits.maxEntries ∧
      (t.observe key target epoch nowMs limits).nextSeq = wrapAdd 64 t.nextSeq 1 ∧
      ∀ k : ConversationKey, (t.observe key target epoch nowMs limits).entries[k]? =
        if k = key then some (t.observed target epoch nowMs limits)
        else t.entries[k]?.filter fun entry =>
          decide (nowMs < entry.expiresAtMs ∧ t.rivals key nowMs entry.index < limits.maxEntries) := by
  have hpos : 0 < limits.maxEntries := by
    simp only [AffinityLimits.disabled, Bool.or_eq_false_iff, beq_eq_false_iff_ne] at hon
    omega
  obtain ⟨hroomy, hlt, hseq, hentries⟩ := roomy_spec h.matched key nowMs hpos
  rw [observe]
  simp only [hon, Bool.false_eq_true, if_false]
  generalize evictLoop limits.maxEntries ((t.purgeExpired nowMs).forget key).byExpiry.size
    ((t.purgeExpired nowMs).forget key) = roomy at hroomy hlt hseq hentries ⊢
  have hkey : roomy.entries[key]? = none := by
    rw [hentries]
    simp
  have hindex : roomy.byExpiry[(t.observed target epoch nowMs limits).index]? = none := by
    refine Option.eq_none_iff_forall_ne_some.2 fun k hk => ?_
    -- an entry with this index would have been numbered as the new one is
    obtain ⟨old, hold, hsame⟩ := (hroomy _ k).1 hk
    rw [hentries, Option.filter_eq_some_iff] at hold
    have hnumber := h.numbered k old hold.1
    rw [show old.seq = t.nextSeq from congrArg (fun i => (ofLex i).2) hsame] at hnumber
    exact absurd hnumber (lt_irrefl _)
  rw [hseq]
  refine ⟨hroomy.insert hkey hindex _, ?_, rfl, fun k => ?_⟩
  · exact Std.TreeMap.size_insert_le.trans hlt
  · rw [getElem?_insert, hentries]
    split
    · rfl
    · rename_i hk
      simp only [hk, ne_eq, not_false_eq_true, true_and]

/-! ### Runs -/

inductive Event where
  | observe (key : ConversationKey) (target : TargetId) (epoch nowMs : ℕ) (limits : AffinityLimits)
  | forget (key : ConversationKey)
  | invalidateTarget (target : TargetId)
  deriving DecidableEq

def step (t : ConversationAffinity) : Event → ConversationAffinity
  | .observe key target epoch nowMs limits => t.observe key target epoch nowMs limits
  | .forget key => t.forget key
  | .invalidateTarget target => t.invalidateTarget target

def Event.isObserve : Event → Bool
  | .observe .. => true
  | _ => false

/-- Whether an event is an observation of a conversation. -/
def Event.observes (key : ConversationKey) : Event → Bool
  | .observe other .. => decide (other = key)
  | _ => false

def observations (es : List Event) : ℕ := es.countP Event.isObserve

theorem observations_append (es fs : List Event) : observations (es ++ fs) = observations es + observations fs :=
  List.countP_append

/-- **What takes an entry of a conversation out of the table**: an observation by whose time it is expired,
or whose limits switch affinity off, or which has no room for it; a call to forget the conversation; and an
outage of the entry's target. -/
def Drops (key : ConversationKey) (entry : Observation) (t : ConversationAffinity) : Event → Prop
  | .observe other _ _ nowMs limits =>
    entry.expiresAtMs ≤ nowMs ∨ limits.disabled = true ∨ limits.maxEntries ≤ t.rivals other nowMs entry.index
  | .forget other => other = key
  | .invalidateTarget target => entry.target = target

instance (key : ConversationKey) (entry : Observation) (t : ConversationAffinity) (e : Event) :
    Decidable (Drops key entry t e) := by
  cases e <;> unfold Drops <;> infer_instance

/-- What one event leaves of a conversation that it does not observe. -/
theorem entries_step (h : t.Sound) {e : Event} (hother : e.observes key = false) :
    (step t e).entries[key]? = t.entries[key]?.filter fun entry => decide (¬ Drops key entry t e) := by
  cases e with
  | observe other target epoch nowMs limits =>
    have hne : key ≠ other := fun hkey => of_decide_eq_false hother hkey.symm
    cases hlimits : limits.disabled with
    | true =>
      rw [step, observe_disabled hlimits]
      cases t.entries[key]? <;> simp [Drops, hlimits, Option.filter_some]
    | false =>
      rw [step, (observe_spec h other target epoch nowMs hlimits).2.2.2 key, if_neg hne]
      congr 1
      funext entry
      simp only [Drops, hlimits, Bool.false_eq_true, false_or, not_or, not_le]
  | forget other =>
    rw [step, entries_forget]
    congr 1
    funext entry
    exact decide_eq_decide.2 ne_comm
  | invalidateTarget target => exact entries_invalidateTarget t target key

/-- **One event** keeps the table sound while there are numbers left. -/
theorem Sound.step (h : t.Sound) (e : Event) (hroom : t.nextSeq + observations [e] < 2 ^ 64) :
    (step t e).Sound ∧ (step t e).nextSeq ≤ t.nextSeq + observations [e] := by
  cases e with
  | observe key target epoch nowMs limits =>
    have hcount : observations [.observe key target epoch nowMs limits] = 1 := rfl
    rw [hcount] at hroom ⊢
    cases hlimits : limits.disabled with
    | true =>
      rw [ConversationAffinity.step, observe_disabled hlimits]
      exact ⟨sound_empty _, Nat.le_succ _⟩
    | false =>
      obtain ⟨hmatched, -, hseq, hentries⟩ := observe_spec h key target epoch nowMs hlimits
      have hnext : wrapAdd 64 t.nextSeq 1 = t.nextSeq + 1 := Nat.mod_eq_of_lt hroom
      rw [hnext] at hseq
      refine ⟨⟨hmatched, fun k entry hentry => ?_⟩, hseq.le⟩
      rw [ConversationAffinity.step, hseq]
      rw [ConversationAffinity.step, hentries] at hentry
      split at hentry
      · rw [← Option.some.inj hentry]
        exact Nat.lt_succ_self _
      · exact Nat.lt_succ_of_lt (h.numbered k entry (Option.filter_eq_some_iff.1 hentry).1)
  | forget key =>
    exact ⟨h.of_filter (h.matched.forget key) (nextSeq_forget t key) (entries_forget t key), (nextSeq_forget t key).le⟩
  | invalidateTarget target =>
    exact ⟨h.of_filter (h.matched.invalidateTarget target) rfl (entries_invalidateTarget t target), le_rfl⟩

theorem Sound.run (h : t.Sound) (es : List Event) (hroom : t.nextSeq + observations es < 2 ^ 64) :
    (run ConversationAffinity.step t es).Sound ∧
      (run ConversationAffinity.step t es).nextSeq ≤ t.nextSeq + observations es := by
  induction es generalizing t with
  | nil => exact ⟨h, le_rfl⟩
  | cons e es ih =>
    have hcount : observations (e :: es) = observations [e] + observations es := observations_append [e] es
    obtain ⟨hstep, hseq⟩ := h.step e (by omega)
    obtain ⟨hrun, hseqs⟩ := ih hstep (by omega)
    exact ⟨hrun, hseqs.trans (by omega)⟩

/-- No event of a run takes the entry out. -/
def Stays (key : ConversationKey) (entry : Observation) : ConversationAffinity → List Event → Prop :=
  StepsMeet step fun t e => ¬ Drops key entry t e

instance (key : ConversationKey) (entry : Observation) (t : ConversationAffinity) (es : List Event) :
    Decidable (Stays key entry t es) :=
  inferInstanceAs (Decidable (StepsMeet step _ t es))

/-- **What a run leaves of a conversation that it does not observe.** -/
theorem entries_run (h : t.Sound) (es : List Event) (hroom : t.nextSeq + observations es < 2 ^ 64)
    (hother : ∀ e ∈ es, e.observes key = false) :
    (run step t es).entries[key]? = t.entries[key]?.filter fun entry => decide (Stays key entry t es) := by
  induction es generalizing t with
  | nil =>
    rw [run_nil]
    cases t.entries[key]? with
    | none => rfl
    | some entry =>
      have hstays : Stays key entry t [] := trivial
      rw [Option.filter_some, if_pos (decide_eq_true hstays)]
  | cons e es ih =>
    have hcount : observations (e :: es) = observations [e] + observations es := observations_append [e] es
    obtain ⟨hsound, hseq⟩ := h.step e (by omega)
    rw [run_cons, ih hsound (by omega) fun e' he' => hother e' (List.mem_cons_of_mem e he'),
      entries_step h (hother e List.mem_cons_self), Option.filter_filter]
    congr 1
    funext entry
    rw [Bool.eq_iff_iff, Bool.and_eq_true, decide_eq_true_eq, decide_eq_true_eq, decide_eq_true_eq]
    exact Iff.rfl

/-- **What an observation evicts**, of the conversations that are still fresh, expires before all that it
keeps. -/
def EvictsSoonest (key : ConversationKey) (nowMs : ℕ) (t t' : ConversationAffinity) : Prop :=
  ∀ (k k' : ConversationKey) (gone kept : Observation), k ≠ key → k' ≠ key →
    t.entries[k]? = some gone → nowMs < gone.expiresAtMs → t'.entries[k]? = none →
    t'.entries[k']? = some kept → gone.index < kept.index

theorem evictsSoonest_observe (h : t.Sound) (hon : limits.disabled = false) :
    EvictsSoonest key nowMs t (t.observe key target epoch nowMs limits) := by
  obtain ⟨-, -, -, hentries⟩ := observe_spec h key target epoch nowMs hon
  intro k k' gone kept hk hk' hgone hfresh hout hkept
  rw [hentries, if_neg hk, hgone, Option.filter_some, ite_eq_right_iff] at hout
  rw [hentries, if_neg hk', Option.filter_eq_some_iff, decide_eq_true_eq] at hkept
  have hcrowded : limits.maxEntries ≤ t.rivals key nowMs gone.index := by
    by_contra hlt
    exact absurd (hout (decide_eq_true ⟨hfresh, not_le.1 hlt⟩)) (Option.some_ne_none gone)
  by_contra hlater
  have hfewer := t.rivals_antitone key nowMs (not_lt.1 hlater)
  exact absurd (hcrowded.trans hfewer) (not_le.2 hkept.2.2)

/-- A run from the empty table is sound all through, and numbers are left for what follows. -/
theorem sound_run {before after es : List Event} (hes : before ++ after = es) (hfew : observations es < 2 ^ 64) :
    (run step new before).Sound ∧ (run step new before).nextSeq + observations after < 2 ^ 64 := by
  rw [← hes, observations_append] at hfew
  have hzero : new.nextSeq = 0 := rfl
  obtain ⟨hsound, hseq⟩ := sound_new.run before (by omega)
  exact ⟨hsound, by omega⟩

/-- What an observation leaves under its own conversation. -/
theorem entries_observed (h : t.Sound) (key : ConversationKey) (limits : AffinityLimits) :
    (t.observe key target epoch nowMs limits).entries[key]? =
      if limits.disabled then none else some (t.observed target epoch nowMs limits) := by
  cases hlimits : limits.disabled with
  | true =>
    rw [observe_disabled hlimits]
    simp
  | false => rw [(observe_spec h key target epoch nowMs hlimits).2.2.2 key, if_pos rfl, if_neg Bool.false_ne_true]

/-- **The two indexes agree** after every run, and the table is what its users take it for: it holds no more
conversations than it may, it evicts those that expire soonest, and it prefers the target that a conversation
was last seen at, until that observation expires or an event takes it out. -/
theorem indexes_agree (es : List Event) (hes : observations es < 2 ^ 64) :
    (run step new es).Matched ∧ (run step new es).entries.size = (run step new es).byExpiry.size ∧
    (∀ before key target epoch nowMs limits, es = before ++ [Event.observe key target epoch nowMs limits] →
      limits.disabled = false →
      (run step new es).len ≤ limits.maxEntries ∧
        EvictsSoonest key nowMs (run step new before) (run step new es)) ∧
    (∀ key nowMs, (∀ e ∈ es, e.observes key = false) → (run step new es).preferred key nowMs = none) ∧
    ∀ before key target epoch seenMs limits after, es = before ++ .observe key target epoch seenMs limits :: after →
      (∀ e ∈ after, e.observes key = false) → ∀ nowMs,
      ((run step new es).preferred key nowMs).map (fun entry => (entry.target, entry.epoch)) =
        if limits.disabled = false ∧ nowMs < satAdd u64Max seenMs limits.ttlMs ∧
          Stays key ((run step new before).observed target epoch seenMs limits)
            (run step new (before ++ [Event.observe key target epoch seenMs limits])) after
        then some (target, epoch) else none := by
  have hmatched := (sound_run (List.append_nil es) hes).1.matched
  refine ⟨hmatched, hmatched.size_eq, ?_, ?_, ?_⟩
  · rintro before key target epoch nowMs limits rfl hon
    have hbefore := (sound_run rfl hes).1
    rw [run_snoc]
    exact ⟨(observe_spec hbefore key target epoch nowMs hon).2.1, evictsSoonest_observe hbefore hon⟩
  · intro key nowMs hnone
    rw [preferred, entries_run sound_new es ((Nat.zero_add _).trans_lt hes) hnone]
    simp [new]
  · rintro before key target epoch seenMs limits after rfl hafter nowMs
    have hbefore := (sound_run rfl hes).1
    rw [List.append_cons] at hes ⊢
    obtain ⟨hseen, hroom⟩ := sound_run rfl hes
    rw [preferred, run_append _ _ (before ++ _), entries_run hseen after hroom hafter]
    rw [run_snoc, step, entries_observed hbefore key limits]
    cases limits.disabled with
    | true => simp
    | false =>
      rw [if_neg Bool.false_ne_true, Option.filter_some]
      by_cases hstays : Stays key ((run step new before).observed target epoch seenMs limits)
        ((run step new before).observe key target epoch seenMs limits) after
      · rw [if_pos (decide_eq_true hstays), Option.filter_some]
        by_cases hfresh : nowMs < ((run step new before).observed target epoch seenMs limits).expiresAtMs
        · rw [if_pos (decide_eq_true hfresh), if_pos ⟨rfl, hfresh, hstays⟩]
          rfl
        · rw [if_neg (mt of_decide_eq_true hfresh), if_neg fun h => hfresh h.2.1]
          rfl
      · rw [if_neg (mt of_decide_eq_true hstays), if_neg fun h => hstays h.2.2]
        rfl

namespace Sample

def first : ConversationKey := ⟨"acme", "user:1", "chat", "first", by decide⟩

def second : ConversationKey := ⟨"acme", "user:1", "chat", "second", by decide⟩

/-- Two conversations in a table with room for one. -/
def turns : List Event :=
  [.observe first "spark-a:qwen" 0 0 ⟨1000, 1⟩, .observe second "spark-b:qwen" 0 1 ⟨1000, 1⟩]

theorem second_turn_evicts : (run step new turns).Matched ∧
    ((run step new turns).preferred first 2).map (fun entry => (entry.target, entry.epoch)) = none ∧
    ((run step new turns).preferred second 2).map (fun entry => (entry.target, entry.epoch)) =
      some ("spark-b:qwen", 0) := by
  obtain ⟨hmatched, -, -, -, hserved⟩ := indexes_agree turns (by decide)
  refine ⟨hmatched, ?_, ?_⟩
  · rw [hserved [] first "spark-a:qwen" 0 0 ⟨1000, 1⟩ (turns.drop 1) rfl (by decide) 2]
    exact if_neg (by decide)
  · rw [hserved (turns.take 1) second "spark-b:qwen" 0 1 ⟨1000, 1⟩ [] rfl (by decide) 2]
    exact if_pos (by decide)

end Sample

end ConversationAffinity

end HypeLlm.Routing
