import HypeLlm.Lib.Runs

/-!
# The single-writer lock

A process holds a state directory while the file `lock` carries its identity.  A starter that finds
the file reads it; if its process is gone, the starter takes a second file, `lock.claim`, reads the
lock again under it and swaps the file.  A claim whose process is gone is swept.  A holder lets go by
reading the lock and removing it if it is its own.

Each operation on a file is one step, and the steps of any number of processes interleave; a process
may die between any two of them.  Files appear with their content, as a hard link makes them.

Deciding that a file is dead and removing it are two steps, and the file removed need not be the one
that was read.

* **`single_writer`** — in every run in which no starter removes the file of a live process, no two
  live processes hold the lock;
* `released_lock_taken_twice` — a starter reads the lock just after a release, and removes the lock of
  another that has taken it since.
-/

namespace HypeLlm.Store

open HypeLlm.Runs

namespace ProcessLock

/-- A process, by the identity it writes into its files. -/
abbrev ProcessId := ℕ

/-- The content of a file: the identity of a process, or nothing that reads as one. -/
abbrev Contents := Option ProcessId

/-- How far a process has come.  `again` says whether a swept claim may still be answered by a second
pass. -/
inductive Phase where
  | idle
  /-- About to create the lock. -/
  | creating (again : Bool)
  /-- The lock exists; about to read it. -/
  | checking (again : Bool)
  /-- The lock is stale; about to create the claim. -/
  | claiming (again : Bool)
  /-- The claim exists; about to read it. -/
  | checkingClaim (again : Bool)
  /-- The claim is stale; about to remove it. -/
  | sweeping (again : Bool)
  /-- Holding the claim; about to read the lock again. -/
  | rereading
  /-- About to remove the stale lock. -/
  | removing
  | recreating
  /-- About to give the claim up, with the lock or without. -/
  | unclaiming (won : Bool)
  | holding
  /-- Letting go; about to read the lock. -/
  | dropping
  /-- The lock is this process's own; about to remove it. -/
  | releasing
  deriving Repr, DecidableEq

/-- The directory, and the processes that use it. -/
structure Node where
  lock : Option Contents
  claim : Option Contents
  phase : ProcessId → Phase
  alive : ProcessId → Bool

inductive Event where
  | start (p : ProcessId)
  /-- The next operation of a process. -/
  | proceed (p : ProcessId)
  /-- The holder drops the lock. -/
  | drop (p : ProcessId)
  | die (p : ProcessId)
  deriving Repr, DecidableEq

namespace Node

variable (n : Node)

/-- The process recorded in a file, if it is running. -/
def liveHolder (file : Option Contents) : Option ProcessId :=
  file.bind fun contents => contents.filter n.alive

def goTo (p : ProcessId) (phase : Phase) : Node := { n with phase := Function.update n.phase p phase }

/-- The next operation of `p`, on the directory as it is now. -/
def operate (p : ProcessId) : Node :=
  match n.phase p with
  | .idle | .holding => n
  | .creating again =>
    if n.lock.isNone then { n with lock := some (some p) }.goTo p .holding
    else n.goTo p (.checking again)
  | .checking again =>
    if (n.liveHolder n.lock).isSome then n.goTo p .idle else n.goTo p (.claiming again)
  | .claiming again =>
    if n.claim.isNone then { n with claim := some (some p) }.goTo p .rereading
    else n.goTo p (.checkingClaim again)
  | .checkingClaim again =>
    if (n.liveHolder n.claim).isSome then n.goTo p .idle else n.goTo p (.sweeping again)
  | .sweeping again =>
    -- A claim that is already gone is an error, and ends the acquisition.
    if n.claim.isNone then n.goTo p .idle
    else { n with claim := none }.goTo p (if again then .creating false else .idle)
  | .rereading =>
    if (n.liveHolder n.lock).isSome then n.goTo p (.unclaiming false) else n.goTo p .removing
  | .removing => { n with lock := none }.goTo p .recreating
  | .recreating =>
    if n.lock.isNone then { n with lock := some (some p) }.goTo p (.unclaiming true)
    else n.goTo p (.unclaiming false)
  | .unclaiming won => { n with claim := none }.goTo p (if won then .holding else .idle)
  | .dropping =>
    if n.lock = some (some p) then n.goTo p .releasing else n.goTo p .idle
  | .releasing => { n with lock := none }.goTo p .idle

/-- One step.  A dead process takes none. -/
def step : Event → Node
  | .start p => if n.alive p ∧ n.phase p = .idle then n.goTo p (.creating true) else n
  | .proceed p => if n.alive p then n.operate p else n
  | .drop p => if n.alive p ∧ n.phase p = .holding then n.goTo p .dropping else n
  | .die p => { n with alive := Function.update n.alive p false }

/-- A directory as it was left, with nobody at work on it yet. -/
def Unused : Prop := ∀ p, n.phase p = .idle

/-- The process is running, and has the lock: from the return of the acquisition to the end of the
drop. -/
def Holds (p : ProcessId) : Prop :=
  n.alive p = true ∧ (n.phase p = .holding ∨ n.phase p = .dropping ∨ n.phase p = .releasing)

/-- Nobody's file is removed from under it: a starter about to remove a file it has read as stale
finds it stale still. -/
def Careful : Event → Prop
  | .proceed p =>
    (∀ again, n.phase p = .sweeping again → n.liveHolder n.claim = none) ∧
      (n.phase p = .removing → n.liveHolder n.lock = none)
  | _ => True

/-! ### The invariant -/

end Node

/-- The lock is the process's own, whether or not the acquisition has returned yet. -/
def Phase.owning : Phase → Bool
  | .unclaiming won => won
  | .holding | .dropping | .releasing => true
  | _ => false

/-- The claim is the process's own. -/
def Phase.inside : Phase → Bool
  | .rereading | .removing | .recreating | .unclaiming _ => true
  | _ => false

namespace Node

variable {n : Node}

/-- Each file belongs to the running process that thinks so. -/
structure Exclusive (n : Node) : Prop where
  lock : ∀ p, n.alive p = true → (n.phase p).owning = true → n.lock = some (some p)
  claim : ∀ p, n.alive p = true → (n.phase p).inside = true → n.claim = some (some p)

theorem liveHolder_own {p : ProcessId} (halive : n.alive p = true) :
    n.liveHolder (some (some p)) = some p := by
  simp [liveHolder, halive]

/-- Nobody has a lock that is not there, or stale. -/
theorem Exclusive.no_owner (h : n.Exclusive) (hstale : n.liveHolder n.lock = none) {q : ProcessId}
    (halive : n.alive q = true) : (n.phase q).owning = false := by
  by_contra howns
  rw [h.lock q halive (by simpa using howns), liveHolder_own halive] at hstale
  cases hstale

theorem Exclusive.no_claimant (h : n.Exclusive) (hstale : n.liveHolder n.claim = none)
    {q : ProcessId} (halive : n.alive q = true) : (n.phase q).inside = false := by
  by_contra hinside
  rw [h.claim q halive (by simpa using hinside), liveHolder_own halive] at hstale
  cases hstale

/-- Nobody else has the lock of a running process. -/
theorem Exclusive.not_owning (h : n.Exclusive) {p q : ProcessId} (hp : n.lock = some (some p))
    (hne : q ≠ p) (halive : n.alive q = true) : (n.phase q).owning = false := by
  by_contra howns
  have hq := h.lock q halive (by simpa using howns)
  rw [hp] at hq
  exact hne (Option.some.inj (Option.some.inj hq)).symm

theorem Exclusive.not_inside (h : n.Exclusive) {p q : ProcessId} (hp : n.claim = some (some p))
    (hne : q ≠ p) (halive : n.alive q = true) : (n.phase q).inside = false := by
  by_contra hinside
  have hq := h.claim q halive (by simpa using hinside)
  rw [hp] at hq
  exact hne (Option.some.inj (Option.some.inj hq)).symm

/-- **The rule for one operation.**  The process has what its new phase says it has, and no other
running process had a file that has changed. -/
theorem Exclusive.goTo (h : n.Exclusive) {p : ProcessId} {phase : Phase}
    {lock claim : Option Contents} (hlock : phase.owning = true → lock = some (some p))
    (hclaim : phase.inside = true → claim = some (some p))
    (hlocks : lock = n.lock ∨ ∀ q ≠ p, n.alive q = true → (n.phase q).owning = false)
    (hclaims : claim = n.claim ∨ ∀ q ≠ p, n.alive q = true → (n.phase q).inside = false) :
    Exclusive ({ n with lock := lock, claim := claim }.goTo p phase) := by
  constructor
  · intro q halive howns
    by_cases hq : q = p
    · subst hq
      simp only [Node.goTo, Function.update_self] at howns ⊢
      exact hlock howns
    · simp only [Node.goTo, Function.update_of_ne hq] at howns ⊢
      rcases hlocks with hsame | hnone
      · exact hsame.trans (h.lock q halive howns)
      · rw [hnone q hq halive] at howns
        cases howns
  · intro q halive hinside
    by_cases hq : q = p
    · subst hq
      simp only [Node.goTo, Function.update_self] at hinside ⊢
      exact hclaim hinside
    · simp only [Node.goTo, Function.update_of_ne hq] at hinside ⊢
      rcases hclaims with hsame | hnone
      · exact hsame.trans (h.claim q halive hinside)
      · rw [hnone q hq halive] at hinside
        cases hinside

/-- An operation that only reads. -/
theorem Exclusive.reads (h : n.Exclusive) {p : ProcessId} {phase : Phase}
    (hlock : phase.owning = true → n.lock = some (some p))
    (hclaim : phase.inside = true → n.claim = some (some p)) : Exclusive (n.goTo p phase) :=
  h.goTo hlock hclaim (.inl rfl) (.inl rfl)

theorem liveHolder_of_isNone {file : Option Contents} (h : file.isNone = true) :
    n.liveHolder file = none := by
  rw [Option.isNone_iff_eq_none.1 h]
  rfl

/-! ### One operation -/

/-- **Every operation keeps the files apart**, as long as no starter removes a live process's. -/
theorem operate_exclusive (h : n.Exclusive) {p : ProcessId} (halive : n.alive p = true)
    (hcareful : n.Careful (.proceed p)) : (n.operate p).Exclusive := by
  have howned := h.lock p halive
  have hclaimed := h.claim p halive
  unfold operate
  cases hphase : n.phase p with
  | idle => exact h
  | holding => exact h
  | creating again =>
    simp only
    split
    case isTrue hnone =>
      exact h.goTo (fun _ => rfl) nofun
        (.inr fun q _ hq => h.no_owner (liveHolder_of_isNone hnone) hq) (.inl rfl)
    case isFalse => exact h.reads nofun nofun
  | checking again =>
    simp only
    split <;> exact h.reads nofun nofun
  | claiming again =>
    simp only
    split
    case isTrue hnone =>
      exact h.goTo nofun (fun _ => rfl) (.inl rfl)
        (.inr fun q _ hq => h.no_claimant (liveHolder_of_isNone hnone) hq)
    case isFalse => exact h.reads nofun nofun
  | checkingClaim again =>
    simp only
    split <;> exact h.reads nofun nofun
  | sweeping again =>
    have hstale := hcareful.1 again hphase
    simp only
    split
    · exact h.reads nofun nofun
    · cases again
      · exact h.goTo nofun nofun (.inl rfl) (.inr fun q _ hq => h.no_claimant hstale hq)
      · exact h.goTo nofun nofun (.inl rfl) (.inr fun q _ hq => h.no_claimant hstale hq)
  | rereading =>
    rw [hphase] at hclaimed
    simp only
    split
    · exact h.reads nofun fun _ => hclaimed rfl
    · exact h.reads nofun fun _ => hclaimed rfl
  | removing =>
    rw [hphase] at hclaimed
    have hstale := hcareful.2 hphase
    exact h.goTo nofun (fun _ => hclaimed rfl) (.inr fun q _ hq => h.no_owner hstale hq) (.inl rfl)
  | recreating =>
    rw [hphase] at hclaimed
    simp only
    split
    case isTrue hnone =>
      exact h.goTo (fun _ => rfl) (fun _ => hclaimed rfl)
        (.inr fun q _ hq => h.no_owner (liveHolder_of_isNone hnone) hq) (.inl rfl)
    case isFalse => exact h.reads nofun fun _ => hclaimed rfl
  | unclaiming won =>
    rw [hphase] at hclaimed howned
    have hothers : ∀ q ≠ p, n.alive q = true → (n.phase q).inside = false :=
      fun q hne hq => h.not_inside (hclaimed rfl) hne hq
    cases won
    · exact h.goTo nofun nofun (.inl rfl) (.inr hothers)
    · exact h.goTo (fun _ => howned rfl) nofun (.inl rfl) (.inr hothers)
  | dropping =>
    simp only
    split
    case isTrue hown => exact h.reads (fun _ => hown) nofun
    case isFalse => exact h.reads nofun nofun
  | releasing =>
    rw [hphase] at howned
    exact h.goTo nofun nofun (.inr fun q hne hq => h.not_owning (howned rfl) hne hq) (.inl rfl)

/-- **One step.** -/
theorem step_exclusive (n : Node) (e : Event) (h : n.Exclusive) (hcareful : n.Careful e) :
    (n.step e).Exclusive := by
  cases e with
  | start p =>
    simp only [step]
    split
    · exact h.reads nofun nofun
    · exact h
  | proceed p =>
    simp only [step]
    split
    case isTrue halive => exact operate_exclusive h halive hcareful
    case isFalse => exact h
  | drop p =>
    simp only [step]
    split
    case isTrue hready =>
      have hown := h.lock p hready.1 (by rw [hready.2]; rfl)
      exact h.reads (fun _ => hown) nofun
    case isFalse => exact h
  | die p =>
    -- A death takes a process out of the invariant and changes no file.
    have hlived : ∀ q, Function.update n.alive p false q = true → n.alive q = true := by
      intro q hq
      by_cases hqp : q = p
      · rw [hqp, Function.update_self] at hq
        cases hq
      · rwa [Function.update_of_ne hqp] at hq
    exact ⟨fun q hq => h.lock q (hlived q hq), fun q hq => h.claim q (hlived q hq)⟩

theorem exclusive_unused (h : n.Unused) : n.Exclusive := by
  constructor
  · intro p _ howns
    rw [h p] at howns
    cases howns
  · intro p _ hinside
    rw [h p] at hinside
    cases hinside

theorem Holds.owning {p : ProcessId} (h : n.Holds p) : (n.phase p).owning = true := by
  obtain ⟨-, hphase | hphase | hphase⟩ := h <;> rw [hphase] <;> rfl

theorem Exclusive.holds_unique (h : n.Exclusive) {p q : ProcessId} (hp : n.Holds p)
    (hq : n.Holds q) : p = q := by
  have hown := h.lock p hp.1 hp.owning
  rw [h.lock q hq.1 hq.owning] at hown
  exact (Option.some.inj (Option.some.inj hown)).symm

/-- **Single writer.**  From a directory left in any state, in every run of any number of processes
in which no starter removes the lock or the claim of a live process, no two live processes hold the
lock. -/
theorem single_writer (n : Node) (hunused : n.Unused) (es : List Event)
    (hcareful : StepsMeet step Careful n es) :
    ∀ p q, (run step n es).Holds p → (run step n es).Holds q → p = q := by
  have hexclusive : (run step n es).Exclusive :=
    run_invariant_of_steps step_exclusive (exclusive_unused hunused) es hcareful
  intro p q hp hq
  exact hexclusive.holds_unique hp hq

/-! ### Runs -/

/-- An empty directory, and every process alive. -/
def empty : Node := ⟨none, none, fun _ => .idle, fun _ => true⟩

/-- The process runs on, for so many operations. -/
def proceeds (p : ProcessId) (operations : ℕ) : List Event := List.replicate operations (.proceed p)

/-- A process dies with the lock, and another succeeds it. -/
theorem succession_has_one_writer :
    empty.Unused ∧
      ∀ p q, (run step empty ([Event.start 0, .proceed 0, .die 0, .start 1] ++ proceeds 1 7)).Holds p →
        (run step empty ([Event.start 0, .proceed 0, .die 0, .start 1] ++ proceeds 1 7)).Holds q → p = q := by
  refine ⟨fun _ => rfl, single_writer empty (fun _ => rfl) _ ?_⟩
  simp [StepsMeet, Careful, proceeds, List.replicate, empty, step, operate, Node.goTo, liveHolder,
    Function.update]

/-- The first process lets go while the second starts, and the third takes the lock between the
second's reading and its removal. -/
def released : List Event :=
  [Event.start 0, .proceed 0, .start 1, .proceed 1, .drop 0, .proceed 0, .proceed 0] ++ proceeds 1 3 ++
    [Event.start 2, .proceed 2] ++ proceeds 1 3

/-- **A lock read as gone is removed when it is another's.**  Nobody has died, and the second and the
third process both hold the lock. -/
theorem released_lock_taken_twice :
    ¬∀ (n : Node) (es : List Event), n.Unused →
      ∀ p q, (run step n es).Holds p → (run step n es).Holds q → p = q := by
  intro hall
  have hsecond : (run step empty released).Holds 1 := ⟨rfl, .inl rfl⟩
  have hthird : (run step empty released).Holds 2 := ⟨rfl, .inl rfl⟩
  have hsame := hall empty released (fun _ => rfl) 1 2 hsecond hthird
  cases hsame

end Node

end ProcessLock

end HypeLlm.Store
