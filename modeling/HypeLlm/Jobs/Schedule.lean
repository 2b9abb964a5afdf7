import HypeLlm.Ids
import HypeLlm.Lib.Words

/-!
# Which queued job goes next

A free worker takes a job of the highest priority class that has one due.  Within the class the jobs
that have waited past the reordering bound go first, then those whose model is loaded, then those whose
model is being loaded, then the largest group that waits for one model.  Within each of these steps the
order is *share*: the round of the principal, then that of the tenant, then the order of submission.

* **`pickJob_starving`** — what is picked while a due job has waited past the bound.
-/

namespace HypeLlm.Jobs

/-- How a queued job's model stands. -/
inductive JobClass where
  | warm
  | activating
  /-- Nothing that can serve it runs; the key groups the jobs one activation would serve. -/
  | cold (key : String)
  deriving Repr, DecidableEq

/-- One job a worker could take. -/
structure JobEntry where
  seq : ℕ
  submittedMs : ℕ
  due : Bool
  jobClass : JobClass
  priority : PriorityClass
  principalRound : ℕ
  tenantRound : ℕ
  deriving Repr, DecidableEq

namespace JobEntry

/-- The order within one step. -/
def shareKey (e : JobEntry) : ℕ ×ₗ ℕ ×ₗ ℕ := toLex (e.principalRound, toLex (e.tenantRound, e.seq))

/-- It has waited past the bound. -/
def starving (nowMs maxReorderWaitMs : ℕ) (e : JobEntry) : Bool := maxReorderWaitMs ≤ nowMs - e.submittedMs

end JobEntry

/-- A group of cold jobs: its key, how many there are, and the oldest of them. -/
abbrev ColdGroup := String × ℕ × ℕ

def ColdGroup.add (groups : List ColdGroup) (key : String) (seq : ℕ) : List ColdGroup :=
  if groups.any fun g => g.1 = key then
    groups.map fun g => if g.1 = key then (g.1, g.2.1 + 1, min g.2.2 seq) else g
  else groups ++ [(key, 1, seq)]

/-- The order of the groups: the largest, then the oldest, then by key. -/
def ColdGroup.rank (g : ColdGroup) : ℕᵒᵈ ×ₗ ℕ ×ₗ String := toLex (OrderDual.toDual g.2.1, toLex (g.2.2, g.1))

def coldGroups (due : List (ℕ × JobEntry)) : List ColdGroup :=
  due.foldl (fun groups p =>
    match p.2.jobClass with
    | .cold key => ColdGroup.add groups key p.2.seq
    | _ => groups) []

/-- The first of them in share order. -/
def firstShare (l : List (ℕ × JobEntry)) : Option ℕ := (l.argmin fun p => p.2.shareKey).map Prod.fst

/-- The highest class with a job due. -/
def topClass (entries : List JobEntry) : Option ℕ := ((entries.filter (·.due)).map (·.priority.rank)).min?

/-- The due jobs of a class, with their places. -/
def dueOf (entries : List JobEntry) (top : ℕ) : List (ℕ × JobEntry) :=
  (entries.zipIdx.map Prod.swap).filter fun p => p.2.due && p.2.priority.rank == top

/-- Which job a free worker should take. -/
def pickJob (entries : List JobEntry) (nowMs maxReorderWaitMs : ℕ) : Option ℕ := do
  let top ← topClass entries
  let due := dueOf entries top
  if maxReorderWaitMs = 0 then firstShare due
  else
    (firstShare (due.filter fun p => p.2.starving nowMs maxReorderWaitMs)).or <|
    (firstShare (due.filter fun p => p.2.jobClass == .warm)).or <|
    (firstShare (due.filter fun p => p.2.jobClass == .activating)).or <| do
    let group ← (coldGroups due).argmin ColdGroup.rank
    firstShare (due.filter fun p => p.2.jobClass == .cold group.1)

variable {entries : List JobEntry} {nowMs bound top i : ℕ}

theorem mem_dueOf {p : ℕ × JobEntry} :
    p ∈ dueOf entries top ↔ entries[p.1]? = some p.2 ∧ p.2.due = true ∧ p.2.priority.rank = top := by
  rw [dueOf, List.mem_filter, List.mem_map, Bool.and_eq_true, beq_iff_eq]
  refine and_congr_left fun _ => ?_
  constructor
  · rintro ⟨q, hq, rfl⟩
    exact List.mem_zipIdx_iff_getElem?.1 hq
  · exact fun h => ⟨p.swap, List.mem_zipIdx_iff_getElem?.2 h, rfl⟩

/-- The first in share order is one of them, and none of them is before it. -/
theorem firstShare_eq_some {l : List (ℕ × JobEntry)} (h : firstShare l = some i) :
    ∃ e, (i, e) ∈ l ∧ ∀ p ∈ l, e.shareKey ≤ p.2.shareKey := by
  obtain ⟨⟨j, e⟩, hmin, rfl⟩ := Option.map_eq_some_iff.1 h
  refine ⟨e, List.argmin_mem hmin, fun p hp => ?_⟩
  have hle := List.le_of_mem_argmin (f := fun p : ℕ × JobEntry => p.2.shareKey) hp hmin
  exact hle

theorem firstShare_isSome {l : List (ℕ × JobEntry)} (h : l ≠ []) : (firstShare l).isSome = true := by
  rw [firstShare, Option.isSome_map, Option.isSome_iff_ne_none]
  exact fun hnone => h (List.argmin_eq_none.1 hnone)

/-- No class with a job due is higher than the top class. -/
theorem topClass_le (htop : topClass entries = some top) {e : JobEntry} (he : e ∈ entries)
    (hdue : e.due = true) : top ≤ e.priority.rank := by
  have hmin := (List.min?_eq_some_iff.1 htop).2
  exact hmin _ (List.mem_map.2 ⟨e, List.mem_filter.2 ⟨he, hdue⟩, rfl⟩)

/-- A step of the order picks from the due jobs of the top class. -/
theorem firstShare_filter {q : ℕ × JobEntry → Bool} (h : firstShare ((dueOf entries top).filter q) = some i) :
    ∃ e, (i, e) ∈ dueOf entries top := by
  obtain ⟨e, hmem, -⟩ := firstShare_eq_some h
  exact ⟨e, List.mem_of_mem_filter hmem⟩

/-- **What is picked** is due, and no due job is of a higher class. -/
theorem pickJob_due (hpick : pickJob entries nowMs bound = some i) :
    ∃ top p, topClass entries = some top ∧ (i, p) ∈ dueOf entries top := by
  obtain ⟨top, htop, hpick⟩ := Option.bind_eq_some_iff.1 hpick
  refine ⟨top, ?_⟩
  suffices h : ∃ e, (i, e) ∈ dueOf entries top from ⟨h.choose, htop, h.choose_spec⟩
  simp only at hpick
  split at hpick
  · obtain ⟨e, hmem, -⟩ := firstShare_eq_some hpick
    exact ⟨e, hmem⟩
  · simp only [Option.or_eq_some_iff] at hpick
    rcases hpick with h | ⟨-, h | ⟨-, h | ⟨-, h⟩⟩⟩
    · exact firstShare_filter h
    · exact firstShare_filter h
    · exact firstShare_filter h
    · obtain ⟨group, -, h⟩ := Option.bind_eq_some_iff.1 h
      exact firstShare_filter h

/-- Where a due job of the top class has waited past the bound, one of those is picked. -/
theorem pickJob_top (hbound : bound ≠ 0) (htop : topClass entries = some top) {q : ℕ × JobEntry}
    (hq : q ∈ dueOf entries top) (hstarving : q.2.starving nowMs bound = true)
    (hpick : pickJob entries nowMs bound = some i) :
    firstShare ((dueOf entries top).filter fun p => p.2.starving nowMs bound) = some i := by
  have hne : (dueOf entries top).filter (fun p => p.2.starving nowMs bound) ≠ [] :=
    List.ne_nil_of_mem (List.mem_filter.2 ⟨hq, hstarving⟩)
  obtain ⟨j, hj⟩ := Option.isSome_iff_exists.1 (firstShare_isSome hne)
  simp only [pickJob, htop, Option.bind_some, if_neg hbound, hj, Option.some_or, Option.bind_eq_bind] at hpick
  rw [hj, hpick]

theorem PriorityClass.rank_injective : Function.Injective PriorityClass.rank := by
  intro c d h
  cases c <;> cases d <;> first | rfl | cases h

/-- **What is picked while a due job has waited past the bound**: a job of a higher class, or one of
its class that has waited past the bound too and comes no later in share order. -/
theorem pickJob_starving (hbound : bound ≠ 0) (hpick : pickJob entries nowMs bound = some i) :
    ∃ p, entries[i]? = some p ∧ p.due = true ∧
      ∀ e ∈ entries, e.due = true → e.starving nowMs bound = true →
        p.priority.rank < e.priority.rank ∨
          p.priority = e.priority ∧ p.starving nowMs bound = true ∧ p.shareKey ≤ e.shareKey := by
  obtain ⟨top, p, htop, hp⟩ := pickJob_due hpick
  obtain ⟨hat, hdue, hrank⟩ := mem_dueOf.1 hp
  refine ⟨p, hat, hdue, fun e he hedue hstarving => ?_⟩
  rcases (topClass_le htop he hedue).lt_or_eq with hlt | heq
  · exact .inl (hrank ▸ hlt)
  right
  obtain ⟨j, hj⟩ := List.mem_iff_getElem?.1 he
  have he : (j, e) ∈ dueOf entries top := mem_dueOf.2 ⟨hj, hedue, heq.symm⟩
  obtain ⟨p', hp', hmin⟩ := firstShare_eq_some (pickJob_top hbound htop he hstarving hpick)
  obtain ⟨hp', hpstarving⟩ := List.mem_filter.1 hp'
  have hsame : p' = p := Option.some.inj ((mem_dueOf.1 hp').1.symm.trans hat)
  refine ⟨PriorityClass.rank_injective (hrank.trans heq), hsame ▸ hpstarving, ?_⟩
  exact hsame ▸ hmin (j, e) (List.mem_filter.2 ⟨he, hstarving⟩)

end HypeLlm.Jobs
