import Mathlib.Data.List.Induction
import Mathlib.Data.Option.Basic

/-!
# Chains of records

A record names the link of the record before it and has a link of its own.  Walking a list of
records from a head gives the head after them, as long as each record names the head before it.

* `walk_append` — walking two lists one after the other;
* **`walk_unique`** — where links tell contents apart and no link is the first head, two walks that
  end at one head have gone through the same contents.
-/

namespace HypeLlm.HashChain

variable {ρ κ γ : Type*} [DecidableEq κ] (previous link : ρ → κ)

/-- The head after the records, if each names the head before it. -/
def walk : κ → List ρ → Option κ
  | head, [] => some head
  | head, r :: rs => if previous r = head then walk (link r) rs else none

variable {previous link}

@[simp] theorem walk_nil (head : κ) : walk previous link head [] = some head := rfl

theorem walk_append (head : κ) (rs rs' : List ρ) :
    walk previous link head (rs ++ rs') =
      (walk previous link head rs).bind fun head' => walk previous link head' rs' := by
  induction rs generalizing head with
  | nil => rfl
  | cons r rs ih =>
    rw [List.cons_append, walk, walk]
    split
    · exact ih (link r)
    · rfl

theorem walk_snoc_eq_some {head final : κ} {rs : List ρ} {r : ρ} :
    walk previous link head (rs ++ [r]) = some final ↔
      walk previous link head rs = some (previous r) ∧ link r = final := by
  rw [walk_append]
  cases hwalk : walk previous link head rs with
  | none => simp
  | some reached =>
    rw [Option.bind_some, walk, walk_nil]
    by_cases hnames : previous r = reached
    · simp [hnames]
    · simp [hnames, Ne.symm hnames]

/-- The head before a record is the one it names. -/
theorem walk_take {head final : κ} {rs : List ρ} (h : walk previous link head rs = some final) {i : ℕ}
    {r : ρ} (hi : rs[i]? = some r) : walk previous link head (rs.take i) = some (previous r) := by
  induction rs generalizing head i with
  | nil => cases hi
  | cons x xs ih =>
    rw [walk] at h
    split at h
    · rename_i hnames
      cases i with
      | zero =>
        obtain rfl := Option.some.inj hi
        rw [List.take_zero, walk_nil, hnames]
      | succ i =>
        rw [List.take_succ_cons, walk, if_pos hnames]
        exact ih h hi
    · cases h

/-- **A head commits to the contents before it.** -/
theorem walk_unique {content : ρ → γ} {genesis : κ} {rs rs' : List ρ}
    (hprevious : ∀ r r', content r = content r' → previous r = previous r')
    (hlink : ∀ r ∈ rs, ∀ r' ∈ rs', link r = link r' → content r = content r')
    (hgenesis : ∀ r ∈ rs ++ rs', link r ≠ genesis) {final : κ}
    (hwalk : walk previous link genesis rs = some final)
    (hwalk' : walk previous link genesis rs' = some final) :
    rs.map content = rs'.map content := by
  induction rs using List.reverseRecOn generalizing rs' final with
  | nil =>
    -- Nothing but nothing leads back to the first head.
    obtain rfl := Option.some.inj hwalk
    induction rs' using List.reverseRecOn with
    | nil => rfl
    | append_singleton rs' r' =>
      exact absurd (walk_snoc_eq_some.1 hwalk').2 (hgenesis r' (by simp))
  | append_singleton rs r ih =>
    obtain ⟨hbefore, hlast⟩ := walk_snoc_eq_some.1 hwalk
    induction rs' using List.reverseRecOn with
    | nil =>
      obtain rfl := Option.some.inj hwalk'
      exact absurd hlast (hgenesis r (by simp))
    | append_singleton rs' r' =>
      obtain ⟨hbefore', hlast'⟩ := walk_snoc_eq_some.1 hwalk'
      have hsame : content r = content r' :=
        hlink r (by simp) r' (by simp) (hlast.trans hlast'.symm)
      rw [← hprevious r r' hsame] at hbefore'
      have hearlier : rs.map content = rs'.map content := by
        refine ih (fun x hx y hy => hlink x (by simp [hx]) y (by simp [hy])) ?_ hbefore hbefore'
        intro x hx
        refine hgenesis x ?_
        rcases List.mem_append.1 hx with hx | hx
        · simp [hx]
        · simp [hx]
      rw [List.map_append, List.map_append, hearlier, List.map_singleton, List.map_singleton, hsame]

end HypeLlm.HashChain
