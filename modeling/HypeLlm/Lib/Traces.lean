import Mathlib

/-!
# Order in a trace

`NeverAfter P Q l`: in the trace `l` no event of the kind `Q` comes after one of the kind `P`.  A
trace is put together from the traces of its parts, and the lemmas say what each part has to be free
of.  Events are of an arbitrary type.
-/

namespace HypeLlm.Traces

variable {α : Type*} {P Q : α → Prop} {l m : List α}

/-- No `Q` comes after a `P`. -/
def NeverAfter (P Q : α → Prop) (l : List α) : Prop := l.Pairwise fun a b => P a → ¬Q b

instance [DecidablePred P] [DecidablePred Q] : Decidable (NeverAfter P Q l) :=
  inferInstanceAs (Decidable (l.Pairwise fun a b => P a → ¬Q b))

theorem neverAfter_of_no_first (h : ∀ a ∈ l, ¬P a) : NeverAfter P Q l :=
  List.pairwise_iff_forall_sublist.2 fun {a _} hab hP =>
    absurd hP (h a (hab.subset (List.mem_cons_self ..)))

theorem neverAfter_of_no_second (h : ∀ b ∈ l, ¬Q b) : NeverAfter P Q l :=
  List.pairwise_iff_forall_sublist.2 fun {_ b} hab _ => h b (hab.subset (by simp))

/-- **Before the first `P` anything may come.** -/
theorem NeverAfter.prepend (hm : NeverAfter P Q m) (hl : ∀ a ∈ l, ¬P a) : NeverAfter P Q (l ++ m) :=
  List.pairwise_append.2 ⟨neverAfter_of_no_first hl, hm, fun a ha _ _ hP => absurd hP (hl a ha)⟩

/-- **After a `P` everything may come but a `Q`.** -/
theorem NeverAfter.extend (hl : NeverAfter P Q l) (hm : ∀ b ∈ m, ¬Q b) : NeverAfter P Q (l ++ m) :=
  List.pairwise_append.2 ⟨hl, neverAfter_of_no_second hm, fun _ _ b hb _ => hm b hb⟩

end HypeLlm.Traces
