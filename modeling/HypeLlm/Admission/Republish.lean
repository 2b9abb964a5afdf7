import HypeLlm.Admission.Moves
import HypeLlm.Admission.RateBound

/-!
# Publishing limits again

A publication reshapes the buckets of the scopes it reaches and keeps all they have counted.  A bucket
that stays is refilled to the time of the publication at its old rate, its level is cut to the new
capacity and its debt is what the refill has left of it.  So a plan that is published again within the
same instant finds every scope as it would leave it.

* `Scope.Reconfigured` — what a reconfiguration keeps and what it may lower;
* `applyLayer_settles`, `applyLayer_of_settled` — one layer, the first time and again;
* **`republishing_mints_nothing`** — both for every scope and every controller a run reaches.
-/

namespace HypeLlm.Admission

open HypeLlm.Words HypeLlm.Runs HypeLlm.Machine Std

/-! ### Buckets -/

theorem BucketState.retune_retune (s : BucketState) (shape : BucketShape) (nowMs : ℕ) :
    (s.retune shape nowMs).retune shape nowMs = s.retune shape nowMs := by
  have hlast : (s.retune shape nowMs).lastMs = max s.lastMs nowMs := s.lastMs_refill nowMs
  have hfresh : (s.retune shape nowMs).refill nowMs = s.retune shape nowMs := by
    rw [refill, if_pos]
    omega
  rw [retune, hfresh]
  simp only [retune, Nat.min_assoc, Nat.min_self]

theorem BucketState.retune_full (shape : BucketShape) (nowMs : ℕ) :
    (full shape nowMs).retune shape nowMs = full shape nowMs := by
  have hfresh : (full shape nowMs).refill nowMs = full shape nowMs := by
    rw [refill, if_pos]
    exact Nat.sub_self nowMs
  rw [retune, hfresh]
  simp only [full, Nat.min_self]

theorem reshape_reshape (slot : Option TokenBucket) (shape : Option BucketShape) (nowMs : ℕ) :
    reshape (reshape slot shape nowMs) shape nowMs = reshape slot shape nowMs := by
  cases shape with
  | none => cases slot <;> rfl
  | some shape =>
    cases slot with
    | none => exact congrArg some (TokenBucket.ext' (BucketState.retune_full shape nowMs))
    | some b => exact congrArg some (TokenBucket.ext' (b.state.retune_retune shape nowMs))

theorem reshape_full (shape : Option BucketShape) (nowMs : ℕ) :
    reshape (shape.map (TokenBucket.full · nowMs)) shape nowMs = shape.map (TokenBucket.full · nowMs) := by
  cases shape with
  | none => rfl
  | some shape => exact congrArg some (TokenBucket.ext' (BucketState.retune_full shape nowMs))

/-! ### Scopes -/

/-- A bucket that was there and is still there: the level is cut and never raised, and the debt is what
the refill to this time left of it. -/
structure Cut (old new : TokenBucket) (shape : BucketShape) (nowMs : ℕ) : Prop where
  level_le_old : new.state.levelMilli ≤ (old.refill nowMs).state.levelMilli
  level_le_capacity : new.state.levelMilli ≤ shape.capacityMilli
  debt : new.state.debtMilli = (old.refill nowMs).state.debtMilli
  debt_le : new.state.debtMilli ≤ old.state.debtMilli

theorem cut_retune (b : TokenBucket) (shape : BucketShape) (nowMs : ℕ) : Cut b (b.retune shape nowMs) shape nowMs where
  level_le_old := Nat.min_le_left _ _
  level_le_capacity := Nat.min_le_right _ _
  debt := rfl
  debt_le := by
    show (b.state.refill nowMs).debtMilli ≤ b.state.debtMilli
    simp only [BucketState.refill]
    split
    · exact le_rfl
    · exact Nat.sub_le _ _

namespace Scope

/-- A slot after it was reshaped: what was there and is asked for is cut. -/
def SlotCut (old new : Option TokenBucket) (shape : Option BucketShape) (nowMs : ℕ) : Prop :=
  ∀ b, old = some b → match shape with
    | some shape => ∃ b', new = some b' ∧ Cut b b' shape nowMs
    | none => new = none

theorem slotCut_reshape (slot : Option TokenBucket) (shape : Option BucketShape) (nowMs : ℕ) :
    SlotCut slot (reshape slot shape nowMs) shape nowMs := by
  rintro b rfl
  cases shape with
  | none => rfl
  | some shape => exact ⟨_, rfl, cut_retune b shape nowMs⟩

/-- What a reconfiguration does to a scope. -/
structure Reconfigured (limits : ScopeLimits) (nowMs : ℕ) (s s' : Scope) : Prop where
  requestBucket : SlotCut s.requestBucket s'.requestBucket (requestShape limits) nowMs
  tokenBucket : SlotCut s.tokenBucket s'.tokenBucket (tokenShape limits) nowMs
  inFlight : s'.inFlight = s.inFlight
  queue : s'.queue = s.queue
  spent : s'.spent = s.spent
  periodStart : s'.periodStart = s.periodStart
  acquired : s'.acquired = s.acquired
  released : s'.released = s.released

theorem reconfigured (s : Scope) (limits : ScopeLimits) (nowMs : ℕ) :
    Reconfigured limits nowMs s (s.reconfigure limits nowMs) :=
  ⟨slotCut_reshape _ _ _, slotCut_reshape _ _ _, rfl, rfl, rfl, rfl, rfl, rfl⟩

theorem reconfigure_reconfigure (s : Scope) (limits : ScopeLimits) (nowMs : ℕ) :
    (s.reconfigure limits nowMs).reconfigure limits nowMs = s.reconfigure limits nowMs := by
  simp only [reconfigure, reshape_reshape]

theorem reconfigure_new (name : String) (limits : ScopeLimits) (nowMs : ℕ) :
    (new name limits nowMs).reconfigure limits nowMs = new name limits nowMs := by
  simp only [reconfigure, new, reshape_full]

/-- The scope is as these limits leave it at this time. -/
def Fixed (limits : ScopeLimits) (nowMs : ℕ) (s : Scope) : Prop := s.reconfigure limits nowMs = s

end Scope

theorem modify_of_fixed (h : Heap Scope) {i : ScopeRef} {limits : ScopeLimits} {nowMs : ℕ}
    (hfixed : (h.cell i).Fixed limits nowMs) : h.modify i (·.reconfigure limits nowMs) = h := by
  rw [Heap.modify, Heap.set, hfixed, Function.update_eq_self]

/-! ### One layer -/

section Layers

variable {κ : Type} {cmp : κ → κ → Ordering} {name : κ → String}

/-- What the plan says of a key: its own limits, or those of keys it does not name. -/
def limitsFor (planned : TreeMap κ ScopeLimits cmp) (fallback : Option ScopeLimits) (key : κ) : Option ScopeLimits :=
  planned[key]?.or fallback

/-- No two keys of a layer share a scope, and every scope exists. -/
structure Apart (layer : TreeMap κ ScopeRef cmp) (scopes : Heap Scope) : Prop where
  lt : ∀ (key : κ) (i : ScopeRef), layer[key]? = some i → i < scopes.next
  eq_of_ref : ∀ (key key' : κ) (i : ScopeRef), layer[key]? = some i → layer[key']? = some i → key = key'

/-- The layer is as the plan leaves it at this time, for the keys that are done. -/
structure Settled (planned : TreeMap κ ScopeLimits cmp) (fallback : Option ScopeLimits) (nowMs : ℕ)
    (done : κ → Prop) (layer : TreeMap κ ScopeRef cmp) (scopes : Heap Scope) : Prop where
  present : ∀ (key : κ) (limits : ScopeLimits), planned[key]? = some limits → done key →
    ∃ i : ScopeRef, layer[key]? = some i
  named : fallback = none → ∀ (key : κ) (i : ScopeRef), layer[key]? = some i → planned.contains key
  fixed : ∀ (key : κ) (i : ScopeRef) (limits : ScopeLimits), done key → layer[key]? = some i →
    limitsFor planned fallback key = some limits → (scopes.cell i).Fixed limits nowMs

/-- Scopes whose names have another tag are left alone. -/
structure Spares (tag : List Char) (scopes scopes' : Heap Scope) : Prop where
  next_le : scopes.next ≤ scopes'.next
  same : ∀ i < scopes.next, layerTag (scopes.cell i).name ≠ tag → scopes'.cell i = scopes.cell i

theorem Spares.refl (tag : List Char) (scopes : Heap Scope) : Spares tag scopes scopes := ⟨le_rfl, fun _ _ _ => rfl⟩

theorem Spares.trans {tag : List Char} {h h' h'' : Heap Scope} (s : Spares tag h h') (s' : Spares tag h' h'') :
    Spares tag h h'' where
  next_le := s.next_le.trans s'.next_le
  same i hi hname := by
    have hsame := s.same i hi hname
    rw [s'.same i (hi.trans_le s.next_le) (by rwa [hsame]), hsame]

theorem Spares.modify {tag : List Char} (h : Heap Scope) {i : ℕ} (f : Scope → Scope)
    (hname : layerTag (h.cell i).name = tag) : Spares tag h (h.modify i f) where
  next_le := le_rfl
  same j _ hj := by
    rw [Heap.modify_cell, if_neg]
    rintro rfl
    exact hj hname

theorem Spares.fixed {tag : List Char} {h h' : Heap Scope} (s : Spares tag h h') {i : ScopeRef} (hi : i < h.next)
    (hname : layerTag (h.cell i).name ≠ tag) {limits : ScopeLimits} {nowMs : ℕ}
    (hfixed : (h.cell i).Fixed limits nowMs) : (h'.cell i).Fixed limits nowMs := by
  rw [s.same i hi hname]
  exact hfixed

/-- What another layer does leaves a settled layer settled. -/
theorem Settled.spares {tag : List Char} {planned : TreeMap κ ScopeLimits cmp} {fallback : Option ScopeLimits}
    {nowMs : ℕ} {done : κ → Prop} {layer : TreeMap κ ScopeRef cmp} {scopes scopes' : Heap Scope}
    (h : Settled planned fallback nowMs done layer scopes) (hleads : Leads name layer scopes)
    (hs : Spares tag scopes scopes') (hname : ∀ key, layerTag (name key) ≠ tag) :
    Settled planned fallback nowMs done layer scopes' where
  present := h.present
  named := h.named
  fixed key i limits hdone hi hlimits := by
    obtain ⟨hlt, hn⟩ := hleads key i hi
    rw [hs.same i hlt (by rw [hn]; exact hname key)]
    exact h.fixed key i limits hdone hi hlimits

variable {planned : TreeMap κ ScopeLimits cmp} {fallback : Option ScopeLimits} {nowMs : ℕ} {done : κ → Prop}
  {layer : TreeMap κ ScopeRef cmp} {scopes : Heap Scope}

/-! A scope is reconfigured or created, and its key is done. -/

theorem Leads.apart (h : Leads name layer scopes) (hname : Function.Injective name) : Apart layer scopes where
  lt key i hi := (h key i hi).1
  eq_of_ref key key' i hi hi' := hname ((h key i hi).2.symm.trans (h key' i hi').2)

theorem Apart.modify (h : Apart layer scopes) (i : ScopeRef) (f : Scope → Scope) :
    Apart layer (scopes.modify i f) := ⟨h.lt, h.eq_of_ref⟩

theorem Settled.modify (h : Settled planned fallback nowMs done layer scopes) (hapart : Apart layer scopes)
    {key : κ} {i : ScopeRef} {limits : ScopeLimits} (hi : layer[key]? = some i)
    (hlimits : limitsFor planned fallback key = some limits) :
    Settled planned fallback nowMs (fun k => done k ∨ k = key) layer
      (scopes.modify i (·.reconfigure limits nowMs)) where
  present key' limits' hplanned hdone := by
    rcases hdone with hdone | rfl
    · exact h.present key' limits' hplanned hdone
    · exact ⟨i, hi⟩
  named := h.named
  fixed key' j limits' hdone hj hlimits' := by
    rw [Heap.modify_cell]
    split
    · subst j
      obtain rfl := hapart.eq_of_ref key' key i hj hi
      obtain rfl := Option.some.inj (hlimits'.symm.trans hlimits)
      exact Scope.reconfigure_reconfigure _ _ _
    · rename_i hne
      rcases hdone with hdone | rfl
      · exact h.fixed key' j limits' hdone hj hlimits'
      · exact absurd (Option.some.inj (hj.symm.trans hi)) hne

variable [TransCmp cmp] [LawfulEqCmp cmp] [DecidableEq κ]

theorem Apart.alloc (h : Apart layer scopes) (key : κ) (s : Scope) :
    Apart (layer.insert key scopes.next) (scopes.alloc s) where
  lt key' i hi := by
    rw [Maps.getElem?_insert] at hi
    split at hi
    · cases hi
      exact Nat.lt_succ_self _
    · exact Nat.lt_succ_of_lt (h.lt key' i hi)
  eq_of_ref key' key'' i hi hi' := by
    rw [Maps.getElem?_insert] at hi hi'
    split at hi <;> split at hi'
    · exact (by assumption : key' = key).trans (Eq.symm (by assumption))
    · cases hi
      exact absurd (h.lt key'' _ hi') (lt_irrefl _)
    · cases hi'
      exact absurd (h.lt key' _ hi) (lt_irrefl _)
    · exact h.eq_of_ref key' key'' i hi hi'

theorem Settled.alloc (h : Settled planned fallback nowMs done layer scopes) (hapart : Apart layer scopes)
    {key : κ} {limits : ScopeLimits} (hplanned : planned[key]? = some limits) (label : String) :
    Settled planned fallback nowMs (fun k => done k ∨ k = key) (layer.insert key scopes.next)
      (scopes.alloc (.new label limits nowMs)) where
  present key' limits' hplanned' hdone := by
    rw [Maps.getElem?_insert]
    split
    · exact ⟨_, rfl⟩
    · rename_i hne
      exact h.present key' limits' hplanned' (hdone.resolve_right hne)
  named hnone key' i hi := by
    rw [Maps.getElem?_insert] at hi
    split at hi
    · subst key'
      rw [TreeMap.contains_eq_isSome_getElem?, hplanned]
      rfl
    · exact h.named hnone key' i hi
  fixed key' j limits' hdone hj hlimits' := by
    rw [Maps.getElem?_insert] at hj
    split at hj
    · subst key'
      cases hj
      rw [limitsFor, hplanned, Option.some_or] at hlimits'
      cases hlimits'
      rw [Heap.alloc_cell, if_pos rfl]
      exact Scope.reconfigure_new _ _ _
    · rename_i hne
      rw [Heap.alloc_cell, if_neg (hapart.lt key' j hj).ne]
      exact h.fixed key' j limits' (hdone.resolve_right hne) hj hlimits'

/-! A publication finds every key of a layer once. -/

omit [TransCmp cmp] [LawfulEqCmp cmp] [DecidableEq κ] in
theorem Settled.mono (h : Settled planned fallback nowMs done layer scopes) {done' : κ → Prop}
    (hdone : ∀ key, done' key → done key) : Settled planned fallback nowMs done' layer scopes :=
  ⟨fun key limits hp hd => h.present key limits hp (hdone key hd), h.named,
    fun key i limits hd => h.fixed key i limits (hdone key hd)⟩

omit [TransCmp cmp] [LawfulEqCmp cmp] [DecidableEq κ] in
theorem Settled.congr (h : Settled planned fallback nowMs done layer scopes) {layer' : TreeMap κ ScopeRef cmp}
    (hsame : ∀ key : κ, layer'[key]? = layer[key]?) : Settled planned fallback nowMs done layer' scopes where
  present key limits hp hd := by
    rw [hsame]
    exact h.present key limits hp hd
  named hnone key i hi := h.named hnone key i (hsame key ▸ hi)
  fixed key i limits hd hi := h.fixed key i limits hd (hsame key ▸ hi)

omit [LawfulEqCmp cmp] [DecidableEq κ] in
/-- The entries the plan does not name are reconfigured to the fallback, one after the other. -/
theorem reconfigureAll_settles {tag : List Char} (htag : ∀ key, layerTag (name key) = tag) {limits : ScopeLimits}
    (entries : List (κ × ScopeRef)) (hmem : ∀ e ∈ entries, layer[e.1]? = some e.2) (hleads : Leads name layer scopes)
    (hapart : Apart layer scopes) (h : Settled planned (some limits) nowMs done layer scopes) :
    Settled planned (some limits) nowMs (fun key => done key ∨ planned[key]? = none ∧ ∃ e ∈ entries, e.1 = key)
        layer (entries.foldl (fun scopes entry => if planned.contains entry.1 then scopes
          else scopes.modify entry.2 (·.reconfigure limits nowMs)) scopes) ∧
      Spares tag scopes (entries.foldl (fun scopes entry => if planned.contains entry.1 then scopes
          else scopes.modify entry.2 (·.reconfigure limits nowMs)) scopes) := by
  induction entries generalizing done scopes with
  | nil =>
    refine ⟨h.mono ?_, .refl _ _⟩
    rintro key (hk | ⟨-, e, he, -⟩)
    · exact hk
    · exact absurd he List.not_mem_nil
  | cons entry entries ih =>
    have hentry := hmem entry List.mem_cons_self
    have hrest := fun e he => hmem e (List.mem_cons_of_mem _ he)
    rw [List.foldl_cons]
    cases hplanned : planned[entry.1]? with
    | some l =>
      rw [if_pos (by rw [TreeMap.contains_eq_isSome_getElem?, hplanned]; rfl)]
      obtain ⟨hset, hspare⟩ := ih hrest hleads hapart h
      refine ⟨hset.mono ?_, hspare⟩
      rintro key (hk | ⟨hnone, e, he, rfl⟩)
      · exact .inl hk
      · rcases List.mem_cons.1 he with rfl | he
        · cases hplanned.symm.trans hnone
        · exact .inr ⟨hnone, e, he, rfl⟩
    | none =>
      rw [if_neg (by rw [TreeMap.contains_eq_isSome_getElem?, hplanned]; exact Bool.false_ne_true)]
      have hlimits : limitsFor planned (some limits) entry.1 = some limits := by
        rw [limitsFor, hplanned, Option.none_or]
      have hstep : Spares tag scopes (scopes.modify entry.2 (·.reconfigure limits nowMs)) :=
        .modify scopes _ (by rw [(hleads _ _ hentry).2]; exact htag _)
      have hgrow : Leads name layer (scopes.modify entry.2 (·.reconfigure limits nowMs)) :=
        hleads.grow (Heap.Grows.modify Scope.Steady.refl _ _ _ (Scope.reconfigure_quiet _ _ _).toSteady)
      obtain ⟨hset, hspare⟩ := ih hrest hgrow (hapart.modify _ _) (h.modify hapart hentry hlimits)
      refine ⟨hset.mono ?_, hstep.trans hspare⟩
      rintro key (hk | ⟨hnone, e, he, rfl⟩)
      · exact .inl (.inl hk)
      · rcases List.mem_cons.1 he with rfl | he
        · exact .inl (.inr rfl)
        · exact .inr ⟨hnone, e, he, rfl⟩

omit [DecidableEq κ] in
/-- What the first pass leaves: the layer is settled for the keys the plan does not name. -/
theorem retainPlanned_settles {tag : List Char} (planned : TreeMap κ ScopeLimits cmp)
    (fallback : Option ScopeLimits) (nowMs : ℕ) (htag : ∀ key, layerTag (name key) = tag)
    (hleads : Leads name layer scopes) (hapart : Apart layer scopes) :
    Settled planned fallback nowMs (planned[·]? = none) (retainPlanned planned fallback nowMs (layer, scopes)).1
        (retainPlanned planned fallback nowMs (layer, scopes)).2 ∧
      Apart (retainPlanned planned fallback nowMs (layer, scopes)).1
        (retainPlanned planned fallback nowMs (layer, scopes)).2 ∧
      Spares tag scopes (retainPlanned planned fallback nowMs (layer, scopes)).2 := by
  have habsent : ∀ (key : κ) (limits : ScopeLimits), planned[key]? = some limits → ¬planned[key]? = none := by
    intro key limits hsome hnone
    cases hsome.symm.trans hnone
  cases fallback with
  | none =>
    have hfilter : ∀ (key : κ) (i : ScopeRef), (layer.filter fun k _ => planned.contains k)[key]? = some i →
        layer[key]? = some i ∧ planned.contains key := by
      intro key i hi
      rw [TreeMap.getElem?_filter, Option.pfilter_eq_some_iff] at hi
      obtain ⟨hsome, hkeep⟩ := hi
      exact ⟨hsome, by simpa using hkeep⟩
    refine ⟨⟨fun key limits h h' => absurd h' (habsent key limits h), fun _ key i hi => (hfilter key i hi).2,
      fun key i limits hnone _ hlimits => ?_⟩, ⟨fun key i hi => hapart.lt key i (hfilter key i hi).1,
      fun key key' i hi hi' => hapart.eq_of_ref key key' i (hfilter key i hi).1 (hfilter key' i hi').1⟩, .refl _ _⟩
    rw [limitsFor, hnone] at hlimits
    cases hlimits
  | some limits =>
    obtain ⟨hset, hspare⟩ := reconfigureAll_settles htag layer.toList
      (fun e he => TreeMap.mem_toList_iff_getElem?_eq_some.mp he) hleads hapart
      (⟨fun _ _ _ h => h.elim, (fun h => nomatch h), fun _ _ _ h => h.elim⟩ :
        Settled planned (some limits) nowMs (fun _ => False) layer scopes)
    refine ⟨⟨fun key l hp hd => absurd hd (habsent key l hp), (fun h => nomatch h), fun key i l hd hi => ?_⟩,
      ⟨fun key i hi => (hapart.lt key i hi).trans_le hspare.next_le, hapart.eq_of_ref⟩, hspare⟩
    exact hset.fixed key i l (.inr ⟨hd, (key, i), TreeMap.mem_toList_iff_getElem?_eq_some.mpr hi, rfl⟩) hi

/-- The second pass: every planned key is reconfigured or created. -/
theorem applyAll_settles {tag : List Char} {keepsAll : Bool} (htag : ∀ key, layerTag (name key) = tag)
    (hleads : Leads name layer scopes) (entries : List (κ × ScopeLimits))
    (hmem : ∀ e ∈ entries, planned[e.1]? = some e.2) (out : TreeMap κ ScopeRef cmp × Heap Scope)
    (happlied : LayerApplied planned keepsAll name layer scopes out) (hapart : Apart out.1 out.2)
    (h : Settled planned fallback nowMs done out.1 out.2) :
    Settled planned fallback nowMs (fun key => done key ∨ ∃ e ∈ entries, e.1 = key)
        (entries.foldl (applyEntry name nowMs) out).1 (entries.foldl (applyEntry name nowMs) out).2 ∧
      Apart (entries.foldl (applyEntry name nowMs) out).1 (entries.foldl (applyEntry name nowMs) out).2 ∧
      Spares tag out.2 (entries.foldl (applyEntry name nowMs) out).2 := by
  induction entries generalizing done out with
  | nil => exact ⟨h.mono fun key hk => hk.resolve_right (by simp), hapart, .refl _ _⟩
  | cons entry entries ih =>
    have hentry := hmem entry List.mem_cons_self
    have hnext := applyEntry_applied happlied nowMs entry
      (by rw [TreeMap.contains_eq_isSome_getElem?, hentry]; rfl)
    have hlimits : limitsFor planned fallback entry.1 = some entry.2 := by
      rw [limitsFor, hentry, Option.some_or]
    have hstep : Settled planned fallback nowMs (fun k => done k ∨ k = entry.1) (applyEntry name nowMs out entry).1
          (applyEntry name nowMs out entry).2 ∧
        Apart (applyEntry name nowMs out entry).1 (applyEntry name nowMs out entry).2 ∧
        Spares tag out.2 (applyEntry name nowMs out entry).2 := by
      simp only [applyEntry]
      split
      · rename_i i hi
        refine ⟨h.modify hapart hi hlimits, hapart.modify i (·.reconfigure entry.2 nowMs), ?_⟩
        show Spares tag out.2 (out.2.modify i (·.reconfigure entry.2 nowMs))
        refine .modify out.2 _ ?_
        rw [((happlied.leads hleads) _ _ hi).2]
        exact htag _
      · refine ⟨h.alloc hapart hentry _, hapart.alloc _ _, Nat.le_succ _, fun i hi _ => ?_⟩
        rw [Heap.alloc_cell, if_neg hi.ne]
    obtain ⟨hset, hapart', hspare⟩ := hstep
    obtain ⟨hset', hapart'', hspare'⟩ := ih (fun e he => hmem e (List.mem_cons_of_mem _ he)) _ hnext hapart' hset
    refine ⟨hset'.mono ?_, hapart'', hspare.trans hspare'⟩
    rintro key (hk | ⟨e, he, rfl⟩)
    · exact .inl (.inl hk)
    · rcases List.mem_cons.1 he with rfl | he
      · exact .inl (.inr rfl)
      · exact .inr ⟨e, he, rfl⟩

variable (name) in
/-- **A publication leaves a layer settled**, and the scopes of the other layers alone. -/
theorem applyLayer_settles {tag : List Char} (htag : ∀ key, layerTag (name key) = tag)
    (planned : TreeMap κ ScopeLimits cmp) (fallback : Option ScopeLimits) (nowMs : ℕ)
    (hleads : Leads name layer scopes) (hapart : Apart layer scopes) :
    Settled planned fallback nowMs (fun _ => True) (applyLayer planned fallback name nowMs (layer, scopes)).1
        (applyLayer planned fallback name nowMs (layer, scopes)).2 ∧
      Apart (applyLayer planned fallback name nowMs (layer, scopes)).1
        (applyLayer planned fallback name nowMs (layer, scopes)).2 ∧
      Spares tag scopes (applyLayer planned fallback name nowMs (layer, scopes)).2 := by
  obtain ⟨hset, hapart', hspare⟩ := retainPlanned_settles planned fallback nowMs htag hleads hapart
  obtain ⟨hset', hapart'', hspare'⟩ := applyAll_settles htag hleads planned.toList
    (fun e he => TreeMap.mem_toList_iff_getElem?_eq_some.mp he) _
    (retainPlanned_applied planned fallback nowMs layer scopes) hapart' hset
  refine ⟨hset'.mono fun key _ => ?_, hapart'', hspare.trans hspare'⟩
  cases hplanned : planned[key]? with
  | none => exact .inl rfl
  | some limits => exact .inr ⟨(key, limits), TreeMap.mem_toList_iff_getElem?_eq_some.mpr hplanned, rfl⟩

omit [DecidableEq κ] in
/-- **A settled layer is left as it is.** -/
theorem applyLayer_of_settled (h : Settled planned fallback nowMs (fun _ => True) layer scopes) :
    (∀ key : κ, (applyLayer planned fallback name nowMs (layer, scopes)).1[key]? = layer[key]?) ∧
      (applyLayer planned fallback name nowMs (layer, scopes)).2 = scopes := by
  have hretain : (∀ key : κ, (retainPlanned planned fallback nowMs (layer, scopes)).1[key]? = layer[key]?) ∧
      (retainPlanned planned fallback nowMs (layer, scopes)).2 = scopes := by
    cases fallback with
    | none =>
      refine ⟨fun key => ?_, rfl⟩
      show (layer.filter fun k _ => planned.contains k)[key]? = layer[key]?
      ext i
      rw [TreeMap.getElem?_filter, Option.pfilter_eq_some_iff]
      exact ⟨fun hi => hi.1, fun hi => ⟨hi, by simpa using h.named rfl key i hi⟩⟩
    | some limits =>
      have hfold : ∀ entries : List (κ × ScopeRef), (∀ e ∈ entries, layer[e.1]? = some e.2) →
          entries.foldl (fun scopes entry => if planned.contains entry.1 then scopes
            else scopes.modify entry.2 (·.reconfigure limits nowMs)) scopes = scopes := by
        intro entries
        induction entries with
        | nil => exact fun _ => rfl
        | cons entry entries ih =>
          intro hmem
          have hrest := ih fun e he => hmem e (List.mem_cons_of_mem _ he)
          rw [List.foldl_cons]
          split
          · exact hrest
          · rename_i hcontains
            have hnone : planned[entry.1]? = none := by
              rw [TreeMap.contains_eq_isSome_getElem?, Bool.not_eq_true, Option.isSome_eq_false_iff,
                Option.isNone_iff_eq_none] at hcontains
              exact hcontains
            have hsame := h.fixed entry.1 entry.2 limits trivial (hmem entry List.mem_cons_self)
              (by rw [limitsFor, hnone, Option.none_or])
            rw [modify_of_fixed scopes hsame]
            exact hrest
      exact ⟨fun _ => rfl, hfold _ fun e he => TreeMap.mem_toList_iff_getElem?_eq_some.mp he⟩
  have hfold : ∀ (entries : List (κ × ScopeLimits)), (∀ e ∈ entries, planned[e.1]? = some e.2) →
      entries.foldl (applyEntry name nowMs) (retainPlanned planned fallback nowMs (layer, scopes)) =
        retainPlanned planned fallback nowMs (layer, scopes) := by
    intro entries
    induction entries with
    | nil => exact fun _ => rfl
    | cons entry entries ih =>
      intro hmem
      have hentry := hmem entry List.mem_cons_self
      obtain ⟨i, hi⟩ := h.present entry.1 entry.2 hentry trivial
      have hsame := h.fixed entry.1 i entry.2 trivial hi (by rw [limitsFor, hentry, Option.some_or])
      have hstep : applyEntry name nowMs (retainPlanned planned fallback nowMs (layer, scopes)) entry =
          retainPlanned planned fallback nowMs (layer, scopes) := by
        rw [← hretain.1] at hi
        rw [← hretain.2] at hsame
        simp only [applyEntry, hi]
        rw [modify_of_fixed _ hsame]
      rw [List.foldl_cons, hstep]
      exact ih fun e he => hmem e (List.mem_cons_of_mem _ he)
  rw [applyLayer, hfold _ fun e he => TreeMap.mem_toList_iff_getElem?_eq_some.mp he]
  exact hretain

end Layers

/-! ### Machines -/

/-- A ledger with this capacity, but for the count of its changes. -/
def booksWith (m : MachineLedger) (bytes : ℕ) : MachineLedger :=
  { m with state := { m.state with capacityBytes := bytes, changes := 0 } }

/-- A ledger but for the count of its changes, which tells the waiters to look again. -/
def books (m : MachineLedger) : MachineLedger := booksWith m m.state.capacityBytes

/-- What the last of the entries that lead to a ledger says of its capacity. -/
def lastBytes (machines : TreeMap String LedgerRef compare) (entries : List (String × ℕ)) (i : LedgerRef) : Option ℕ :=
  (entries.reverse.find? fun entry => machines[entry.1]? = some i).map Prod.snd

theorem lastBytes_cons (machines : TreeMap String LedgerRef compare) (entry : String × ℕ)
    (entries : List (String × ℕ)) (i : LedgerRef) :
    lastBytes machines (entry :: entries) i =
      (lastBytes machines entries i).or (if machines[entry.1]? = some i then some entry.2 else none) := by
  rw [lastBytes, List.reverse_cons, List.find?_append, Option.map_or, lastBytes]
  congr 1
  by_cases h : machines[entry.1]? = some i
  · rw [if_pos h, List.find?_cons_of_pos (by simpa using h)]
    rfl
  · rw [if_neg h, List.find?_cons_of_neg (by simpa using h)]
    rfl

/-- Every planned machine gets a ledger, and every ledger the capacity that was written last. -/
theorem configureAll (entries : List (String × ℕ)) (out : TreeMap String LedgerRef compare × Heap MachineLedger) :
    (∀ (id : String) (i : LedgerRef), out.1[id]? = some i → (entries.foldl Controller.configureMachine out).1[id]? = some i) ∧
      (∀ e ∈ entries, ∃ i : LedgerRef, (entries.foldl Controller.configureMachine out).1[e.1]? = some i) ∧
      (∀ (id : String) (i : LedgerRef), (entries.foldl Controller.configureMachine out).1[id]? = some i →
        out.1[id]? = some i ∨ id ∈ entries.map Prod.fst) ∧
      ∀ i, ((entries.foldl Controller.configureMachine out).2.cell i).state.capacityBytes =
        (lastBytes (entries.foldl Controller.configureMachine out).1 entries i).getD
          (out.2.cell i).state.capacityBytes := by
  induction entries generalizing out with
  | nil => exact ⟨fun _ _ h => h, fun _ h => absurd h List.not_mem_nil, fun _ _ h => .inl h, fun _ => rfl⟩
  | cons entry entries ih =>
    -- The entry's own ledger: what it is called by now, and its capacity.
    obtain ⟨j, hj, hkeep, hback, hcell⟩ : ∃ j : LedgerRef, (Controller.configureMachine out entry).1[entry.1]? = some j ∧
        (∀ (id : String) (i : LedgerRef), out.1[id]? = some i → (Controller.configureMachine out entry).1[id]? = some i) ∧
        (∀ (id : String) (i : LedgerRef), (Controller.configureMachine out entry).1[id]? = some i →
          out.1[id]? = some i ∨ id = entry.1) ∧
        ∀ i, ((Controller.configureMachine out entry).2.cell i).state.capacityBytes =
          if i = j then entry.2 else (out.2.cell i).state.capacityBytes := by
      simp only [Controller.configureMachine]
      split
      · rename_i j hj
        refine ⟨j, hj, fun _ _ h => h, fun _ _ h => .inl h, fun i => ?_⟩
        rw [Heap.modify_cell]
        split <;> rfl
      · rename_i hnone
        refine ⟨out.2.next, ?_, fun id i hi => ?_, fun id i hi => ?_, fun i => ?_⟩
        · rw [Maps.getElem?_insert, if_pos rfl]
        · rw [Maps.getElem?_insert, if_neg]
          · exact hi
          · rintro rfl
            cases hnone.symm.trans hi
        · rw [Maps.getElem?_insert] at hi
          split at hi
          · exact .inr (by assumption)
          · exact .inl hi
        · rw [Heap.alloc_cell]
          split <;> rfl
    obtain ⟨ihkeep, ihall, ihback, ihcell⟩ := ih (Controller.configureMachine out entry)
    rw [List.foldl_cons]
    refine ⟨fun id i hi => ihkeep id i (hkeep id i hi), fun e he => ?_, fun id i hi => ?_, fun i => ?_⟩
    · rcases List.mem_cons.1 he with rfl | he
      · exact ⟨j, ihkeep _ _ hj⟩
      · exact ihall e he
    · rcases ihback id i hi with hold | hmem
      · rcases hback id i hold with hold | rfl
        · exact .inl hold
        · exact .inr List.mem_cons_self
      · exact .inr (List.mem_cons_of_mem _ hmem)
    · rw [ihcell, lastBytes_cons, hcell, ihkeep _ _ hj]
      cases lastBytes (entries.foldl Controller.configureMachine (Controller.configureMachine out entry)).1 entries i with
      | some b => rfl
      | none =>
        by_cases hij : i = j
        · rw [if_pos hij, if_pos (congrArg some hij.symm)]
          rfl
        · rw [if_neg hij, if_neg fun h => hij (Option.some.inj h).symm]
          rfl

/-- Ledgers that are there keep all but the capacity that is written last. -/
theorem configureAll_present (entries : List (String × ℕ)) (machines : TreeMap String LedgerRef compare)
    (h : Heap MachineLedger) (hpresent : ∀ e ∈ entries, ∃ i : LedgerRef, machines[e.1]? = some i) :
    (entries.foldl Controller.configureMachine (machines, h)).1 = machines ∧
      (entries.foldl Controller.configureMachine (machines, h)).2.next = h.next ∧
      ∀ i, books ((entries.foldl Controller.configureMachine (machines, h)).2.cell i) =
        booksWith (h.cell i) ((lastBytes machines entries i).getD (h.cell i).state.capacityBytes) := by
  induction entries generalizing h with
  | nil => exact ⟨rfl, rfl, fun _ => rfl⟩
  | cons entry entries ih =>
    obtain ⟨j, hj⟩ := hpresent entry List.mem_cons_self
    have hstep : Controller.configureMachine (machines, h) entry = (machines, h.modify j (·.reconfigure entry.2)) := by
      simp only [Controller.configureMachine, hj]
    rw [List.foldl_cons, hstep]
    obtain ⟨hmap, hnext, hcell⟩ := ih (h.modify j (·.reconfigure entry.2))
      fun e he => hpresent e (List.mem_cons_of_mem _ he)
    refine ⟨hmap, hnext, fun i => ?_⟩
    rw [hcell, lastBytes_cons, hj, Heap.modify_cell]
    by_cases hij : i = j
    · rw [if_pos hij, if_pos (congrArg some hij.symm)]
      cases lastBytes machines entries i <;> rfl
    · rw [if_neg hij, if_neg fun h' => hij (Option.some.inj h').symm, Option.or_none]

namespace Controller

/-! ### Controllers -/

/-- Two controllers a caller cannot tell apart: the same scopes and the same ledgers under the same keys. -/
structure Same (c c' : Controller) : Prop where
  scopes : c'.scopes = c.scopes
  ledgersNext : c'.ledgers.next = c.ledgers.next
  ledgers : ∀ i, books (c'.ledgers.cell i) = books (c.ledgers.cell i)
  global : c'.global = c.global
  tenants : ∀ tenant : TenantId, c'.tenants[tenant]? = c.tenants[tenant]?
  principals : ∀ principal : PrincipalId, c'.principals[principal]? = c.principals[principal]?
  targets : ∀ target : TargetId, c'.targets[target]? = c.targets[target]?
  aliases : ∀ key : AliasKey, c'.aliases[key]? = c.aliases[key]?
  inboundBytes : c'.inboundBytes = c.inboundBytes
  outboundBytes : c'.outboundBytes = c.outboundBytes
  defaultTenantLimits : c'.defaultTenantLimits = c.defaultTenantLimits
  defaultPrincipalLimits : c'.defaultPrincipalLimits = c.defaultPrincipalLimits
  classes : c'.classes = c.classes
  machines : ∀ id : String, c'.machines[id]? = c.machines[id]?
  targetMemory : c'.targetMemory = c.targetMemory
  nextWait : c'.nextWait = c.nextWait

theorem Same.refl (c : Controller) : Same c c :=
  ⟨rfl, rfl, fun _ => rfl, rfl, fun _ => rfl, fun _ => rfl, fun _ => rfl, fun _ => rfl, rfl, rfl, rfl, rfl, rfl,
    fun _ => rfl, rfl, rfl⟩

theorem Same.trans {c c' c'' : Controller} (h : Same c c') (h' : Same c' c'') : Same c c'' where
  scopes := h'.scopes.trans h.scopes
  ledgersNext := h'.ledgersNext.trans h.ledgersNext
  ledgers i := (h'.ledgers i).trans (h.ledgers i)
  global := h'.global.trans h.global
  tenants key := (h'.tenants key).trans (h.tenants key)
  principals key := (h'.principals key).trans (h.principals key)
  targets key := (h'.targets key).trans (h.targets key)
  aliases key := (h'.aliases key).trans (h.aliases key)
  inboundBytes := h'.inboundBytes.trans h.inboundBytes
  outboundBytes := h'.outboundBytes.trans h.outboundBytes
  defaultTenantLimits := h'.defaultTenantLimits.trans h.defaultTenantLimits
  defaultPrincipalLimits := h'.defaultPrincipalLimits.trans h.defaultPrincipalLimits
  classes := h'.classes.trans h.classes
  machines id := (h'.machines id).trans (h.machines id)
  targetMemory := h'.targetMemory.trans h.targetMemory
  nextWait := h'.nextWait.trans h.nextWait

/-- The controller is as this plan leaves it at this time. -/
structure AsPublished (plan : AdmissionPlan) (nowMs : ℕ) (c : Controller) : Prop where
  global : (c.scopes.cell c.global).Fixed plan.global nowMs
  inboundBytes : reshape c.inboundBytes (byteShape plan.byteRates.inputPerSecond plan.byteRates.inputBurst) nowMs =
    c.inboundBytes
  outboundBytes : reshape c.outboundBytes (byteShape plan.byteRates.outputPerSecond plan.byteRates.outputBurst) nowMs =
    c.outboundBytes
  tenants : Settled plan.tenants (some c.defaultTenantLimits) nowMs (fun _ => True) c.tenants c.scopes
  principals : Settled plan.principals (some c.defaultPrincipalLimits) nowMs (fun _ => True) c.principals c.scopes
  targets : Settled plan.targets none nowMs (fun _ => True) c.targets c.scopes
  aliases : Settled plan.aliases none nowMs (fun _ => True) c.aliases c.scopes
  classes : c.classes = plan.classes
  planned : ∀ (id : String) (i : LedgerRef), c.machines[id]? = some i → plan.machines.contains id
  machines : ∀ e ∈ plan.machines.toList, ∃ i : LedgerRef, c.machines[e.1]? = some i
  bytes : ∀ i bytes, lastBytes c.machines plan.machines.toList i = some bytes →
    (c.ledgers.cell i).state.capacityBytes = bytes
  targetMemory : c.targetMemory = plan.targetMemory

theorem AsPublished.same {plan : AdmissionPlan} {nowMs : ℕ} {c c' : Controller} (h : AsPublished plan nowMs c)
    (hsame : Same c c') : AsPublished plan nowMs c' where
  global := by
    rw [hsame.scopes, hsame.global]
    exact h.global
  inboundBytes := by
    rw [hsame.inboundBytes]
    exact h.inboundBytes
  outboundBytes := by
    rw [hsame.outboundBytes]
    exact h.outboundBytes
  tenants := by
    rw [hsame.scopes, hsame.defaultTenantLimits]
    exact h.tenants.congr hsame.tenants
  principals := by
    rw [hsame.scopes, hsame.defaultPrincipalLimits]
    exact h.principals.congr hsame.principals
  targets := by
    rw [hsame.scopes]
    exact h.targets.congr hsame.targets
  aliases := by
    rw [hsame.scopes]
    exact h.aliases.congr hsame.aliases
  classes := hsame.classes.trans h.classes
  planned id i hi := h.planned id i (hsame.machines id ▸ hi)
  machines e he := by
    rw [hsame.machines]
    exact h.machines e he
  bytes i bytes hlast := by
    simp only [lastBytes, hsame.machines] at hlast
    have hbooks := congrArg (·.state.capacityBytes) (hsame.ledgers i)
    exact hbooks.trans (h.bytes i bytes hlast)
  targetMemory := hsame.targetMemory.trans h.targetMemory

section Again

variable {plan : AdmissionPlan} {nowMs : ℕ} {c : Controller}

theorem reconfigureGlobal_same (h : AsPublished plan nowMs c) : Same c (c.reconfigureGlobal plan.global nowMs) := by
  rw [reconfigureGlobal, modify_of_fixed c.scopes h.global]
  exact .refl c

theorem reshapeBytes_same (h : AsPublished plan nowMs c) : Same c (c.reshapeBytes plan.byteRates nowMs) := by
  rw [reshapeBytes, h.inboundBytes, h.outboundBytes]
  exact .refl c

theorem applyTenants_same (h : AsPublished plan nowMs c) : Same c (c.applyTenants plan.tenants nowMs) := by
  obtain ⟨hlookup, hscopes⟩ := applyLayer_of_settled h.tenants
  exact { Same.refl c with scopes := hscopes, tenants := hlookup }

theorem applyPrincipals_same (h : AsPublished plan nowMs c) : Same c (c.applyPrincipals plan.principals nowMs) := by
  obtain ⟨hlookup, hscopes⟩ := applyLayer_of_settled h.principals
  exact { Same.refl c with scopes := hscopes, principals := hlookup }

theorem applyTargets_same (h : AsPublished plan nowMs c) : Same c (c.applyTargets plan.targets nowMs) := by
  obtain ⟨hlookup, hscopes⟩ := applyLayer_of_settled h.targets
  exact { Same.refl c with scopes := hscopes, targets := hlookup }

theorem applyAliases_same (h : AsPublished plan nowMs c) : Same c (c.applyAliases plan.aliases nowMs) := by
  obtain ⟨hlookup, hscopes⟩ := applyLayer_of_settled h.aliases
  exact { Same.refl c with scopes := hscopes, aliases := hlookup }

theorem replaceClasses_same (h : AsPublished plan nowMs c) : Same c (c.replaceClasses plan.classes) :=
  { Same.refl c with classes := h.classes.symm }

theorem configureMachines_same (h : AsPublished plan nowMs c) : Same c (c.configureMachines plan) := by
  have hfilter : ∀ id : String, (c.machines.filter fun id _ => plan.machines.contains id)[id]? = c.machines[id]? := by
    intro id
    ext i
    rw [TreeMap.getElem?_filter, Option.pfilter_eq_some_iff]
    exact ⟨fun hi => hi.1, fun hi => ⟨hi, by simpa using h.planned id i hi⟩⟩
  obtain ⟨hmap, hnext, hcell⟩ := configureAll_present plan.machines.toList
    (c.machines.filter fun id _ => plan.machines.contains id) c.ledgers fun e he => by
      rw [hfilter]
      exact h.machines e he
  refine { Same.refl c with
    ledgersNext := hnext, ledgers := fun i => ?_, machines := fun id => ?_, targetMemory := h.targetMemory.symm }
  · refine (hcell i).trans ?_
    have hlast : lastBytes (c.machines.filter fun id _ => plan.machines.contains id) plan.machines.toList i =
        lastBytes c.machines plan.machines.toList i := by
      simp only [lastBytes, hfilter]
    rw [hlast]
    cases hlast : lastBytes c.machines plan.machines.toList i with
    | none => rfl
    | some bytes =>
      rw [Option.getD_some, ← h.bytes i bytes hlast]
      rfl
  · exact (congrArg (fun m : TreeMap String LedgerRef compare => m[id]?) hmap).trans (hfilter id)

/-- **A controller that is as the plan leaves it stays as it is.** -/
theorem apply_same (h : AsPublished plan nowMs c) : Same c (c.apply plan nowMs) := by
  have s₁ := reconfigureGlobal_same h
  have s₂ := s₁.trans (reshapeBytes_same (h.same s₁))
  have s₃ := s₂.trans (applyTenants_same (h.same s₂))
  have s₄ := s₃.trans (applyPrincipals_same (h.same s₃))
  have s₅ := s₄.trans (applyTargets_same (h.same s₄))
  have s₆ := s₅.trans (applyAliases_same (h.same s₅))
  have s₇ := s₆.trans (replaceClasses_same (h.same s₆))
  exact s₇.trans (configureMachines_same (h.same s₇))

end Again

section Once

variable {c : Controller}

theorem tenantName_injective : Function.Injective tenantName := fun _ _ h => (String.append_right_inj _).mp h

theorem principalName_injective : Function.Injective principalName := fun _ _ h => (String.append_right_inj _).mp h

theorem targetName_injective : Function.Injective targetName := fun _ _ h => (String.append_right_inj _).mp h

/-- The maps lead to named scopes, and no two aliases share one. -/
structure Tidy (c : Controller) : Prop extends Wired c where
  apart : Apart c.aliases c.scopes

theorem Extends.tidy {c c' : Controller} (h : Extends c c') (ht : Tidy c) : Tidy c' := by
  have hw := h.wired ht.toWired
  refine ⟨hw, fun key i hi => (hw.aliases key i hi).1, fun key key' i hi hi' => ?_⟩
  rw [h.aliases] at hi hi'
  exact ht.apart.eq_of_ref key key' i hi hi'

theorem reconfigureGlobal_tidy (h : Tidy c) (plan : AdmissionPlan) (nowMs : ℕ) :
    Tidy ((c.reconfigureGlobal plan.global nowMs).reshapeBytes plan.byteRates nowMs) := by
  have hextends : Extends c ((c.reconfigureGlobal plan.global nowMs).reshapeBytes plan.byteRates nowMs) :=
    .of_scopes rfl (c.reconfigureGlobal_quiet plan.global nowMs).steady
  exact hextends.tidy h

theorem reconfigureGlobal_fixed (c : Controller) (limits : ScopeLimits) (nowMs : ℕ) :
    ((c.reconfigureGlobal limits nowMs).scopes.cell c.global).Fixed limits nowMs := by
  show ((c.scopes.modify c.global (·.reconfigure limits nowMs)).cell c.global).Fixed limits nowMs
  rw [Heap.modify_cell, if_pos rfl]
  exact Scope.reconfigure_reconfigure _ _ _

theorem applyTenants_settles (h : Tidy c) (planned : TreeMap TenantId ScopeLimits compare) (nowMs : ℕ) :
    Settled planned (some c.defaultTenantLimits) nowMs (fun _ => True) (c.applyTenants planned nowMs).tenants
        (c.applyTenants planned nowMs).scopes ∧
      Spares ['t', 'e'] c.scopes (c.applyTenants planned nowMs).scopes ∧ Tidy (c.applyTenants planned nowMs) := by
  obtain ⟨hset, -, hspare⟩ := applyLayer_settles tenantName layerTag_tenant planned (some c.defaultTenantLimits)
    nowMs h.tenants (h.tenants.apart tenantName_injective)
  exact ⟨hset, hspare, (c.applyTenants_extends planned nowMs).tidy h⟩

theorem applyPrincipals_settles (h : Tidy c) (planned : TreeMap PrincipalId ScopeLimits compare) (nowMs : ℕ) :
    Settled planned (some c.defaultPrincipalLimits) nowMs (fun _ => True) (c.applyPrincipals planned nowMs).principals
        (c.applyPrincipals planned nowMs).scopes ∧
      Spares ['p', 'r'] c.scopes (c.applyPrincipals planned nowMs).scopes ∧
      Tidy (c.applyPrincipals planned nowMs) := by
  obtain ⟨hset, -, hspare⟩ := applyLayer_settles principalName layerTag_principal planned
    (some c.defaultPrincipalLimits) nowMs h.principals (h.principals.apart principalName_injective)
  exact ⟨hset, hspare, (c.applyPrincipals_extends planned nowMs).tidy h⟩

theorem applyTargets_settles (h : Tidy c) (planned : TreeMap TargetId ScopeLimits compare) (nowMs : ℕ) :
    Settled planned none nowMs (fun _ => True) (c.applyTargets planned nowMs).targets
        (c.applyTargets planned nowMs).scopes ∧
      Spares ['t', 'a'] c.scopes (c.applyTargets planned nowMs).scopes ∧ Tidy (c.applyTargets planned nowMs) := by
  obtain ⟨hset, -, hspare⟩ := applyLayer_settles targetName layerTag_target planned none nowMs h.targets
    (h.targets.apart targetName_injective)
  have happlied := applyLayer_applied targetName planned none nowMs c.targets c.scopes
  have hsteady := happlied.quiet.steady
  exact ⟨hset, hspare, ⟨h.global_lt.trans_le hsteady.next_le, (hsteady.old _ h.global_lt).name.trans h.global_name,
    h.tenants.grow hsteady, h.principals.grow hsteady, happlied.leads h.targets, h.aliases.grow hsteady⟩,
    fun key i hi => (h.apart.lt key i hi).trans_le hsteady.next_le, h.apart.eq_of_ref⟩

theorem applyAliases_settles (h : Tidy c) (planned : TreeMap AliasKey ScopeLimits AliasKey.order) (nowMs : ℕ) :
    Settled planned none nowMs (fun _ => True) (c.applyAliases planned nowMs).aliases
        (c.applyAliases planned nowMs).scopes ∧
      Spares ['a', 'l'] c.scopes (c.applyAliases planned nowMs).scopes ∧ Tidy (c.applyAliases planned nowMs) := by
  obtain ⟨hset, hapart, hspare⟩ := applyLayer_settles aliasName layerTag_alias planned none nowMs h.aliases h.apart
  have happlied := applyLayer_applied aliasName planned none nowMs c.aliases c.scopes
  have hsteady := happlied.quiet.steady
  exact ⟨hset, hspare, ⟨h.global_lt.trans_le hsteady.next_le, (hsteady.old _ h.global_lt).name.trans h.global_name,
    h.tenants.grow hsteady, h.principals.grow hsteady, h.targets.grow hsteady, happlied.leads h.aliases⟩, hapart⟩

/-- **What a publication leaves.** -/
theorem apply_asPublished (h : Tidy c) (plan : AdmissionPlan) (nowMs : ℕ) :
    AsPublished plan nowMs (c.apply plan nowMs) ∧ Tidy (c.apply plan nowMs) := by
  -- The layers one after the other; each leaves the scopes of the others alone.
  have t₁ := reconfigureGlobal_tidy h plan nowMs
  have g₁ := c.reconfigureGlobal_fixed plan.global nowMs
  obtain ⟨tenants₂, spares₂, t₂⟩ := applyTenants_settles t₁ plan.tenants nowMs
  obtain ⟨principals₃, spares₃, t₃⟩ := applyPrincipals_settles t₂ plan.principals nowMs
  obtain ⟨targets₄, spares₄, t₄⟩ := applyTargets_settles t₃ plan.targets nowMs
  obtain ⟨aliases₅, spares₅, t₅⟩ := applyAliases_settles t₄ plan.aliases nowMs
  have g₂ := spares₂.fixed t₁.global_lt (by rw [t₁.global_name]; decide) g₁
  have g₃ := spares₃.fixed t₂.global_lt (by rw [t₂.global_name]; decide) g₂
  have g₄ := spares₄.fixed t₃.global_lt (by rw [t₃.global_name]; decide) g₃
  have g₅ := spares₅.fixed t₄.global_lt (by rw [t₄.global_name]; decide) g₄
  have tenants₃ := tenants₂.spares t₂.tenants spares₃ (by simp)
  have tenants₄ := tenants₃.spares t₃.tenants spares₄ (by simp)
  have tenants₅ := tenants₄.spares t₄.tenants spares₅ (by simp)
  have principals₄ := principals₃.spares t₃.principals spares₄ (by simp)
  have principals₅ := principals₄.spares t₄.principals spares₅ (by simp)
  have targets₅ := targets₄.spares t₄.targets spares₅ (by simp)
  -- The machines.
  obtain ⟨-, hall, hback, hcell⟩ := configureAll plan.machines.toList
    (c.machines.filter fun id _ => plan.machines.contains id, c.ledgers)
  refine ⟨⟨g₅, reshape_reshape _ _ _, reshape_reshape _ _ _, tenants₅, principals₅, targets₅, aliases₅, rfl,
    fun id i hi => ?_, hall, fun i bytes hlast => ?_, rfl⟩, ⟨⟨t₅.global_lt, t₅.global_name, t₅.tenants,
    t₅.principals, t₅.targets, t₅.aliases⟩, t₅.apart⟩⟩
  · rcases hback id i hi with hold | hmem
    · rw [TreeMap.getElem?_filter, Option.pfilter_eq_some_iff] at hold
      simpa using hold.2
    · obtain ⟨e, he, rfl⟩ := List.mem_map.1 hmem
      rw [TreeMap.contains_eq_isSome_getElem?, TreeMap.mem_toList_iff_getElem?_eq_some.mp he]
      rfl
  · have hbytes := hcell i
    refine hbytes.trans ?_
    have hlast' : lastBytes (plan.machines.toList.foldl configureMachine
      (c.machines.filter fun id _ => plan.machines.contains id, c.ledgers)).1 plan.machines.toList i = some bytes := hlast
    rw [hlast']
    rfl

end Once

end Controller

/-! ### Runs -/

namespace System

theorem tidy_init (global : ScopeLimits) (nowMs : ℕ) : (init global nowMs).controller.Tidy where
  toWired := wired_init global nowMs
  apart := ⟨fun key i h => by simp [init, Controller.new] at h, fun key key' i h => by
    simp [init, Controller.new] at h⟩

theorem tidy_step (s : System) (e : Op) (h : s.controller.Tidy) : (s.step e).controller.Tidy := by
  rcases s.step_extends e with ⟨plan, nowMs, rfl⟩ | hextends
  · exact (Controller.apply_asPublished h plan nowMs).2
  · exact hextends.tidy h

/-- A plan that is published once more, any number of times within the same instant. -/
theorem apply_again {c : Controller} (h : c.Tidy) (plan : AdmissionPlan) (nowMs n : ℕ) :
    ((fun c : Controller => c.apply plan nowMs)^[n + 1] c).AsPublished plan nowMs ∧
      (c.apply plan nowMs).Same ((fun c : Controller => c.apply plan nowMs)^[n + 1] c) := by
  induction n with
  | zero => exact ⟨(Controller.apply_asPublished h plan nowMs).1, .refl _⟩
  | succ n ih =>
    obtain ⟨hpublished, hsame⟩ := ih
    have hagain := Controller.apply_same hpublished
    rw [Function.iterate_succ_apply']
    exact ⟨hpublished.same hagain, hsame.trans hagain⟩

end System

/-- **Publishing limits again mints nothing**: no bucket that stays gains by it, nothing else a scope has
counted changes, and a plan published any number of times within one instant is published once. -/
theorem republishing_mints_nothing :
    (∀ (s : Scope) (limits : ScopeLimits) (nowMs : ℕ),
      Scope.Reconfigured limits nowMs s (s.reconfigure limits nowMs)) ∧
    ∀ (global : ScopeLimits) (createdMs : ℕ) (ops : List Op) (plan : AdmissionPlan) (nowMs n : ℕ),
      ((run System.step (System.init global createdMs) ops).controller.apply plan nowMs).Same
        ((fun c : Controller => c.apply plan nowMs)^[n + 1]
          (run System.step (System.init global createdMs) ops).controller) := by
  refine ⟨Scope.reconfigured, fun global createdMs ops plan nowMs n => ?_⟩
  have htidy : (run System.step (System.init global createdMs) ops).controller.Tidy :=
    run_invariant System.tidy_step (System.tidy_init global createdMs) ops
  exact (System.apply_again htidy plan nowMs n).2

namespace Scope.Sample

/-- A thousand tokens a second, and as many at once. -/
def thousandASecond : ScopeLimits := { ScopeLimits.unlimited with tokensPerMinute := 60000 }

/-- Two thousand were taken at once. -/
def overdrawn : Scope :=
  let s := Scope.new "tenant:acme" thousandASecond 0
  { s with tokenBucket := s.tokenBucket.map fun b => (b.tryTake 2000 0).2 }

/-- A millisecond's refill pays a token of the debt before the bucket is reshaped. -/
theorem overdrawn_pays :
    overdrawn.tokenBucket.map (·.state.debtMilli) = some 1000000 ∧
      (overdrawn.reconfigure thousandASecond 1).tokenBucket.map (·.state.debtMilli) = some 999000 := by
  decide +kernel

end Scope.Sample

end HypeLlm.Admission
