import HypeLlm.Fleet.Planning

/-!
# Whether a plan fits after its evictions

A plan is made, and accepted again, where the free memory of the pool and the memory counted as freed
by the victims are enough.  A victim is counted with the larger of its declaration and its observation,
and the memory in use is the larger of the declared and of the observed figure of the pool.  Stopping
the victims lowers each of the two figures by its own share only, so the larger of them may fall by
less than was counted.

* **`plan_fits_iff`** — a plan fits after its evictions where the memory in use falls by what is
  counted as freed, and, sizes of the incoming deployment being taken together, only there;
* `drifted_plan_does_not_fit` — a victim that declares more than it uses is counted with what it
  declares.
-/

namespace HypeLlm.Fleet

open HypeLlm.Words HypeLlm.Routing

namespace FleetSnapshot

variable (s : FleetSnapshot)

/-- The deployment stopped, and the device it was on relieved of what was observed of it. -/
def stop (v : Deployment) : FleetSnapshot :=
  { s with
    inventory :=
      { s.inventory with
        deployments := Function.update s.inventory.deployments v.id
          ((s.inventory.deployments v.id).map fun o => { o with state := .stopped, observedMemoryBytes := 0 })
        accelerators := Function.update s.inventory.accelerators v.accelerator
          ((s.inventory.accelerators v.accelerator).map fun used => used - s.observedMemory v.id) } }

/-- The snapshot once the victims of a plan are stopped. -/
def afterEvictions (p : Plan) : FleetSnapshot := (victims s p).foldl stop s

/-- The deployment of a plan fits into its pool once the victims are stopped, and with it the declared
memory does not exceed the capacity. -/
structure FitsIn (p : Plan) (d : Deployment) (pool : PoolId) : Prop where
  free : d.memoryBytes ≤ (s.afterEvictions p).poolFreeBytes pool
  committed : 0 < d.memoryBytes →
    (s.afterEvictions p).poolDeclaredBytes pool + d.memoryBytes ≤ s.config.poolCapacityBytes pool

def Fits (p : Plan) : Prop :=
  ∀ d accelerator, s.config.deployment p.deployment = some d → s.config.acceleratorOf d = some accelerator →
    s.FitsIn p d accelerator.pool

/-- Nothing is counted as freed; or the pool is within its capacity, and stopping the victims lowers the
memory in use by what is counted. -/
def BalancedIn (p : Plan) (pool : PoolId) : Prop :=
  freedBytes s p = 0 ∨
    s.poolUsedBytes pool ≤ s.config.poolCapacityBytes pool ∧
      freedBytes s p + (s.afterEvictions p).poolUsedBytes pool ≤ s.poolUsedBytes pool

def Balanced (p : Plan) : Prop :=
  ∀ d accelerator, s.config.deployment p.deployment = some d → s.config.acceleratorOf d = some accelerator →
    s.BalancedIn p accelerator.pool

/-! ### Stopping lowers both figures -/

@[simp] theorem stop_config (v : Deployment) : (s.stop v).config = s.config := rfl

@[simp] theorem foldl_stop_config (vs : List Deployment) : (vs.foldl stop s).config = s.config := by
  induction vs generalizing s with
  | nil => rfl
  | cons v vs ih => exact (ih (s.stop v)).trans rfl

@[simp] theorem afterEvictions_config (p : Plan) : (s.afterEvictions p).config = s.config :=
  s.foldl_stop_config _

theorem stop_stateOf (v : Deployment) (id : DeploymentId) :
    (s.stop v).stateOf id = if id = v.id then .stopped else s.stateOf id := by
  by_cases h : id = v.id
  · subst h
    rw [if_pos rfl]
    cases hobs : s.inventory.deployments v.id <;> simp [stateOf, stop, hobs]
  · simp [stateOf, stop, h]

theorem stop_observedMemory (v : Deployment) (id : DeploymentId) :
    (s.stop v).observedMemory id = if id = v.id then 0 else s.observedMemory id := by
  by_cases h : id = v.id
  · subst h
    rw [if_pos rfl]
    cases hobs : s.inventory.deployments v.id <;> simp [observedMemory, stop, hobs]
  · simp [observedMemory, stop, h]

theorem stop_commitsMemory (v : Deployment) (id : DeploymentId) (h : (s.stop v).commitsMemory id = true) :
    s.commitsMemory id = true := by
  simp only [commitsMemory, isComingUp, stop_stateOf, Bool.or_eq_true] at h ⊢
  by_cases hid : id = v.id
  · rw [if_pos hid] at h
    rcases h with h | h | h
    · cases h
    · cases h
    · exact .inr (.inr h)
  · rwa [if_neg hid] at h

theorem stop_poolDeclared_le (v : Deployment) (pool : PoolId) :
    (s.stop v).poolDeclaredBytes pool ≤ s.poolDeclaredBytes pool := by
  rw [poolDeclaredBytes, poolDeclaredBytes, satSum_eq, satSum_eq]
  refine min_le_min_right _ ?_
  refine List.Sublist.sum_le_sum ?_ (fun _ _ => Nat.zero_le _)
  refine List.Sublist.map _ ?_
  exact List.monotone_filter_right _ fun d hd => s.stop_commitsMemory v d.id hd

theorem sum_filterMap_le {α : Type} {f g : α → Option ℕ} (h : ∀ a, ∀ x ∈ f a, ∃ y ∈ g a, x ≤ y)
    (l : List α) : (l.filterMap f).sum ≤ (l.filterMap g).sum := by
  induction l with
  | nil => exact Nat.le_refl _
  | cons a l ih =>
    cases hf : f a with
    | none =>
      rw [List.filterMap_cons_none hf]
      refine ih.trans ?_
      cases hg : g a with
      | none => rw [List.filterMap_cons_none hg]
      | some y =>
        rw [List.filterMap_cons_some hg, List.sum_cons]
        omega
    | some x =>
      obtain ⟨y, hg, hxy⟩ := h a x hf
      rw [List.filterMap_cons_some hf, List.filterMap_cons_some hg, List.sum_cons, List.sum_cons]
      omega

theorem stop_poolObserved_le (v : Deployment) (pool : PoolId) :
    (s.stop v).poolObservedBytes pool ≤ s.poolObservedBytes pool := by
  rw [poolObservedBytes, poolObservedBytes, satSum_eq, satSum_eq]
  refine min_le_min_right _ (sum_filterMap_le ?_ _)
  intro a x hx
  by_cases h : a.id = v.accelerator
  · rw [stop] at hx
    simp only [h, Function.update_self] at hx
    obtain ⟨used, hused, rfl⟩ := Option.map_eq_some_iff.1 hx
    exact ⟨used, h ▸ hused, Nat.sub_le ..⟩
  · rw [stop] at hx
    simp only [Function.update_of_ne h] at hx
    exact ⟨x, hx, Nat.le_refl x⟩

theorem stop_poolUsed_le (v : Deployment) (pool : PoolId) :
    (s.stop v).poolUsedBytes pool ≤ s.poolUsedBytes pool :=
  max_le_max (s.stop_poolDeclared_le v pool) (s.stop_poolObserved_le v pool)

theorem foldl_stop_poolUsed_le (vs : List Deployment) (pool : PoolId) :
    (vs.foldl stop s).poolUsedBytes pool ≤ s.poolUsedBytes pool := by
  induction vs generalizing s with
  | nil => exact Nat.le_refl _
  | cons v vs ih => exact (ih (s.stop v)).trans (s.stop_poolUsed_le v pool)

/-! ### Enough is enough where the count is right -/

theorem fitsIn_of_balanced {p : Plan} {d : Deployment} {pool : PoolId} (h : s.BalancedIn p pool)
    (henough : d.memoryBytes ≤ s.poolFreeBytes pool + freedBytes s p) : s.FitsIn p d pool := by
  have hless := s.foldl_stop_poolUsed_le (victims s p) pool
  have hfree : d.memoryBytes ≤ (s.afterEvictions p).poolFreeBytes pool := by
    rw [poolFreeBytes, afterEvictions_config]
    rw [poolFreeBytes] at henough
    rcases h with hnone | ⟨hwithin, hfall⟩
    · show _ ≤ _ - ((victims s p).foldl stop s).poolUsedBytes pool
      omega
    · omega
  refine ⟨hfree, ?_⟩
  intro hpos
  rw [poolFreeBytes, afterEvictions_config] at hfree
  have hdeclared : (s.afterEvictions p).poolDeclaredBytes pool ≤ (s.afterEvictions p).poolUsedBytes pool :=
    le_max_left ..
  omega

/-! ### No figure falls by more than is counted -/

/-- Where one element may be left out, the sum falls by no more than that element. -/
theorem sum_filter_le {l : List Deployment} {p q : Deployment → Bool} (id : DeploymentId) {c : ℕ}
    (hnodup : (l.map Deployment.id).Nodup) (hother : ∀ d ∈ l, d.id ≠ id → p d = true → q d = true)
    (hone : ∀ d ∈ l, d.id = id → p d = true → d.memoryBytes ≤ c) :
    ((l.filter p).map Deployment.memoryBytes).sum ≤ ((l.filter q).map Deployment.memoryBytes).sum + c := by
  induction l generalizing c with
  | nil => exact Nat.zero_le _
  | cons d l ih =>
    rw [List.map_cons, List.nodup_cons] at hnodup
    have hrest : ∀ d' ∈ l, d'.id ≠ id → p d' = true → q d' = true :=
      fun d' hd' => hother d' (List.mem_cons_of_mem d hd')
    have hq : ((l.filter q).map Deployment.memoryBytes).sum ≤
        (((d :: l).filter q).map Deployment.memoryBytes).sum := by
      rw [List.filter_cons]
      split
      · rw [List.map_cons, List.sum_cons]
        exact Nat.le_add_left ..
      · exact Nat.le_refl _
    by_cases hd : d.id = id
    · have hnone : ((l.filter p).map Deployment.memoryBytes).sum ≤
          ((l.filter q).map Deployment.memoryBytes).sum + 0 := by
        refine ih hnodup.2 hrest ?_
        intro d' hd' hid
        exact absurd (hid.trans hd.symm ▸ List.mem_map_of_mem hd') hnodup.1
      rw [List.filter_cons]
      split
      · rename_i hp
        have hc := hone d List.mem_cons_self hd hp
        rw [List.map_cons, List.sum_cons]
        omega
      · omega
    · have hih := ih hnodup.2 hrest fun d' hd' => hone d' (List.mem_cons_of_mem d hd')
      rw [List.filter_cons]
      split
      · rename_i hp
        rw [List.filter_cons_of_pos (hother d List.mem_cons_self hd hp), List.map_cons, List.map_cons,
          List.sum_cons, List.sum_cons]
        omega
      · omega

theorem stop_poolDeclared_ge {v : Deployment} (hv : v ∈ s.config.deployments)
    (hup : s.isComingUp v.id = false) (pool : PoolId) :
    s.poolDeclaredBytes pool ≤ (s.stop v).poolDeclaredBytes pool +
      if (s.stateOf v.id).holdsMemory then v.memoryBytes else 0 := by
  have hsum : (((s.config.deploymentsInPool pool).filter fun d => s.commitsMemory d.id).map
        Deployment.memoryBytes).sum ≤
      (((s.config.deploymentsInPool pool).filter fun d => (s.stop v).commitsMemory d.id).map
        Deployment.memoryBytes).sum + if (s.stateOf v.id).holdsMemory then v.memoryBytes else 0 := by
    refine sum_filter_le v.id ?_ ?_ ?_
    · exact (List.filter_sublist.map _).nodup s.config.deployments_nodup
    · intro d _ hne hcommits
      rw [commitsMemory, isComingUp, stop_stateOf, if_neg hne]
      exact hcommits
    · intro d hd hid hcommits
      have hmem : d ∈ s.config.deployments := (List.mem_filter.1 hd).1
      have hsame : d = v := by
        have hfound := s.config.deployment_of_mem hmem
        rw [hid, s.config.deployment_of_mem hv] at hfound
        exact (Option.some.inj hfound).symm
      subst hsame
      rw [commitsMemory, hup, Bool.or_false] at hcommits
      rw [if_pos hcommits]
  rw [poolDeclaredBytes, poolDeclaredBytes, satSum_eq, satSum_eq, stop_config]
  omega

/-- Where one element may give less, the sum falls by no more than that. -/
theorem sum_filterMap_le_add {l : List Accelerator} {f g : Accelerator → Option ℕ} (id : AcceleratorId)
    {c : ℕ} (hnodup : (l.map Accelerator.id).Nodup) (hother : ∀ a ∈ l, a.id ≠ id → f a = g a)
    (hone : ∀ a ∈ l, a.id = id → ∀ x, f a = some x → ∃ y, g a = some y ∧ x ≤ y + c) :
    (l.filterMap f).sum ≤ (l.filterMap g).sum + c := by
  induction l generalizing c with
  | nil => exact Nat.zero_le _
  | cons a l ih =>
    rw [List.map_cons, List.nodup_cons] at hnodup
    have hrest : ∀ b ∈ l, b.id ≠ id → f b = g b := fun b hb => hother b (List.mem_cons_of_mem a hb)
    have hg : (l.filterMap g).sum ≤ ((a :: l).filterMap g).sum := by
      cases hga : g a with
      | none => rw [List.filterMap_cons_none hga]
      | some y =>
        rw [List.filterMap_cons_some hga, List.sum_cons]
        exact Nat.le_add_left ..
    by_cases ha : a.id = id
    · have hnone : (l.filterMap f).sum ≤ (l.filterMap g).sum + 0 := by
        refine ih hnodup.2 hrest ?_
        intro b hb hid
        exact absurd (hid.trans ha.symm ▸ List.mem_map_of_mem hb) hnodup.1
      cases hfa : f a with
      | none =>
        rw [List.filterMap_cons_none hfa]
        omega
      | some x =>
        obtain ⟨y, hga, hxy⟩ := hone a List.mem_cons_self ha x hfa
        rw [List.filterMap_cons_some hfa, List.filterMap_cons_some hga, List.sum_cons, List.sum_cons]
        omega
    · have hih := ih hnodup.2 hrest fun b hb => hone b (List.mem_cons_of_mem a hb)
      have hsame := hother a List.mem_cons_self ha
      cases hfa : f a with
      | none =>
        rw [List.filterMap_cons_none hfa]
        omega
      | some x =>
        rw [List.filterMap_cons_some hfa, List.filterMap_cons_some (hsame ▸ hfa), List.sum_cons,
          List.sum_cons]
        omega

theorem stop_poolObserved_ge (v : Deployment) (pool : PoolId) :
    s.poolObservedBytes pool ≤ (s.stop v).poolObservedBytes pool + s.observedMemory v.id := by
  have hsum : ((s.config.acceleratorsInPool pool).filterMap fun a => s.inventory.accelerators a.id).sum ≤
      ((s.config.acceleratorsInPool pool).filterMap fun a => (s.stop v).inventory.accelerators a.id).sum +
        s.observedMemory v.id := by
    refine sum_filterMap_le_add v.accelerator ?_ ?_ ?_
    · exact (List.filter_sublist.map _).nodup s.config.accelerators_nodup
    · intro a _ hne
      exact (Function.update_of_ne hne _ _).symm
    · intro a _ ha x hx
      refine ⟨x - s.observedMemory v.id, ?_, by omega⟩
      rw [ha] at hx
      simp [stop, ha, hx]
  rw [poolObservedBytes, poolObservedBytes, satSum_eq, satSum_eq, stop_config]
  omega

/-- Nothing is observed of a victim that is not counted. -/
def Counted (v : Deployment) : Prop :=
  v ∈ s.config.deployments ∧ s.isComingUp v.id = false ∧
    ((s.stateOf v.id).holdsMemory = true ∨ s.observedMemory v.id = 0)

/-- What is counted for a victim. -/
def countedBytes (v : Deployment) : ℕ := if (s.stateOf v.id).holdsMemory then residentBytes s v else 0

theorem stop_poolUsed_ge {v : Deployment} (hv : s.Counted v) (pool : PoolId) :
    s.poolUsedBytes pool ≤ (s.stop v).poolUsedBytes pool + s.countedBytes v := by
  obtain ⟨hmem, hup, hholds⟩ := hv
  have hdeclared := s.stop_poolDeclared_ge hmem hup pool
  have hobserved := s.stop_poolObserved_ge v pool
  rw [poolUsedBytes, poolUsedBytes, countedBytes]
  split
  · rename_i h
    rw [if_pos h] at hdeclared
    rw [residentBytes]
    omega
  · rename_i h
    rw [if_neg h] at hdeclared
    rw [hholds.resolve_left h] at hobserved
    omega

theorem stop_counted {v w : Deployment} (hw : s.Counted w) : (s.stop v).Counted w := by
  obtain ⟨hmem, hup, hholds⟩ := hw
  refine ⟨hmem, ?_, ?_⟩
  · rw [isComingUp, stop_stateOf]
    rw [isComingUp, Bool.or_eq_false_iff] at hup
    split
    · exact hup.2
    · rw [hup.1]
      exact hup.2
  · rw [stop_stateOf, stop_observedMemory]
    split
    · exact .inr rfl
    · exact hholds

theorem stop_countedBytes_le (v w : Deployment) : (s.stop v).countedBytes w ≤ s.countedBytes w := by
  rw [countedBytes, countedBytes, stop_stateOf, residentBytes, residentBytes, stop_observedMemory]
  split
  · exact Nat.zero_le _
  · exact Nat.le_refl _

/-- **The memory in use falls by no more than is counted.** -/
theorem foldl_stop_poolUsed_ge {vs : List Deployment} (hvs : ∀ v ∈ vs, s.Counted v) (pool : PoolId) :
    s.poolUsedBytes pool ≤ (vs.foldl stop s).poolUsedBytes pool + (vs.map s.countedBytes).sum := by
  induction vs generalizing s with
  | nil => exact Nat.le_add_right ..
  | cons v vs ih =>
    have hfirst := s.stop_poolUsed_ge (hvs v List.mem_cons_self) pool
    have hrest := ih (s.stop v) fun w hw => s.stop_counted (hvs w (List.mem_cons_of_mem v hw))
    have hfewer : (vs.map (s.stop v).countedBytes).sum ≤ (vs.map s.countedBytes).sum :=
      List.sum_le_sum fun w _ => s.stop_countedBytes_le v w
    rw [List.foldl_cons, List.map_cons, List.sum_cons]
    omega

theorem freedBytes_eq (p : Plan) : freedBytes s p = min ((victims s p).map s.countedBytes).sum u64Max := by
  have hsum : ∀ vs : List Deployment, ((vs.filter fun v => (s.stateOf v.id).holdsMemory).map
      (residentBytes s)).sum = (vs.map s.countedBytes).sum := by
    intro vs
    induction vs with
    | nil => rfl
    | cons v vs ih =>
      rw [List.filter_cons, List.map_cons, List.sum_cons, countedBytes]
      split
      · rw [List.map_cons, List.sum_cons, ih]
      · rw [ih, Nat.zero_add]
  rw [freedBytes, satSum_eq, hsum]

/-! ### Deployments of other sizes -/

/-- A deployment declared with another size. -/
def resized (id : DeploymentId) (m : ℕ) (d : Deployment) : Deployment :=
  if d.id = id then { d with memoryBytes := m } else d

@[simp] theorem resized_id (id : DeploymentId) (m : ℕ) (d : Deployment) : (resized id m d).id = d.id := by
  rw [resized]
  split <;> rfl

@[simp] theorem resized_accelerator (id : DeploymentId) (m : ℕ) (d : Deployment) :
    (resized id m d).accelerator = d.accelerator := by
  rw [resized]
  split <;> rfl

theorem resized_of_ne {id : DeploymentId} {d : Deployment} (h : d.id ≠ id) (m : ℕ) : resized id m d = d :=
  if_neg h

/-- The snapshot of a configuration that declares another size for a deployment. -/
def resize (id : DeploymentId) (m : ℕ) : FleetSnapshot :=
  { s with
    config :=
      { s.config with
        deployments := s.config.deployments.map (resized id m)
        deployments_nodup := by
          rw [List.map_map]
          have hids : Deployment.id ∘ resized id m = Deployment.id := funext (resized_id id m)
          rw [hids]
          exact s.config.deployments_nodup } }

variable (id : DeploymentId) (m : ℕ)

theorem resize_deployment (id' : DeploymentId) :
    (s.resize id m).config.deployment id' = (s.config.deployment id').map (resized id m) := by
  show (s.config.deployments.map (resized id m)).find? _ = _
  rw [List.find?_map]
  simp only [Function.comp_def, resized_id]
  rfl

theorem resize_inPool (pool : PoolId) (d : Deployment) :
    (s.resize id m).config.inPool pool (resized id m d) = s.config.inPool pool d := by
  show Option.any _ (s.config.accelerators.find? _) = _
  rw [resized_accelerator]
  rfl

/-- The declared figure does not hang on a deployment that commits no memory. -/
theorem resize_poolDeclared (h : s.commitsMemory id = false) (pool : PoolId) :
    (s.resize id m).poolDeclaredBytes pool = s.poolDeclaredBytes pool := by
  have hlist : ∀ l : List Deployment,
      (((l.map (resized id m)).filter ((s.resize id m).config.inPool pool)).filter
          fun d => s.commitsMemory d.id).map Deployment.memoryBytes =
        ((l.filter (s.config.inPool pool)).filter fun d => s.commitsMemory d.id).map
          Deployment.memoryBytes := by
    intro l
    induction l with
    | nil => rfl
    | cons d l ih =>
      rw [List.map_cons, List.filter_cons, List.filter_cons, resize_inPool]
      split
      · rw [List.filter_cons, List.filter_cons, resized_id]
        split
        · rename_i hcommits
          have hne : d.id ≠ id := by
            rintro rfl
            rw [h] at hcommits
            cases hcommits
          rw [List.map_cons, List.map_cons, ih, resized_of_ne hne]
        · exact ih
      · exact ih
  exact congrArg satSum (hlist s.config.deployments)

theorem resize_poolUsed (h : s.commitsMemory id = false) (pool : PoolId) :
    (s.resize id m).poolUsedBytes pool = s.poolUsedBytes pool := by
  rw [poolUsedBytes, poolUsedBytes, resize_poolDeclared s id m h]
  rfl

theorem foldl_stop_resize (vs : List Deployment) :
    vs.foldl stop (s.resize id m) = (vs.foldl stop s).resize id m := by
  induction vs generalizing s with
  | nil => rfl
  | cons v vs ih => exact ih (s.stop v)

theorem foldl_stop_commitsMemory (vs : List Deployment) (h : s.commitsMemory id = false) :
    (vs.foldl stop s).commitsMemory id = false := by
  induction vs generalizing s with
  | nil => exact h
  | cons v vs ih =>
    refine ih (s.stop v) ?_
    rw [← Bool.not_eq_true]
    intro hcommits
    rw [s.stop_commitsMemory v id hcommits] at h
    cases h

theorem resize_victims {p : Plan} (hother : id ∉ p.evictionSet) : victims (s.resize id m) p = victims s p := by
  rw [victims, victims]
  refine List.filterMap_congr ?_
  intro id' hid'
  rw [resize_deployment]
  cases hd : s.config.deployment id' with
  | none => rfl
  | some d =>
    have hid := (s.config.mem_of_deployment hd).2
    have hne : d.id ≠ id := by
      intro hsame
      rw [hid] at hsame
      exact hother (hsame ▸ hid')
    rw [Option.map_some, resized_of_ne hne]

/-! ### Exactly where the count is right -/

/-- The plan may be committed, its size apart: the deployment is cold, the victims run and are nobody
else's, and the capacities are below the top of the word. -/
structure Clear (p : Plan) : Prop where
  cold : s.commitsMemory p.deployment = false
  free : s.evicting p.deployment = false
  other : p.deployment ∉ p.evictionSet
  known : (victims s p).length = p.evictionSet.length
  settled : ∀ v ∈ victims s p, (s.stateOf v.id).holdsMemory = true ∧ s.isComingUp v.id = false ∧
    s.evicting v.id = false
  capacity : ∀ pool, s.config.poolCapacityBytes pool < u64Max

theorem revalidate_of_clear {p : Plan} {d : Deployment} {accelerator : Accelerator} (h : s.Clear p)
    (hd : s.config.deployment p.deployment = some d) (ha : s.config.acceleratorOf d = some accelerator)
    (hfits : d.memoryBytes ≤ satAdd u64Max (s.poolFreeBytes accelerator.pool) (freedBytes s p)) :
    revalidate s p = .ok () := by
  have hid := (s.config.mem_of_deployment hd).2
  have hcold : s.isComingUp d.id = false := by
    have hcommits := h.cold
    rw [commitsMemory, Bool.or_eq_false_iff] at hcommits
    rw [hid]
    exact hcommits.2
  have hfree : s.evicting d.id = false := by
    rw [hid]
    exact h.free
  have hvictims : ((victims s p).any fun v => s.evicting v.id || s.isComingUp v.id) = false := by
    rw [List.any_eq_false]
    intro v hv
    obtain ⟨-, hup, hevicting⟩ := h.settled v hv
    simp [hup, hevicting]
  unfold revalidate
  rw [hd]
  dsimp only
  rw [hcold, hfree, if_neg (by simp), if_neg (by simp [h.known]), hvictims, if_neg (by simp), ha]
  dsimp only
  rw [if_neg (not_lt.2 hfits)]

theorem satAdd_le (a b : ℕ) : satAdd u64Max a b ≤ a + b := Nat.min_le_left ..

theorem fits_of_revalidate {p : Plan} (h : revalidate s p = .ok ()) (hbalanced : s.Balanced p) : s.Fits p := by
  intro d accelerator hd ha
  exact s.fitsIn_of_balanced (hbalanced d accelerator hd ha)
    ((revalidate_ok hd ha h).enough.trans (satAdd_le ..))

theorem fits_of_plan {demand : DemandSnapshot} {target : TargetId} {context : PlanContext} {p : Plan}
    (h : plan s demand target context = .plan p) (hbalanced : s.Balanced p) : s.Fits p := by
  obtain ⟨d, accelerator, evictions, hd, ha, -, -, hset, hevictions⟩ := plan_cases h
  intro d' accelerator' hd' ha'
  obtain rfl := Option.some.inj (hd.symm.trans hd')
  obtain rfl := Option.some.inj (ha.symm.trans ha')
  have hvictims : victims s p = evictions :=
    victims_of_eq hset fun v hv => (List.mem_filter.1 (hevictions.inPool v hv)).1
  have hfreed : freedBytes s p = satSum (evictions.map (residentBytes s)) := by
    rw [freedBytes, hvictims, List.filter_eq_self.2 hevictions.holds]
  refine s.fitsIn_of_balanced (hbalanced d accelerator hd ha) ?_
  have henough := hevictions.enough
  omega

/-! ### And only there -/

variable {s} {p : Plan}

theorem Clear.resize_freed (h : s.Clear p) (m : ℕ) :
    freedBytes (s.resize p.deployment m) p = freedBytes s p := by
  rw [freedBytes, resize_victims s p.deployment m h.other]
  rfl

theorem Clear.resize_used (h : s.Clear p) (m : ℕ) (pool : PoolId) :
    ((s.resize p.deployment m).afterEvictions p).poolUsedBytes pool = (s.afterEvictions p).poolUsedBytes pool := by
  rw [afterEvictions, resize_victims s p.deployment m h.other, foldl_stop_resize]
  exact resize_poolUsed _ p.deployment m (s.foldl_stop_commitsMemory p.deployment _ h.cold) pool

theorem Clear.resize_balancedIn (h : s.Clear p) (m : ℕ) (pool : PoolId) :
    (s.resize p.deployment m).BalancedIn p pool ↔ s.BalancedIn p pool := by
  rw [BalancedIn, BalancedIn, h.resize_freed m, h.resize_used m, resize_poolUsed s p.deployment m h.cold]
  rfl

theorem Clear.resize (h : s.Clear p) (m : ℕ) : (s.resize p.deployment m).Clear p := by
  refine ⟨h.cold, h.free, h.other, ?_, ?_, h.capacity⟩
  · rw [resize_victims s p.deployment m h.other]
    exact h.known
  · rw [resize_victims s p.deployment m h.other]
    exact h.settled

theorem Clear.counted (h : s.Clear p) : ∀ v ∈ victims s p, s.Counted v := by
  intro v hv
  obtain ⟨hholds, hup, -⟩ := h.settled v hv
  obtain ⟨id, -, hid⟩ := List.mem_filterMap.1 hv
  exact ⟨(s.config.mem_of_deployment hid).1, hup, .inl hholds⟩

/-- Room for as much as is free and counted as freed: then the count is right. -/
theorem Clear.balancedIn (h : s.Clear p) {pool : PoolId}
    (hroom : satAdd u64Max (s.poolFreeBytes pool) (freedBytes s p) ≤ (s.afterEvictions p).poolFreeBytes pool) :
    s.BalancedIn p pool := by
  have hcapacity := h.capacity pool
  have hfall := s.foldl_stop_poolUsed_ge h.counted pool
  have hfreed := s.freedBytes_eq p
  rw [satAdd, poolFreeBytes, poolFreeBytes, afterEvictions_config] at hroom
  change s.poolUsedBytes pool ≤ (s.afterEvictions p).poolUsedBytes pool + _ at hfall
  rw [BalancedIn]
  omega

/-- **A plan fits after its evictions where the memory in use falls by what was counted as freed**:
nothing is counted, or the pool is within its capacity and what the victims are counted as freeing is
what its larger figure loses.  Elsewhere some size of the incoming deployment is accepted and does not
fit. -/
theorem plan_fits_iff (s : FleetSnapshot) (p : Plan) :
    (∀ demand target context, plan s demand target context = .plan p → s.Balanced p → s.Fits p) ∧
      (revalidate s p = .ok () → s.Balanced p → s.Fits p) ∧
      (s.Clear p →
        ((∀ m, revalidate (s.resize p.deployment m) p = .ok () → (s.resize p.deployment m).Fits p) ↔
          s.Balanced p)) := by
  refine ⟨fun _ _ _ => s.fits_of_plan, s.fits_of_revalidate, ?_⟩
  intro hclear
  constructor
  · intro hfits d accelerator hd ha
    -- the largest size that is accepted decides
    let m := satAdd u64Max (s.poolFreeBytes accelerator.pool) (freedBytes s p)
    have hid := (s.config.mem_of_deployment hd).2
    have hd' : (s.resize p.deployment m).config.deployment p.deployment = some (resized p.deployment m d) := by
      rw [resize_deployment, hd]
      rfl
    have hm : (resized p.deployment m d).memoryBytes = m := by
      rw [resized, if_pos hid]
    have ha' : (s.resize p.deployment m).config.acceleratorOf (resized p.deployment m d) = some accelerator := by
      show s.config.accelerators.find? _ = _
      rw [resized_accelerator]
      exact ha
    have hfree : (s.resize p.deployment m).poolFreeBytes accelerator.pool = s.poolFreeBytes accelerator.pool := by
      rw [poolFreeBytes, resize_poolUsed s p.deployment m hclear.cold]
      rfl
    have hok : revalidate (s.resize p.deployment m) p = .ok () := by
      refine revalidate_of_clear _ (hclear.resize m) hd' ha' ?_
      rw [hm, hfree, hclear.resize_freed m]
    have hroom := (hfits m hok _ accelerator hd' ha').free
    rw [hm, poolFreeBytes, hclear.resize_used m, afterEvictions_config] at hroom
    have hfree' : (s.afterEvictions p).poolFreeBytes accelerator.pool =
        s.config.poolCapacityBytes accelerator.pool - (s.afterEvictions p).poolUsedBytes accelerator.pool := by
      rw [poolFreeBytes, afterEvictions_config]
    exact hclear.balancedIn (hfree' ▸ hroom)
  · intro hbalanced m hok
    refine fits_of_revalidate _ hok ?_
    intro d' accelerator hd' ha'
    rw [resize_deployment] at hd'
    obtain ⟨d, hd, rfl⟩ := Option.map_eq_some_iff.1 hd'
    have ha : s.config.acceleratorOf d = some accelerator := by
      rw [← ha']
      show _ = s.config.accelerators.find? _
      rw [resized_accelerator]
      rfl
    exact (hclear.resize_balancedIn m accelerator.pool).2 (hbalanced d accelerator hd ha)

end FleetSnapshot

namespace FitSample

theorem one_concurrent : 1 ≤ u32Max := by decide

/-- A deployment of ten bytes on the one accelerator. -/
def dep (id : DeploymentId) (target : TargetId) : Deployment :=
  ⟨id, target, "gpu", none, 10, 0, 0, 0, 0, 0, true, false, true, 0, 0⟩

/-- One accelerator of ten bytes, and two deployments of ten bytes each. -/
def config : FleetConfig where
  hosts := [⟨"host", "agent", .x86_64, .enabled, 0, 1, one_concurrent⟩]
  accelerators := [⟨"gpu", "host", 10, "pool"⟩]
  deployments := [dep "new" "t.new", dep "old" "t.old"]
  artifacts := []
  observationMaxAgeMs _ := some 1000
  policyFor _ := ⟨6, 0, 4, false, 0, false⟩
  accelerators_nodup := by decide
  deployments_nodup := by decide

/-- The old deployment is ready; the device uses ten bytes, of which `observed` are seen to be its. -/
def snapshot (observed : ℕ) : FleetSnapshot where
  config := config
  inventory :=
    { hosts := fun _ => some ⟨true, 0⟩
      accelerators := fun _ => some 10
      deployments := fun d => if d = "old" then some ⟨.ready, observed, 0⟩ else none
      artifacts := fun _ _ => none }
  observedAtMs := 0
  observed := true
  leases _ := none
  evicting _ := false
  readySinceMs _ := none
  unmanaged _ := false
  cooldownUntilMs _ := none
  activationBudget _ := none
  observedTimings _ := .none
  digestAgreed := true
  agentsReachable := true
  deploymentCapabilities _ := none
  learnedChecksums _ := none

def swap : Plan := ⟨"new", "host", [.evict "old", .activate "new"], 0⟩

/-- What the planner makes of the snapshot where the new deployment is asked for. -/
def outcome (observed : ℕ) : PlanOutcome :=
  plan (snapshot observed) ⟨fun _ => 0, fun _ => 0, fun _ => none⟩ "t.new"
    ⟨0, 1000, 1, 0, true, true, none, 100000⟩

theorem outcome_eq : outcome 10 = .plan swap ∧ outcome 0 = .plan swap := by decide +kernel

theorem acceleratorOf_swap {observed : ℕ} {d : Deployment} {accelerator : Accelerator}
    (hd : (snapshot observed).config.deployment swap.deployment = some d)
    (ha : (snapshot observed).config.acceleratorOf d = some accelerator) : accelerator.pool = "pool" := by
  obtain rfl : dep "new" "t.new" = d := Option.some.inj hd
  obtain rfl : (⟨"gpu", "host", 10, "pool"⟩ : Accelerator) = accelerator := Option.some.inj ha
  rfl

/-- The old deployment declares what it uses: the swap is planned, and fits. -/
theorem swap_fits : outcome 10 = .plan swap ∧ (snapshot 10).Fits swap := by
  have hbalanced : (snapshot 10).Balanced swap := by
    intro d accelerator hd ha
    rw [acceleratorOf_swap hd ha]
    right
    decide +kernel
  exact ⟨outcome_eq.1, (FleetSnapshot.plan_fits_iff (snapshot 10) swap).1 _ _ _ outcome_eq.1 hbalanced⟩

/-- The old deployment declares ten bytes and is seen to use none; the device is full.  The swap is
planned, and accepted again, and after the eviction no byte is free. -/
theorem drifted_plan_does_not_fit :
    outcome 0 = .plan swap ∧ revalidate (snapshot 0) swap = .ok () ∧ ¬ (snapshot 0).Fits swap ∧
      ((snapshot 0).afterEvictions swap).poolFreeBytes "pool" = 0 := by
  refine ⟨outcome_eq.2, by decide +kernel, ?_, by decide +kernel⟩
  intro hfits
  have hfree := (hfits (dep "new" "t.new") ⟨"gpu", "host", 10, "pool"⟩ rfl rfl).free
  have hnone : ((snapshot 0).afterEvictions swap).poolFreeBytes "pool" = 0 := by decide +kernel
  rw [hnone] at hfree
  exact absurd hfree (by decide)

end FitSample

end HypeLlm.Fleet
