import HypeLlm.Lib.Maps
import HypeLlm.Lib.Runs
import HypeLlm.Admission.Rollback

/-!
# Where the controller's maps lead

The entries of a layer lead to scopes that exist and carry the name of their key (`Wired`).  The
layers name their scopes apart, so the scopes of one chain are distinct, and among the scopes a
request can meet at one time no two share a name.

Two relations say what a call may do.  A scope is `Steady` when it keeps its name and issues no
ticket twice, and `Quiet` when besides its requests in flight and the difference of its counters stay.
`Extends` is what every call but a publication does to the maps: entries are added for tenants and
principals that had none, and nothing else changes.
-/

namespace HypeLlm.Admission

open HypeLlm.Words HypeLlm.Machine Std

/-! ### What a call may do to a scope -/

namespace Scope

structure Steady (s s' : Scope) : Prop where
  name : s'.name = s.name
  nextSeq : s.queue.nextSeq ≤ s'.queue.nextSeq

structure Quiet (s s' : Scope) : Prop extends Steady s s' where
  inFlight : s'.inFlight = s.inFlight
  balance : s'.acquired - s'.released = s.acquired - s.released

/-- No request in flight, and as many released as acquired. -/
structure Idle (s : Scope) : Prop where
  inFlight : s.inFlight = 0
  balance : s.acquired - s.released = 0

theorem Steady.refl (s : Scope) : Steady s s := ⟨rfl, le_rfl⟩

theorem Steady.trans {s s' s'' : Scope} (h : Steady s s') (h' : Steady s' s'') : Steady s s'' :=
  ⟨h'.name.trans h.name, h.nextSeq.trans h'.nextSeq⟩

theorem Quiet.refl (s : Scope) : Quiet s s := ⟨.refl s, rfl, rfl⟩

theorem Quiet.trans {s s' s'' : Scope} (h : Quiet s s') (h' : Quiet s' s'') : Quiet s s'' :=
  ⟨h.toSteady.trans h'.toSteady, h'.inFlight.trans h.inFlight, h'.balance.trans h.balance⟩

theorem Idle.quiet {s s' : Scope} (h : Idle s) (hq : Quiet s s') : Idle s' :=
  ⟨hq.inFlight.trans h.inFlight, hq.balance.trans h.balance⟩

theorem idle_new (name : String) (limits : ScopeLimits) (ms : ℕ) : Idle (.new name limits ms) :=
  ⟨rfl, UInt64.sub_self _⟩

theorem Restored.quiet {nowMs : ℕ} {s s' : Scope} (h : Restored nowMs s s') : Quiet s s' :=
  ⟨⟨h.name, by rw [h.queue]⟩, h.inFlight, h.balance⟩

theorem Acquired.steady {tokens nowMs : ℕ} {ticket : Option ℕ} {s s' : Scope}
    (h : Acquired tokens nowMs ticket s s') : Steady s s' := ⟨h.name, by rw [h.queue]⟩

theorem reconfigure_quiet (s : Scope) (limits : ScopeLimits) (nowMs : ℕ) :
    Quiet s (s.reconfigure limits nowMs) := ⟨⟨rfl, le_rfl⟩, rfl, rfl⟩

theorem recordSpend_quiet (s : Scope) (minorUnits nowMs : ℕ) :
    Quiet s (s.recordSpend minorUnits nowMs) := by
  simp only [recordSpend, spendInPeriod]
  split <;> exact ⟨⟨rfl, le_rfl⟩, rfl, rfl⟩

theorem leaveQueue_quiet (s : Scope) (ticket : ℕ) : Quiet s (s.leaveQueue ticket) :=
  ⟨⟨rfl, le_rfl⟩, rfl, rfl⟩

theorem joinQueue_quiet (s : Scope) (priority : PriorityClass) (tenant : TenantId) :
    Quiet s (s.joinQueue priority tenant).2 := by
  simp only [joinQueue]
  split
  · exact .refl s
  split
  · exact .refl s
  · refine ⟨⟨rfl, ?_⟩, rfl, rfl⟩
    have hle := s.queue.nextSeq_le
    show s.queue.nextSeq ≤ min (s.queue.nextSeq + 1) u64Max
    omega

theorem release_steady (s : Scope) (reserved actual nowMs : ℕ) :
    Steady s (s.release reserved actual nowMs) := ⟨rfl, le_rfl⟩

end Scope

/-- Scopes stay quiet and new ones are idle. -/
abbrev QuietGrowth : Heap Scope → Heap Scope → Prop := Heap.Grows Scope.Quiet Scope.Idle

/-- Scopes stay steady. -/
abbrev SteadyGrowth : Heap Scope → Heap Scope → Prop := Heap.Grows Scope.Steady fun _ => True

theorem QuietGrowth.refl (h : Heap Scope) : QuietGrowth h h := Heap.Grows.refl Scope.Quiet.refl h

theorem QuietGrowth.trans {h h' h'' : Heap Scope} (g : QuietGrowth h h') (g' : QuietGrowth h' h'') :
    QuietGrowth h h'' :=
  Heap.Grows.trans (fun _ _ _ => Scope.Quiet.trans) (fun _ _ => Scope.Idle.quiet) g g'

theorem QuietGrowth.steady {h h' : Heap Scope} (g : QuietGrowth h h') : SteadyGrowth h h' :=
  Heap.Grows.mono (fun _ _ => Scope.Quiet.toSteady) (fun _ _ => trivial) g

theorem SteadyGrowth.trans {h h' h'' : Heap Scope} (g : SteadyGrowth h h')
    (g' : SteadyGrowth h' h'') : SteadyGrowth h h'' :=
  Heap.Grows.trans (fun _ _ _ => Scope.Steady.trans) (fun _ _ _ _ => trivial) g g'

theorem Controller.Looked.quiet {h h' : Heap Scope} (g : Looked h h') : QuietGrowth h h' := by
  refine Heap.Grows.mono ?_ ?_ g
  · rintro s _ rfl
    exact .refl s
  · rintro s ⟨name, limits, ms, rfl⟩
    exact Scope.idle_new name limits ms

theorem Restoration.quiet {nowMs : ℕ} {h h' : Heap Scope} (g : Restoration nowMs h h') :
    QuietGrowth h h' := .of_pointwise g.1 fun i => (g.2 i).quiet

theorem Acquisitions.steady {tokens nowMs : ℕ} {ticketAt : String → Option ℕ}
    {chain : List ScopeRef} {h h' : Heap Scope} (g : Acquisitions tokens nowMs ticketAt chain h h') :
    SteadyGrowth h h' := by
  induction g with
  | nil h => exact .refl Scope.Steady.refl h
  | cons head _ ih => exact SteadyGrowth.trans (.set Scope.Steady.refl _ _ _ head.steady) ih

/-- The scopes of a chain without repetition are acquired as they were found, the others stay. -/
theorem Acquisitions.cell {tokens nowMs : ℕ} {ticketAt : String → Option ℕ} {chain : List ScopeRef}
    {scopes scopes' : Heap Scope} (h : Acquisitions tokens nowMs ticketAt chain scopes scopes')
    (hnodup : chain.Nodup) (i : ScopeRef) :
    (i ∉ chain → scopes'.cell i = scopes.cell i) ∧
    (i ∈ chain → Scope.Acquired tokens nowMs (ticketAt (scopes.cell i).name) (scopes.cell i)
      (scopes'.cell i)) := by
  induction h with
  | nil scopes => exact ⟨fun _ => rfl, fun h => absurd h List.not_mem_nil⟩
  | @cons j rest scopes scopes' scope' head tail ih =>
    obtain ⟨hj, hrest⟩ := List.nodup_cons.mp hnodup
    obtain ⟨hout, hin⟩ := ih hrest
    rw [Heap.set_cell] at hout hin
    by_cases hij : i = j
    · subst hij
      rw [if_pos rfl] at hout
      refine ⟨fun h => absurd List.mem_cons_self h, fun _ => ?_⟩
      rw [hout hj]
      exact head
    · rw [if_neg hij] at hout hin
      refine ⟨fun h => hout fun hi => h (List.mem_cons_of_mem _ hi), fun h => hin ?_⟩
      exact (List.mem_cons.mp h).resolve_left hij

theorem Acquisitions.next {tokens nowMs : ℕ} {ticketAt : String → Option ℕ} {chain : List ScopeRef}
    {scopes scopes' : Heap Scope} (h : Acquisitions tokens nowMs ticketAt chain scopes scopes') :
    scopes'.next = scopes.next := by
  induction h with
  | nil scopes => rfl
  | cons _ _ ih => exact ih

/-! ### Layers -/

section Layers

variable {κ : Type} {cmp : κ → κ → Ordering} {name : κ → String}

/-- The entries of a layer lead to scopes named after their keys. -/
def Leads (name : κ → String) (layer : TreeMap κ ScopeRef cmp) (scopes : Heap Scope) : Prop :=
  ∀ key i, layer[key]? = some i → i < scopes.next ∧ (scopes.cell i).name = name key

theorem Leads.grow {layer : TreeMap κ ScopeRef cmp} {h h' : Heap Scope} (hl : Leads name layer h)
    (g : SteadyGrowth h h') : Leads name layer h' := by
  intro key i hi
  obtain ⟨hlt, hname⟩ := hl key i hi
  exact ⟨hlt.trans_le g.next_le, (g.old i hlt).name.trans hname⟩

theorem reconfigureAll_quiet (planned : TreeMap κ ScopeLimits cmp) (limits : ScopeLimits)
    (nowMs : ℕ) (entries : List (κ × ScopeRef)) (scopes : Heap Scope) :
    QuietGrowth scopes (entries.foldl (fun scopes entry =>
      if planned.contains entry.1 then scopes
      else scopes.modify entry.2 (·.reconfigure limits nowMs)) scopes) := by
  induction entries generalizing scopes with
  | nil => exact .refl scopes
  | cons entry entries ih =>
    refine QuietGrowth.trans ?_ (ih _)
    simp only
    split
    · exact .refl scopes
    · exact .modify Scope.Quiet.refl _ _ _ (Scope.reconfigure_quiet _ _ _)

/-- What a publication does to a layer. -/
structure LayerApplied (planned : TreeMap κ ScopeLimits cmp) (keepsAll : Bool) (name : κ → String)
    (layer : TreeMap κ ScopeRef cmp) (scopes : Heap Scope)
    (out : TreeMap κ ScopeRef cmp × Heap Scope) : Prop where
  quiet : QuietGrowth scopes out.2
  kept : ∀ key i, layer[key]? = some i → keepsAll || planned.contains key → out.1[key]? = some i
  /-- An entry was there before, or was created for a planned key that had none. -/
  found : ∀ key i, out.1[key]? = some i → layer[key]? = some i ∨
    planned.contains key ∧ layer[key]? = none ∧ i < out.2.next ∧ (out.2.cell i).name = name key

theorem LayerApplied.leads {planned : TreeMap κ ScopeLimits cmp} {keepsAll : Bool}
    {layer : TreeMap κ ScopeRef cmp} {scopes : Heap Scope}
    {out : TreeMap κ ScopeRef cmp × Heap Scope}
    (h : LayerApplied planned keepsAll name layer scopes out) (hl : Leads name layer scopes) :
    Leads name out.1 out.2 := by
  intro key i hi
  rcases h.found key i hi with hold | ⟨-, -, hnew⟩
  · exact hl.grow h.quiet.steady key i hold
  · exact hnew

variable [TransCmp cmp] [LawfulEqCmp cmp]

theorem retainPlanned_applied (planned : TreeMap κ ScopeLimits cmp) (fallback : Option ScopeLimits)
    (nowMs : ℕ) (layer : TreeMap κ ScopeRef cmp) (scopes : Heap Scope) :
    LayerApplied planned fallback.isSome name layer scopes
      (retainPlanned planned fallback nowMs (layer, scopes)) := by
  cases fallback with
  | some limits =>
    exact ⟨reconfigureAll_quiet planned limits nowMs _ scopes, fun _ _ hi _ => hi,
      fun _ _ hi => .inl hi⟩
  | none =>
    refine ⟨.refl scopes, fun key i hi hkeep => ?_, fun key i hi => .inl ?_⟩
    · simp only [retainPlanned, TreeMap.getElem?_filter, hi, Option.pfilter_some]
      simpa using hkeep
    · simp only [retainPlanned, TreeMap.getElem?_filter, Option.pfilter_eq_some_iff] at hi
      exact hi.1

variable [DecidableEq κ]

/-- An entry added for a new scope. -/
theorem Leads.insert {layer : TreeMap κ ScopeRef cmp} {h : Heap Scope} (hl : Leads name layer h)
    (key : κ) (limits : ScopeLimits) (ms : ℕ) :
    Leads name (layer.insert key h.next) (h.alloc (.new (name key) limits ms)) := by
  intro key' i hi
  rw [Maps.getElem?_insert] at hi
  split at hi
  · rename_i hkey
    cases hi
    rw [Heap.alloc_cell, if_pos rfl, hkey]
    exact ⟨Nat.lt_succ_self _, rfl⟩
  · obtain ⟨hlt, hname⟩ := hl key' i hi
    rw [Heap.alloc_cell, if_neg hlt.ne]
    exact ⟨Nat.lt_succ_of_lt hlt, hname⟩

theorem applyEntry_applied {planned : TreeMap κ ScopeLimits cmp} {keepsAll : Bool}
    {layer : TreeMap κ ScopeRef cmp} {scopes : Heap Scope}
    {out : TreeMap κ ScopeRef cmp × Heap Scope}
    (h : LayerApplied planned keepsAll name layer scopes out) (nowMs : ℕ) (entry : κ × ScopeLimits)
    (hentry : planned.contains entry.1) :
    LayerApplied planned keepsAll name layer scopes (applyEntry name nowMs out entry) := by
  simp only [applyEntry]
  split
  · rename_i i hi
    have hquiet : QuietGrowth out.2 (out.2.modify i (·.reconfigure entry.2 nowMs)) :=
      .modify Scope.Quiet.refl _ _ _ (Scope.reconfigure_quiet _ _ _)
    refine ⟨h.quiet.trans hquiet, h.kept, fun key j hj => ?_⟩
    rcases h.found key j hj with hold | ⟨hplanned, hnone, hlt, hname⟩
    · exact .inl hold
    · exact .inr ⟨hplanned, hnone, hlt, (hquiet.old j hlt).name.trans hname⟩
  · rename_i hnone
    have hquiet : QuietGrowth out.2 (out.2.alloc (.new (name entry.1) entry.2 nowMs)) :=
      .alloc Scope.Quiet.refl _ _ (Scope.idle_new _ _ _)
    -- The key had no entry before either, for a planned key's entry is kept.
    have hbefore : layer[entry.1]? = none := by
      cases hlayer : layer[entry.1]? with
      | none => rfl
      | some i =>
        rw [h.kept entry.1 i hlayer (by rw [hentry, Bool.or_true])] at hnone
        cases hnone
    refine ⟨h.quiet.trans hquiet, fun key i hi hkeep => ?_, fun key j hj => ?_⟩
    · rw [Maps.getElem?_insert, if_neg]
      · exact h.kept key i hi hkeep
      · rintro rfl
        rw [hbefore] at hi
        cases hi
    · rw [Maps.getElem?_insert] at hj
      split at hj
      · rename_i hkey
        cases hj
        rw [Heap.alloc_cell, if_pos rfl, hkey]
        exact .inr ⟨hentry, hbefore, Nat.lt_succ_self _, rfl⟩
      · rcases h.found key j hj with hold | ⟨hplanned, hkeyNone, hlt, hname⟩
        · exact .inl hold
        · exact .inr ⟨hplanned, hkeyNone, hlt.trans_le hquiet.next_le,
            (hquiet.old j hlt).name.trans hname⟩

variable (name) in
/-- **What a publication does to a layer.** -/
theorem applyLayer_applied (planned : TreeMap κ ScopeLimits cmp) (fallback : Option ScopeLimits)
    (nowMs : ℕ) (layer : TreeMap κ ScopeRef cmp) (scopes : Heap Scope) :
    LayerApplied planned fallback.isSome name layer scopes
      (applyLayer planned fallback name nowMs (layer, scopes)) := by
  have hfold : ∀ (entries : List (κ × ScopeLimits)) out, (∀ entry ∈ entries, planned.contains entry.1) →
      LayerApplied planned fallback.isSome name layer scopes out →
      LayerApplied planned fallback.isSome name layer scopes
        (entries.foldl (applyEntry name nowMs) out) := by
    intro entries
    induction entries with
    | nil => exact fun out _ h => h
    | cons entry entries ih =>
      intro out hplanned h
      exact ih _ (fun e he => hplanned e (List.mem_cons_of_mem _ he))
        (applyEntry_applied h nowMs entry (hplanned entry List.mem_cons_self))
  refine hfold _ _ (fun entry hentry => ?_) (retainPlanned_applied planned fallback nowMs layer scopes)
  have hget := TreeMap.mem_toList_iff_getElem?_eq_some.mp hentry
  rw [TreeMap.contains_eq_isSome_getElem?, hget]
  rfl

end Layers

namespace Controller

/-! ### The maps -/

/-- The maps that lead to scopes. -/
structure Maps where
  global : ScopeRef
  tenants : TreeMap TenantId ScopeRef compare
  principals : TreeMap PrincipalId ScopeRef compare
  targets : TreeMap TargetId ScopeRef compare
  aliases : TreeMap AliasKey ScopeRef AliasKey.order

def maps (c : Controller) : Maps := ⟨c.global, c.tenants, c.principals, c.targets, c.aliases⟩

/-- Every map leads to scopes named after its keys. -/
structure Wired (c : Controller) : Prop where
  global_lt : c.global < c.scopes.next
  global_name : (c.scopes.cell c.global).name = globalName
  tenants : Leads tenantName c.tenants c.scopes
  principals : Leads principalName c.principals c.scopes
  targets : Leads targetName c.targets c.scopes
  aliases : Leads aliasName c.aliases c.scopes

/-- Entries may be added for tenants and principals that had none. -/
structure Extends (c c' : Controller) : Prop where
  global : c'.global = c.global
  tenants : ∀ (key : TenantId) i, c.tenants[key]? = some i → c'.tenants[key]? = some i
  principals : ∀ (key : PrincipalId) i, c.principals[key]? = some i → c'.principals[key]? = some i
  targets : c'.targets = c.targets
  aliases : c'.aliases = c.aliases
  steady : SteadyGrowth c.scopes c'.scopes
  wired : Wired c → Wired c'

namespace Extends

theorem refl (c : Controller) : Extends c c :=
  ⟨rfl, fun _ _ h => h, fun _ _ h => h, rfl, rfl, .refl Scope.Steady.refl _, id⟩

theorem trans {c c' c'' : Controller} (h : Extends c c') (h' : Extends c' c'') : Extends c c'' where
  global := h'.global.trans h.global
  tenants key i hi := h'.tenants key i (h.tenants key i hi)
  principals key i hi := h'.principals key i (h.principals key i hi)
  targets := h'.targets.trans h.targets
  aliases := h'.aliases.trans h.aliases
  steady := h.steady.trans h'.steady
  wired hw := h'.wired (h.wired hw)

/-- A call that leaves the maps alone. -/
theorem of_scopes {c c' : Controller} (hmaps : c'.maps = c.maps)
    (g : SteadyGrowth c.scopes c'.scopes) : Extends c c' := by
  obtain ⟨hglobal, htenants, hprincipals, htargets, haliases⟩ := Maps.mk.inj hmaps
  refine ⟨hglobal, ?_, ?_, htargets, haliases, g, ?_⟩
  · intro key i hi
    rw [htenants]
    exact hi
  · intro key i hi
    rw [hprincipals]
    exact hi
  · intro hw
    refine ⟨?_, ?_, ?_, ?_, ?_, ?_⟩
    · rw [hglobal]
      exact hw.global_lt.trans_le g.next_le
    · rw [hglobal]
      exact (g.old _ hw.global_lt).name.trans hw.global_name
    · rw [htenants]
      exact hw.tenants.grow g
    · rw [hprincipals]
      exact hw.principals.grow g
    · rw [htargets]
      exact hw.targets.grow g
    · rw [haliases]
      exact hw.aliases.grow g

end Extends

theorem tenantScope_extends (c : Controller) (tenant : TenantId) (ms : ℕ) :
    Extends c (c.tenantScope tenant ms).2 := by
  have hsteady := (c.tenantScope_looked tenant ms).quiet.steady
  simp only [tenantScope] at hsteady ⊢
  split at hsteady
  · exact .refl c
  rename_i hnone
  refine ⟨rfl, fun key i hi => ?_, fun _ _ h => h, rfl, rfl, hsteady, fun hw => ?_⟩
  · rw [Maps.getElem?_insert, if_neg]
    · exact hi
    · rintro rfl
      rw [hnone] at hi
      cases hi
  · exact ⟨hw.global_lt.trans_le hsteady.next_le,
      (hsteady.old _ hw.global_lt).name.trans hw.global_name, hw.tenants.insert _ _ _,
      hw.principals.grow hsteady, hw.targets.grow hsteady, hw.aliases.grow hsteady⟩

theorem principalScope_extends (c : Controller) (principal : PrincipalId) (ms : ℕ) :
    Extends c (c.principalScope principal ms).2 := by
  have hsteady := (c.principalScope_looked principal ms).quiet.steady
  simp only [principalScope] at hsteady ⊢
  split at hsteady
  · exact .refl c
  rename_i hnone
  refine ⟨rfl, fun _ _ h => h, fun key i hi => ?_, rfl, rfl, hsteady, fun hw => ?_⟩
  · rw [Maps.getElem?_insert, if_neg]
    · exact hi
    · rintro rfl
      rw [hnone] at hi
      cases hi
  · exact ⟨hw.global_lt.trans_le hsteady.next_le,
      (hsteady.old _ hw.global_lt).name.trans hw.global_name, hw.tenants.grow hsteady,
      hw.principals.insert _ _ _, hw.targets.grow hsteady, hw.aliases.grow hsteady⟩

theorem chain_extends (c : Controller) (route : Route) (clock : Readings) :
    Extends c (c.chain route clock).2 :=
  (c.tenantScope_extends _ _).trans (principalScope_extends _ _ _)

theorem tenantScope_entry (c : Controller) (tenant : TenantId) (ms : ℕ) :
    (c.tenantScope tenant ms).2.tenants[tenant]? = some (c.tenantScope tenant ms).1 := by
  simp only [tenantScope]
  split
  · assumption
  · simp only [Maps.getElem?_insert, if_true]

theorem principalScope_entry (c : Controller) (principal : PrincipalId) (ms : ℕ) :
    (c.principalScope principal ms).2.principals[principal]?
      = some (c.principalScope principal ms).1 := by
  simp only [principalScope]
  split
  · assumption
  · simp only [Maps.getElem?_insert, if_true]

/-! ### Publications -/

theorem reconfigureGlobal_quiet (c : Controller) (limits : ScopeLimits) (nowMs : ℕ) :
    QuietGrowth c.scopes (c.reconfigureGlobal limits nowMs).scopes :=
  Heap.Grows.modify Scope.Quiet.refl c.scopes c.global (·.reconfigure limits nowMs)
    (Scope.reconfigure_quiet _ limits nowMs)

theorem applyTenants_quiet (c : Controller) (planned : TreeMap TenantId ScopeLimits compare)
    (nowMs : ℕ) : QuietGrowth c.scopes (c.applyTenants planned nowMs).scopes :=
  (applyLayer_applied tenantName planned _ nowMs c.tenants c.scopes).quiet

theorem applyTenants_extends (c : Controller) (planned : TreeMap TenantId ScopeLimits compare)
    (nowMs : ℕ) : Extends c (c.applyTenants planned nowMs) := by
  have h := applyLayer_applied tenantName planned (some c.defaultTenantLimits) nowMs
    c.tenants c.scopes
  have hsteady := h.quiet.steady
  exact ⟨rfl, fun key i hi => h.kept key i hi rfl, fun _ _ hi => hi, rfl, rfl, hsteady, fun hw =>
    ⟨hw.global_lt.trans_le hsteady.next_le, (hsteady.old _ hw.global_lt).name.trans hw.global_name,
      h.leads hw.tenants, hw.principals.grow hsteady, hw.targets.grow hsteady,
      hw.aliases.grow hsteady⟩⟩

theorem applyPrincipals_quiet (c : Controller) (planned : TreeMap PrincipalId ScopeLimits compare)
    (nowMs : ℕ) : QuietGrowth c.scopes (c.applyPrincipals planned nowMs).scopes :=
  (applyLayer_applied principalName planned _ nowMs c.principals c.scopes).quiet

theorem applyPrincipals_extends (c : Controller) (planned : TreeMap PrincipalId ScopeLimits compare)
    (nowMs : ℕ) : Extends c (c.applyPrincipals planned nowMs) := by
  have h := applyLayer_applied principalName planned (some c.defaultPrincipalLimits) nowMs
    c.principals c.scopes
  have hsteady := h.quiet.steady
  exact ⟨rfl, fun _ _ hi => hi, fun key i hi => h.kept key i hi rfl, rfl, rfl, hsteady, fun hw =>
    ⟨hw.global_lt.trans_le hsteady.next_le, (hsteady.old _ hw.global_lt).name.trans hw.global_name,
      hw.tenants.grow hsteady, h.leads hw.principals, hw.targets.grow hsteady,
      hw.aliases.grow hsteady⟩⟩

/-- What a publication does. -/
structure Published (plan : AdmissionPlan) (c c' : Controller) : Prop where
  quiet : QuietGrowth c.scopes c'.scopes
  wired : Wired c → Wired c'
  global : c'.global = c.global
  tenants : ∀ (key : TenantId) i, c.tenants[key]? = some i → c'.tenants[key]? = some i
  principals : ∀ (key : PrincipalId) i, c.principals[key]? = some i → c'.principals[key]? = some i
  targets : ∀ (key : TargetId) i, c'.targets[key]? = some i →
    c.targets[key]? = some i ∨ plan.targets.contains key ∧ c.targets[key]? = none
  aliases : ∀ (key : AliasKey) i, c'.aliases[key]? = some i →
    c.aliases[key]? = some i ∨ plan.aliases.contains key ∧ c.aliases[key]? = none

/-- **What a publication does.**  Scopes are reconfigured, never replaced, and a target or alias that
has a scope keeps it or loses it. -/
theorem apply_published (c : Controller) (plan : AdmissionPlan) (nowMs : ℕ) :
    Published plan c (c.apply plan nowMs) := by
  -- Up to the principals only entries are added.
  have hglobal := c.reconfigureGlobal_quiet plan.global nowMs
  have hbytes : Extends c ((c.reconfigureGlobal plan.global nowMs).reshapeBytes plan.byteRates nowMs) :=
    .of_scopes rfl hglobal.steady
  have htenants := applyTenants_extends
    ((c.reconfigureGlobal plan.global nowMs).reshapeBytes plan.byteRates nowMs) plan.tenants nowMs
  have htenantsQuiet := applyTenants_quiet
    ((c.reconfigureGlobal plan.global nowMs).reshapeBytes plan.byteRates nowMs) plan.tenants nowMs
  have hextends := (hbytes.trans htenants).trans (applyPrincipals_extends _ plan.principals nowMs)
  have hquiet := (QuietGrowth.trans hglobal htenantsQuiet).trans
    (applyPrincipals_quiet _ plan.principals nowMs)
  simp only [apply]
  generalize ((((c.reconfigureGlobal plan.global nowMs).reshapeBytes plan.byteRates
    nowMs).applyTenants plan.tenants nowMs).applyPrincipals plan.principals nowMs) = c₁
    at hextends hquiet ⊢
  have htargets := applyLayer_applied targetName plan.targets none nowMs c₁.targets c₁.scopes
  have haliases := applyLayer_applied aliasName plan.aliases none nowMs c₁.aliases
    (c₁.applyTargets plan.targets nowMs).scopes
  have hlater := (htargets.quiet.trans haliases.quiet).steady
  refine ⟨(hquiet.trans htargets.quiet).trans haliases.quiet, fun hw => ?_, hextends.global,
    hextends.tenants, hextends.principals, fun key i hi => ?_, fun key i hi => ?_⟩
  · have hw₁ := hextends.wired hw
    exact ⟨hw₁.global_lt.trans_le hlater.next_le,
      (hlater.old _ hw₁.global_lt).name.trans hw₁.global_name, hw₁.tenants.grow hlater,
      hw₁.principals.grow hlater, (htargets.leads hw₁.targets).grow haliases.quiet.steady,
      haliases.leads (hw₁.aliases.grow htargets.quiet.steady)⟩
  · rcases htargets.found key i hi with hold | ⟨hplanned, hnone, -⟩
    · exact .inl (hextends.targets ▸ hold)
    · exact .inr ⟨hplanned, hextends.targets ▸ hnone⟩
  · rcases haliases.found key i hi with hold | ⟨hplanned, hnone, -⟩
    · exact .inl (hextends.aliases ▸ hold)
    · exact .inr ⟨hplanned, hextends.aliases ▸ hnone⟩

end Controller

/-! ### The scopes of one request -/

/-- The key of an alias scope a request can meet: for its operation, or alias-wide. -/
def Route.AliasedBy (route : Route) (key : AliasKey) : Prop :=
  ∃ aliasId operation, route.aliased = some (aliasId, operation) ∧
    (key = (aliasId, some operation) ∨ key = (aliasId, none))

theorem aliasName_ne (aliasId : AliasId) (operation : Operation) :
    aliasName (aliasId, some operation) ≠ aliasName (aliasId, none) := by
  intro h
  have hlength := congrArg String.length h
  simp only [aliasName, String.length_append] at hlength
  have hcolon : ":".length = 1 := rfl
  omega

/-- The first two letters of a scope's name tell its layer. -/
def layerTag (name : String) : List Char := name.toList.take 2

@[simp] theorem layerTag_global : layerTag globalName = ['g', 'l'] := rfl

@[simp] theorem layerTag_tenant (tenant : TenantId) : layerTag (tenantName tenant) = ['t', 'e'] := by
  simp [layerTag, tenantName]

@[simp] theorem layerTag_principal (principal : PrincipalId) :
    layerTag (principalName principal) = ['p', 'r'] := by
  simp [layerTag, principalName]

@[simp] theorem layerTag_target (target : TargetId) : layerTag (targetName target) = ['t', 'a'] := by
  simp [layerTag, targetName]

@[simp] theorem layerTag_alias (key : AliasKey) : layerTag (aliasName key) = ['a', 'l'] := by
  obtain ⟨aliasId, qualifier⟩ := key
  cases qualifier <;> simp [layerTag, aliasName]

namespace Controller

/-- The scopes the maps have for a request. -/
inductive Candidate (c : Controller) (route : Route) (i : ScopeRef) : Prop
  | global (h : i = c.global)
  | tenant (h : c.tenants[route.tenant]? = some i)
  | principal (h : c.principals[route.principal]? = some i)
  | aliased (key : AliasKey) (hkey : route.AliasedBy key) (h : c.aliases[key]? = some i)
  | target (h : c.targets[route.target]? = some i)

/-- The scope of that name a request can meet, found from the letters of the name. -/
def byName (c : Controller) (route : Route) (name : String) : Option ScopeRef :=
  match layerTag name with
  | ['g', 'l'] => some c.global
  | ['t', 'e'] => c.tenants[route.tenant]?
  | ['p', 'r'] => c.principals[route.principal]?
  | ['t', 'a'] => c.targets[route.target]?
  | _ => route.aliased.bind fun (aliasId, operation) =>
    if name = aliasName (aliasId, some operation) then
      c.aliases[((aliasId, some operation) : AliasKey)]?
    else c.aliases[((aliasId, none) : AliasKey)]?

theorem Candidate.byName {c : Controller} (hw : Wired c) {route : Route} {i : ScopeRef}
    (h : Candidate c route i) : c.byName route (c.scopes.cell i).name = some i := by
  cases h with
  | global h =>
    subst h
    rw [hw.global_name]
    rfl
  | tenant h => simp only [Controller.byName, (hw.tenants _ _ h).2, layerTag_tenant, h]
  | principal h => simp only [Controller.byName, (hw.principals _ _ h).2, layerTag_principal, h]
  | aliased key hkey h =>
    obtain ⟨aliasId, operation, hroute, rfl | rfl⟩ := hkey
    · simp only [Controller.byName, (hw.aliases _ _ h).2, layerTag_alias, hroute, Option.bind_some,
        if_true, h]
      rfl
    · simp only [Controller.byName, (hw.aliases _ _ h).2, layerTag_alias, hroute, Option.bind_some,
        if_neg (aliasName_ne aliasId operation).symm, h]
      rfl
  | target h => simp only [Controller.byName, (hw.targets _ _ h).2, layerTag_target, h]

/-- **No two scopes a request can meet share a name.** -/
theorem Candidate.eq_of_name {c : Controller} (hw : Wired c) {route : Route} {i j : ScopeRef}
    (hi : Candidate c route i) (hj : Candidate c route j)
    (hname : (c.scopes.cell i).name = (c.scopes.cell j).name) : i = j := by
  have hfound := hi.byName hw
  rw [hname, hj.byName hw] at hfound
  exact (Option.some.inj hfound).symm

theorem Candidate.lt {c : Controller} (hw : Wired c) {route : Route} {i : ScopeRef}
    (h : Candidate c route i) : i < c.scopes.next := by
  cases h with
  | global h => exact h ▸ hw.global_lt
  | tenant h => exact (hw.tenants _ _ h).1
  | principal h => exact (hw.principals _ _ h).1
  | aliased key _ h => exact (hw.aliases _ _ h).1
  | target h => exact (hw.targets _ _ h).1

/-- Every layer gives a chain at most one scope, in the order of the layers. -/
theorem chain_eq (c : Controller) (route : Route) (clock : Readings) :
    ∃ tenant principal aliased target,
      (c.chain route clock).1
        = [(c.chain route clock).2.global, tenant, principal] ++ Option.toList aliased
          ++ Option.toList target ∧
      (c.chain route clock).2.tenants[route.tenant]? = some tenant ∧
      (c.chain route clock).2.principals[route.principal]? = some principal ∧
      (∀ i, aliased = some i → ∃ key, route.AliasedBy key ∧
        (c.chain route clock).2.aliases[key]? = some i) ∧
      target = (c.chain route clock).2.targets[route.target]? := by
  refine ⟨_, _, _, _, rfl, ?_, principalScope_entry _ _ _, fun i hi => ?_, rfl⟩
  · exact (principalScope_extends _ route.principal clock.principal).tenants _ _
      (c.tenantScope_entry route.tenant clock.tenant)
  · obtain ⟨⟨aliasId, operation⟩, hroute, hscope⟩ := Option.bind_eq_some_iff.mp hi
    rcases Option.or_eq_some_iff.mp hscope with hscope | ⟨-, hscope⟩
    · exact ⟨_, ⟨aliasId, operation, hroute, .inl rfl⟩, hscope⟩
    · exact ⟨_, ⟨aliasId, operation, hroute, .inr rfl⟩, hscope⟩

theorem chain_candidate (c : Controller) (route : Route) (clock : Readings) {i : ScopeRef}
    (h : i ∈ (c.chain route clock).1) : Candidate (c.chain route clock).2 route i := by
  obtain ⟨tenant, principal, aliased, target, hchain, htenant, hprincipal, haliased, rfl⟩ :=
    c.chain_eq route clock
  rw [hchain] at h
  simp only [List.mem_append, List.mem_cons, List.not_mem_nil, or_false, Option.mem_toList] at h
  rcases h with ((rfl | rfl | rfl) | h) | h
  · exact .global rfl
  · exact .tenant htenant
  · exact .principal hprincipal
  · obtain ⟨key, hkey, hscope⟩ := haliased i h
    exact .aliased key hkey hscope
  · exact .target h

/-- **The scopes of a chain are distinct**: their names begin differently. -/
theorem chain_nodup {c : Controller} (hw : Wired c) (route : Route) (clock : Readings) :
    (c.chain route clock).1.Nodup := by
  have hw' := (c.chain_extends route clock).wired hw
  obtain ⟨tenant, principal, aliased, target, hchain, htenant, hprincipal, haliased, htarget⟩ :=
    c.chain_eq route clock
  rw [hchain]
  generalize (c.chain route clock).2 = c' at hw' htenant hprincipal haliased htarget ⊢
  refine List.Nodup.of_map (fun i => layerTag (c'.scopes.cell i).name) ?_
  have hfirst : [c'.global, tenant, principal].map (fun i => layerTag (c'.scopes.cell i).name)
      = [['g', 'l'], ['t', 'e'], ['p', 'r']] := by
    simp [hw'.global_name, (hw'.tenants _ _ htenant).2, (hw'.principals _ _ hprincipal).2]
  have hthird : target.toList.map (fun i => layerTag (c'.scopes.cell i).name) = [] ∨
      target.toList.map (fun i => layerTag (c'.scopes.cell i).name) = [['t', 'a']] := by
    cases target with
    | none => exact .inl rfl
    | some i => exact .inr (by simp [(hw'.targets _ _ htarget.symm).2])
  have hsecond : aliased.toList.map (fun i => layerTag (c'.scopes.cell i).name) = [] ∨
      aliased.toList.map (fun i => layerTag (c'.scopes.cell i).name) = [['a', 'l']] := by
    cases aliased with
    | none => exact .inl rfl
    | some i =>
      obtain ⟨key, -, hscope⟩ := haliased i rfl
      exact .inr (by simp [(hw'.aliases key i hscope).2])
  rw [List.map_append, List.map_append, hfirst]
  rcases hsecond with h | h <;> rcases hthird with h' | h' <;> rw [h, h'] <;> decide

end Controller

end HypeLlm.Admission
