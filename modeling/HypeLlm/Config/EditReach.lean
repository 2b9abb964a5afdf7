import HypeLlm.Config.EditedText

/-!
# What edits cannot reach

Grants and quotas that decide for more than one subject, and records of other kinds, are no concern of
edits; nor are most settings, which an edit cannot name.  An edit that removes the settings drops them
all the same, where the removal of a quota is refused for less.

* `Effect.keeps_protected`, `Effect.keeps_settings` — one edit;
* `Effect.inPlace` — what an edit changes in place is neither the identifier of a record nor, but for
  bindings and fleet grants, its scope;
* **`edits_keep_reach`** — all the edits of a batch.
-/

namespace HypeLlm.Config

open List

/-! ### Out of reach -/

/-- A record of a kind that is not editable, or at a scope where its kind is not. -/
def isProtected (c : Content) : Bool :=
  c.1 ∉ editableKinds ||
    match scopeRule c.1 with
    | some allowed => ∀ field ∈ c.2, field.1 = "scope" → ¬narrow allowed field.2
    | none => false

/-- The fields of a settings record that an edit cannot name. -/
def fixedFields (c : Content) : Multiset (String × String) :=
  if c.1 = "settings" then (c.2.filter fun field => field.1 ∉ editableSettings).val else 0

/-- These, of all records. -/
def settingsFields (contents : Multiset Content) : Multiset (String × String) := contents.bind fixedFields

/-- What edits leave as it was. -/
structure Framed (edits : List Edit) (base d : Document) : Prop where
  protected_eq : d.contents.filter (isProtected ·) = base.contents.filter (isProtected ·)
  settings_eq : .remove "settings" .singleton ∉ edits → settingsFields d.contents = settingsFields base.contents

/-- One record is made, taken out or changed; what is changed keeps its identifier, and its scope unless it
is a binding or a fleet grant. -/
inductive InPlace : List Record → List Record → Prop
  | created (records : List Record) (r : Record) : InPlace records (records ++ [r])
  | removed (records : List Record) (i : ℕ) : InPlace records (records.eraseIdx i)
  | merged {records : List Record} {i : ℕ} {r r' : Record} (hr : records[i]? = some r) (hkind : r'.kind = r.kind)
      (hid : r'.get "id" = r.get "id")
      (hscope : r.kind ≠ "binding" → r.kind ≠ "fleet_grant" → r'.get "scope" = r.get "scope") :
      InPlace records (records.set i r')

/-! ### One edit -/

theorem narrow_empty {kind : String} {allowed : List String} (h : scopeRule kind = some allowed) :
    narrow allowed "" = false := by
  unfold scopeRule at h
  split_ifs at h
  · cases h
    decide
  · cases h
    decide

theorem not_isProtected_of {c : Content} (hkind : c.1 ∈ editableKinds)
    (h : ∀ allowed, scopeRule c.1 = some allowed → ∃ scope, ("scope", scope) ∈ c.2 ∧ narrow allowed scope = true) :
    isProtected c = false := by
  unfold isProtected
  rw [decide_eq_false (not_not.2 hkind), Bool.false_or]
  cases hrule : scopeRule c.1 with
  | none => rfl
  | some allowed =>
    obtain ⟨scope, hscope, hnarrow⟩ := h allowed hrule
    exact decide_eq_false fun hall => hall _ hscope rfl hnarrow

/-- A record in reach is not protected. -/
theorem Record.InReach.not_isProtected {r : Record} (hreach : r.InReach) (hproper : r.entry.Proper)
    (hkind : r.kind ∈ editableKinds) : isProtected r.entry.content = false := by
  refine not_isProtected_of hkind fun allowed hallowed => ?_
  have hnarrow := hreach allowed hallowed
  cases hscope : r.get "scope" with
  | none =>
    rw [hscope, Option.getD_none, narrow_empty hallowed] at hnarrow
    cases hnarrow
  | some scope =>
    rw [hscope] at hnarrow
    exact ⟨scope, mem_toFinset.2 ((Record.get_eq_some_iff hproper.distinct).1 hscope), hnarrow⟩

variable {edit : Edit} {d d' : Document}

theorem contents_eraseIdx {i : ℕ} {r : Record} (hr : d.records[i]? = some r) :
    d.contents = r.entry.content ::ₘ Document.contents ⟨d.records.eraseIdx i⟩ := by
  obtain ⟨hi, rfl⟩ := List.getElem?_eq_some_iff.1 hr
  exact Multiset.coe_eq_coe.2 ((getElem_cons_eraseIdx_perm hi).symm.map _)

theorem contents_set {i : ℕ} {r : Record} (hr : d.records[i]? = some r) (r' : Record) :
    Document.contents ⟨d.records.set i r'⟩ = r'.entry.content ::ₘ Document.contents ⟨d.records.eraseIdx i⟩ := by
  obtain ⟨hi, rfl⟩ := List.getElem?_eq_some_iff.1 hr
  exact Multiset.coe_eq_coe.2 ((set_perm_cons_eraseIdx hi r').map _)

theorem contents_concat (r : Record) : Document.contents ⟨d.records ++ [r]⟩ = r.entry.content ::ₘ d.contents :=
  Multiset.coe_eq_coe.2 ((perm_append_singleton r d.records).map _)

/-- **One edit keeps what is out of its reach.** -/
theorem Effect.keeps_protected (hd : ∀ r ∈ d.records, r.entry.Proper) (h : Effect edit d d') :
    d'.contents.filter (isProtected ·) = d.contents.filter (isProtected ·) := by
  have hdrop : ∀ (c : Content) (cs : Multiset Content), isProtected c = false →
      (c ::ₘ cs).filter (isProtected ·) = cs.filter (isProtected ·) :=
    fun c cs hc => Multiset.filter_cons_of_neg cs (by rw [hc]; exact Bool.false_ne_true)
  cases h with
  | removed hfind hr hkind hsuits hreach =>
    rw [← (find_eq_some hfind hr).2] at hkind
    rw [contents_eraseIdx hr, hdrop _ _ (hreach.not_isProtected (hd _ (mem_of_getElem? hr)) hkind)]
  | @merged kind identity fields _ i r hfind hr hkind hsuits hreach hnames hmay hscope =>
    rw [← (find_eq_some hfind hr).2] at hkind hscope
    have hproper := hd r (mem_of_getElem? hr)
    have hreach' : (r.merge fields).InReach := by
      intro allowed hallowed
      rw [Record.merge_get hproper.distinct hnames (hscope (Option.ne_none_iff_exists'.2 ⟨allowed, hallowed⟩))]
      exact hreach allowed hallowed
    have hproper' := merge_proper hproper hnames fun change hchange => (hmay change hchange).identifier
    rw [contents_set hr, contents_eraseIdx hr, hdrop _ _ (hreach'.not_isProtected hproper' hkind),
      hdrop _ _ (hreach.not_isProtected hproper hkind)]
  | @created kind identity fields _ hfind hkind hproper hsuits hnames hmay hscope =>
    rw [contents_concat, hdrop]
    refine not_isProtected_of hkind fun allowed hallowed => ?_
    obtain ⟨scope, hmem, hnarrow⟩ := hscope allowed hallowed
    refine ⟨scope, mem_toFinset.2 ?_, hnarrow⟩
    exact ((mem_mergeFields (identity.fields_proper hproper).distinct hnames).2 _).2 (.inr hmem)

/-- What an edit may name in the settings is not among the fields that it cannot. -/
theorem fixedFields_merge {changes : List (String × Option String)} {c : Content}
    (h : c.1 = "settings" → ∀ change ∈ changes, change.1 ∈ editableSettings) :
    fixedFields (mergeContent changes c) = fixedFields c := by
  unfold fixedFields mergeContent
  dsimp only
  split
  · rename_i hkind
    refine congrArg Finset.val (Finset.ext fun field => ?_)
    rw [Finset.mem_filter, Finset.mem_filter, Finset.mem_union, Finset.mem_filter, mem_toFinset, mem_filterMap]
    refine and_congr_left fun hfixed => ⟨fun hmem => ?_, fun hmem => .inl ⟨hmem, fun hname => hfixed ?_⟩⟩
    · refine (hmem.resolve_right ?_).1
      rintro ⟨change, hchange, hset⟩
      obtain ⟨value, -, rfl⟩ := Option.map_eq_some_iff.1 hset
      exact hfixed (h hkind change hchange)
    · obtain ⟨change, hchange, hsame⟩ := mem_map.1 hname
      exact hsame ▸ h hkind change hchange
  · rfl

theorem fixedFields_of_ne {c : Content} (h : c.1 ≠ "settings") : fixedFields c = 0 := if_neg h

/-- **One edit keeps the settings that it cannot name**, if it does not remove them all. -/
theorem Effect.keeps_settings (hd : ∀ r ∈ d.records, r.entry.Proper) (h : Effect edit d d')
    (hedit : edit ≠ .remove "settings" .singleton) : settingsFields d'.contents = settingsFields d.contents := by
  unfold settingsFields
  cases h with
  | @removed kind identity _ i r hfind hr hkind hsuits hreach =>
    have hne : kind ≠ "settings" := by
      rintro rfl
      obtain ⟨-, rfl⟩ | ⟨hpolicy, -⟩ | ⟨hne, -⟩ := hsuits
      · exact hedit rfl
      · exact absurd hpolicy (by decide)
      · exact hne rfl
    rw [← (find_eq_some hfind hr).2] at hne
    rw [contents_eraseIdx hr, Multiset.cons_bind, fixedFields_of_ne (c := r.entry.content) hne, zero_add]
  | @merged kind identity fields _ i r hfind hr hkind hsuits hreach hnames hmay hscope =>
    have hsame := (find_eq_some hfind hr).2
    rw [contents_set hr, contents_eraseIdx hr, Multiset.cons_bind, Multiset.cons_bind,
      merge_content (hd r (mem_of_getElem? hr)).distinct hnames, fixedFields_merge]
    intro hkind change hchange
    exact (hmay change hchange).settings (hsame.symm.trans hkind)
  | @created kind identity fields _ hfind hkind hproper hsuits hnames hmay hscope =>
    rw [contents_concat, Multiset.cons_bind, merge_content (identity.fields_proper hproper).distinct hnames,
      fixedFields_merge fun hkind change hchange => (hmay change hchange).settings hkind]
    have hnone : fixedFields (newRecord kind identity).entry.content = 0 := by
      obtain ⟨-, rfl⟩ | ⟨rfl, -⟩ | ⟨hne, -⟩ := hsuits
      · unfold fixedFields
        split <;> rfl
      · exact fixedFields_of_ne (show "fleet_policy" ≠ "settings" by decide)
      · exact fixedFields_of_ne hne
    rw [hnone, zero_add]

/-- A kind without an `id` is identified otherwise. -/
theorem id_notMem_names : ∀ kind ∈ ["settings", "fleet_policy"],
    (schemaFor kind).any (fun s => "id" ∉ s.names) = true := by decide +kernel

/-- Where a kind has a scope, it is fixed by a rule or identifies the record, but for two. -/
theorem scope_notMem_names : ∀ kind ∈ editableKinds, kind = "binding" ∨ kind = "fleet_grant" ∨
    scopeRule kind ≠ none ∨ kind = "fleet_policy" ∨ (schemaFor kind).any (fun s => "scope" ∉ s.names) = true := by
  decide +kernel

theorem MayName.ne_of_any {kind name key : String} {identity : Identity} (h : MayName kind identity name)
    (hnone : (schemaFor kind).any (fun s => key ∉ s.names) = true) : name ≠ key := by
  rintro rfl
  obtain ⟨schema, hschema, hnot⟩ := (Option.any_eq_true _ _).1 hnone
  exact of_decide_eq_true hnot (h.known schema hschema)

theorem Effect.inPlace (hd : ∀ r ∈ d.records, r.entry.Proper) (h : Effect edit d d') :
    InPlace d.records d'.records := by
  cases h with
  | removed => exact .removed _ _
  | created => exact .created _ _
  | @merged kind identity fields _ i r hfind hr hkind hsuits hreach hnames hmay hscope =>
    have hsame := (find_eq_some hfind hr).2
    have hdistinct := (hd r (mem_of_getElem? hr)).distinct
    refine .merged hr rfl (Record.merge_get hdistinct hnames fun change hchange => ?_) fun hbinding hgrant =>
      Record.merge_get hdistinct hnames fun change hchange => ?_
    · have hmay := hmay change hchange
      obtain ⟨rfl, -⟩ | ⟨rfl, -⟩ | ⟨-, -, value, rfl⟩ := hsuits
      · exact hmay.ne_of_any (id_notMem_names _ mem_cons_self)
      · exact hmay.ne_of_any (id_notMem_names _ (mem_cons_of_mem _ mem_cons_self))
      · exact hmay.id value rfl
    · have hmay := hmay change hchange
      rw [hsame] at hbinding hgrant
      obtain hcase | hcase | hcase | hcase | hcase := scope_notMem_names kind hkind
      · exact absurd hcase hbinding
      · exact absurd hcase hgrant
      · exact hscope hcase change hchange
      · obtain ⟨rfl, -⟩ | ⟨-, value, rfl⟩ | ⟨-, hne, -⟩ := hsuits
        · exact absurd hcase (by decide)
        · exact hmay.scope value rfl
        · exact absurd hcase hne
      · exact hmay.ne_of_any hcase

/-! ### A batch -/

theorem applyLoop_framed {index changed changed' : ℕ} {edits : List Edit} (hd : ∀ r ∈ d.records, r.entry.Proper)
    (h : applyLoop index edits d changed = .ok (d', changed')) : Framed edits d d' := by
  induction edits generalizing index d changed with
  | nil =>
    cases h
    exact ⟨rfl, fun _ => rfl⟩
  | cons edit edits ih =>
    rw [applyLoop] at h
    split at h
    · cases h
    · rename_i next changed heq
      have heffect := applyEdit_effect heq
      obtain ⟨hprotected, hsettings⟩ := ih (heffect.proper hd) h
      refine ⟨hprotected.trans (heffect.keeps_protected hd), fun hnot => ?_⟩
      rw [mem_cons, not_or] at hnot
      exact (hsettings hnot.2).trans (heffect.keeps_settings hd (Ne.symm hnot.1))

/-- Every edit of a batch was applied to what the ones before it made. -/
theorem applyLoop_inPlace {index changed changed' : ℕ} {before after : List Edit} {edit : Edit}
    (hd : ∀ r ∈ d.records, r.entry.Proper)
    (h : applyLoop index (before ++ edit :: after) d changed = .ok (d', changed')) :
    ∃ here next m n, applyLoop index before d changed = .ok (here, m) ∧ applyEdit edit here m = .ok (next, n) ∧
      InPlace here.records next.records := by
  induction before generalizing index d changed with
  | nil =>
    rw [nil_append, applyLoop] at h
    split at h
    · cases h
    · rename_i next n heq
      exact ⟨d, next, changed, n, rfl, heq, (applyEdit_effect heq).inPlace hd⟩
  | cons first before ih =>
    rw [cons_append, applyLoop] at h
    split at h
    · cases h
    · rename_i d changed heq
      obtain ⟨here, next, m, n, hhere, hnext, hplace⟩ := ih ((applyEdit_effect heq).proper hd) h
      refine ⟨here, next, m, n, ?_, hnext, hplace⟩
      rw [applyLoop, heq]
      exact hhere

theorem Framed.of_contents {edits : List Edit} {base d e : Document} (h : Framed edits base d)
    (hsame : e.contents = d.contents) : Framed edits base e := by
  refine ⟨?_, fun hnot => ?_⟩
  · rw [hsame]
    exact h.protected_eq
  · rw [hsame]
    exact h.settings_eq hnot

/-- **Edits stay inside their reach.**  The records of kinds that are not editable, the grants at other scopes
than a principal's or a group's and the quotas at other scopes than a principal's are those of the base, and so
are the settings that an edit cannot name as long as no edit removes the settings record; this holds of the
edited document and of what its text is parsed to.  And no edit changes the identifier of a record in place,
nor the scope of one that is not a binding or a fleet grant. -/
theorem edits_keep_reach {text : List Char} {edits : List Edit} {applied : Applied}
    (h : apply text edits = .ok applied) :
    ∃ base edited, parse .default text = .ok base ∧ applyLoop 0 edits base 0 = .ok (edited, applied.changed) ∧
      applied.text = edited.toCanonical ∧ Framed edits base edited ∧
      (∀ d, parse .default applied.text = .ok d → Framed edits base d) ∧
      ∀ before edit after, edits = before ++ edit :: after →
        ∃ here next m n, applyLoop 0 before base 0 = .ok (here, m) ∧ applyEdit edit here m = .ok (next, n) ∧
          InPlace here.records next.records := by
  obtain ⟨base, edited, hbase, hloop, htext⟩ := apply_eq_ok h
  have hproper : ∀ r ∈ base.records, r.entry.Proper := fun r hr => ((parse_sound hbase).1 r hr).proper
  have hframed := applyLoop_framed hproper hloop
  refine ⟨base, edited, hbase, hloop, htext, hframed, fun d hd => ?_, ?_⟩
  · rw [htext] at hd
    obtain ⟨d', hd', hentries⟩ | ⟨-, what, position, -, hfail⟩ :=
      canonical_outcome .default (applyLoop_performs hproper hloop).1
    · rw [hd] at hd'
      cases hd'
      exact hframed.of_contents (contents_eq_of_entries hentries)
    · rw [hd] at hfail
      cases hfail
  · rintro before edit after rfl
    exact applyLoop_inPlace hproper hloop

namespace Sample

/-- A role, a grant of a tenant, and settings of which one is editable. -/
def guarded : List Char :=
  "settings state_dir=/s fleet_enabled=true\nrole_binding subject=a role=admin\ngrant scope=tenant:t".toList

def switchOff : Edit := .set "settings" .singleton [("fleet_enabled", some "false")]

/-- The grant, the role and the directory of the state stay as they are. -/
def guardedAfter : List Char :=
  "grant scope=tenant:t\nrole_binding role=admin subject=a\nsettings fleet_enabled=false state_dir=/s\n".toList

theorem switchOff_applied : apply guarded [switchOff] = .ok ⟨guardedAfter, 1⟩ := by
  have hguarded : guarded = _ := String.toList_ofList
  have hafter : guardedAfter = _ := String.toList_ofList
  rw [hguarded, hafter]
  decide +kernel

theorem reach_kept : apply guarded [switchOff] = .ok ⟨guardedAfter, 1⟩ ∧
    ∃ b edited, parse .default guarded = .ok b ∧ applyLoop 0 [switchOff] b 0 = .ok (edited, 1) ∧
      guardedAfter = edited.toCanonical ∧ Framed [switchOff] b edited ∧
      (∀ d, parse .default guardedAfter = .ok d → Framed [switchOff] b d) ∧
      ∀ before edit after, [switchOff] = before ++ edit :: after →
        ∃ here next m n, applyLoop 0 before b 0 = .ok (here, m) ∧ applyEdit edit here m = .ok (next, n) ∧
          InPlace here.records next.records :=
  ⟨switchOff_applied, edits_keep_reach switchOff_applied⟩

def settings : Document := ⟨[⟨"settings", [("state_dir", "/var/lib/hypellm"), ("fleet_enabled", "true")], ⟨1, 1⟩⟩]⟩

def bindings (scope : String) : Document := ⟨[⟨"binding", [("id", "b"), ("scope", scope)], ⟨1, 1⟩⟩]⟩

/-- The settings are removed with what an edit cannot name, and a binding is moved to another scope. -/
theorem settings_dropped :
    (parse .default "settings state_dir=/var/lib/hypellm fleet_enabled=true".toList = .ok settings ∧
      apply "settings state_dir=/var/lib/hypellm fleet_enabled=true".toList [.remove "settings" .singleton] =
        .ok ⟨[], 1⟩ ∧
      parse .default [] = .ok ⟨[]⟩ ∧ settingsFields (Document.contents ⟨[]⟩) ≠ settingsFields settings.contents) ∧
    parse .default "binding id=b scope=global".toList = .ok (bindings "global") ∧
      apply "binding id=b scope=global".toList [.set "binding" (.id "b") [("scope", some "tenant:t")]] =
        .ok ⟨"binding id=b scope=tenant:t\n".toList, 1⟩ ∧
      parse .default "binding id=b scope=tenant:t\n".toList = .ok (bindings "tenant:t") := by
  -- the characters of a literal, which are decoded from its bytes otherwise
  have hsettings : "settings state_dir=/var/lib/hypellm fleet_enabled=true".toList = _ := String.toList_ofList
  have hglobal : "binding id=b scope=global".toList = _ := String.toList_ofList
  have htenant : "binding id=b scope=tenant:t\n".toList = _ := String.toList_ofList
  rw [hsettings, hglobal, htenant]
  decide +kernel

end Sample

end HypeLlm.Config
