import HypeLlm.Config.Edits

/-!
# The text of an edited configuration

What an edit does to a configuration is said here of its records, each the set of its fields (`perform`):
the first record that the edit addresses is merged with its fields or taken out, and a record that is not
there is made.  The edited text is read as just that.

* `Effect.performs`, `Effect.proper` — an edit does this, and its records can be written;
* `applyLoop_performs` — and so do all of them, in order;
* **`edited_text_read`** — the text that comes out is read as the records of the base with the edits
  performed, or a size limit is named.
-/

namespace HypeLlm.Config

open List

/-! ### Edits of records -/

namespace Identity

/-- What the identity is that of. -/
def names (kind : String) (identity : Identity) (c : Content) : Bool :=
  c.1 = kind &&
    match identity with
    | .id value => ("id", value) ∈ c.2
    | .scope value => ("scope", value) ∈ c.2
    | .singleton => true

end Identity

/-- The fields that are not named, and those that are set. -/
def mergeContent (changes : List (String × Option String)) (c : Content) : Content :=
  (c.1, c.2.filter (fun field => field.1 ∉ changes.map (·.1)) ∪
    (changes.filterMap fun change => change.2.map fun value => (change.1, value)).toFinset)

/-- **An edit of records.** -/
def Edit.perform (edit : Edit) (records : List Content) : List Content :=
  match edit with
  | .remove kind identity => records.eraseP (identity.names kind)
  | .set kind identity changes =>
    match records.findIdx? (identity.names kind) with
    | some i => records.modify i (mergeContent changes)
    | none => records ++ [mergeContent changes (kind, identity.fields.toFinset)]

/-! ### What edits do to documents -/

theorem names_content {kind : String} {identity : Identity} {r : Record} (h : r.entry.Proper) :
    identity.names kind r.entry.content = identity.addresses kind r := by
  have hfield : ∀ key value, decide ((key, value) ∈ r.fields.toFinset) = decide (r.get key = some value) := by
    intro key value
    rw [decide_eq_decide, mem_toFinset, Record.get_eq_some_iff h.distinct]
  cases identity with
  | id value =>
    show (decide _ && decide (("id", value) ∈ r.fields.toFinset)) = _
    rw [hfield]
    rfl
  | scope value =>
    show (decide _ && decide (("scope", value) ∈ r.fields.toFinset)) = _
    rw [hfield]
    rfl
  | singleton => rfl

theorem merge_content {r : Record} {changes : List (String × Option String)}
    (hdistinct : (r.fields.map (·.1)).Nodup) (hnames : (changes.map (·.1)).Nodup) :
    (r.merge changes).entry.content = mergeContent changes r.entry.content := by
  have hkind : (r.merge changes).entry.kind = r.entry.kind := rfl
  have hfields : (r.merge changes).entry.fields = mergeFields r.fields changes := rfl
  have hbefore : r.entry.fields = r.fields := rfl
  rw [Entry.content, Entry.content, mergeContent, hkind, hfields, hbefore]
  refine Prod.ext rfl (Finset.ext fun field => ?_)
  dsimp only
  rw [mem_toFinset, (mem_mergeFields hdistinct hnames).2 field, Finset.mem_union, Finset.mem_filter,
    mem_toFinset, mem_toFinset, mem_filterMap]
  refine or_congr_right ⟨fun h => ⟨_, h, rfl⟩, ?_⟩
  rintro ⟨⟨name, value⟩, hchange, hset⟩
  obtain ⟨value, rfl, rfl⟩ := Option.map_eq_some_iff.1 hset
  exact hchange

theorem isIdentifier_id : isIdentifier "id" = true := by decide

theorem isIdentifier_scope : isIdentifier "scope" = true := by decide

/-- The fields that an identity gives to a new record. -/
theorem Identity.fields_proper {kind : String} (hkind : isIdentifier kind = true) (identity : Identity) :
    (newRecord kind identity).entry.Proper := by
  cases identity with
  | id value =>
    refine ⟨hkind, fun field hfield => ?_, nodup_singleton _⟩
    obtain rfl := mem_singleton.1 hfield
    exact isIdentifier_id
  | scope value =>
    refine ⟨hkind, fun field hfield => ?_, nodup_singleton _⟩
    obtain rfl := mem_singleton.1 hfield
    exact isIdentifier_scope
  | singleton => exact ⟨hkind, nofun, nodup_nil⟩

theorem merge_proper {r : Record} (h : r.entry.Proper) {changes : List (String × Option String)}
    (hnames : (changes.map (·.1)).Nodup) (hkeys : ∀ change ∈ changes, isIdentifier change.1 = true) :
    (r.merge changes).entry.Proper := by
  obtain ⟨hdistinct, hmem⟩ := mem_mergeFields h.distinct hnames
  refine ⟨h.kind, fun field hfield => ?_, hdistinct⟩
  obtain hfield | hset := (hmem field).1 hfield
  · exact h.keys field hfield.1
  · exact hkeys (field.1, some field.2) hset

variable {edit : Edit} {d d' : Document}

/-- Records that can be written stay so. -/
theorem Effect.proper (hd : ∀ r ∈ d.records, r.entry.Proper) (h : Effect edit d d') :
    ∀ r ∈ d'.records, r.entry.Proper := by
  intro r' hr'
  cases h with
  | removed => exact hd r' (mem_of_mem_eraseIdx hr')
  | merged hfind hr hkind hsuits hreach hnames hmay =>
    obtain hold | rfl := mem_or_eq_of_mem_set hr'
    · exact hd r' hold
    · exact merge_proper (hd _ (mem_of_getElem? hr)) hnames fun change hchange => (hmay change hchange).identifier
  | @created kind identity fields _ hfind hkind hproper hsuits hnames hmay =>
    obtain hold | hnew := mem_append.1 hr'
    · exact hd r' hold
    · rw [mem_singleton.1 hnew]
      exact merge_proper (identity.fields_proper hproper) hnames fun change hchange => (hmay change hchange).identifier

/-- **An edit does to the document what it does to its records.** -/
theorem Effect.performs (hd : ∀ r ∈ d.records, r.entry.Proper) (h : Effect edit d d') :
    d'.records.map (fun r => r.entry.content) = edit.perform (d.records.map fun r => r.entry.content) := by
  have hsame : ∀ kind identity,
      (d.records.map fun r => r.entry.content).findIdx? (Identity.names kind identity) = find d kind identity :=
    fun kind identity => Lists.findIdx?_map_of_forall fun r hr => names_content (hd r hr)
  cases h with
  | removed hfind =>
    rw [Edit.perform, eraseP_eq_eraseIdx, hsame, hfind]
    exact (eraseIdx_map ..).symm
  | @merged kind identity fields _ i r hfind hr hkind hsuits hreach hnames hmay =>
    have hcontent := merge_content (hd r (mem_of_getElem? hr)).distinct hnames
    rw [Edit.perform, hsame, hfind]
    dsimp only
    rw [map_set, hcontent, modify_eq_set_getElem?, getElem?_map, hr]
    rfl
  | @created kind identity fields _ hfind hkind hproper hsuits hnames hmay =>
    have hcontent := merge_content (identity.fields_proper hproper).distinct hnames
    rw [Edit.perform, hsame, hfind]
    dsimp only
    rw [map_append, map_singleton, hcontent]
    rfl

theorem applyLoop_performs {index changed changed' : ℕ} {edits : List Edit} (hd : ∀ r ∈ d.records, r.entry.Proper)
    (h : applyLoop index edits d changed = .ok (d', changed')) :
    (∀ r ∈ d'.records, r.entry.Proper) ∧ d'.records.map (fun r => r.entry.content) =
      edits.foldl (fun records edit => edit.perform records) (d.records.map fun r => r.entry.content) := by
  induction edits generalizing index d changed with
  | nil =>
    cases h
    exact ⟨hd, rfl⟩
  | cons edit edits ih =>
    rw [applyLoop] at h
    split at h
    · cases h
    · rename_i next changed heq
      have heffect := applyEdit_effect heq
      obtain ⟨hproper, hperforms⟩ := ih (heffect.proper hd) h
      refine ⟨hproper, ?_⟩
      rw [hperforms, heffect.performs hd, foldl_cons]

/-- A batch that was applied. -/
theorem apply_eq_ok {text : List Char} {edits : List Edit} {applied : Applied} (h : apply text edits = .ok applied) :
    ∃ base edited, parse .default text = .ok base ∧ applyLoop 0 edits base 0 = .ok (edited, applied.changed) ∧
      applied.text = edited.toCanonical := by
  unfold apply at h
  split at h
  · cases h
  · cases hparse : parse .default text with
    | error e =>
      rw [hparse] at h
      cases h
    | ok base =>
      rw [hparse] at h
      dsimp only at h
      cases hloop : applyLoop 0 edits base 0 with
      | error e =>
        rw [hloop] at h
        cases h
      | ok result =>
        obtain ⟨edited, changed⟩ := result
        rw [hloop] at h
        cases h
        exact ⟨base, edited, rfl, hloop, rfl⟩

/-- **An edited value cannot escape its record.**  The text of an edited configuration is read as the records
of the base with each edit performed on them, in order, up to the order of records and of fields; or it is
refused for a size, of a value, of the fields of a record, of the records or of the text. -/
theorem edited_text_read {text : List Char} {edits : List Edit} {applied : Applied}
    (h : apply text edits = .ok applied) :
    ∃ base, parse .default text = .ok base ∧
      ((∃ d, parse .default applied.text = .ok d ∧ d.contents =
          (edits.foldl (fun records edit => edit.perform records) (base.records.map fun r => r.entry.content) :
            List Content)) ∨
        ∃ what position, what ≠ .logicalLine ∧ parse .default applied.text = .error ⟨.tooLarge what, position⟩) := by
  obtain ⟨base, edited, hbase, hloop, htext⟩ := apply_eq_ok h
  obtain ⟨hproper, hperforms⟩ := applyLoop_performs (fun r hr => ((parse_sound hbase).1 r hr).proper) hloop
  refine ⟨base, hbase, ?_⟩
  rw [htext, ← hperforms]
  obtain ⟨d, hd, hentries⟩ | ⟨-, hfail⟩ := canonical_outcome .default hproper
  · exact .inl ⟨d, hd, contents_eq_of_entries hentries⟩
  · exact .inr hfail

namespace Sample

def base : List Char := "host id=spark agent=local\nbinding id=b scope=global".toList

/-- A value that would end its record. -/
def hostile : Edit := .set "host" (.id "spark") [("status", some "up\nrole_binding role=admin"), ("agent", none)]

theorem hostile_applied : apply base [hostile] =
    .ok ⟨"binding id=b scope=global\nhost id=spark status=\"up\\nrole_binding role=admin\"\n".toList, 1⟩ := by
  have hbase : base = _ := String.toList_ofList
  have htext : "binding id=b scope=global\nhost id=spark status=\"up\\nrole_binding role=admin\"\n".toList =
    _ := String.toList_ofList
  rw [hbase, htext]
  decide +kernel

theorem hostile_read : ∃ b, parse .default base = .ok b ∧
    ((∃ d, parse .default
        "binding id=b scope=global\nhost id=spark status=\"up\\nrole_binding role=admin\"\n".toList = .ok d ∧
        d.contents = ([hostile].foldl (fun records edit => edit.perform records)
          (b.records.map fun r => r.entry.content) : List Content)) ∨
      ∃ what position, what ≠ .logicalLine ∧ parse .default
        "binding id=b scope=global\nhost id=spark status=\"up\\nrole_binding role=admin\"\n".toList =
          .error ⟨.tooLarge what, position⟩) :=
  edited_text_read hostile_applied

end Sample

end HypeLlm.Config
