import HypeLlm.Config.Canonical
import HypeLlm.Config.Schema

/-!
# Record edits

The management interface changes records of a configuration, never its text: the text is parsed, each
edit changes one record, and the result is written in its canonical form.  A batch is all or nothing.

* `mem_mergeFields` — a merged record has the fields that the edit does not name and those that it sets;
* **`applyEdit_effect`** — what an edit does, and what it was checked for.
-/

namespace HypeLlm.Config

open List
open HypeLlm.Results (bind_eq_ok)

/-! ### What may be edited -/

def editableKinds : List String :=
  ["provider", "target", "alias", "binding", "fleet_agent", "host", "accelerator", "deployment",
    "artifact", "fleet_policy", "fleet_grant", "grant", "quota", "settings", "machine"]

/-- The fields of a principal's quota. -/
def quotaEditable : List String :=
  ["scope", "class", "concurrency", "queued", "rps", "burst", "tpm", "token_burst", "budget",
    "budget_period", "jobs"]

/-- The rest of the settings belongs to the policy text. -/
def editableSettings : List String := ["fleet_enabled", "fleet_access_default"]

def maxEdits : ℕ := 64

/-- Which record an edit addresses. -/
inductive Identity where
  /-- By its `id`. -/
  | id (id : String)
  /-- A `fleet_policy`, by its `scope`. -/
  | scope (scope : String)
  /-- The `settings`. -/
  | singleton
  deriving Repr, DecidableEq

inductive Edit where
  /-- Merge fields into the record, which is created if there is none; `none` removes a field. -/
  | set (kind : String) (identity : Identity) (fields : List (String × Option String))
  | remove (kind : String) (identity : Identity)
  deriving Repr, DecidableEq

namespace Edit

def kind : Edit → String
  | .set kind _ _ => kind
  | .remove kind _ => kind

def identity : Edit → Identity
  | .set _ identity _ => identity
  | .remove _ identity => identity

/-- The fields that are named, none for a removal. -/
def fields : Edit → List (String × Option String)
  | .set _ _ fields => fields
  | .remove .. => []

end Edit

/-- Why an edit is refused. -/
inductive Refusal where
  | tooManyEdits
  | baseDoesNotParse (e : ParseError)
  | kindNotEditable (kind : String)
  | settingsTakesNoId
  | identifiedByScope
  | notAnIdentifier (id : String)
  | identifiedById (kind : String)
  | namedTwice (name : String)
  | scopeNotEditable (kind scope : String) (allowed : List String)
  | quotaAlsoSets (name : String)
  | quotaField (name : String)
  | scopeIsFixed (kind : String)
  | scopeNotAllowed (kind scope : String) (allowed : List String)
  | scopeNeeded (kind : String)
  | nothingToRemove (kind : String) (identity : Identity)
  | unknownKind (kind : String)
  | unknownField (kind name : String)
  | settingsField (name : String)
  | identifiesTheRecord (name : String)
  | notAddressed
  deriving Repr, DecidableEq

structure EditError where
  /-- Which edit, from zero. -/
  index : ℕ
  why : Refusal
  deriving Repr, DecidableEq

structure Applied where
  /-- The canonical text after the edits. -/
  text : List Char
  /-- How many edits changed something. -/
  changed : ℕ
  deriving Repr, DecidableEq

/-! ### Checks -/

def tokenByte (b : UInt8) : Bool :=
  (97 ≤ b && b ≤ 122) || (65 ≤ b && b ≤ 90) || (48 ≤ b && b ≤ 57) || b = 45 || b = 95 || b = 46 || b = 58 || b = 47

/-- What the grammar takes bare. -/
def isToken (value : String) : Bool :=
  let bytes := Utf8.encode value.toList
  !bytes.isEmpty && bytes.length ≤ 128 && bytes.all tokenByte

def checkIdentity (kind : String) (identity : Identity) : Except Refusal Unit :=
  if kind ∉ editableKinds then .error (.kindNotEditable kind)
  else if kind = "settings" then
    match identity with
    | .singleton => .ok ()
    | _ => .error .settingsTakesNoId
  else if kind = "fleet_policy" then
    match identity with
    | .scope scope => if isToken scope then .ok () else .error .identifiedByScope
    | _ => .error .identifiedByScope
  else
    match identity with
    | .id id => if isToken id then .ok () else .error (.notAnIdentifier id)
    | _ => .error (.identifiedById kind)

/-- No field is named twice. -/
def checkNames : List (String × Option String) → Except Refusal Unit
  | [] => .ok ()
  | (name, _) :: fields => if fields.any (·.1 = name) then .error (.namedTwice name) else checkNames fields

/-- The scopes at which records of a kind may be edited, for the kinds with a rule. -/
def scopeRule (kind : String) : Option (List String) :=
  if kind = "grant" then some ["principal:", "group:"]
  else if kind = "quota" then some ["principal:"]
  else none

def narrow (allowed : List String) (scope : String) : Bool :=
  allowed.any fun p => p.toList.isPrefixOf scope.toList

/-- A record at another scope is out of reach. -/
def checkExisting (kind : String) (allowed : List String) : Option Record → Except Refusal Unit
  | none => .ok ()
  | some record =>
    let scope := (record.get "scope").getD ""
    if narrow allowed scope then .ok () else .error (.scopeNotEditable kind scope allowed)

/-- A quota is not removed with fields that could not be edited. -/
def checkRemoval (kind : String) (existing : Option Record) : Except Refusal Unit :=
  if kind ≠ "quota" then .ok ()
  else
    match existing.bind fun record => record.fields.find? fun f => f.1 ≠ "id" && f.1 ∉ quotaEditable with
    | some (name, _) => .error (.quotaAlsoSets name)
    | none => .ok ()

/-- The scope is fixed when a record is created. -/
def checkCreation (kind : String) (allowed : List String) (existing : Option Record)
    (fields : List (String × Option String)) : Except Refusal Unit :=
  match existing, (fields.find? fun f => f.1 = "scope").map (·.2) with
  | some _, some _ => .error (.scopeIsFixed kind)
  | some _, none => .ok ()
  | none, some (some scope) =>
    if narrow allowed scope then .ok () else .error (.scopeNotAllowed kind scope allowed)
  | none, _ => .error (.scopeNeeded kind)

def checkQuotaFields (kind : String) (fields : List (String × Option String)) : Except Refusal Unit :=
  match fields.find? fun f => kind = "quota" && f.1 ∉ quotaEditable with
  | some (name, _) => .error (.quotaField name)
  | none => .ok ()

/-- Whether an edit stays with the subject of a record. -/
def checkScoped (kind : String) (allowed : List String) (existing : Option Record) (edit : Edit) :
    Except Refusal Unit := do
  checkExisting kind allowed existing
  match edit with
  | .remove .. => checkRemoval kind existing
  | .set _ _ fields => do
    checkQuotaFields kind fields
    checkCreation kind allowed existing fields

/-- What is wrong with naming a field in an edit. -/
def fieldRefusal (schema : Schema) (kind : String) (identity : Identity) (name : String) : Option Refusal :=
  if name ∉ schema.names then some (.unknownField kind name)
  else if kind = "settings" ∧ name ∉ editableSettings then some (.settingsField name)
  else
    match identity with
    | .id _ => if name = "id" then some (.identifiesTheRecord name) else none
    | .scope _ => if name = "scope" then some (.identifiesTheRecord name) else none
    | .singleton => none

def checkFields (kind : String) (identity : Identity) (fields : List (String × Option String)) :
    Except Refusal Unit :=
  match schemaFor kind with
  | none => .error (.unknownKind kind)
  | some schema =>
    match fields.findSome? fun f => fieldRefusal schema kind identity f.1 with
    | some why => .error why
    | none => .ok ()

/-! ### Records -/

namespace Identity

/-- The identity is that of a record. -/
def addresses (kind : String) (identity : Identity) (r : Record) : Bool :=
  r.kind = kind &&
    match identity with
    | .id value => r.get "id" = some value
    | .scope value => r.get "scope" = some value
    | .singleton => true

/-- The fields of a new record. -/
def fields : Identity → List (String × String)
  | .id value => [("id", value)]
  | .scope value => [("scope", value)]
  | .singleton => []

end Identity

def find (d : Document) (kind : String) (identity : Identity) : Option ℕ :=
  d.records.findIdx? (identity.addresses kind)

def newRecord (kind : String) (identity : Identity) : Record := ⟨kind, identity.fields, ⟨0, 0⟩⟩

/-- Set a field, in its place or at the end. -/
def setField (name value : String) : List (String × String) → List (String × String)
  | [] => [(name, value)]
  | field :: fields => if field.1 = name then (name, value) :: fields else field :: setField name value fields

def changeField (fields : List (String × String)) : String × Option String → List (String × String)
  | (name, some value) => setField name value fields
  | (name, none) => fields.filter fun field => field.1 ≠ name

def mergeFields (fields : List (String × String)) (changes : List (String × Option String)) :
    List (String × String) :=
  changes.foldl changeField fields

def Record.merge (r : Record) (changes : List (String × Option String)) : Record :=
  { r with fields := mergeFields r.fields changes }

/-! ### Applying -/

/-- The record at a position merged with some fields, or a new one. -/
def applySet (kind : String) (identity : Identity) (fields : List (String × Option String))
    (d : Document) (changed : ℕ) : Option ℕ → Except Refusal (Document × ℕ)
  | none => .ok (⟨d.records ++ [(newRecord kind identity).merge fields]⟩, changed + 1)
  | some i =>
    match d.records[i]? with
    | none => .error .notAddressed
    | some record =>
      let merged := record.merge fields
      .ok (⟨d.records.set i merged⟩, if merged.fields = record.fields then changed else changed + 1)

def checkScope (edit : Edit) (existing : Option Record) : Except Refusal Unit :=
  match scopeRule edit.kind with
  | some allowed => checkScoped edit.kind allowed existing edit
  | none => .ok ()

/-- The edit itself, at the position of the record. -/
def applyAt (d : Document) (changed : ℕ) (position : Option ℕ) : Edit → Except Refusal (Document × ℕ)
  | .remove kind identity =>
    match position with
    | none => .error (.nothingToRemove kind identity)
    | some i => .ok (⟨d.records.eraseIdx i⟩, changed + 1)
  | .set kind identity fields => do
    checkFields kind identity fields
    applySet kind identity fields d changed position

/-- One edit, with the number of edits that changed something so far. -/
def applyEdit (edit : Edit) (d : Document) (changed : ℕ) : Except Refusal (Document × ℕ) := do
  checkIdentity edit.kind edit.identity
  checkNames edit.fields
  let position := find d edit.kind edit.identity
  checkScope edit (position.bind fun i => d.records[i]?)
  applyAt d changed position edit

/-- The edits from the one at `index`. -/
def applyLoop : ℕ → List Edit → Document → ℕ → Except EditError (Document × ℕ)
  | _, [], d, changed => .ok (d, changed)
  | index, edit :: edits, d, changed =>
    match applyEdit edit d changed with
    | .error why => .error ⟨index, why⟩
    | .ok (d, changed) => applyLoop (index + 1) edits d changed

/-- Apply edits to a text. -/
def apply (text : List Char) (edits : List Edit) : Except EditError Applied :=
  if maxEdits < edits.length then .error ⟨maxEdits, .tooManyEdits⟩
  else
    match parse .default text with
    | .error e => .error ⟨0, .baseDoesNotParse e⟩
    | .ok d =>
      match applyLoop 0 edits d 0 with
      | .error e => .error e
      | .ok (d, changed) => .ok ⟨d.toCanonical, changed⟩

/-! ### What the checks establish -/

theorem checkNames_ok {fields : List (String × Option String)} (h : checkNames fields = .ok ()) :
    (fields.map (·.1)).Nodup := by
  induction fields with
  | nil => exact nodup_nil
  | cons field fields ih =>
    obtain ⟨name, value⟩ := field
    rw [checkNames] at h
    split at h
    · cases h
    · rename_i hfresh
      rw [Bool.not_eq_true, any_eq_false] at hfresh
      refine nodup_cons.2 ⟨fun hmem => ?_, ih h⟩
      obtain ⟨other, hother, hsame⟩ := mem_map.1 hmem
      exact hfresh other hother (decide_eq_true hsame)

/-- An identity that goes with a kind. -/
def Identity.Suits (kind : String) (identity : Identity) : Prop :=
  (kind = "settings" ∧ identity = .singleton) ∨ (kind = "fleet_policy" ∧ ∃ value, identity = .scope value) ∨
    (kind ≠ "settings" ∧ kind ≠ "fleet_policy" ∧ ∃ value, identity = .id value)

theorem checkIdentity_ok {kind : String} {identity : Identity} (h : checkIdentity kind identity = .ok ()) :
    kind ∈ editableKinds ∧ identity.Suits kind := by
  unfold checkIdentity at h
  split at h
  · cases h
  · rename_i hkind
    refine ⟨not_not.1 hkind, ?_⟩
    split at h
    · rename_i hsettings
      cases identity with
      | singleton => exact .inl ⟨hsettings, rfl⟩
      | id value => cases h
      | scope value => cases h
    · rename_i hsettings
      split at h
      · rename_i hpolicy
        cases identity with
        | singleton => cases h
        | id value => cases h
        | scope value => exact .inr (.inl ⟨hpolicy, value, rfl⟩)
      · rename_i hpolicy
        cases identity with
        | singleton => cases h
        | id value => exact .inr (.inr ⟨hsettings, hpolicy, value, rfl⟩)
        | scope value => cases h

/-- A field that an edit may name. -/
structure MayName (kind : String) (identity : Identity) (name : String) : Prop where
  identifier : isIdentifier name = true
  settings : kind = "settings" → name ∈ editableSettings
  id : ∀ value, identity = .id value → name ≠ "id"
  scope : ∀ value, identity = .scope value → name ≠ "scope"
  known : ∀ schema, schemaFor kind = some schema → name ∈ schema.names

theorem fieldRefusal_eq_none {schema : Schema} {kind : String} {identity : Identity} {name : String}
    (hschema : schemaFor kind = some schema) (h : fieldRefusal schema kind identity name = none) :
    MayName kind identity name := by
  unfold fieldRefusal at h
  split at h
  · cases h
  · rename_i hknown
    rw [not_not] at hknown
    split at h
    · cases h
    · rename_i hsettings
      refine ⟨(isIdentifier_of_schemaFor hschema).2 name hknown, fun hkind => ?_, ?_, ?_, fun other hother => ?_⟩
      · by_contra hnot
        exact hsettings ⟨hkind, hnot⟩
      · rintro value rfl hname
        rw [if_pos hname] at h
        cases h
      · rintro value rfl hname
        rw [if_pos hname] at h
        cases h
      · rw [hschema] at hother
        cases hother
        exact hknown

theorem checkFields_ok {kind : String} {identity : Identity} {fields : List (String × Option String)}
    (h : checkFields kind identity fields = .ok ()) :
    isIdentifier kind = true ∧ ∀ field ∈ fields, MayName kind identity field.1 := by
  unfold checkFields at h
  split at h
  · cases h
  · rename_i schema hschema
    split at h
    · cases h
    · rename_i hnone
      rw [findSome?_eq_none_iff] at hnone
      exact ⟨(isIdentifier_of_schemaFor hschema).1, fun field hfield => fieldRefusal_eq_none hschema (hnone field hfield)⟩

/-- A record at a scope where its kind may be edited. -/
def Record.InReach (r : Record) : Prop :=
  ∀ allowed, scopeRule r.kind = some allowed → narrow allowed ((r.get "scope").getD "") = true

theorem checkExisting_ok {kind : String} {allowed : List String} {r : Record}
    (h : checkExisting kind allowed (some r) = .ok ()) : narrow allowed ((r.get "scope").getD "") = true := by
  rw [checkExisting] at h
  split at h
  · assumption
  · cases h

/-- The scope that a new record gets. -/
theorem checkCreation_ok {kind : String} {allowed : List String} {fields : List (String × Option String)}
    (h : checkCreation kind allowed none fields = .ok ()) :
    ∃ scope, ("scope", some scope) ∈ fields ∧ narrow allowed scope = true := by
  unfold checkCreation at h
  cases hfind : fields.find? fun f => f.1 = "scope" with
  | none =>
    rw [hfind] at h
    cases h
  | some field =>
    obtain ⟨name, value⟩ := field
    have hname : name = "scope" := by simpa using find?_some hfind
    cases value with
    | none =>
      rw [hfind] at h
      cases h
    | some scope =>
      rw [hfind] at h
      dsimp only [Option.map_some] at h
      split at h
      · rename_i hnarrow
        exact ⟨scope, hname ▸ mem_of_find?_eq_some hfind, hnarrow⟩
      · cases h

/-- The scope of a record that is there is not named. -/
theorem checkCreation_existing {kind : String} {allowed : List String} {r : Record}
    {fields : List (String × Option String)} (h : checkCreation kind allowed (some r) fields = .ok ()) :
    ∀ field ∈ fields, field.1 ≠ "scope" := by
  intro field hfield hscope
  unfold checkCreation at h
  cases hfind : fields.find? fun f => f.1 = "scope" with
  | none => exact find?_eq_none.1 hfind field hfield (decide_eq_true hscope)
  | some found =>
    rw [hfind] at h
    cases h

/-! ### Merging fields -/

/-- Where keys are distinct, a field is found by its key. -/
theorem Record.get_eq_some_iff {r : Record} (hdistinct : (r.fields.map (·.1)).Nodup) {key value : String} :
    r.get key = some value ↔ (key, value) ∈ r.fields := by
  unfold Record.get
  constructor
  · intro h
    obtain ⟨field, hfield, rfl⟩ := Option.map_eq_some_iff.1 h
    have hkey : field.1 = key := by simpa using find?_some hfield
    exact hkey ▸ mem_of_find?_eq_some hfield
  · intro h
    rw [Lists.find?_key hdistinct h]
    rfl

/-- Setting a field keeps the keys, or adds one at the end. -/
theorem setField_keys (name value : String) (fields : List (String × String)) :
    (setField name value fields).map (·.1) =
      if name ∈ fields.map (·.1) then fields.map (·.1) else fields.map (·.1) ++ [name] := by
  induction fields with
  | nil => rfl
  | cons field fields ih =>
    rw [setField]
    by_cases hname : field.1 = name
    · rw [if_pos hname, map_cons, map_cons, hname, if_pos mem_cons_self]
    · rw [if_neg hname, map_cons, map_cons, ih]
      by_cases hmem : name ∈ fields.map (·.1)
      · rw [if_pos hmem, if_pos (mem_cons_of_mem _ hmem)]
      · have hnot : name ∉ field.1 :: fields.map (·.1) := by
          rw [mem_cons, not_or]
          exact ⟨fun hsame => hname hsame.symm, hmem⟩
        rw [if_neg hmem, if_neg hnot, cons_append]

theorem mem_setField {name value : String} {fields : List (String × String)}
    (hdistinct : (fields.map (·.1)).Nodup) {field : String × String} :
    field ∈ setField name value fields ↔ field = (name, value) ∨ (field ∈ fields ∧ field.1 ≠ name) := by
  induction fields with
  | nil =>
    rw [setField, mem_singleton]
    exact ⟨.inl, fun h => h.resolve_right fun hmem => absurd hmem.1 not_mem_nil⟩
  | cons first fields ih =>
    rw [map_cons, nodup_cons] at hdistinct
    rw [setField]
    by_cases hname : first.1 = name
    · -- The first field is the one that is set, and no other has its name.
      rw [if_pos hname, mem_cons, mem_cons]
      refine or_congr_right ⟨fun hmem => ⟨.inr hmem, fun hsame => ?_⟩, fun h => h.1.resolve_left fun hsame => ?_⟩
      · exact hdistinct.1 (hname ▸ hsame ▸ mem_map_of_mem hmem)
      · exact h.2 (hsame ▸ hname)
    · rw [if_neg hname, mem_cons, ih hdistinct.2, mem_cons]
      constructor
      · rintro (rfl | rfl | ⟨hmem, hne⟩)
        · exact .inr ⟨.inl rfl, hname⟩
        · exact .inl rfl
        · exact .inr ⟨.inr hmem, hne⟩
      · rintro (rfl | ⟨rfl | hmem, hne⟩)
        · exact .inr (.inl rfl)
        · exact .inl rfl
        · exact .inr (.inr ⟨hmem, hne⟩)

theorem changeField_distinct {fields : List (String × String)} (hdistinct : (fields.map (·.1)).Nodup)
    (change : String × Option String) : ((changeField fields change).map (·.1)).Nodup := by
  obtain ⟨name, value | value⟩ := change
  · exact hdistinct.sublist (filter_sublist.map _)
  · rw [changeField, setField_keys]
    split
    · exact hdistinct
    · rename_i hnot
      rw [nodup_append]
      refine ⟨hdistinct, nodup_singleton _, fun key hkey other hother => ?_⟩
      rw [mem_singleton.1 hother]
      exact fun hsame => hnot (hsame ▸ hkey)

theorem mem_changeField {fields : List (String × String)} (hdistinct : (fields.map (·.1)).Nodup)
    {change : String × Option String} {field : String × String} :
    field ∈ changeField fields change ↔ (field ∈ fields ∧ field.1 ≠ change.1) ∨ (field.1, some field.2) = change := by
  obtain ⟨name, value | value⟩ := change
  · rw [changeField, mem_filter, decide_eq_true_eq]
    simp
  · rw [changeField, mem_setField hdistinct, or_comm]
    refine or_congr_right ⟨?_, ?_⟩
    · rintro rfl
      rfl
    · intro h
      cases h
      rfl

/-- **A merged record** has the fields that are not named and those that are set. -/
theorem mem_mergeFields {fields : List (String × String)} {changes : List (String × Option String)}
    (hdistinct : (fields.map (·.1)).Nodup) (hnames : (changes.map (·.1)).Nodup) :
    ((mergeFields fields changes).map (·.1)).Nodup ∧ ∀ field, field ∈ mergeFields fields changes ↔
      (field ∈ fields ∧ field.1 ∉ changes.map (·.1)) ∨ (field.1, some field.2) ∈ changes := by
  induction changes generalizing fields with
  | nil => exact ⟨hdistinct, fun field => by simp [mergeFields]⟩
  | cons change changes ih =>
    rw [map_cons, nodup_cons] at hnames
    obtain ⟨hmerged, hmem⟩ := ih (changeField_distinct hdistinct change) hnames.2
    refine ⟨hmerged, fun field => (hmem field).trans ?_⟩
    rw [mem_changeField hdistinct, map_cons, mem_cons, mem_cons, not_or]
    constructor
    · rintro (⟨⟨hfield, hne⟩ | hset, hnot⟩ | hset)
      · exact .inl ⟨hfield, hne, hnot⟩
      · exact .inr (.inl hset)
      · exact .inr (.inr hset)
    · rintro (⟨hfield, hne, hnot⟩ | hset | hset)
      · exact .inl ⟨.inl ⟨hfield, hne⟩, hnot⟩
      · refine .inl ⟨.inr hset, ?_⟩
        rw [← hset] at hnames
        exact hnames.1
      · exact .inr hset

/-- Fields that are not named stay. -/
theorem Record.merge_get {r : Record} {changes : List (String × Option String)}
    (hdistinct : (r.fields.map (·.1)).Nodup) (hnames : (changes.map (·.1)).Nodup) {key : String}
    (hkey : ∀ change ∈ changes, change.1 ≠ key) : (r.merge changes).get key = r.get key := by
  obtain ⟨hmerged, hmem⟩ := mem_mergeFields hdistinct hnames
  refine Option.ext fun value => ?_
  rw [get_eq_some_iff (r := r.merge changes) hmerged, get_eq_some_iff hdistinct]
  refine (hmem (key, value)).trans ⟨fun h => ?_, fun h => .inl ⟨h, fun hname => ?_⟩⟩
  · exact (h.resolve_right fun hset => hkey _ hset rfl).1
  · obtain ⟨change, hchange, hsame⟩ := mem_map.1 hname
    exact hkey change hchange hsame

/-! ### What an edit does -/

/-- **The effect of an edit**, and what was checked for it. -/
inductive Effect : Edit → Document → Document → Prop
  | removed {kind : String} {identity : Identity} {d : Document} {i : ℕ} {r : Record}
      (hfind : find d kind identity = some i) (hr : d.records[i]? = some r)
      (hkind : kind ∈ editableKinds) (hsuits : identity.Suits kind) (hreach : r.InReach) :
      Effect (.remove kind identity) d ⟨d.records.eraseIdx i⟩
  | merged {kind : String} {identity : Identity} {fields : List (String × Option String)} {d : Document}
      {i : ℕ} {r : Record} (hfind : find d kind identity = some i) (hr : d.records[i]? = some r)
      (hkind : kind ∈ editableKinds) (hsuits : identity.Suits kind) (hreach : r.InReach)
      (hnames : (fields.map (·.1)).Nodup) (hmay : ∀ field ∈ fields, MayName kind identity field.1)
      (hscope : scopeRule kind ≠ none → ∀ field ∈ fields, field.1 ≠ "scope") :
      Effect (.set kind identity fields) d ⟨d.records.set i (r.merge fields)⟩
  | created {kind : String} {identity : Identity} {fields : List (String × Option String)} {d : Document}
      (hfind : find d kind identity = none) (hkind : kind ∈ editableKinds) (hproper : isIdentifier kind = true)
      (hsuits : identity.Suits kind) (hnames : (fields.map (·.1)).Nodup)
      (hmay : ∀ field ∈ fields, MayName kind identity field.1)
      (hscope : ∀ allowed, scopeRule kind = some allowed →
        ∃ scope, ("scope", some scope) ∈ fields ∧ narrow allowed scope = true) :
      Effect (.set kind identity fields) d ⟨d.records ++ [(newRecord kind identity).merge fields]⟩

/-- What is found is of the kind. -/
theorem find_eq_some {d : Document} {kind : String} {identity : Identity} {i : ℕ} {r : Record}
    (h : find d kind identity = some i) (hr : d.records[i]? = some r) :
    identity.addresses kind r = true ∧ r.kind = kind := by
  obtain ⟨hi, hp, -⟩ := findIdx?_eq_some_iff_getElem.1 h
  obtain ⟨hi', rfl⟩ := List.getElem?_eq_some_iff.1 hr
  refine ⟨hp, ?_⟩
  unfold Identity.addresses at hp
  rw [Bool.and_eq_true, decide_eq_true_eq] at hp
  exact hp.1

theorem checkScope_ok {edit : Edit} {existing : Option Record} (h : checkScope edit existing = .ok ())
    {allowed : List String} (hallowed : scopeRule edit.kind = some allowed) :
    checkExisting edit.kind allowed existing = .ok () ∧ ∀ kind identity fields, edit = .set kind identity fields →
      checkCreation kind allowed existing fields = .ok () := by
  rw [checkScope, hallowed] at h
  obtain ⟨⟨⟩, hexisting, h⟩ := bind_eq_ok h
  refine ⟨hexisting, ?_⟩
  rintro kind identity fields rfl
  obtain ⟨⟨⟩, -, h⟩ := bind_eq_ok h
  exact h

theorem applyEdit_effect {edit : Edit} {d d' : Document} {changed changed' : ℕ}
    (h : applyEdit edit d changed = .ok (d', changed')) : Effect edit d d' := by
  obtain ⟨⟨⟩, hidentity, h⟩ := bind_eq_ok h
  obtain ⟨⟨⟩, hnames, h⟩ := bind_eq_ok h
  obtain ⟨⟨⟩, hscope, h⟩ := bind_eq_ok h
  obtain ⟨hkind, hsuits⟩ := checkIdentity_ok hidentity
  have hreach : ∀ i r, find d edit.kind edit.identity = some i → d.records[i]? = some r → r.InReach := by
    intro i r hfind hr allowed hallowed
    rw [hfind, Option.bind_some, hr] at hscope
    rw [(find_eq_some hfind hr).2] at hallowed
    exact checkExisting_ok (checkScope_ok hscope hallowed).1
  cases edit with
  | remove kind identity =>
    cases hfind : find d kind identity with
    | none =>
      rw [Edit.kind, Edit.identity, hfind] at h
      cases h
    | some i =>
      rw [Edit.kind, Edit.identity, hfind] at h
      cases h
      obtain ⟨hi, -⟩ := findIdx?_eq_some_iff_getElem.1 hfind
      have hr := List.getElem?_eq_getElem hi
      exact .removed hfind hr hkind hsuits (hreach i _ hfind hr)
  | set kind identity fields =>
    have hnames := checkNames_ok hnames
    obtain ⟨⟨⟩, hfields, h⟩ := bind_eq_ok h
    obtain ⟨hproper, hmay⟩ := checkFields_ok hfields
    cases hfind : find d kind identity with
    | none =>
      rw [Edit.kind, Edit.identity, hfind] at h hscope
      cases h
      refine .created hfind hkind hproper hsuits hnames hmay fun allowed hallowed => ?_
      exact checkCreation_ok ((checkScope_ok hscope hallowed).2 kind identity fields rfl)
    | some i =>
      obtain ⟨hi, -⟩ := findIdx?_eq_some_iff_getElem.1 hfind
      have hr := List.getElem?_eq_getElem hi
      rw [Edit.kind, Edit.identity, hfind] at h hscope
      rw [applySet, hr] at h
      cases h
      refine .merged hfind hr hkind hsuits (hreach i _ hfind hr) hnames hmay fun hrule => ?_
      obtain ⟨allowed, hallowed⟩ := Option.ne_none_iff_exists'.1 hrule
      rw [Option.bind_some, hr] at hscope
      exact checkCreation_existing ((checkScope_ok hscope hallowed).2 kind identity fields rfl)

end HypeLlm.Config
