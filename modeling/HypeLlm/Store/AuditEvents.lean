import HypeLlm.Json.Objects
import HypeLlm.Pipeline.BoundedText
import HypeLlm.Store.Audit

/-!
# Audit events and their text

An event is built with a constructor and setters that cut every text at a number of bytes, so its
canonical JSON is small and is read back under the limits of small documents.  Two things are not
read back: a time that is no signed number of 64 bits is written as a float, which is no integer any
more, and nothing is written of whether the reason was cut.

* `Built.sized` — the texts of an event are short;
* **`parse_canonical`** — what is read back of an event, and of which events anything is.
-/

namespace HypeLlm.Store

open HypeLlm.Json List

/-! ### Text that is cut -/

structure Capped where
  text : List Char
  truncated : Bool
  deriving Repr, DecidableEq

/-- At most `max` bytes of a text, up to a character boundary. -/
def Capped.new (text : List Char) (max : ℕ) : Capped :=
  if (Utf8.encode text).length ≤ max then ⟨text, false⟩
  else ⟨(Pipeline.upTo? text (Pipeline.floorBoundary (String.ofList text) max)).getD [], true⟩

theorem length_encode_eq_weigh (text : List Char) :
    (Utf8.encode text).length = Fitting.weigh Char.utf8Size text := by
  induction text with
  | nil => rfl
  | cons c text ih =>
    rw [Utf8.encode_cons, length_append, Utf8.length_encodeChar, ih, Fitting.weigh_cons]

theorem Capped.length_new (text : List Char) (max : ℕ) :
    (Utf8.encode (Capped.new text max).text).length ≤ max := by
  rw [Capped.new]
  split
  · assumption
  · show (Utf8.encode ((Pipeline.upTo? text _).getD [])).length ≤ max
    rw [Pipeline.floorBoundary_eq, String.toList_ofList, Pipeline.upTo?_weigh_fitting, Option.getD_some,
      length_encode_eq_weigh]
    exact Fitting.weigh_fitting_le max text

theorem Capped.new_of_le {text : List Char} {max : ℕ} (h : (Utf8.encode text).length ≤ max) :
    Capped.new text max = ⟨text, false⟩ := if_pos h

/-! ### Events -/

inductive AuditAction where
  | login | logout | loginFailed | keyCreated | keyRevoked | keyExpiryChanged | keyRestrictionsChanged
  | keyBudgetSet | keyBudgetCredited | credentialCreated | credentialRotated | credentialProbed
  | configAdopted | credentialRevoked | policyDrafted | policyValidated | policyPublished
  | policyRolledBack | roleChanged | targetStateChanged | targetQuarantined | targetQuarantineLifted
  | breakGlassOpened | breakGlassClosed | auditExported | routerStarted | routerStopped
  | settingsChanged | stateBackedUp | fleetActivate | fleetDeactivate | fleetEvict | fleetForcedStop
  | fleetRollback | fleetFetch | fleetDivergence | fleetMemoryDrift | fleetLeaseExpired
  | fleetConfigurationMismatch | fleetEnrollmentIssued | fleetEnrollmentRegistered
  | fleetEnrollmentApproved | fleetEnrollmentRejected | fleetEnrollmentRevoked | fleetCopy
  | fleetChecksumLearned | fleetArtifactTampered
  deriving Repr, DecidableEq

namespace AuditAction

def asStr : AuditAction → String
  | fleetActivate => "fleet.activate"
  | fleetDeactivate => "fleet.deactivate"
  | fleetEvict => "fleet.evict"
  | fleetForcedStop => "fleet.forced_stop"
  | fleetRollback => "fleet.rollback"
  | fleetFetch => "fleet.fetch"
  | fleetDivergence => "fleet.divergence"
  | fleetMemoryDrift => "fleet.memory_drift"
  | fleetLeaseExpired => "fleet.lease_expired"
  | fleetConfigurationMismatch => "fleet.configuration_mismatch"
  | fleetEnrollmentIssued => "fleet.enrollment_issued"
  | fleetEnrollmentRegistered => "fleet.enrollment_registered"
  | fleetEnrollmentApproved => "fleet.enrollment_approved"
  | fleetEnrollmentRejected => "fleet.enrollment_rejected"
  | fleetEnrollmentRevoked => "fleet.enrollment_revoked"
  | fleetCopy => "fleet.copy"
  | fleetChecksumLearned => "fleet.checksum_learned"
  | fleetArtifactTampered => "fleet.artifact_tampered"
  | login => "login"
  | logout => "logout"
  | loginFailed => "login_failed"
  | keyCreated => "key_created"
  | keyRevoked => "key_revoked"
  | keyExpiryChanged => "key_expiry_changed"
  | keyRestrictionsChanged => "key_restrictions_changed"
  | keyBudgetSet => "key_budget_set"
  | keyBudgetCredited => "key_budget_credited"
  | credentialCreated => "credential_created"
  | credentialRotated => "credential_rotated"
  | credentialProbed => "credential_probed"
  | configAdopted => "config_adopted"
  | credentialRevoked => "credential_revoked"
  | policyDrafted => "policy_drafted"
  | policyValidated => "policy_validated"
  | policyPublished => "policy_published"
  | policyRolledBack => "policy_rolled_back"
  | roleChanged => "role_changed"
  | targetStateChanged => "target_state_changed"
  | targetQuarantined => "target_quarantined"
  | targetQuarantineLifted => "target_quarantine_lifted"
  | breakGlassOpened => "break_glass_opened"
  | breakGlassClosed => "break_glass_closed"
  | auditExported => "audit_exported"
  | routerStarted => "router_started"
  | routerStopped => "router_stopped"
  | settingsChanged => "settings_changed"
  | stateBackedUp => "state_backed_up"

def all : List AuditAction :=
  [login, logout, loginFailed, keyCreated, keyRevoked, keyExpiryChanged, keyRestrictionsChanged,
    keyBudgetSet, keyBudgetCredited, credentialCreated, credentialRotated, credentialProbed,
    configAdopted, credentialRevoked, policyDrafted, policyValidated, policyPublished,
    policyRolledBack, roleChanged, targetStateChanged, targetQuarantined, targetQuarantineLifted,
    breakGlassOpened, breakGlassClosed, auditExported, routerStarted, routerStopped, settingsChanged,
    stateBackedUp, fleetActivate, fleetDeactivate, fleetEvict, fleetForcedStop, fleetRollback,
    fleetFetch, fleetDivergence, fleetMemoryDrift, fleetLeaseExpired, fleetConfigurationMismatch,
    fleetEnrollmentIssued, fleetEnrollmentRegistered, fleetEnrollmentApproved,
    fleetEnrollmentRejected, fleetEnrollmentRevoked, fleetCopy, fleetChecksumLearned,
    fleetArtifactTampered]

/-- The action with a name. -/
def parse (s : List Char) : Option AuditAction := all.find? fun a => a.asStr.toList = s

/-- No two actions have one name, and all are listed. -/
theorem parse_asStr (a : AuditAction) : parse a.asStr.toList = some a := by
  have hnames : ∀ a ∈ all, all.find? (fun b => b.asStr = a.asStr) = some a := by decide +kernel
  have hall : a ∈ all := by cases a <;> decide
  have hparse : parse a.asStr.toList = all.find? fun b => b.asStr = a.asStr := by
    rw [parse]
    congr
    funext b
    exact decide_eq_decide.2 String.toList_inj
  rw [hparse, hnames a hall]

theorem length_asStr (a : AuditAction) : (Utf8.encode a.asStr.toList).length ≤ 256 := by
  obtain ⟨name, hname, hlength⟩ : ∃ name, a.asStr = String.ofList name ∧
      (Utf8.encode name).length ≤ 256 := by
    cases a <;> exact ⟨_, rfl, by decide +kernel⟩
  rw [hname, String.toList_ofList]
  exact hlength

end AuditAction

inductive AuditOutcome where
  | success | denied | failed
  deriving Repr, DecidableEq

namespace AuditOutcome

def asStr : AuditOutcome → String
  | success => "success"
  | denied => "denied"
  | failed => "failed"

def parse (s : List Char) : Option AuditOutcome :=
  if s = "success".toList then some success
  else if s = "denied".toList then some denied
  else if s = "failed".toList then some failed
  else none

theorem parse_asStr (o : AuditOutcome) : parse o.asStr.toList = some o := by
  cases o <;> rfl

theorem length_asStr (o : AuditOutcome) : (Utf8.encode o.asStr.toList).length ≤ 256 := by
  cases o <;> decide

end AuditOutcome

structure AuditEvent where
  timestampMillis : UInt64
  actor : List Char
  tenant : Option (List Char)
  action : AuditAction
  object : Option (List Char)
  outcome : AuditOutcome
  reason : Option Capped
  requestId : Option (List Char)
  source : Option (List Char)
  deriving Repr, DecidableEq

def maxAuditField : ℕ := 256

def maxAuditReason : ℕ := 512

namespace AuditEvent

def new (timestampMillis : UInt64) (actor : List Char) (action : AuditAction) : AuditEvent :=
  ⟨timestampMillis, (Capped.new actor maxAuditField).text, none, action, none, .success, none, none, none⟩

def withObject (e : AuditEvent) (object : List Char) : AuditEvent :=
  { e with object := some (Capped.new object maxAuditField).text }

def withTenant (e : AuditEvent) (tenant : List Char) : AuditEvent :=
  { e with tenant := some (Capped.new tenant maxAuditField).text }

def withOutcome (e : AuditEvent) (outcome : AuditOutcome) : AuditEvent := { e with outcome := outcome }

def withReason (e : AuditEvent) (reason : List Char) : AuditEvent :=
  { e with reason := some (Capped.new reason maxAuditReason) }

def withRequestId (e : AuditEvent) (requestId : List Char) : AuditEvent :=
  { e with requestId := some (Capped.new requestId maxAuditField).text }

def withSource (e : AuditEvent) (source : List Char) : AuditEvent :=
  { e with source := some (Capped.new source maxAuditField).text }

/-- Made by the constructor and the setters. -/
inductive Built : AuditEvent → Prop
  | new (timestampMillis : UInt64) (actor : List Char) (action : AuditAction) :
      Built (AuditEvent.new timestampMillis actor action)
  | withObject {e : AuditEvent} (h : Built e) (object : List Char) : Built (e.withObject object)
  | withTenant {e : AuditEvent} (h : Built e) (tenant : List Char) : Built (e.withTenant tenant)
  | withOutcome {e : AuditEvent} (h : Built e) (outcome : AuditOutcome) : Built (e.withOutcome outcome)
  | withReason {e : AuditEvent} (h : Built e) (reason : List Char) : Built (e.withReason reason)
  | withRequestId {e : AuditEvent} (h : Built e) (requestId : List Char) :
      Built (e.withRequestId requestId)
  | withSource {e : AuditEvent} (h : Built e) (source : List Char) : Built (e.withSource source)

/-- A text that fits a field. -/
def ShortText (max : ℕ) (s : List Char) : Prop := (Utf8.encode s).length ≤ max

/-- All texts of an event are short. -/
structure Sized (e : AuditEvent) : Prop where
  actor : ShortText maxAuditField e.actor
  tenant : ∀ s, e.tenant = some s → ShortText maxAuditField s
  object : ∀ s, e.object = some s → ShortText maxAuditField s
  reason : ∀ c, e.reason = some c → ShortText maxAuditReason c.text
  requestId : ∀ s, e.requestId = some s → ShortText maxAuditField s
  source : ∀ s, e.source = some s → ShortText maxAuditField s

theorem shortText_new {max : ℕ} (text : List Char) :
    ∀ s, some (Capped.new text max).text = some s → ShortText max s := by
  intro s hs
  rw [← Option.some.inj hs]
  exact Capped.length_new text max

theorem Built.sized {e : AuditEvent} (h : e.Built) : e.Sized := by
  induction h with
  | new timestampMillis actor action =>
    refine ⟨Capped.length_new actor _, ?_, ?_, ?_, ?_, ?_⟩
    all_goals
      intro x hx
      cases hx
  | withObject h object ih => exact { ih with object := shortText_new object }
  | withTenant h tenant ih => exact { ih with tenant := shortText_new tenant }
  | withOutcome h outcome ih => exact ⟨ih.actor, ih.tenant, ih.object, ih.reason, ih.requestId, ih.source⟩
  | withReason h reason ih =>
    refine { ih with reason := ?_ }
    intro c hc
    rw [← Option.some.inj hc]
    exact Capped.length_new reason _
  | withRequestId h requestId ih => exact { ih with requestId := shortText_new requestId }
  | withSource h source ih => exact { ih with source := shortText_new source }

/-! ### The text -/

variable {F : Type} (floats : FloatText F) (toFloat : UInt64 → F)

/-- The members of an event. -/
def entries (e : AuditEvent) : List (List Char × Value F) :=
  let o := Object.push [] "action".toList (.string e.action.asStr.toList)
  let o := Object.push o "actor".toList (.string e.actor)
  let o := Object.push o "outcome".toList (.string e.outcome.asStr.toList)
  let o := Object.push o "timestamp_millis".toList (.ofU64 toFloat e.timestampMillis)
  let o := Object.pushOpt o "object".toList (e.object.map .string)
  let o := Object.pushOpt o "tenant".toList (e.tenant.map .string)
  let o := Object.pushOpt o "reason".toList (e.reason.map fun c => .string c.text)
  let o := Object.pushOpt o "request_id".toList (e.requestId.map .string)
  Object.pushOpt o "source".toList (e.source.map .string)

/-- The canonical text that the chain commits to. -/
def toCanonicalBytes (e : AuditEvent) : List UInt8 :=
  Utf8.encode (toCanonicalString floats (.object (e.entries toFloat)))

def fromJson (value : Value F) : Option AuditEvent := do
  let timestampMillis ← (← value.get "timestamp_millis".toList).asU64
  let actor ← (← value.get "actor".toList).asStr
  let action ← AuditAction.parse (← (← value.get "action".toList).asStr)
  let outcome ← AuditOutcome.parse (← (← value.get "outcome".toList).asStr)
  return {
    timestampMillis := UInt64.ofNat timestampMillis
    actor := actor
    tenant := (value.get "tenant".toList).bind Value.asStr
    action := action
    object := (value.get "object".toList).bind Value.asStr
    outcome := outcome
    reason := ((value.get "reason".toList).bind Value.asStr).map (Capped.new · maxAuditReason)
    requestId := (value.get "request_id".toList).bind Value.asStr
    source := (value.get "source".toList).bind Value.asStr }

end AuditEvent

/-- Events as they are stored. -/
def auditEventCodec {F : Type} (floats : FloatText F) (toFloat : UInt64 → F) : EventCodec AuditEvent where
  toCanonicalBytes e := e.toCanonicalBytes floats toFloat
  parse bytes :=
    match Json.parse floats .small bytes with
    | .ok value => AuditEvent.fromJson value
    | .error _ => none
  timestampMillis e := e.timestampMillis

namespace AuditEvent

variable {F : Type} {floats : FloatText F} {toFloat : UInt64 → F}

/-! ### Reading back -/

/-- What is read back of an event: whether the reason was cut is not known any more. -/
def reread (e : AuditEvent) : AuditEvent := { e with reason := e.reason.map fun c => ⟨c.text, false⟩ }

theorem keys_entries (e : AuditEvent) : ((e.entries toFloat).map Prod.fst).Sublist
    ["action".toList, "actor".toList, "outcome".toList, "timestamp_millis".toList, "object".toList,
      "tenant".toList, "reason".toList, "request_id".toList, "source".toList] := by
  have hstep : ∀ (o : List (List Char × Value F)) (keys : List (List Char)) (key : List Char)
      (value : Option (Value F)), (o.map Prod.fst).Sublist keys →
        ((Object.pushOpt o key value).map Prod.fst).Sublist (keys ++ [key]) :=
    fun o keys key value h => (keys_pushOpt o key value).trans (h.append (Sublist.refl _))
  exact hstep _ _ _ _ (hstep _ _ _ _ (hstep _ _ _ _ (hstep _ _ _ _ (hstep _
    ["action".toList, "actor".toList, "outcome".toList, "timestamp_millis".toList] _ _
    (Sublist.refl _)))))

theorem nodup_keys (e : AuditEvent) : ((e.entries toFloat).map Prod.fst).Nodup :=
  (keys_entries e).nodup (by decide)

theorem length_entries (e : AuditEvent) : (e.entries toFloat).length ≤ 9 := by
  have hlen : ((e.entries toFloat).map Prod.fst).length ≤ 9 := (keys_entries e).length_le
  rwa [length_map] at hlen

/-- A member whose value is a short text. -/
theorem smallEntry_string {key s : List Char} (hkey : 6 * (Utf8.encode key).length ≤ 4096)
    (hs : (Utf8.encode s).length ≤ maxAuditReason) : SmallEntry floats 4096 (key, .string s) := by
  have hwritten := length_writeString_le s
  rw [maxAuditReason] at hs
  refine ⟨hkey, ?_, .inl ⟨s, rfl, by omega⟩⟩
  rw [writeValue]
  omega

theorem small_entries {e : AuditEvent} (h : e.Sized) (htime : e.timestampMillis.toNat < 2 ^ 63) :
    ∀ x ∈ e.entries toFloat, SmallEntry floats 4096 x := by
  have hfield : ∀ {s : List Char}, (Utf8.encode s).length ≤ maxAuditField →
      (Utf8.encode s).length ≤ maxAuditReason := fun hs => hs.trans (by decide)
  have hopt : ∀ {value : Option (List Char)} {key : List Char},
      (∀ s, value = some s → ShortText maxAuditField s) → 6 * (Utf8.encode key).length ≤ 4096 →
      ∀ v, value.map Value.string = some v → SmallEntry floats 4096 (key, v) := by
    intro value key hvalue hkey v hv
    obtain ⟨s, hs, rfl⟩ := Option.map_eq_some_iff.1 hv
    exact smallEntry_string hkey (hfield (hvalue s hs))
  have htimestamp : SmallEntry floats 4096
      ("timestamp_millis".toList, Value.ofU64 toFloat e.timestampMillis) := by
    have hkey : 6 * (Utf8.encode "timestamp_millis".toList).length ≤ 4096 := by decide
    rw [Value.ofU64, if_pos htime]
    exact ⟨hkey, (length_itoa_le _).trans (by decide), .inr ⟨_, rfl⟩⟩
  have hfirst : ∀ x ∈ ([] : List (List Char × Value F)), SmallEntry floats 4096 x := by
    intro x hx
    cases hx
  have hshort : ∀ (key : List Char) {s : List Char}, 6 * (Utf8.encode key).length ≤ 4096 →
      (Utf8.encode s).length ≤ maxAuditReason → SmallEntry floats 4096 (key, .string s) :=
    fun _ _ hkey hs => smallEntry_string hkey hs
  have hmust := forall_push (forall_push (forall_push (forall_push hfirst
    (hshort "action".toList (by decide) (hfield e.action.length_asStr)))
    (hshort "actor".toList (by decide) (hfield h.actor)))
    (hshort "outcome".toList (by decide) (hfield e.outcome.length_asStr))) htimestamp
  refine forall_pushOpt (forall_pushOpt (forall_pushOpt (forall_pushOpt (forall_pushOpt hmust
    (hopt h.object (by decide))) (hopt h.tenant (by decide))) ?_) (hopt h.requestId (by decide)))
    (hopt h.source (by decide))
  intro v hv
  obtain ⟨c, hc, rfl⟩ := Option.map_eq_some_iff.1 hv
  exact smallEntry_string (by decide) (h.reason c hc)

/-- Looking up a member of an event. -/
theorem get_entries (e : AuditEvent) (k : List Char) :
    (Value.object (e.entries toFloat)).get k =
      ((((((((if "action".toList = k then some (.string e.action.asStr.toList) else none).or
        (if "actor".toList = k then some (.string e.actor) else none)).or
        (if "outcome".toList = k then some (.string e.outcome.asStr.toList) else none)).or
        (if "timestamp_millis".toList = k then some (.ofU64 toFloat e.timestampMillis) else none)).or
        (if "object".toList = k then e.object.map .string else none)).or
        (if "tenant".toList = k then e.tenant.map .string else none)).or
        (if "reason".toList = k then e.reason.map fun c => .string c.text else none)).or
        (if "request_id".toList = k then e.requestId.map .string else none)).or
        (if "source".toList = k then e.source.map .string else none) := by
  simp only [entries, get_pushOpt, get_push, get_nil, Option.none_or]

/-- Sorting changes neither a string nor a number. -/
theorem get_sorted (e : AuditEvent) (k : List Char) :
    (Value.object (e.entries toFloat)).sortKeys.get k = (Value.object (e.entries toFloat)).get k := by
  rw [get_sortKeys (nodup_keys e)]
  cases hget : (Value.object (e.entries toFloat)).get k with
  | none => rfl
  | some v =>
    have hflat : v.sortKeys = v := by
      rw [Value.get] at hget
      obtain ⟨x, hx, rfl⟩ := Option.map_eq_some_iff.1 hget
      have hscalar : ∀ x ∈ e.entries toFloat, x.2.sortKeys = x.2 := by
        have hopt : ∀ {value : Option (List Char)} {key : List Char},
            ∀ v, value.map Value.string = some v → ((key, v) : List Char × Value F).2.sortKeys = v := by
          intro value key v hv
          obtain ⟨s, -, rfl⟩ := Option.map_eq_some_iff.1 hv
          rfl
        refine forall_pushOpt (forall_pushOpt (forall_pushOpt (forall_pushOpt (forall_pushOpt
          (forall_push (forall_push (forall_push (forall_push ?_ rfl) rfl) rfl) ?_) hopt) hopt) ?_)
          hopt) hopt
        · intro x hx
          cases hx
        · rw [Value.ofU64]
          split <;> rfl
        · intro v hv
          obtain ⟨c, -, rfl⟩ := Option.map_eq_some_iff.1 hv
          rfl
      exact hscalar x (mem_of_find?_eq_some hx)
    rw [Option.map_some, hflat]

/-- A value whose lookups are those of an event is read as the event. -/
theorem fromJson_of_get {e : AuditEvent} (h : e.Sized) {v : Value F}
    (hget : ∀ k, v.get k = (Value.object (e.entries toFloat)).get k) :
    fromJson v = if e.timestampMillis.toNat < 2 ^ 63 then some e.reread else none := by
  have htime : v.get "timestamp_millis".toList = some (.ofU64 toFloat e.timestampMillis) := by
    rw [hget, get_entries]
    rfl
  have hactor : v.get "actor".toList = some (.string e.actor) := by
    rw [hget, get_entries]
    rfl
  have haction : v.get "action".toList = some (.string e.action.asStr.toList) := by
    rw [hget, get_entries]
    rfl
  have houtcome : v.get "outcome".toList = some (.string e.outcome.asStr.toList) := by
    rw [hget, get_entries]
    rfl
  have hobject : (v.get "object".toList).bind Value.asStr = e.object := by
    rw [hget, get_entries]
    cases e.object <;> rfl
  have htenant : (v.get "tenant".toList).bind Value.asStr = e.tenant := by
    rw [hget, get_entries]
    cases e.object <;> cases e.tenant <;> rfl
  have hreason : ((v.get "reason".toList).bind Value.asStr).map (Capped.new · maxAuditReason) =
      e.reread.reason := by
    rw [hget, get_entries, reread]
    cases hc : e.reason with
    | none => cases e.object <;> cases e.tenant <;> rfl
    | some c =>
      have hfits := Capped.new_of_le (h.reason c hc)
      cases e.object <;> cases e.tenant <;> exact congrArg some hfits
  have hrequest : (v.get "request_id".toList).bind Value.asStr = e.requestId := by
    rw [hget, get_entries]
    cases e.requestId <;> rfl
  have hsource : (v.get "source".toList).bind Value.asStr = e.source := by
    rw [hget, get_entries]
    cases e.source <;> rfl
  rw [fromJson, htime, hactor, haction, houtcome, hobject, htenant, hreason, hrequest, hsource]
  simp only [Option.bind_eq_bind, Option.bind_some, Value.asU64_ofU64]
  split
  · simp only [Option.bind_some, Value.asStr, AuditAction.parse_asStr, AuditOutcome.parse_asStr,
      UInt64.ofNat_toNat]
    rfl
  · rfl

/-- The only float of an event is its time. -/
theorem printable_sorted (e : AuditEvent) (hfloat : ∀ v, floats.Exact (toFloat v)) :
    (Value.object (e.entries toFloat)).sortKeys.Printable floats := by
  have hopt : ∀ {value : Option (List Char)} {key : List Char}, ∀ v, value.map Value.string = some v →
      Value.Printable floats ((key, v) : List Char × Value F).2 := by
    intro value key v hv f hf
    obtain ⟨s, -, rfl⟩ := Option.map_eq_some_iff.1 hv
    cases hf
  have hstring : ∀ s : List Char, Value.Printable floats (.string s) := by
    intro s f hf
    cases hf
  have hentries : ∀ x ∈ e.entries toFloat, x.2.Printable floats := by
    refine forall_pushOpt (forall_pushOpt (forall_pushOpt (forall_pushOpt (forall_pushOpt
      (forall_push (forall_push (forall_push (forall_push ?_ (hstring _)) (hstring _)) (hstring _)) ?_)
      hopt) hopt) ?_) hopt) hopt
    · intro x hx
      cases hx
    · intro f hf
      rw [Value.ofU64] at hf
      split at hf
      · cases hf
      · cases hf
        exact hfloat _
    · intro v hv f hf
      obtain ⟨c, -, rfl⟩ := Option.map_eq_some_iff.1 hv
      cases hf
  intro f hf
  cases inside_number_of_sortKeys _ hf with
  | member he hin => exact hentries _ he f hin

/-- **What is read back of an event.**  A float that stands for a large number is printed as one. -/
theorem parse_canonical {e : AuditEvent} (h : e.Sized) (hfloat : ∀ v, floats.Exact (toFloat v)) :
    (auditEventCodec floats toFloat).parse ((auditEventCodec floats toFloat).toCanonicalBytes e) =
      if e.timestampMillis.toNat < 2 ^ 63 then some e.reread else none := by
  have hread := fromJson_of_get h (v := (Value.object (e.entries toFloat)).sortKeys) (get_sorted e)
  show (match Json.parse floats .small (e.toCanonicalBytes floats toFloat) with
    | .ok value => fromJson value
    | .error _ => none) = _
  by_cases htime : e.timestampMillis.toNat < 2 ^ 63
  · have hlen : (e.entries toFloat).length ≤ 9 := length_entries e
    rw [toCanonicalBytes, canonical_read_back (small_entries h htime) (nodup_keys e)
      (hlen.trans (by decide)) (by decide) (by decide) ?_]
    · exact hread
    · show 2 + _ * (2 * 4096 + 4) ≤ 1024 * 1024
      omega
  · -- a float is read back as a float, or the text is refused
    rw [if_neg htime] at hread ⊢
    rcases parse_gives (printable_sorted e hfloat) with hok | ⟨-, err, herr⟩
    · rw [toCanonicalBytes, toCanonicalString, Json.toString, hok]
      exact hread
    · rw [toCanonicalBytes, toCanonicalString, Json.toString, herr]

end AuditEvent

end HypeLlm.Store
