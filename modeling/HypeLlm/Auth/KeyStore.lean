import HypeLlm.Routing.Policy

/-!
# API keys, in memory and in the log

The key store is a map from identifiers to records.  What the log keeps of a key is its record, as it
was created, and each later change as a record of its own: a revocation, an expiry, a restriction.
Replay applies them in order.  A key's own record replaces whatever was there; a change of a key that
is not there changes nothing, except that a restriction is held until the key's record arrives.

Payloads are taken as what they decode to.
-/

namespace HypeLlm.Auth

/-- A key's narrowing of the access of its principal. -/
structure KeyRestriction extends Routing.KeyRestriction where
  priority : Option PriorityClass
  deriving Repr, DecidableEq

def KeyRestriction.unrestricted : KeyRestriction := ⟨⟨none, none, none⟩, none⟩

structure KeyRecord where
  tenant : TenantId
  expiresAtMillis : Option ℕ
  revoked : Bool
  restrictions : KeyRestriction
  deriving Repr, DecidableEq

/-! ### Changes -/

/-- What can be changed of a key. -/
inductive Field where
  | revoked
  | expiry
  | restrictions
  deriving Repr, DecidableEq

/-- A change of one field of a key. -/
inductive Change where
  | revoke
  | expiry (at_ : Option ℕ)
  | restrictions (r : KeyRestriction)
  deriving Repr, DecidableEq

namespace Change

def field : Change → Field
  | .revoke => .revoked
  | .expiry _ => .expiry
  | .restrictions _ => .restrictions

def apply (record : KeyRecord) : Change → KeyRecord
  | .revoke => { record with revoked := true }
  | .expiry at_ => { record with expiresAtMillis := at_ }
  | .restrictions r => { record with restrictions := r }

@[simp] theorem apply_apply (c : Change) (r : KeyRecord) : c.apply (c.apply r) = c.apply r := by
  cases c <;> rfl

/-- Changes of different fields do not meet. -/
theorem apply_comm {c d : Change} (h : c.field ≠ d.field) (r : KeyRecord) :
    c.apply (d.apply r) = d.apply (c.apply r) := by
  cases c <;> cases d <;> first | rfl | exact absurd rfl h

end Change

/-- The records agree on a field. -/
def SameOn : Field → KeyRecord → KeyRecord → Prop
  | .revoked, r, r' => r.revoked = r'.revoked
  | .expiry, r, r' => r.expiresAtMillis = r'.expiresAtMillis
  | .restrictions, r, r' => r.restrictions = r'.restrictions

theorem sameOn_refl (f : Field) (r : KeyRecord) : SameOn f r r := by
  cases f <;> rfl

/-- A change makes records agree on its field. -/
theorem sameOn_apply (c : Change) (r r' : KeyRecord) : SameOn c.field (c.apply r) (c.apply r') := by
  cases c <;> rfl

/-- On other fields it makes no difference. -/
theorem sameOn_apply_left {f : Field} {c : Change} (h : c.field ≠ f) {r r' : KeyRecord} :
    SameOn f (c.apply r) r' ↔ SameOn f r r' := by
  cases c <;> cases f <;> first | exact Iff.rfl | exact absurd rfl h

theorem sameOn_apply_right {f : Field} {c : Change} (h : c.field ≠ f) {r r' : KeyRecord} :
    SameOn f r (c.apply r') ↔ SameOn f r r' := by
  cases c <;> cases f <;> first | exact Iff.rfl | exact absurd rfl h

/-! ### The store -/

/-- The records by identifier. -/
abbrev KeyStore := KeyId → Option KeyRecord

namespace KeyStore

variable (s : KeyStore)

def insert (id : KeyId) (record : KeyRecord) : KeyStore := Function.update s id (some record)

/-- A change of a key, if there is one. -/
def change (id : KeyId) (c : Change) : KeyStore := Function.update s id ((s id).map c.apply)

def revoke (id : KeyId) : KeyStore := s.change id .revoke

def setExpiry (id : KeyId) (at_ : Option ℕ) : KeyStore := s.change id (.expiry at_)

def setRestrictions (id : KeyId) (r : KeyRestriction) : KeyStore := s.change id (.restrictions r)

@[simp] theorem insert_self (id : KeyId) (record : KeyRecord) : s.insert id record id = some record :=
  Function.update_self ..

theorem insert_of_ne {id other : KeyId} (h : other ≠ id) (record : KeyRecord) :
    s.insert id record other = s other := Function.update_of_ne h ..

@[simp] theorem change_self (id : KeyId) (c : Change) : s.change id c id = (s id).map c.apply :=
  Function.update_self ..

theorem change_of_ne {id other : KeyId} (h : other ≠ id) (c : Change) :
    s.change id c other = s other := Function.update_of_ne h ..

end KeyStore

/-! ### The log -/

/-- A frame of the log, as far as keys go. -/
inductive Frame where
  | apiKey (id : KeyId) (record : KeyRecord)
  | apiKeyRevocation (id : KeyId)
  | apiKeyExpiry (id : KeyId) (at_ : Option ℕ)
  | apiKeyRestriction (id : KeyId) (r : KeyRestriction)
  deriving Repr, DecidableEq

/-- The key a frame is about. -/
def Frame.key : Frame → KeyId
  | .apiKey id _ => id
  | .apiKeyRevocation id => id
  | .apiKeyExpiry id _ => id
  | .apiKeyRestriction id _ => id

/-- The frame that records a change. -/
def Change.frame (id : KeyId) : Change → Frame
  | .revoke => .apiKeyRevocation id
  | .expiry at_ => .apiKeyExpiry id at_
  | .restrictions r => .apiKeyRestriction id r

@[simp] theorem Change.frame_key (id : KeyId) (c : Change) : (c.frame id).key = id := by
  cases c <;> rfl

/-- What replay has come to: the keys, and the restrictions of keys it has not seen yet. -/
structure Replay where
  keys : KeyStore
  waiting : KeyId → Option KeyRestriction

namespace Replay

/-- One frame.  A key's record carries no restrictions of its own. -/
def step (p : Replay) : Frame → Replay
  | .apiKey id record =>
    ⟨p.keys.insert id { record with restrictions := (p.waiting id).getD .unrestricted },
      Function.update p.waiting id none⟩
  | .apiKeyRevocation id => { p with keys := p.keys.revoke id }
  | .apiKeyExpiry id at_ => { p with keys := p.keys.setExpiry id at_ }
  | .apiKeyRestriction id r =>
    if (p.keys id).isSome then { p with keys := p.keys.setRestrictions id r }
    else { p with waiting := Function.update p.waiting id (some r) }

end Replay

/-- Replay the frames in order. -/
def restoreKeys (frames : List Frame) : Replay := frames.foldl Replay.step ⟨fun _ => none, fun _ => none⟩

theorem restoreKeys_snoc (frames : List Frame) (f : Frame) :
    restoreKeys (frames ++ [f]) = (restoreKeys frames).step f := by
  simp [restoreKeys, List.foldl_append]

namespace Replay

variable {p : Replay} {f : Frame} {id : KeyId}

/-- **A frame touches its own key alone.** -/
theorem step_other (h : f.key ≠ id) :
    (p.step f).keys id = p.keys id ∧ (p.step f).waiting id = p.waiting id := by
  have hne : id ≠ f.key := Ne.symm h
  cases f with
  | apiKey id' record =>
    exact ⟨KeyStore.insert_of_ne _ hne _, Function.update_of_ne hne ..⟩
  | apiKeyRevocation id' => exact ⟨KeyStore.change_of_ne _ hne _, rfl⟩
  | apiKeyExpiry id' at_ => exact ⟨KeyStore.change_of_ne _ hne _, rfl⟩
  | apiKeyRestriction id' r =>
    simp only [step]
    split
    · exact ⟨KeyStore.change_of_ne _ hne _, rfl⟩
    · exact ⟨rfl, Function.update_of_ne hne ..⟩

/-- **A change of a key that is there is applied to it.** -/
theorem step_change {record : KeyRecord} (h : p.keys id = some record) (c : Change) :
    (p.step (c.frame id)).keys id = some (c.apply record) := by
  cases c with
  | revoke => simp [Change.frame, step, KeyStore.revoke, h]
  | expiry at_ => simp [Change.frame, step, KeyStore.setExpiry, h]
  | restrictions r => simp [Change.frame, step, KeyStore.setRestrictions, h]

/-- A change makes no key. -/
theorem step_change_none (h : p.keys id = none) (c : Change) :
    (p.step (c.frame id)).keys id = none := by
  cases c with
  | revoke => simp [Change.frame, step, KeyStore.revoke, h]
  | expiry at_ => simp [Change.frame, step, KeyStore.setExpiry, h]
  | restrictions r => simp [Change.frame, step, h]

/-- A restriction of a key that is not there is held. -/
theorem step_restriction_none (h : p.keys id = none) (r : KeyRestriction) :
    (p.step (.apiKeyRestriction id r)).waiting id = some r := by
  simp [step, h]

end Replay

/-- Nothing is known of a key that no frame is about. -/
theorem restoreKeys_unnamed {frames : List Frame} {id : KeyId} (h : ∀ f ∈ frames, f.key ≠ id) :
    (restoreKeys frames).keys id = none ∧ (restoreKeys frames).waiting id = none := by
  induction frames using List.reverseRecOn with
  | nil => exact ⟨rfl, rfl⟩
  | append_singleton frames f ih =>
    obtain ⟨hkeys, hwaiting⟩ := ih fun g hg => h g (List.mem_append_left _ hg)
    have hother := Replay.step_other (p := restoreKeys frames) (h f (by simp))
    rw [restoreKeys_snoc, hother.1, hother.2]
    exact ⟨hkeys, hwaiting⟩

end HypeLlm.Auth
