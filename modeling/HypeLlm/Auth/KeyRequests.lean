import HypeLlm.Lib.Runs
import HypeLlm.Auth.KeyStore

/-!
# Requests on keys, and what a restart makes of them

Four requests of the management interface change keys.  Each is a sequence of operations on the store
and of appends to the log, and the operations of concurrent requests interleave.  A creation has the
key in memory before its record is in the log, and a change of it that is appended in between is lost
on replay, unless it is one of the restrictions and comes after the creation's own: those are held until
the record arrives.  A change is appended first and applied second, and two requests may apply theirs in
the other order.

* **`keys_survive_restart`** — in every run, with restarts, in which no change is lost to a creation
  under way and no older change is applied over a newer one: once all requests have returned, a
  replay of the log gives every key that was reported created the state it has in memory, and a key
  reported revoked is revoked in every replay;
* `revoked_while_created` — a key revoked in the midst of its creation is not revoked after a restart.
-/

namespace HypeLlm.Auth

open HypeLlm.Runs

/-! ### Requests -/

/-- A key to be made. -/
structure NewKey where
  id : KeyId
  tenant : TenantId
  expiresAtMillis : Option ℕ
  /-- The restrictions it is to begin with, if any. -/
  restrictions : Option KeyRestriction
  /-- Whether a budget is to be written for it. -/
  budget : Bool
  deriving Repr, DecidableEq

/-- What a creation does next: each but the first is an append that may fail. -/
inductive Stage where
  | narrowing
  | auditing
  | funding
  | restricting
  | recording
  deriving Repr, DecidableEq

namespace Stage

/-- The key is narrowed in memory. -/
def narrowed : Stage → Bool
  | .narrowing => false
  | _ => true

/-- Its restrictions are in the log. -/
def restricted : Stage → Bool
  | .recording => true
  | _ => false

end Stage

namespace NewKey

variable (k : NewKey)

/-- The record of a key being made. -/
def record (narrowed : Bool) : KeyRecord :=
  ⟨k.tenant, k.expiresAtMillis, false,
    if narrowed then k.restrictions.getD .unrestricted else .unrestricted⟩

/-- The creation has its restrictions behind it, or has none. -/
def Settled (stage : Stage) : Prop := stage.restricted = true ∨ k.restrictions = none

/-- What replay makes of the key when its record arrives, with the restrictions that it holds for it. -/
def due (held : Option KeyRestriction) : KeyRecord :=
  { k.record false with restrictions := held.getD .unrestricted }

/-- With its own restrictions held it is the key as it is in memory. -/
theorem due_of_settled {k : NewKey} {stage : Stage} (h : k.Settled stage) :
    k.due (if stage.restricted then k.restrictions else none) = k.record stage.narrowed := by
  rcases h with hrestricted | hnone
  · cases stage <;> first | rfl | cases hrestricted
  · cases stage <;> simp [due, record, hnone]

end NewKey

/-- How far a request has come. -/
inductive Task where
  | unused
  | creating (stage : Stage) (k : NewKey)
  /-- The creation has failed, and the key is to be revoked in memory. -/
  | abandoning (id : KeyId)
  /-- The change passed its checks; about to be audited. -/
  | checked (id : KeyId) (c : Change)
  /-- About to be appended. -/
  | writing (id : KeyId) (c : Change)
  /-- Appended; about to be applied in memory. -/
  | applying (id : KeyId) (c : Change)
  /-- A revocation that is applied; about to be audited. -/
  | reporting (id : KeyId)
  | returned
  deriving Repr, DecidableEq

/-- The key a request is at work on. -/
def Task.key : Task → Option KeyId
  | .creating _ k => some k.id
  | .abandoning id | .checked id _ | .writing id _ | .applying id _ | .reporting id => some id
  | .unused | .returned => none

/-- The key is with a request that changes it in memory or in the log. -/
def Task.touches (id : KeyId) : Task → Prop
  | .creating _ k => k.id = id
  | .abandoning id' | .applying id' _ | .reporting id' => id' = id
  | _ => False

theorem Task.key_of_touches {id : KeyId} {t : Task} (h : t.touches id) : t.key = some id := by
  cases t <;> first | exact congrArg some h | exact h.elim

/-- The precondition of a change. -/
inductive IfMatch where
  | absent
  | any
  /-- The states of the key whose tags are listed. -/
  | tags (states : List (Option ℕ × Bool × KeyRestriction))
  deriving Repr, DecidableEq

def IfMatch.satisfied (record : KeyRecord) : IfMatch → Bool
  | .absent => false
  | .any => true
  | .tags states => decide ((record.expiresAtMillis, record.revoked, record.restrictions) ∈ states)

/-- The running router and its log.  `newest` remembers which request appended the last change of each
field, and `created` and `revoked` what was reported to callers. -/
structure Node where
  keys : KeyStore
  log : List Frame
  tasks : ℕ → Task
  newest : KeyId → Field → Option ℕ
  created : List KeyId
  revoked : List KeyId

inductive Event where
  | createKey (r : ℕ) (k : NewKey)
  | revokeKey (r : ℕ) (tenant : TenantId) (id : KeyId)
  /-- `valid` answers for the checks that read nothing of the key. -/
  | setKeyExpiry (r : ℕ) (tenant : TenantId) (ifMatch : IfMatch) (id : KeyId) (at_ : Option ℕ)
      (valid : Bool)
  | setKeyRestrictions (r : ℕ) (tenant : TenantId) (ifMatch : IfMatch) (id : KeyId)
      (restrictions : KeyRestriction) (valid : Bool)
  /-- The next operation of a request; an append succeeds or fails. -/
  | proceed (r : ℕ) (ok : Bool)
  | restart

namespace Node

variable (n : Node)

def goTo (r : ℕ) (t : Task) : Node := { n with tasks := Function.update n.tasks r t }

/-- The keys after a replay of the log. -/
def restored : KeyStore := (restoreKeys n.log).keys

/-- The restrictions that replay holds for keys it has not seen. -/
def waiting : KeyId → Option KeyRestriction := (restoreKeys n.log).waiting

/-- A router started on an empty log. -/
def boot : Node := ⟨fun _ => none, [], fun _ => .unused, fun _ _ => none, [], []⟩

/-- The key as a caller of the tenant sees it. -/
def managedKey (tenant : TenantId) (id : KeyId) : Option KeyRecord :=
  (n.keys id).filter fun record => record.tenant = tenant

def createKey (r : ℕ) (k : NewKey) : Node :=
  { n with keys := n.keys.insert k.id (k.record false) }.goTo r (.creating .narrowing k)

def revokeKey (r : ℕ) (tenant : TenantId) (id : KeyId) : Node :=
  if (n.managedKey tenant id).isSome then n.goTo r (.writing id .revoke) else n.goTo r .returned

/-- A change with a precondition, which a revoked key refuses. -/
def changeKey (r : ℕ) (tenant : TenantId) (ifMatch : IfMatch) (id : KeyId) (c : Change)
    (valid : Bool) : Node :=
  match n.managedKey tenant id with
  | none => n.goTo r .returned
  | some record =>
    if ifMatch.satisfied record && !record.revoked && valid then n.goTo r (.checked id c)
    else n.goTo r .returned

/-- The next operation of a creation. -/
def proceedCreate (r : ℕ) (ok : Bool) (k : NewKey) : Stage → Node
  | .narrowing =>
    { n with keys := match k.restrictions with
        | some restrictions => n.keys.setRestrictions k.id restrictions
        | none => n.keys }.goTo r (.creating .auditing k)
  | .auditing => n.goTo r (if ok then .creating .funding k else .abandoning k.id)
  | .funding => n.goTo r (if k.budget && !ok then .abandoning k.id else .creating .restricting k)
  | .restricting =>
    match k.restrictions with
    | none => n.goTo r (.creating .recording k)
    | some restrictions =>
      if ok then { n with log := n.log ++ [Frame.apiKeyRestriction k.id restrictions] }.goTo r
        (.creating .recording k)
      else n.goTo r (.abandoning k.id)
  | .recording =>
    if ok then { n with
      log := n.log ++ [Frame.apiKey k.id (k.record false)]
      created := k.id :: n.created }.goTo r .returned
    else n.goTo r (.abandoning k.id)

/-- A change is appended. -/
def appended (r : ℕ) (id : KeyId) (c : Change) : Node :=
  { n with
    log := n.log ++ [c.frame id]
    newest := Function.update n.newest id (Function.update (n.newest id) c.field (some r)) }.goTo r
      (.applying id c)

/-- The next operation of a request. -/
def proceed (r : ℕ) (ok : Bool) : Node :=
  match n.tasks r with
  | .unused | .returned => n
  | .creating stage k => n.proceedCreate r ok k stage
  | .abandoning id => { n with keys := n.keys.revoke id }.goTo r .returned
  | .checked id c => n.goTo r (if ok then .writing id c else .returned)
  | .writing id c =>
    if ok then n.appended r id c else n.goTo r .returned
  | .applying id c =>
    { n with keys := n.keys.change id c }.goTo r (if c = Change.revoke then .reporting id else .returned)
  | .reporting id =>
    if ok then { n with revoked := id :: n.revoked }.goTo r .returned else n.goTo r .returned

/-- The process ends with whatever was under way, and the keys are read back. -/
def restart : Node :=
  { n with
    keys := n.restored
    tasks := fun r => if n.tasks r = .unused then .unused else .returned }

/-- One step.  A request starts once. -/
def step : Event → Node
  | .createKey r k => if n.tasks r = .unused then n.createKey r k else n
  | .revokeKey r tenant id => if n.tasks r = .unused then n.revokeKey r tenant id else n
  | .setKeyExpiry r tenant ifMatch id at_ valid =>
    if n.tasks r = .unused then n.changeKey r tenant ifMatch id (.expiry at_) valid else n
  | .setKeyRestrictions r tenant ifMatch id restrictions valid =>
    if n.tasks r = .unused then n.changeKey r tenant ifMatch id (.restrictions restrictions) valid
    else n
  | .proceed r ok => n.proceed r ok
  | .restart => n.restart

/-- All requests have returned. -/
def Quiet : Prop := ∀ r, n.tasks r = .unused ∨ n.tasks r = .returned

/-- No creation under way makes a change of the key that is appended now a lost one: there is none, or
the change is one of the restrictions and comes after the creation's own. -/
def Kept (id : KeyId) (c : Change) : Prop :=
  ∀ r stage k, n.tasks r = .creating stage k → k.id = id → c.field = .restrictions ∧ k.Settled stage

/-- What no step may do: draw an identifier that was used before, append a change that a creation under
way makes a lost one, or apply a change when a newer one of the same field has been applied. -/
def Careful : Event → Prop
  | .createKey _ k => n.keys k.id = none ∧ ∀ f ∈ n.log, f.key ≠ k.id
  | .proceed r ok =>
    (ok = true → ∀ id c, n.tasks r = .writing id c → n.Kept id c) ∧
      ∀ id c, n.tasks r = .applying id c → c.field ≠ .revoked →
        n.newest id c.field = some r ∨
          ∃ r' c', r' ≠ r ∧ n.newest id c.field = some r' ∧ n.tasks r' = .applying id c' ∧
            c'.field = c.field
  | _ => True

/-! ### The invariant -/

/-- Memory agrees with a replayed record on every field, except where the newest change on record is
about to be applied. -/
def Agrees (id : KeyId) (saved : KeyRecord) : Prop :=
  ∃ record, n.keys id = some record ∧ ∀ f, SameOn f record saved ∨
    ∃ r c, n.tasks r = .applying id c ∧ c.field = f ∧ n.newest id f = some r

/-- A replay gives the key this record, now or, if its creation has its restrictions behind it, when that
has appended the record. -/
def Due (id : KeyId) (saved : KeyRecord) : Prop :=
  n.restored id = some saved ∨ ∃ r stage k, n.tasks r = .creating stage k ∧ k.id = id ∧
    k.Settled stage ∧ saved = k.due (n.waiting id)

/-- What holds of one key between steps. -/
structure KeySound (id : KeyId) : Prop where
  creating : ∀ r stage k, n.tasks r = .creating stage k → k.id = id →
    n.restored id = none ∧ .apiKeyRevocation id ∉ n.log
  unsettled : ∀ r stage k, n.tasks r = .creating stage k → k.id = id → ¬k.Settled stage →
    n.keys id = some (k.record stage.narrowed) ∧ n.waiting id = none
  unshared : ∀ r stage k r', n.tasks r = .creating stage k → k.id = id →
    (n.tasks r').touches id →
      r' = r ∨ k.Settled stage ∧ ∃ rs, n.tasks r' = .applying id (.restrictions rs)
  abandoned : ∀ r, n.tasks r = .abandoning id → n.restored id = none
  found : ∀ r, (n.tasks r).key = some id → (n.keys id).isSome = true
  agrees : ∀ saved, n.Due id saved → n.Agrees id saved
  newest : ∀ r c saved, n.tasks r = .applying id c → n.newest id c.field = some r →
    n.Due id saved → c.apply saved = saved
  revocation : .apiKeyRevocation id ∈ n.log → ∀ saved, n.restored id = some saved →
    saved.revoked = true
  revoking : ∀ r, n.tasks r = .applying id .revoke ∨ n.tasks r = .reporting id →
    .apiKeyRevocation id ∈ n.log
  reported : id ∈ n.revoked → .apiKeyRevocation id ∈ n.log
  recorded : id ∈ n.created → (n.restored id).isSome = true

variable {n}

/-- What is due does not change where the log and the creations of the key do not. -/
theorem Due.of_same {n' : Node} {id : KeyId} {saved : KeyRecord} (h : n'.Due id saved)
    (hrestored : n'.restored id = n.restored id) (hwaiting : n'.waiting id = n.waiting id)
    (hcreating : ∀ r stage k, n'.tasks r = .creating stage k → k.id = id →
      n.tasks r = .creating stage k) : n.Due id saved := by
  rcases h with hsaved | ⟨r, stage, k, htask, hk, hsettled, hsaved⟩
  · exact .inl (hrestored ▸ hsaved)
  · exact .inr ⟨r, stage, k, hcreating r stage k htask hk, hk, hsettled, hwaiting ▸ hsaved⟩

/-- Nor does memory come to disagree, where nothing is applied to it. -/
theorem Agrees.of_same {n' : Node} {id : KeyId} {saved : KeyRecord} (h : n.Agrees id saved)
    (hkeys : n'.keys id = n.keys id) (hnewest : n'.newest id = n.newest id)
    (happlying : ∀ r c, n.tasks r = .applying id c → n'.tasks r = .applying id c) :
    n'.Agrees id saved := by
  obtain ⟨record, hrecord, hfields⟩ := h
  refine ⟨record, hkeys.trans hrecord, fun f => (hfields f).imp_right ?_⟩
  rintro ⟨r, c, htask, hfield, hlast⟩
  exact ⟨r, c, happlying r c htask, hfield, by rw [hnewest]; exact hlast⟩

/-- Where no creation is under way, it is what a replay gives now. -/
theorem Due.restored {id : KeyId} {saved : KeyRecord} (h : n.Due id saved)
    (hno : ∀ r stage k, n.tasks r = .creating stage k → k.id ≠ id) : n.restored id = some saved := by
  rcases h with hsaved | ⟨r, stage, k, htask, hk, -⟩
  · exact hsaved
  · exact absurd hk (hno r stage k htask)

/-! ### Keys do not meet -/

/-- **A step on another key.** -/
theorem KeySound.other {n' : Node} {id : KeyId} (h : n.KeySound id)
    (hkeys : n'.keys id = n.keys id) (hrestored : n'.restored id = n.restored id)
    (hwaiting : n'.waiting id = n.waiting id)
    (hlog : .apiKeyRevocation id ∈ n'.log ↔ .apiKeyRevocation id ∈ n.log)
    (hnewest : n'.newest id = n.newest id)
    (htasks : ∀ r, n'.tasks r = n.tasks r ∨ (n'.tasks r).key ≠ some id ∧ (n.tasks r).key ≠ some id)
    (hcreated : id ∈ n'.created → id ∈ n.created) (hrevoked : id ∈ n'.revoked → id ∈ n.revoked) :
    n'.KeySound id := by
  have hsame : ∀ {r t}, t.key = some id → (n'.tasks r = t ↔ n.tasks r = t) := by
    intro r t ht
    rcases htasks r with heq | ⟨hnew, hold⟩
    · rw [heq]
    · exact iff_of_false (fun h => hnew (h ▸ ht)) fun h => hold (h ▸ ht)
  have htouches : ∀ {r}, (n'.tasks r).touches id → (n.tasks r).touches id := by
    intro r ht
    rcases htasks r with heq | ⟨hnew, -⟩
    · rwa [← heq]
    · exact absurd (Task.key_of_touches ht) hnew
  have hcreating : ∀ r stage k, n'.tasks r = .creating stage k → k.id = id →
      n.tasks r = .creating stage k := by
    intro r stage k htask hk
    exact (hsame (by simp [Task.key, hk])).1 htask
  constructor
  · intro r stage k htask hk
    rw [hrestored, hlog]
    exact h.creating r stage k (hcreating r stage k htask hk) hk
  · intro r stage k htask hk hunsettled
    rw [hkeys, hwaiting]
    exact h.unsettled r stage k (hcreating r stage k htask hk) hk hunsettled
  · intro r stage k r' htask hk htouch
    rcases h.unshared r stage k r' (hcreating r stage k htask hk) hk (htouches htouch) with
      heq | ⟨hsettled, rs, hold⟩
    · exact .inl heq
    · exact .inr ⟨hsettled, rs, (hsame rfl).2 hold⟩
  · intro r htask
    rw [hrestored]
    exact h.abandoned r ((hsame rfl).1 htask)
  · intro r hkey
    rw [hkeys]
    rcases htasks r with heq | ⟨hnew, -⟩
    · exact h.found r (heq ▸ hkey)
    · exact absurd hkey hnew
  · intro saved hdue
    exact (h.agrees saved (hdue.of_same hrestored hwaiting hcreating)).of_same hkeys hnewest
      fun r c => (hsame rfl).2
  · intro r c saved htask hlast hdue
    exact h.newest r c saved ((hsame rfl).1 htask) (by rw [← hnewest]; exact hlast)
      (hdue.of_same hrestored hwaiting hcreating)
  · intro hmem saved hsaved
    exact h.revocation (hlog.1 hmem) saved (hrestored ▸ hsaved)
  · rintro r (htask | htask)
    · exact hlog.2 (h.revoking r (.inl ((hsame rfl).1 htask)))
    · exact hlog.2 (h.revoking r (.inr ((hsame rfl).1 htask)))
  · exact fun hmem => hlog.2 (h.reported (hrevoked hmem))
  · intro hmem
    rw [hrestored]
    exact h.recorded (hcreated hmem)

/-! ### A request moves on -/

@[simp] theorem goTo_tasks_self (r : ℕ) (t : Task) : (n.goTo r t).tasks r = t :=
  Function.update_self ..

theorem goTo_tasks_of_ne {r r' : ℕ} (h : r' ≠ r) (t : Task) : (n.goTo r t).tasks r' = n.tasks r' :=
  Function.update_of_ne h ..

/-- A task of a node in which one request has moved on. -/
theorem goTo_tasks_eq {r q : ℕ} {t t' : Task} (h : (n.goTo r t).tasks q = t') :
    q = r ∧ t' = t ∨ q ≠ r ∧ n.tasks q = t' := by
  by_cases hr : q = r
  · subst hr
    rw [goTo_tasks_self] at h
    exact .inl ⟨rfl, h.symm⟩
  · rw [goTo_tasks_of_ne hr] at h
    exact .inr ⟨hr, h⟩

/-- One that the request has not moved on to was there before. -/
theorem goTo_tasks_old {r q : ℕ} {t t' : Task} (h : (n.goTo r t).tasks q = t') (hne : t' ≠ t) :
    q ≠ r ∧ n.tasks q = t' :=
  (goTo_tasks_eq h).resolve_left fun heq => hne heq.2

/-- What the next task of a request may be for nothing else to change. -/
structure Quietly (r : ℕ) (t : Task) : Prop where
  creating : ∀ stage k, t = .creating stage k → ∃ before, n.tasks r = .creating before k ∧
    ((before.narrowed = stage.narrowed ∧ before.restricted = stage.restricted) ∨ k.restrictions = none)
  touches : ∀ id, t.touches id → (n.tasks r).touches id
  found : ∀ id, t.key = some id → (n.keys id).isSome = true
  abandoned : ∀ id, t = .abandoning id → n.restored id = none
  wasIdle : ∀ id c, n.tasks r ≠ .applying id c
  idle : ∀ id c, t ≠ .applying id c
  silent : ∀ id, t ≠ .reporting id

/-- **A request moves on and touches nothing.** -/
theorem Quietly.sound {r : ℕ} {t : Task} (hq : n.Quietly r t) (h : ∀ id, n.KeySound id) (id : KeyId) :
    (n.goTo r t).KeySound id := by
  have htouched : ∀ r', ((n.goTo r t).tasks r').touches id → (n.tasks r').touches id := by
    intro r' htouch
    rcases goTo_tasks_eq (n := n) (r := r) (t := t) (q := r') rfl with ⟨rfl, heq⟩ | ⟨-, heq⟩
    · exact hq.touches id (heq ▸ htouch)
    · rwa [← heq] at htouch
  -- A creation that moves on has its restrictions behind it as it had before.
  have hbefore : ∀ r' stage k, (n.goTo r t).tasks r' = .creating stage k →
      ∃ before, n.tasks r' = .creating before k ∧ (k.Settled before ↔ k.Settled stage) ∧
        (¬k.Settled stage → before.narrowed = stage.narrowed) := by
    intro r' stage k htask
    rcases goTo_tasks_eq htask with ⟨rfl, heq⟩ | ⟨-, hold⟩
    · obtain ⟨before, hbefore, ⟨hnarrowed, hrestricted⟩ | hnone⟩ := hq.creating stage k heq.symm
      · exact ⟨before, hbefore, by rw [NewKey.Settled, hrestricted]; exact Iff.rfl, fun _ => hnarrowed⟩
      · exact ⟨before, hbefore, iff_of_true (.inr hnone) (.inr hnone), fun hn => absurd (.inr hnone) hn⟩
    · exact ⟨stage, hold, Iff.rfl, fun _ => rfl⟩
  have hdue : ∀ saved, (n.goTo r t).Due id saved → n.Due id saved := by
    rintro saved (hsaved | ⟨r', stage, k, htask, hk, hsettled, hsaved⟩)
    · exact .inl hsaved
    · obtain ⟨before, hold, hsame, -⟩ := hbefore r' stage k htask
      exact .inr ⟨r', before, k, hold, hk, hsame.2 hsettled, hsaved⟩
  constructor
  · intro r' stage k htask hk
    obtain ⟨before, hold, -⟩ := hbefore r' stage k htask
    exact (h id).creating r' before k hold hk
  · intro r' stage k htask hk hunsettled
    obtain ⟨before, hold, hsame, hnarrowed⟩ := hbefore r' stage k htask
    rw [← hnarrowed hunsettled]
    exact (h id).unsettled r' before k hold hk fun hn => hunsettled (hsame.1 hn)
  · intro r' stage k r'' htask hk htouch
    obtain ⟨before, hold, hsame, -⟩ := hbefore r' stage k htask
    rcases (h id).unshared r' before k r'' hold hk (htouched r'' htouch) with heq | ⟨hsettled, rs, happly⟩
    · exact .inl heq
    · have hne : r'' ≠ r := fun heq => hq.wasIdle id _ (heq ▸ happly)
      exact .inr ⟨hsame.1 hsettled, rs, (goTo_tasks_of_ne hne t).trans happly⟩
  · intro r' htask
    rcases goTo_tasks_eq htask with ⟨rfl, heq⟩ | ⟨-, hold⟩
    · exact hq.abandoned id heq.symm
    · exact (h id).abandoned r' hold
  · intro r' hkey
    rcases goTo_tasks_eq (n := n) (r := r) (t := t) (q := r') rfl with ⟨rfl, heq⟩ | ⟨-, heq⟩
    · exact hq.found id (heq ▸ hkey)
    · exact (h id).found r' (by rwa [← heq] at hkey)
  · intro saved hsaved
    refine ((h id).agrees saved (hdue saved hsaved)).of_same rfl rfl fun r' c htask => ?_
    have hne : r' ≠ r := fun heq => hq.wasIdle id c (heq ▸ htask)
    exact (goTo_tasks_of_ne hne t).trans htask
  · intro r' c saved htask hlast hsaved
    have hold := (goTo_tasks_old htask (hq.idle id c).symm).2
    exact (h id).newest r' c saved hold hlast (hdue saved hsaved)
  · exact (h id).revocation
  · rintro r' (htask | htask)
    · exact (h id).revoking r' (.inl (goTo_tasks_old htask (hq.idle id .revoke).symm).2)
    · exact (h id).revoking r' (.inr (goTo_tasks_old htask (hq.silent id).symm).2)
  · exact (h id).reported
  · exact (h id).recorded

/-! ### Creation -/

/-- Tasks on other keys stay when a request on one key moves on. -/
theorem tasks_other {r : ℕ} {t : Task} {id other : KeyId} (hne : other ≠ id)
    (hold : ∀ i, (n.tasks r).key = some i → i = id) (hnew : ∀ i, t.key = some i → i = id) (r' : ℕ) :
    (n.goTo r t).tasks r' = n.tasks r' ∨
      ((n.goTo r t).tasks r').key ≠ some other ∧ (n.tasks r').key ≠ some other := by
  by_cases hr : r' = r
  · subst hr
    rw [goTo_tasks_self]
    exact .inr ⟨fun h => hne (hnew _ h), fun h => hne (hold _ h)⟩
  · exact .inl (goTo_tasks_of_ne hr t)

theorem restored_snoc_other {id other : KeyId} {f : Frame} (hf : f.key = id) (hne : other ≠ id) :
    (restoreKeys (n.log ++ [f])).keys other = n.restored other ∧
      (restoreKeys (n.log ++ [f])).waiting other = n.waiting other := by
  rw [restoreKeys_snoc]
  exact Replay.step_other (hf ▸ hne.symm)

theorem mem_log_other {id other : KeyId} {f : Frame} (hf : f.key = id) (hne : other ≠ id) :
    .apiKeyRevocation other ∈ n.log ++ [f] ↔ .apiKeyRevocation other ∈ n.log := by
  rw [List.mem_append, List.mem_singleton, or_iff_left]
  intro heq
  rw [← heq] at hf
  exact hne hf

theorem KeySound.unrecorded {id : KeyId} (h : n.KeySound id) (hnone : n.restored id = none) :
    id ∉ n.created := by
  intro hmem
  have hsome := h.recorded hmem
  rw [hnone] at hsome
  cases hsome

/-- **A key is touched by its creation alone**, and the log has its restrictions at most. -/
theorem alone_sound {r : ℕ} {stage : Stage} {k : NewKey} (hself : n.tasks r = .creating stage k)
    (halone : ∀ r', (n.tasks r').touches k.id → r' = r)
    (hkeys : n.keys k.id = some (k.record stage.narrowed)) (hrestored : n.restored k.id = none)
    (hheld : n.waiting k.id = if stage.restricted then k.restrictions else none)
    (hrevocation : .apiKeyRevocation k.id ∉ n.log) (hrevoked : k.id ∉ n.revoked)
    (hcreated : k.id ∉ n.created) : n.KeySound k.id := by
  have honly : ∀ {r' t}, n.tasks r' = t → t.touches k.id → r' = r ∧ t = .creating stage k := by
    rintro r' t rfl htouch
    have heq := halone r' htouch
    exact ⟨heq, by rw [heq, hself]⟩
  constructor
  · exact fun _ _ _ _ _ => ⟨hrestored, hrevocation⟩
  · intro r' stage' k' htask hk hunsettled
    cases (honly htask hk).2
    refine ⟨hkeys, ?_⟩
    rw [hheld, if_neg fun hrestricted => hunsettled (.inl hrestricted)]
  · intro r' stage' k' r'' htask hk htouch
    exact .inl ((halone r'' htouch).trans (honly htask hk).1.symm)
  · exact fun _ _ => hrestored
  · exact fun _ _ => Option.isSome_of_eq_some hkeys
  · rintro saved (hsaved | ⟨r', stage', k', htask, hk, hsettled, hsaved⟩)
    · cases hrestored.symm.trans hsaved
    · cases (honly htask hk).2
      rw [hheld, NewKey.due_of_settled hsettled] at hsaved
      exact ⟨_, hkeys, fun f => .inl (hsaved ▸ sameOn_refl f _)⟩
  · intro r' c saved htask _ _
    cases (honly htask rfl).2
  · exact fun hmem => absurd hmem hrevocation
  · rintro r' (htask | htask)
    · cases (honly htask rfl).2
    · cases (honly htask rfl).2
  · exact fun hmem => absurd hmem hrevoked
  · exact fun hmem => absurd hmem hcreated

/-- **A creation begins**, with an identifier nobody has used. -/
theorem createKey_sound (h : ∀ id, n.KeySound id) {r : ℕ} {k : NewKey} (hr : n.tasks r = .unused)
    (hfree : n.keys k.id = none) (hunnamed : ∀ f ∈ n.log, f.key ≠ k.id) (id : KeyId) :
    (n.createKey r k).KeySound id := by
  have hno : ∀ r', (n.tasks r').key ≠ some k.id := by
    intro r' hkey
    have hsome := (h k.id).found r' hkey
    rw [hfree] at hsome
    cases hsome
  obtain ⟨hrestored, hwaiting⟩ := restoreKeys_unnamed hunnamed
  have hrevocation : Frame.apiKeyRevocation k.id ∉ n.log := fun hmem => hunnamed _ hmem rfl
  have hothers : ∀ {r' t}, (n.createKey r k).tasks r' = t → t.key = some k.id → r' = r := by
    intro r' t htask hkey
    rcases goTo_tasks_eq htask with ⟨heq, -⟩ | ⟨-, hold⟩
    · exact heq
    · have hold' : n.tasks r' = t := hold
      exact absurd (hold' ▸ hkey) (hno r')
  by_cases hid : id = k.id
  · subst hid
    have hself : (n.createKey r k).tasks r = .creating .narrowing k := goTo_tasks_self ..
    exact alone_sound hself (fun r' htouch => hothers rfl (Task.key_of_touches htouch))
      (KeyStore.insert_self ..) hrestored hwaiting hrevocation
      (fun hmem => hrevocation ((h k.id).reported hmem)) ((h k.id).unrecorded hrestored)
  · refine (h id).other (KeyStore.insert_of_ne _ hid _) rfl rfl Iff.rfl rfl ?_ (fun hm => hm)
      (fun hm => hm)
    refine tasks_other (n := n) hid ?_ ?_
    · intro i hi
      rw [hr] at hi
      cases hi
    · intro i hi
      exact (Option.some.inj hi).symm

/-- **A creation with restrictions moves on** to where it has them behind it. -/
theorem KeySound.creation {n' : Node} {r : ℕ} {stage : Stage} {k : NewKey}
    (h : n.KeySound k.id) (stage' : Stage) (hr : n.tasks r = .creating stage k)
    (hunsettled : ¬k.Settled stage)
    (htasks : n'.tasks = (n.goTo r (.creating stage' k)).tasks)
    (hkeys : n'.keys k.id = some (k.record stage'.narrowed)) (hrestored : n'.restored k.id = none)
    (hheld : n'.waiting k.id = if stage'.restricted then k.restrictions else none)
    (hlog : .apiKeyRevocation k.id ∈ n'.log ↔ .apiKeyRevocation k.id ∈ n.log)
    (hcreated : n'.created = n.created) (hrevoked : n'.revoked = n.revoked) : n'.KeySound k.id := by
  obtain ⟨hnone, hrevocation⟩ := h.creating r stage k hr rfl
  refine alone_sound (by rw [htasks, goTo_tasks_self]) ?_ hkeys hrestored hheld
    (fun hmem => hrevocation (hlog.1 hmem)) ?_ ?_
  · intro r' htouch
    rw [htasks] at htouch
    by_contra hne
    rw [goTo_tasks_of_ne hne] at htouch
    rcases h.unshared r stage k r' hr rfl htouch with heq | ⟨hsettled, -⟩
    · exact hne heq
    · exact hunsettled hsettled
  · rw [hrevoked]
    exact fun hmem => hrevocation (h.reported hmem)
  · rw [hcreated]
    exact h.unrecorded hnone

section Creation

variable {r : ℕ} {k : NewKey}

/-- Moving a creation of `k` on leaves the tasks on other keys alone. -/
theorem creating_other {stage : Stage} {t : Task} (hr : n.tasks r = .creating stage k)
    (ht : ∀ i, t.key = some i → i = k.id) {id : KeyId} (hne : id ≠ k.id) (r' : ℕ) :
    (n.goTo r t).tasks r' = n.tasks r' ∨
      ((n.goTo r t).tasks r').key ≠ some id ∧ (n.tasks r').key ≠ some id := by
  refine tasks_other hne ?_ ht r'
  intro i hi
  rw [hr] at hi
  exact (Option.some.inj hi).symm

/-- A creation with restrictions has not got them behind it before they are in the log. -/
theorem not_settled {stage : Stage} {rs : KeyRestriction} (hstage : stage.restricted = false)
    (hrs : k.restrictions = some rs) : ¬k.Settled stage := by
  rintro (hrestricted | hnone)
  · rw [hstage] at hrestricted
    cases hrestricted
  · rw [hrs] at hnone
    cases hnone

/-- **The key is narrowed in memory.** -/
theorem narrowing_sound (h : ∀ id, n.KeySound id) (hr : n.tasks r = .creating .narrowing k)
    {rs : KeyRestriction} (hrs : k.restrictions = some rs) (id : KeyId) :
    ({ n with keys := n.keys.setRestrictions k.id rs }.goTo r (.creating .auditing k)).KeySound id := by
  have hunsettled : ¬k.Settled .narrowing := not_settled rfl hrs
  obtain ⟨hrestored, -⟩ := (h k.id).creating r .narrowing k hr rfl
  obtain ⟨hkeys, hwaiting⟩ := (h k.id).unsettled r .narrowing k hr rfl hunsettled
  by_cases hid : id = k.id
  · subst hid
    refine (h k.id).creation .auditing hr hunsettled rfl ?_ hrestored hwaiting Iff.rfl rfl rfl
    simp [goTo, hrs, hkeys, KeyStore.setRestrictions, NewKey.record, Change.apply, Stage.narrowed]
  · refine (h id).other (KeyStore.change_of_ne _ hid _) rfl rfl Iff.rfl rfl ?_ (fun hm => hm)
      (fun hm => hm)
    exact creating_other (t := .creating .auditing k) hr (fun i hi => (Option.some.inj hi).symm) hid

theorem restricting_sound (h : ∀ id, n.KeySound id) (hr : n.tasks r = .creating .restricting k)
    {rs : KeyRestriction} (hrs : k.restrictions = some rs) (id : KeyId) :
    ({ n with log := n.log ++ [Frame.apiKeyRestriction k.id rs] }.goTo r
      (.creating .recording k)).KeySound id := by
  have hunsettled : ¬k.Settled .restricting := not_settled rfl hrs
  obtain ⟨hrestored, -⟩ := (h k.id).creating r .restricting k hr rfl
  obtain ⟨hkeys, -⟩ := (h k.id).unsettled r .restricting k hr rfl hunsettled
  have hstep : (restoreKeys n.log).step (.apiKeyRestriction k.id rs) =
      { restoreKeys n.log with
        waiting := Function.update (restoreKeys n.log).waiting k.id (some rs) } := by
    have hnone : (restoreKeys n.log).keys k.id = none := hrestored
    simp [Replay.step, hnone]
  by_cases hid : id = k.id
  · subst hid
    refine (h k.id).creation .recording hr hunsettled rfl hkeys ?_ ?_ ?_ rfl rfl
    · show (restoreKeys (n.log ++ [Frame.apiKeyRestriction k.id rs])).keys k.id = none
      rw [restoreKeys_snoc, hstep]
      exact hrestored
    · show (restoreKeys (n.log ++ [Frame.apiKeyRestriction k.id rs])).waiting k.id = _
      rw [restoreKeys_snoc, hstep, hrs]
      simp [Stage.restricted]
    · simp [goTo]
  · obtain ⟨hkept, hwait⟩ := restored_snoc_other (n := n)
      (f := .apiKeyRestriction k.id rs) rfl hid
    exact (h id).other rfl hkept hwait (mem_log_other rfl hid) rfl
      (creating_other (t := .creating .recording k) hr (fun i hi => (Option.some.inj hi).symm) hid)
      (fun hm => hm) (fun hm => hm)

/-- **The key goes on record**, with the restrictions that replay holds for it. -/
theorem recording_sound (h : ∀ id, n.KeySound id) (hr : n.tasks r = .creating .recording k)
    (id : KeyId) : (n.proceedCreate r true k .recording).KeySound id := by
  obtain ⟨hrestored, hrevocation⟩ := (h k.id).creating r .recording k hr rfl
  by_cases hid : id = k.id
  · subst hid
    have hdue : n.Due k.id (k.due (n.waiting k.id)) :=
      .inr ⟨r, .recording, k, hr, rfl, .inl rfl, rfl⟩
    have hsaved : (n.proceedCreate r true k .recording).restored k.id = some (k.due (n.waiting k.id)) := by
      show (restoreKeys (n.log ++ [Frame.apiKey k.id (k.record false)])).keys k.id = _
      rw [restoreKeys_snoc]
      exact KeyStore.insert_self ..
    -- Whoever else has touched the key applies restrictions.
    have hothers : ∀ {r' t}, (n.proceedCreate r true k .recording).tasks r' = t → t.touches k.id →
        n.tasks r' = t ∧ ∃ rs, t = .applying k.id (.restrictions rs) := by
      intro r' t htask htouch
      rcases goTo_tasks_eq htask with ⟨-, heq⟩ | ⟨hne, hold⟩
      · rw [heq] at htouch
        exact htouch.elim
      · have hold' : n.tasks r' = t := hold
        rcases (h k.id).unshared r .recording k r' hr rfl (hold' ▸ htouch) with heq | ⟨-, rs, happly⟩
        · exact absurd heq hne
        · exact ⟨hold', rs, hold'.symm.trans happly⟩
    have hno : ∀ {r' stage k'}, (n.proceedCreate r true k .recording).tasks r' = .creating stage k' →
        k'.id ≠ k.id := by
      intro r' stage k' htask hk
      obtain ⟨-, rs, heq⟩ := hothers htask hk
      cases heq
    have hnot : Frame.apiKeyRevocation k.id ∉ n.log ++ [Frame.apiKey k.id (k.record false)] := by
      simp [hrevocation]
    have hsame : ∀ saved, (n.proceedCreate r true k .recording).Due k.id saved →
        saved = k.due (n.waiting k.id) := by
      intro saved hnow
      exact (Option.some.inj (hsaved.symm.trans (hnow.restored fun _ _ _ htask => hno htask))).symm
    constructor
    · exact fun r' stage k' htask hk => absurd hk (hno htask)
    · exact fun r' stage k' htask hk => absurd hk (hno htask)
    · exact fun r' stage k' r'' htask hk => absurd hk (hno htask)
    · intro r' htask
      obtain ⟨-, rs, heq⟩ := hothers htask rfl
      cases heq
    · intro r' _
      exact (h k.id).found r (by rw [hr]; rfl)
    · intro saved hnow
      rw [hsame saved hnow]
      refine ((h k.id).agrees _ hdue).of_same rfl rfl fun r' c htask => ?_
      have hne : r' ≠ r := by
        rintro rfl
        rw [hr] at htask
        cases htask
      exact (goTo_tasks_of_ne hne _).trans htask
    · intro r' c saved htask hlast hnow
      rw [hsame saved hnow]
      exact (h k.id).newest r' c _ (hothers htask rfl).1 hlast hdue
    · exact fun hmem => absurd hmem hnot
    · rintro r' (htask | htask)
      · obtain ⟨-, rs, heq⟩ := hothers htask rfl
        cases heq
      · obtain ⟨-, rs, heq⟩ := hothers htask rfl
        cases heq
    · exact fun hmem => absurd ((h k.id).reported hmem) hrevocation
    · exact fun _ => Option.isSome_of_eq_some hsaved
  · obtain ⟨hkept, hwait⟩ := restored_snoc_other (n := n)
      (f := .apiKey k.id (k.record false)) rfl hid
    refine (h id).other rfl hkept hwait (mem_log_other rfl hid) rfl
      (creating_other (t := .returned) hr (fun _ hi => by cases hi) hid) ?_ (fun hm => hm)
    intro hmem
    rcases List.mem_cons.1 hmem with heq | hmem
    · exact absurd heq hid
    · exact hmem

/-- **The other operations of a creation** touch no key. -/
theorem creating_quietly (h : ∀ id, n.KeySound id) {stage : Stage}
    (hr : n.tasks r = .creating stage k) (next : Stage)
    (hnext : (stage.narrowed = next.narrowed ∧ stage.restricted = next.restricted) ∨
      k.restrictions = none) :
    n.Quietly r (.creating next k) where
  creating := by
    intro stage' k' heq
    cases heq
    exact ⟨stage, hr, hnext⟩
  touches id htouch := by
    rw [hr]
    exact htouch
  found id hkey := (h id).found r (by rw [hr]; exact hkey)
  abandoned := nofun
  wasIdle id c heq := by
    rw [hr] at heq
    cases heq
  idle := nofun
  silent := nofun

theorem abandoning_quietly (h : ∀ id, n.KeySound id) {stage : Stage}
    (hr : n.tasks r = .creating stage k) : n.Quietly r (.abandoning k.id) where
  creating := nofun
  touches id htouch := by
    rw [hr]
    exact htouch
  found id hkey := (h id).found r (by rw [hr]; exact hkey)
  abandoned := by
    intro id heq
    cases heq
    exact ((h k.id).creating r stage k hr rfl).1
  wasIdle id c heq := by
    rw [hr] at heq
    cases heq
  idle := nofun
  silent := nofun

/-- **Every operation of a creation.** -/
theorem proceedCreate_sound (h : ∀ id, n.KeySound id) {stage : Stage}
    (hr : n.tasks r = .creating stage k) (ok : Bool) (id : KeyId) :
    (n.proceedCreate r ok k stage).KeySound id := by
  have hfails := (abandoning_quietly h hr).sound h id
  cases stage with
  | narrowing =>
    cases hrs : k.restrictions with
    | none => simpa [proceedCreate, hrs] using (creating_quietly h hr .auditing (.inr hrs)).sound h id
    | some rs => simpa [proceedCreate, hrs] using narrowing_sound h hr hrs id
  | auditing =>
    cases ok
    · exact hfails
    · exact (creating_quietly h hr .funding (.inl ⟨rfl, rfl⟩)).sound h id
  | funding =>
    simp only [proceedCreate]
    split
    · exact hfails
    · exact (creating_quietly h hr .restricting (.inl ⟨rfl, rfl⟩)).sound h id
  | restricting =>
    simp only [proceedCreate]
    split
    case h_1 hnone => exact (creating_quietly h hr .recording (.inr hnone)).sound h id
    case h_2 rs hrs =>
      split
      · exact restricting_sound h hr hrs id
      · exact hfails
  | recording =>
    simp only [proceedCreate]
    split
    · exact recording_sound h hr id
    · exact hfails

end Creation

/-! ### Changes -/

section Changes

variable {r : ℕ} {id : KeyId} {c : Change}

/-- A request that was not applying anything goes on to a task that touches no key. -/
theorem quietly_of_untouching {t : Task} (htouches : ∀ i, ¬t.touches i)
    (hfound : ∀ i, t.key = some i → (n.keys i).isSome = true)
    (hidle : ∀ i c, n.tasks r ≠ .applying i c) : n.Quietly r t where
  creating := by
    rintro stage k rfl
    exact absurd rfl (htouches k.id)
  touches i htouch := absurd htouch (htouches i)
  found := hfound
  abandoned := by
    rintro i rfl
    exact absurd rfl (htouches i)
  wasIdle := hidle
  idle := by
    rintro i c rfl
    exact absurd rfl (htouches i)
  silent := by
    rintro i rfl
    exact absurd rfl (htouches i)

theorem returned_sound (h : ∀ i, n.KeySound i) (hidle : ∀ i c, n.tasks r ≠ .applying i c)
    (i : KeyId) : (n.goTo r .returned).KeySound i :=
  (quietly_of_untouching (t := .returned) (fun _ hm => hm) nofun hidle).sound h i

theorem abandoned_sound (h : ∀ i, n.KeySound i) (hr : n.tasks r = .abandoning id) (i : KeyId) :
    ({ n with keys := n.keys.revoke id }.goTo r .returned).KeySound i := by
  by_cases hi : i = id
  · subst hi
    have hrestored := (h i).abandoned r hr
    have hno : ∀ {r' stage k}, ({ n with keys := n.keys.revoke i }.goTo r .returned).tasks r' =
        .creating stage k → k.id ≠ i := by
      intro r' stage k htask hk
      obtain ⟨hne, hold⟩ := goTo_tasks_old htask (by simp)
      rcases (h i).unshared r' stage k r hold hk (by rw [hr]; exact rfl) with heq | ⟨-, rs, happly⟩
      · exact hne heq.symm
      · rw [hr] at happly
        cases happly
    have hnothing : ∀ saved, ¬({ n with keys := n.keys.revoke i }.goTo r .returned).Due i saved := by
      intro saved hdue
      cases hrestored.symm.trans (hdue.restored fun _ _ _ htask => hno htask)
    constructor
    · exact fun r' stage k htask hk => absurd hk (hno htask)
    · exact fun r' stage k htask hk => absurd hk (hno htask)
    · exact fun r' stage k r'' htask hk => absurd hk (hno htask)
    · exact fun _ _ => hrestored
    · intro r' _
      have hsome := (h i).found r (by rw [hr]; rfl)
      simpa [goTo, KeyStore.revoke] using hsome
    · exact fun saved hdue => absurd hdue (hnothing saved)
    · exact fun r' c saved _ _ hdue => absurd hdue (hnothing saved)
    · exact (h i).revocation
    · rintro r' (htask | htask)
      · exact (h i).revoking r' (.inl (goTo_tasks_old htask (by simp)).2)
      · exact (h i).revoking r' (.inr (goTo_tasks_old htask (by simp)).2)
    · exact (h i).reported
    · exact (h i).recorded
  · refine (h i).other (KeyStore.change_of_ne _ hi _) rfl rfl Iff.rfl rfl ?_ (fun hm => hm)
      (fun hm => hm)
    refine tasks_other (t := .returned) hi ?_ fun _ hj => by cases hj
    intro j hj
    rw [hr] at hj
    exact (Option.some.inj hj).symm

theorem appended_restored (saved : KeyRecord) (h : n.restored id = some saved) :
    (n.appended r id c).restored id = some (c.apply saved) := by
  show (restoreKeys (n.log ++ [c.frame id])).keys id = _
  rw [restoreKeys_snoc]
  exact Replay.step_change h c

theorem appended_restored_inv {saved : KeyRecord} (h : (n.appended r id c).restored id = some saved) :
    ∃ before, n.restored id = some before ∧ saved = c.apply before := by
  cases hbefore : n.restored id with
  | none =>
    have hnone : (restoreKeys (n.log ++ [c.frame id])).keys id = none := by
      rw [restoreKeys_snoc]
      exact Replay.step_change_none hbefore c
    cases hnone.symm.trans h
  | some before =>
    refine ⟨before, rfl, ?_⟩
    exact (Option.some.inj ((appended_restored before hbefore).symm.trans h)).symm

theorem mem_appended_log : .apiKeyRevocation id ∈ (n.appended r id c).log ↔
    .apiKeyRevocation id ∈ n.log ∨ c = .revoke := by
  cases c <;> simp [appended, goTo, Change.frame]

/-- A creation goes on beside a change that is appended. -/
theorem appended_creating {r' : ℕ} {stage : Stage} {k : NewKey}
    (h : (n.appended r id c).tasks r' = .creating stage k) : n.tasks r' = .creating stage k :=
  (goTo_tasks_old h (by simp)).2

/-- **What is due after a change is appended** is what was due before, changed: by a replay at once, or by
the restrictions that it holds. -/
theorem appended_due (h : n.KeySound id) (hkept : n.Kept id c) {saved : KeyRecord}
    (hdue : (n.appended r id c).Due id saved) : ∃ before, n.Due id before ∧ saved = c.apply before := by
  rcases hdue with hsaved | ⟨r', stage, k, htask, hk, hsettled, hsaved⟩
  · obtain ⟨before, hbefore, hchanged⟩ := appended_restored_inv hsaved
    exact ⟨before, .inl hbefore, hchanged⟩
  · have hold := appended_creating htask
    obtain ⟨hfield, -⟩ := hkept r' stage k hold hk
    have hnone : n.restored id = none := (h.creating r' stage k hold hk).1
    refine ⟨k.due (n.waiting id), .inr ⟨r', stage, k, hold, hk, hsettled, rfl⟩, ?_⟩
    cases c with
    | revoke => cases hfield
    | expiry at_ => cases hfield
    | restrictions rs =>
      have hwaiting : (n.appended r id (.restrictions rs)).waiting id = some rs := by
        show (restoreKeys (n.log ++ [Frame.apiKeyRestriction id rs])).waiting id = some rs
        rw [restoreKeys_snoc]
        exact Replay.step_restriction_none hnone rs
      rw [hsaved, hwaiting]
      rfl

/-- The change that is appended is the newest of its field, and of no other. -/
theorem appended_newest : (n.appended r id c).newest id c.field = some r := by simp [appended, goTo]

theorem appended_newest_of_ne {f : Field} (hf : f ≠ c.field) :
    (n.appended r id c).newest id f = n.newest id f := by
  simp [appended, goTo, Function.update_of_ne hf]

/-- Memory has yet to take the change up, which is about to be applied. -/
theorem appended_agrees (h : n.KeySound id) (hr : n.tasks r = .writing id c) (hkept : n.Kept id c)
    {saved : KeyRecord} (hdue : (n.appended r id c).Due id saved) :
    (n.appended r id c).Agrees id saved := by
  obtain ⟨before, hbefore, rfl⟩ := appended_due h hkept hdue
  obtain ⟨record, hrecord, hfields⟩ := h.agrees before hbefore
  refine ⟨record, hrecord, fun f => ?_⟩
  by_cases hf : f = c.field
  · subst hf
    exact .inr ⟨r, c, goTo_tasks_self .., rfl, appended_newest⟩
  · rcases hfields f with hsame | ⟨r', c', htask, hfield, hlast⟩
    · exact .inl ((sameOn_apply_right (Ne.symm hf)).2 hsame)
    · have hne : r' ≠ r := by
        rintro rfl
        rw [hr] at htask
        cases htask
      exact .inr ⟨r', c', (goTo_tasks_of_ne hne _).trans htask, hfield,
        (appended_newest_of_ne hf).trans hlast⟩

/-- **A change is appended**, which no creation under way makes a lost one. -/
theorem appended_sound (h : ∀ i, n.KeySound i) (hr : n.tasks r = .writing id c)
    (hkept : n.Kept id c) (i : KeyId) : (n.appended r id c).KeySound i := by
  by_cases hi : i = id
  · subst hi
    have hunrestored : n.restored i = none → (n.appended r i c).restored i = none := by
      intro hnone
      show (restoreKeys (n.log ++ [c.frame i])).keys i = none
      rw [restoreKeys_snoc]
      exact Replay.step_change_none hnone c
    constructor
    · intro r' stage k htask hk
      have hold := appended_creating htask
      obtain ⟨hnone, hrevocation⟩ := (h i).creating r' stage k hold hk
      obtain ⟨hfield, -⟩ := hkept r' stage k hold hk
      refine ⟨hunrestored hnone, fun hmem => ?_⟩
      rcases mem_appended_log.1 hmem with hmem | rfl
      · exact hrevocation hmem
      · cases hfield
    · intro r' stage k htask hk hunsettled
      exact absurd (hkept r' stage k (appended_creating htask) hk).2 hunsettled
    · intro r' stage k r'' htask hk htouch
      have hold := appended_creating htask
      by_cases hself : r'' = r
      · subst hself
        obtain ⟨hfield, hsettled⟩ := hkept r' stage k hold hk
        cases c with
        | revoke => cases hfield
        | expiry at_ => cases hfield
        | restrictions rs => exact .inr ⟨hsettled, rs, goTo_tasks_self ..⟩
      · have hsame : (n.appended r i c).tasks r'' = n.tasks r'' := goTo_tasks_of_ne hself _
        rw [hsame] at htouch
        rcases (h i).unshared r' stage k r'' hold hk htouch with heq | ⟨hsettled, rs, happly⟩
        · exact .inl heq
        · exact .inr ⟨hsettled, rs, hsame.trans happly⟩
    · exact fun r' htask => hunrestored ((h i).abandoned r' (goTo_tasks_old htask (by simp)).2)
    · exact fun _ _ => (h i).found r (by rw [hr]; rfl)
    · exact fun saved hdue => appended_agrees (h i) hr hkept hdue
    · intro r' c' saved htask hlast hsaved
      obtain ⟨before, hbefore, rfl⟩ := appended_due (h i) hkept hsaved
      rcases goTo_tasks_eq htask with ⟨-, heq⟩ | ⟨hne, hold⟩
      · cases heq
        exact Change.apply_apply ..
      · by_cases hf : c'.field = c.field
        · rw [hf, appended_newest] at hlast
          exact absurd (Option.some.inj hlast).symm hne
        · rw [appended_newest_of_ne hf] at hlast
          rw [Change.apply_comm hf, (h i).newest r' c' before hold hlast hbefore]
    · intro hmem saved hsaved
      obtain ⟨before, hbefore, rfl⟩ := appended_restored_inv hsaved
      rcases mem_appended_log.1 hmem with hmem | rfl
      · have hrevoked := (h i).revocation hmem before hbefore
        cases c with
        | revoke => rfl
        | expiry at_ => exact hrevoked
        | restrictions rs => exact hrevoked
      · rfl
    · rintro r' (htask | htask)
      · rcases goTo_tasks_eq htask with ⟨-, heq⟩ | ⟨-, hold⟩
        · cases heq
          exact mem_appended_log.2 (.inr rfl)
        · exact mem_appended_log.2 (.inl ((h i).revoking r' (.inl hold)))
      · have hold := (goTo_tasks_old htask (by simp)).2
        exact mem_appended_log.2 (.inl ((h i).revoking r' (.inr hold)))
    · exact fun hmem => mem_appended_log.2 (.inl ((h i).reported hmem))
    · intro hmem
      obtain ⟨before, hbefore⟩ := Option.isSome_iff_exists.1 ((h i).recorded hmem)
      exact Option.isSome_of_eq_some (appended_restored before hbefore)
  · obtain ⟨hkept, hwait⟩ := restored_snoc_other (n := n) (c.frame_key id) hi
    refine (h i).other rfl hkept hwait (mem_log_other (c.frame_key id) hi)
      (Function.update_of_ne hi ..) ?_ (fun hm => hm) (fun hm => hm)
    refine tasks_other (t := .applying id c) hi ?_ fun j hj => (Option.some.inj hj).symm
    intro j hj
    rw [hr] at hj
    exact (Option.some.inj hj).symm

/-- Memory has the change, or has yet to take up a newer one. -/
theorem applied_agrees (h : n.KeySound id) (hr : n.tasks r = .applying id c)
    (horder : c.field ≠ .revoked → n.newest id c.field = some r ∨
      ∃ r' c', r' ≠ r ∧ n.newest id c.field = some r' ∧ n.tasks r' = .applying id c' ∧
        c'.field = c.field) {saved : KeyRecord} (hdue : n.Due id saved)
    (hrevoke : c = .revoke → n.restored id = some saved) (t : Task) :
    ({ n with keys := n.keys.change id c }.goTo r t).Agrees id saved := by
  obtain ⟨record, hrecord, hfields⟩ := h.agrees saved hdue
  refine ⟨c.apply record, by simp [goTo, hrecord], fun f => ?_⟩
  by_cases hf : c.field = f
  · subst hf
    by_cases hc : c = .revoke
    · -- Revocations are all alike, and there is one on record.
      subst hc
      exact .inl (h.revocation (h.revoking r (.inl hr)) saved (hrevoke rfl)).symm
    · have hfield : c.field ≠ .revoked := by
        cases c with
        | revoke => exact absurd rfl hc
        | expiry at_ => nofun
        | restrictions rs => nofun
      rcases horder hfield with hlast | ⟨r', c', hne, hlast, htask, hsame⟩
      · exact .inl (h.newest r c saved hr hlast hdue ▸ sameOn_apply c record saved)
      · exact .inr ⟨r', c', (goTo_tasks_of_ne hne _).trans htask, hsame, hlast⟩
  · rcases hfields f with hsame | ⟨r', c', htask, hfield, hlast⟩
    · exact .inl ((sameOn_apply_left hf).2 hsame)
    · have hne : r' ≠ r := by
        rintro rfl
        rw [hr] at htask
        cases htask
        exact hf hfield
      exact .inr ⟨r', c', (goTo_tasks_of_ne hne _).trans htask, hfield, hlast⟩

/-- **A change is applied**, with no newer one applied before it. -/
theorem applied_sound (h : ∀ i, n.KeySound i) (hr : n.tasks r = .applying id c)
    (horder : c.field ≠ .revoked → n.newest id c.field = some r ∨
      ∃ r' c', r' ≠ r ∧ n.newest id c.field = some r' ∧ n.tasks r' = .applying id c' ∧
        c'.field = c.field) (i : KeyId) :
    ({ n with keys := n.keys.change id c }.goTo r
      (if c = Change.revoke then .reporting id else .returned)).KeySound i := by
  set t : Task := if c = Change.revoke then .reporting id else .returned with ht
  have htouch : (n.tasks r).touches id := by
    rw [hr]
    exact rfl
  have hcases : t = .reporting id ∧ c = .revoke ∨ t = .returned := by
    rw [ht]
    split
    case isTrue hc => exact .inl ⟨rfl, hc⟩
    case isFalse => exact .inr rfl
  by_cases hi : i = id
  · subst hi
    have hold : ∀ {r' t'}, ({ n with keys := n.keys.change i c }.goTo r t).tasks r' = t' →
        t' ≠ .reporting i → t' ≠ .returned → r' ≠ r ∧ n.tasks r' = t' := by
      intro r' t' htask hreporting hreturned
      refine goTo_tasks_old htask ?_
      rcases hcases with ⟨heq, -⟩ | heq
      · exact heq ▸ hreporting
      · exact heq ▸ hreturned
    -- Beside a creation only restrictions are applied, when it has its own behind it.
    have hbeside : ∀ {r' stage k}, n.tasks r' = .creating stage k → k.id = i →
        k.Settled stage ∧ c ≠ .revoke := by
      intro r' stage k htask hk
      rcases (h i).unshared r' stage k r htask hk htouch with heq | ⟨hsettled, rs, happly⟩
      · rw [← heq, hr] at htask
        cases htask
      · rw [hr] at happly
        cases happly
        exact ⟨hsettled, by simp⟩
    have hdue : ∀ saved, ({ n with keys := n.keys.change i c }.goTo r t).Due i saved → n.Due i saved :=
      fun saved hnow => hnow.of_same rfl rfl fun _ _ _ htask _ => (hold htask (by simp) (by simp)).2
    constructor
    · exact fun r' stage k htask hk => (h i).creating r' stage k (hold htask (by simp) (by simp)).2 hk
    · intro r' stage k htask hk hunsettled
      exact absurd (hbeside (hold htask (by simp) (by simp)).2 hk).1 hunsettled
    · intro r' stage k r'' htask hk htouched
      have hbefore := (hold htask (by simp) (by simp)).2
      have hne : r'' ≠ r := by
        rintro rfl
        rw [goTo_tasks_self] at htouched
        rcases hcases with ⟨-, hc⟩ | heq
        · exact (hbeside hbefore hk).2 hc
        · rw [heq] at htouched
          exact htouched
      rw [goTo_tasks_of_ne hne] at htouched
      rcases (h i).unshared r' stage k r'' hbefore hk htouched with heq | ⟨hsettled, rs, happly⟩
      · exact .inl heq
      · exact .inr ⟨hsettled, rs, (goTo_tasks_of_ne hne _).trans happly⟩
    · exact fun r' htask => (h i).abandoned r' (hold htask (by simp) (by simp)).2
    · intro r' _
      have hsome := (h i).found r (by rw [hr]; rfl)
      simpa [goTo] using hsome
    · intro saved hsaved
      have hbefore := hdue saved hsaved
      refine applied_agrees (h i) hr horder hbefore ?_ t
      exact fun hc => hbefore.restored fun _ _ _ htask hk => (hbeside htask hk).2 hc
    · intro r' c' saved htask hlast hsaved
      exact (h i).newest r' c' saved (hold htask (by simp) (by simp)).2 hlast (hdue saved hsaved)
    · exact (h i).revocation
    · rintro r' (htask | htask)
      · exact (h i).revoking r' (.inl (hold htask (by simp) (by simp)).2)
      · rcases goTo_tasks_eq htask with ⟨-, heq⟩ | ⟨-, hkept⟩
        · rcases hcases with ⟨-, hc⟩ | heq'
          · exact (h i).revoking r (.inl (hc ▸ hr))
          · cases heq.trans heq'
        · exact (h i).revoking r' (.inr hkept)
    · exact (h i).reported
    · exact (h i).recorded
  · refine (h i).other (KeyStore.change_of_ne _ hi _) rfl rfl Iff.rfl rfl ?_ (fun hm => hm)
      (fun hm => hm)
    refine tasks_other (t := t) hi ?_ ?_
    · intro j hj
      rw [hr] at hj
      exact (Option.some.inj hj).symm
    · intro j hj
      rcases hcases with ⟨heq, -⟩ | heq
      · rw [heq] at hj
        exact (Option.some.inj hj).symm
      · rw [heq] at hj
        cases hj

/-- A revocation is reported, which is on record. -/
theorem reported_sound (h : ∀ i, n.KeySound i) (hr : n.tasks r = .reporting id) (i : KeyId) :
    ({ n with revoked := id :: n.revoked }.goTo r .returned).KeySound i := by
  have hreturned := returned_sound (r := r) h (by rw [hr]; nofun) i
  refine ⟨hreturned.creating, hreturned.unsettled, hreturned.unshared, hreturned.abandoned,
    hreturned.found, hreturned.agrees, hreturned.newest, hreturned.revocation, hreturned.revoking, ?_,
    hreturned.recorded⟩
  intro hmem
  rcases List.mem_cons.1 hmem with rfl | hmem
  · exact (h i).revoking r (.inr hr)
  · exact (h i).reported hmem

end Changes

/-! ### One step -/

/-- **With nothing under way** and memory as the log has it, there is only what was reported. -/
theorem idle_sound {i : KeyId} (hidle : ∀ r, (n.tasks r).key = none) (hkeys : n.keys = n.restored)
    (hrevocation : .apiKeyRevocation i ∈ n.log → ∀ saved, n.restored i = some saved → saved.revoked = true)
    (hrevoked : i ∈ n.revoked → .apiKeyRevocation i ∈ n.log)
    (hcreated : i ∈ n.created → (n.restored i).isSome = true) : n.KeySound i := by
  have hno : ∀ {r t}, n.tasks r = t → t.key ≠ some i := by
    intro r t htask hkey
    have hkey' := hidle r
    rw [htask, hkey] at hkey'
    cases hkey'
  constructor
  · exact fun r stage k htask hk => absurd (congrArg some hk) (hno htask)
  · exact fun r stage k htask hk => absurd (congrArg some hk) (hno htask)
  · exact fun r stage k r' htask hk => absurd (congrArg some hk) (hno htask)
  · exact fun r htask => absurd rfl (hno htask)
  · exact fun r hkey => absurd hkey (hno rfl)
  · intro saved hdue
    have hsaved := hdue.restored fun r stage k htask hk => hno htask (congrArg some hk)
    exact ⟨saved, hkeys ▸ hsaved, fun f => .inl (sameOn_refl f saved)⟩
  · exact fun r c saved htask => absurd rfl (hno htask)
  · exact hrevocation
  · rintro r (htask | htask)
    · exact absurd rfl (hno htask)
    · exact absurd rfl (hno htask)
  · exact hrevoked
  · exact hcreated

/-- **A restart** keeps what was reported. -/
theorem restart_sound (h : ∀ i, n.KeySound i) (i : KeyId) : n.restart.KeySound i := by
  refine idle_sound (fun r => ?_) rfl (h i).revocation (h i).reported (h i).recorded
  simp only [restart]
  split <;> rfl

theorem proceed_sound (h : ∀ i, n.KeySound i) {r : ℕ} {ok : Bool}
    (hcareful : n.Careful (.proceed r ok)) (i : KeyId) : (n.proceed r ok).KeySound i := by
  unfold proceed
  cases hr : n.tasks r with
  | unused => exact h i
  | returned => exact h i
  | creating stage k => exact proceedCreate_sound h hr ok i
  | abandoning id => exact abandoned_sound h hr i
  | checked id c =>
    have hidle : ∀ i c, n.tasks r ≠ .applying i c := by
      rw [hr]
      nofun
    cases ok
    · exact returned_sound h hidle i
    · refine (quietly_of_untouching (t := .writing id c) (fun _ hm => hm) ?_ hidle).sound h i
      intro j hj
      exact (h j).found r (by rw [hr]; exact hj)
  | writing id c =>
    simp only
    split
    case isTrue hok => exact appended_sound h hr (hcareful.1 hok id c hr) i
    case isFalse => exact returned_sound h (by rw [hr]; nofun) i
  | applying id c => exact applied_sound h hr (hcareful.2 id c hr) i
  | reporting id =>
    simp only
    split
    · exact reported_sound h hr i
    · exact returned_sound h (by rw [hr]; nofun) i

/-- A request that has found its key goes on to change it, or returns. -/
theorem start_sound (h : ∀ i, n.KeySound i) {r : ℕ} (hr : n.tasks r = .unused) {t : Task}
    (htouches : ∀ i, ¬t.touches i) (hfound : ∀ i, t.key = some i → (n.keys i).isSome = true)
    (i : KeyId) : (n.goTo r t).KeySound i :=
  (quietly_of_untouching htouches hfound (by rw [hr]; nofun)).sound h i

theorem isSome_of_managedKey {tenant : TenantId} {id : KeyId} {record : KeyRecord}
    (h : n.managedKey tenant id = some record) : (n.keys id).isSome = true := by
  obtain ⟨hsome, -⟩ := Option.filter_eq_some_iff.1 h
  exact Option.isSome_of_eq_some hsome

theorem changeKey_sound (h : ∀ i, n.KeySound i) {r : ℕ} (hr : n.tasks r = .unused)
    (tenant : TenantId) (ifMatch : IfMatch) (id : KeyId) (c : Change) (valid : Bool) (i : KeyId) :
    (n.changeKey r tenant ifMatch id c valid).KeySound i := by
  have hrefused := start_sound h hr (t := .returned) (fun _ hm => hm) nofun i
  unfold changeKey
  split
  · exact hrefused
  case h_2 record hrecord =>
    split
    · refine start_sound h hr (t := .checked id c) (fun _ hm => hm) ?_ i
      rintro j ⟨⟩
      exact isSome_of_managedKey hrecord
    · exact hrefused

/-- **One step.** -/
theorem step_sound (n : Node) (e : Event) (h : ∀ i, n.KeySound i) (hcareful : n.Careful e) :
    ∀ i, (n.step e).KeySound i := by
  intro i
  cases e with
  | createKey r k =>
    simp only [step]
    split
    case isTrue hr => exact createKey_sound h hr hcareful.1 hcareful.2 i
    case isFalse => exact h i
  | revokeKey r tenant id =>
    simp only [step]
    split
    case isTrue hr =>
      unfold revokeKey
      split
      case isTrue hsome =>
        obtain ⟨record, hrecord⟩ := Option.isSome_iff_exists.1 hsome
        refine start_sound h hr (t := .writing id .revoke) (fun _ hm => hm) ?_ i
        rintro j ⟨⟩
        exact isSome_of_managedKey hrecord
      case isFalse => exact start_sound h hr (t := .returned) (fun _ hm => hm) nofun i
    case isFalse => exact h i
  | setKeyExpiry r tenant ifMatch id at_ valid =>
    simp only [step]
    split
    case isTrue hr => exact changeKey_sound h hr tenant ifMatch id _ valid i
    case isFalse => exact h i
  | setKeyRestrictions r tenant ifMatch id restrictions valid =>
    simp only [step]
    split
    case isTrue hr => exact changeKey_sound h hr tenant ifMatch id _ valid i
    case isFalse => exact h i
  | proceed r ok => exact proceed_sound h hcareful i
  | restart => exact restart_sound h i

theorem boot_sound (i : KeyId) : boot.KeySound i :=
  idle_sound (fun _ => rfl) rfl (fun hmem => absurd hmem List.not_mem_nil)
    (fun hmem => absurd hmem List.not_mem_nil) fun hmem => absurd hmem List.not_mem_nil

/-! ### Every run -/

/-- **Key state survives a restart.**  In every run in which no identifier is drawn twice, no change is
lost to a creation under way and no change is applied over a newer one: once all requests have
returned, a replay of the log gives every key reported created the revocation, the expiry and the
restrictions it has in memory; and in every state a key reported revoked is revoked in a replay of
the log. -/
theorem keys_survive_restart (es : List Event) (hcareful : StepsMeet step Careful boot es) :
    ((run step boot es).Quiet → ∀ id ∈ (run step boot es).created,
        ∃ record saved, (run step boot es).keys id = some record ∧
          (run step boot es).restored id = some saved ∧ ∀ f, SameOn f record saved) ∧
      ∀ id ∈ (run step boot es).revoked, ∀ saved, (run step boot es).restored id = some saved →
        saved.revoked = true := by
  have hsound : ∀ id, (run step boot es).KeySound id :=
    run_invariant_of_steps step_sound boot_sound es hcareful
  refine ⟨?_, ?_⟩
  · intro hquiet id hid
    obtain ⟨saved, hsaved⟩ := Option.isSome_iff_exists.1 ((hsound id).recorded hid)
    obtain ⟨record, hrecord, hfields⟩ := (hsound id).agrees saved (.inl hsaved)
    refine ⟨record, saved, hrecord, hsaved, fun f => ?_⟩
    rcases hfields f with hsame | ⟨r, c, htask, -⟩
    · exact hsame
    · -- Nothing is about to be applied.
      rcases hquiet r with hr | hr
      · rw [hr] at htask
        cases htask
      · rw [hr] at htask
        cases htask
  · intro id hid saved hsaved
    exact (hsound id).revocation ((hsound id).reported hid) saved hsaved

/-! ### Runs -/

def sampleKey : NewKey := ⟨"k1", "acme", some 5000, none, false⟩

/-- The request runs on, for so many operations, and nothing fails. -/
def proceeds (r : ℕ) (operations : ℕ) : List Event := List.replicate operations (.proceed r true)

/-- A key is created, and revoked when that has returned. -/
def orderly : List Event :=
  [Event.createKey 0 sampleKey] ++ proceeds 0 5 ++ [Event.revokeKey 1 "acme" "k1"] ++ proceeds 1 3

theorem orderly_careful : StepsMeet step Careful boot orderly := by
  simp [orderly, proceeds, List.replicate, StepsMeet, Careful, Kept, boot, step, createKey,
    revokeKey, managedKey, proceed, proceedCreate, appended, goTo, sampleKey, Function.update,
    KeyStore.insert, NewKey.record, Change.field]
  intro r stage k htask
  split_ifs at htask

/-- The key is revoked in memory and after a restart. -/
theorem orderly_revocation_survives :
    StepsMeet step Careful boot orderly ∧ (run step boot orderly).Quiet ∧
      (∀ id ∈ (run step boot orderly).created,
        ∃ record saved, (run step boot orderly).keys id = some record ∧
          (run step boot orderly).restored id = some saved ∧ ∀ f, SameOn f record saved) ∧
      ∀ id ∈ (run step boot orderly).revoked, ∀ saved,
        (run step boot orderly).restored id = some saved → saved.revoked = true := by
  have hquiet : (run step boot orderly).Quiet := by
    intro r
    match r with
    | 0 => exact .inr rfl
    | 1 => exact .inr rfl
    | r + 2 => exact .inl rfl
  have hsurvives := keys_survive_restart orderly orderly_careful
  exact ⟨orderly_careful, hquiet, hsurvives.1 hquiet, hsurvives.2⟩

/-- A key is revoked when it is in memory and its record is about to be appended. -/
def hasty : List Event :=
  [Event.createKey 0 sampleKey] ++ proceeds 0 4 ++ [Event.revokeKey 1 "acme" "k1"] ++ proceeds 1 3 ++
    proceeds 0 1

/-- **A revocation that was reported is undone by a restart.** -/
theorem revoked_while_created :
    ¬∀ es : List Event,
      ((run step boot es).Quiet → ∀ id ∈ (run step boot es).created,
          ∃ record saved, (run step boot es).keys id = some record ∧
            (run step boot es).restored id = some saved ∧ ∀ f, SameOn f record saved) ∧
        ∀ id ∈ (run step boot es).revoked, ∀ saved, (run step boot es).restored id = some saved →
          saved.revoked = true := by
  intro hall
  have hreported : "k1" ∈ (run step boot hasty).revoked := by decide
  have hsaved : (run step boot hasty).restored "k1" =
      some ⟨"acme", some 5000, false, .unrestricted⟩ := by decide
  have hrevoked := (hall hasty).2 "k1" hreported _ hsaved
  cases hrevoked

/-- Two changes of the expiry, applied in the other order than they were appended. -/
def crossed : List Event :=
  [Event.createKey 0 sampleKey] ++ proceeds 0 5 ++
    [Event.setKeyExpiry 1 "acme" .any "k1" (some 7000) true,
      .setKeyExpiry 2 "acme" .any "k1" (some 9000) true] ++
    proceeds 1 2 ++ proceeds 2 3 ++ proceeds 1 1

example : ((run step boot crossed).keys "k1").map KeyRecord.expiresAtMillis = some (some 7000) ∧
    ((run step boot crossed).restored "k1").map KeyRecord.expiresAtMillis = some (some 9000) := by
  decide

end Node

end HypeLlm.Auth
