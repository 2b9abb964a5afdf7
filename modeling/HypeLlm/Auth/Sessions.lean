import HypeLlm.Ids
import HypeLlm.Lib.Runs
import HypeLlm.Lib.Words

/-!
# Management sessions

The store keeps a session under the digest of its token.  Every operation works under the lock of the
store, except a rotation: it copies the session under one lock and puts the copy back, under a new
digest, under another.  Whatever happens to the session in between is lost on the copy.  A rotation
does not look at the lifetimes of the session either, and counts as a use of it.

A session is followed through its rotations by the number of its issue, its *lineage*, and what has
happened to a lineage is kept beside the store as a history.

* **`revocation_is_final`** — in every run in which a rotation finds the session it copied still held,
  with the roles it had and not idle for too long: a token that is accepted belongs to a session that
  was never removed, was used in every interval, is within its lifetime and carries the roles last
  given to it; no two tokens of a session are accepted; and the store keeps to its bound;
* `rotation_revives` — a session invalidated in the midst of a rotation is accepted afterwards.
-/

namespace HypeLlm.Auth

open HypeLlm.Words HypeLlm.Runs

/-- The keyed digest of a token. -/
abbrev Digest := ℕ

inductive Role where
  | viewer
  | operator
  | policyEditor
  | policyApprover
  | credentialManager
  | keyBudgetManager
  | keyManager
  | auditor
  | breakGlassAdmin
  deriving Repr, DecidableEq

structure SessionPolicy where
  idleMillis : ℕ
  absoluteMillis : ℕ
  maxSessions : ℕ
  deriving Repr, DecidableEq

def SessionPolicy.default : SessionPolicy := ⟨30 * 60 * 1000, 12 * 60 * 60 * 1000, 10000⟩

structure Session where
  digest : Digest
  principal : PrincipalId
  roles : List Role
  createdAtMillis : ℕ
  lastSeenMillis : ℕ
  absoluteExpiryMillis : ℕ
  authenticatedAtMillis : ℕ
  rolesVersion : Option ℕ
  /-- The number of its issue. -/
  lineage : ℕ
  deriving Repr, DecidableEq

/-- What has happened to a session since its issue. -/
structure History where
  issuedAt : ℕ
  lifetime : ℕ
  /-- The roles of the last refresh, or of the issue. -/
  roles : List Role
  /-- When it was issued, accepted or rotated. -/
  uses : List ℕ
  /-- It was invalidated, swept, evicted or found expired. -/
  gone : Bool
  deriving Repr, DecidableEq

/-- A rotation that has copied its session and not yet put it back. -/
structure Rotation where
  old : Digest
  session : Session
  now : ℕ
  deriving Repr, DecidableEq

/-- The sessions in the order of their digests, the rotations under way, and the record of what was. -/
structure SessionStore where
  sessions : List Session
  rotations : ℕ → Option Rotation
  histories : ℕ → History
  issued : ℕ
  drawn : List Digest

inductive SessionEvent where
  | issueFor (digest : Digest) (principal : PrincipalId) (roles : List Role)
      (now absoluteMillis : ℕ)
  | validate (digest : Digest) (now : ℕ)
  /-- The first lock of a rotation. -/
  | rotateRead (r : ℕ) (old : Digest) (now : ℕ)
  /-- The second, with the digest of the new token. -/
  | rotateWrite (r : ℕ) (digest : Digest)
  | refreshRoles (digest : Digest) (roles : List Role) (version : ℕ)
  /-- By token or by digest. -/
  | invalidate (digest : Digest)
  | invalidatePrincipal (principal : PrincipalId)
  | sweep (now : ℕ)

/-- Past its absolute or its idle lifetime. -/
def Session.expired (policy : SessionPolicy) (now : ℕ) (s : Session) : Bool :=
  decide (s.absoluteExpiryMillis ≤ now) || decide (policy.idleMillis ≤ now - s.lastSeenMillis)

namespace SessionStore

variable (policy : SessionPolicy) (n : SessionStore)

def init : SessionStore := ⟨[], fun _ => none, fun _ => ⟨0, 0, [], [], false⟩, 0, []⟩

def get (digest : Digest) : Option Session := n.sessions.find? fun s => s.digest = digest

/-- A session put into the map. -/
def insert (s : Session) (sessions : List Session) : List Session :=
  (sessions.filter fun other => other.digest ≠ s.digest).orderedInsert
    (fun a b => a.digest ≤ b.digest) s

def record (lineage : ℕ) (f : History → History) : ℕ → History :=
  Function.update n.histories lineage (f (n.histories lineage))

/-- The sessions marked are removed, and that is the end of them. -/
def dropping (marked : Session → Bool) : SessionStore :=
  { n with
    sessions := n.sessions.filter fun s => !marked s
    histories := fun lineage =>
      if n.sessions.any fun s => marked s && decide (s.lineage = lineage) then
        { n.histories lineage with gone := true }
      else n.histories lineage }

def invalidate (digest : Digest) : SessionStore := n.dropping fun s => s.digest = digest

def invalidatePrincipal (principal : PrincipalId) : SessionStore :=
  n.dropping fun s => s.principal = principal

def sweep (now : ℕ) : SessionStore := n.dropping (Session.expired policy now)

/-- Where the store is full, the session that has been idle longest goes. -/
def makeRoom : SessionStore :=
  if policy.maxSessions ≤ n.sessions.length then
    match n.sessions.argmin Session.lastSeenMillis with
    | some oldest => n.invalidate oldest.digest
    | none => n
  else n

/-- A session put in under a digest just drawn, with its history. -/
def admitting (s : Session) (history : History) : SessionStore :=
  { n with
    sessions := insert s n.sessions
    histories := Function.update n.histories s.lineage history
    drawn := s.digest :: n.drawn }

def issueFor (digest : Digest) (principal : PrincipalId) (roles : List Role)
    (now absoluteMillis : ℕ) : SessionStore :=
  let lifetime := min absoluteMillis policy.absoluteMillis
  let session : Session :=
    ⟨digest, principal, roles, now, now, satAdd u64Max now lifetime, now, none, n.issued⟩
  { (n.makeRoom policy).admitting session ⟨now, lifetime, roles, [now], false⟩ with
    issued := n.issued + 1 }

/-- The session under a digest, changed. -/
def modify (digest : Digest) (f : Session → Session) : List Session :=
  n.sessions.map fun s => if s.digest = digest then f s else s

/-- The session a token is accepted for. -/
def accepts (digest : Digest) (now : ℕ) : Option Session :=
  (n.get digest).filter fun s => !s.expired policy now

def validate (digest : Digest) (now : ℕ) : SessionStore :=
  match n.get digest with
  | none => n
  | some s =>
    if s.expired policy now then n.invalidate digest
    else
      { n with
        sessions := n.modify digest fun s => { s with lastSeenMillis := now }
        histories := n.record s.lineage fun h => { h with uses := h.uses ++ [now] } }

def rotateRead (r : ℕ) (old : Digest) (now : ℕ) : SessionStore :=
  match n.get old with
  | none => n
  | some s => { n with rotations := Function.update n.rotations r (some ⟨old, s, now⟩) }

/-- The copy under a new digest, used just now. -/
def Rotation.renewed (rot : Rotation) (digest : Digest) : Session :=
  { rot.session with
    digest := digest
    lastSeenMillis := rot.now
    authenticatedAtMillis := rot.now }

def rotateWrite (r : ℕ) (digest : Digest) : SessionStore :=
  match n.rotations r with
  | none => n
  | some rot =>
    let h := n.histories rot.session.lineage
    { { n with sessions := n.sessions.filter fun s => s.digest ≠ rot.old }.admitting
        (Rotation.renewed rot digest) { h with uses := h.uses ++ [rot.now] } with
      rotations := Function.update n.rotations r none }

def refreshRoles (digest : Digest) (roles : List Role) (version : ℕ) : SessionStore :=
  match n.get digest with
  | none => n
  | some s =>
    { n with
      sessions := n.modify digest fun s => { s with roles := roles, rolesVersion := some version }
      histories := n.record s.lineage fun h => { h with roles := roles } }

def step : SessionEvent → SessionStore
  | .issueFor digest principal roles now absoluteMillis =>
    n.issueFor policy digest principal roles now absoluteMillis
  | .validate digest now => n.validate policy digest now
  | .rotateRead r old now => if n.rotations r = none then n.rotateRead r old now else n
  | .rotateWrite r digest => n.rotateWrite r digest
  | .refreshRoles digest roles version => n.refreshRoles digest roles version
  | .invalidate digest => n.invalidate digest
  | .invalidatePrincipal principal => n.invalidatePrincipal principal
  | .sweep now => n.sweep policy now

/-- What a run has to keep to.  A token drawn is new; and a rotation, when it puts its copy back, finds
the session still held, with the roles of the copy and used within the idle lifetime. -/
def Careful : SessionEvent → Prop
  | .issueFor digest .. => digest ∉ n.drawn
  | .rotateWrite r digest => digest ∉ n.drawn ∧ ∀ rot, n.rotations r = some rot →
      ∃ s ∈ n.sessions, s.digest = rot.old ∧ s.roles = rot.session.roles ∧
        rot.now - s.lastSeenMillis < policy.idleMillis
  | _ => True

end SessionStore

/-- Up to the time `t` the session was used at least once in every interval of `idle`. -/
def History.Covered (idle t : ℕ) (h : History) : Prop :=
  ∀ x, h.issuedAt ≤ x → x ≤ t → ∃ u ∈ h.uses, u ≤ x ∧ x < u + idle

/-- A use within the idle lifetime carries the coverage on. -/
theorem History.Covered.extend {idle t last : ℕ} {h : History} (hcovered : h.Covered idle last)
    (hlast : last ∈ h.uses) (hidle : t - last < idle) : h.Covered idle t := by
  intro x hfrom hto
  by_cases hx : x ≤ last
  · exact hcovered x hfrom hx
  · exact ⟨last, hlast, by omega, by omega⟩

theorem History.Covered.mono {idle t : ℕ} {h h' : History} (hcovered : h.Covered idle t)
    (hissued : h'.issuedAt = h.issuedAt) (huses : h.uses ⊆ h'.uses) : h'.Covered idle t := by
  intro x hfrom hto
  obtain ⟨u, hu, hle, hlt⟩ := hcovered x (hissued ▸ hfrom) hto
  exact ⟨u, huses hu, hle, hlt⟩

namespace SessionStore

/-! ### The invariant -/

/-- What holds of a session that is held. -/
structure Live (policy : SessionPolicy) (n : SessionStore) (s : Session) : Prop where
  known : s.lineage < n.issued
  drawn : s.digest ∈ n.drawn
  present : (n.histories s.lineage).gone = false
  roles : s.roles = (n.histories s.lineage).roles
  expiry : s.absoluteExpiryMillis ≤
    (n.histories s.lineage).issuedAt + (n.histories s.lineage).lifetime
  covered : 0 < policy.idleMillis →
    (n.histories s.lineage).Covered policy.idleMillis s.lastSeenMillis
  used : s.lastSeenMillis ∈ (n.histories s.lineage).uses

/-- What holds of a copy that a rotation has taken. -/
structure Copied (n : SessionStore) (rot : Rotation) : Prop where
  known : rot.session.lineage < n.issued
  drawn : rot.old ∈ n.drawn
  expiry : rot.session.absoluteExpiryMillis ≤
    (n.histories rot.session.lineage).issuedAt + (n.histories rot.session.lineage).lifetime
  same : ∀ s ∈ n.sessions, s.digest = rot.old → s.lineage = rot.session.lineage

structure Sound (policy : SessionPolicy) (n : SessionStore) : Prop where
  live : ∀ s ∈ n.sessions, Live policy n s
  digests : ∀ s ∈ n.sessions, ∀ s' ∈ n.sessions, s.digest = s'.digest → s = s'
  lineages : ∀ s ∈ n.sessions, ∀ s' ∈ n.sessions, s.lineage = s'.lineage → s = s'
  bounded : n.sessions.length ≤ max policy.maxSessions 1
  rotations : ∀ r rot, n.rotations r = some rot → n.Copied rot

variable {policy : SessionPolicy} {n : SessionStore}

theorem get_eq_some {digest : Digest} {s : Session} (h : n.get digest = some s) :
    s ∈ n.sessions ∧ s.digest = digest := by
  have hdigest := List.find?_some h
  exact ⟨List.mem_of_find?_eq_some h, by simpa using hdigest⟩

/-- A session whose history is not touched stays as it is. -/
theorem Live.kept {n' : SessionStore} {s : Session} (h : Live policy n s)
    (hhistory : n'.histories s.lineage = n.histories s.lineage) (hissued : n.issued ≤ n'.issued)
    (hdrawn : n.drawn ⊆ n'.drawn) : Live policy n' s := by
  constructor
  · exact h.known.trans_le hissued
  · exact hdrawn h.drawn
  · rw [hhistory]
    exact h.present
  · rw [hhistory]
    exact h.roles
  · rw [hhistory]
    exact h.expiry
  · rw [hhistory]
    exact h.covered
  · rw [hhistory]
    exact h.used

/-! ### Removals -/

theorem dropping_history (marked : Session → Bool) (lineage : ℕ) :
    ((n.dropping marked).histories lineage).issuedAt = (n.histories lineage).issuedAt ∧
      ((n.dropping marked).histories lineage).lifetime = (n.histories lineage).lifetime := by
  simp only [dropping]
  split
  · exact ⟨rfl, rfl⟩
  · exact ⟨rfl, rfl⟩

/-- The history of a session that stays is as it was. -/
theorem dropping_history_kept (h : n.Sound policy) {marked : Session → Bool} {s : Session}
    (hs : s ∈ (n.dropping marked).sessions) :
    (n.dropping marked).histories s.lineage = n.histories s.lineage := by
  obtain ⟨hmem, hkept⟩ := List.mem_filter.1 hs
  simp only [dropping]
  rw [if_neg]
  simp only [List.any_eq_true, Bool.and_eq_true, decide_eq_true_eq, not_exists, not_and]
  intro other hother hmarked hlineage
  obtain rfl := h.lineages other hother s hmem hlineage
  rw [hmarked] at hkept
  cases hkept

/-- **A removal** keeps what is left. -/
theorem record_self (lineage : ℕ) (g : History → History) :
    n.record lineage g lineage = g (n.histories lineage) := Function.update_self ..

theorem dropping_sound (h : n.Sound policy) (marked : Session → Bool) :
    (n.dropping marked).Sound policy := by
  have hmem : ∀ {s}, s ∈ (n.dropping marked).sessions → s ∈ n.sessions :=
    fun hs => (List.mem_filter.1 hs).1
  constructor
  · intro s hs
    exact (h.live s (hmem hs)).kept (dropping_history_kept h hs) le_rfl (List.Subset.refl _)
  · exact fun s hs s' hs' => h.digests s (hmem hs) s' (hmem hs')
  · exact fun s hs s' hs' => h.lineages s (hmem hs) s' (hmem hs')
  · exact (List.length_filter_le ..).trans h.bounded
  · intro r rot hrot
    obtain ⟨hknown, hdrawn, hexpiry, hsame⟩ := h.rotations r rot hrot
    refine ⟨hknown, hdrawn, ?_, fun s hs => hsame s (hmem hs)⟩
    rw [(dropping_history marked _).1, (dropping_history marked _).2]
    exact hexpiry

theorem makeRoom_sound (h : n.Sound policy) : (n.makeRoom policy).Sound policy := by
  unfold makeRoom
  split
  · split
    · exact dropping_sound h _
    · exact h
  · exact h

/-- Making room leaves room. -/
theorem makeRoom_length (h : n.Sound policy) :
    (n.makeRoom policy).sessions.length + 1 ≤ max policy.maxSessions 1 := by
  have hbounded := h.bounded
  unfold makeRoom
  split
  case isTrue hfull =>
    split
    case h_1 oldest holdest =>
      have hmem : oldest ∈ n.sessions := List.argmin_mem holdest
      have hshorter : ((n.invalidate oldest.digest).sessions).length < n.sessions.length := by
        refine List.length_filter_lt_length_iff_exists.2 ⟨oldest, hmem, ?_⟩
        simp
      omega
    case h_2 hnone =>
      rw [List.argmin_eq_none.1 hnone]
      simp
  case isFalse hroom => omega

theorem makeRoom_eqs (policy : SessionPolicy) (n : SessionStore) : (n.makeRoom policy).drawn = n.drawn ∧
    (n.makeRoom policy).issued = n.issued ∧ (n.makeRoom policy).rotations = n.rotations := by
  unfold makeRoom
  split
  · split
    · exact ⟨rfl, rfl, rfl⟩
    · exact ⟨rfl, rfl, rfl⟩
  · exact ⟨rfl, rfl, rfl⟩

/-! ### A session put in -/

theorem mem_insert {s other : Session} {sessions : List Session} (h : other ∈ insert s sessions) :
    other = s ∨ other ∈ sessions ∧ other.digest ≠ s.digest := by
  rcases (List.mem_orderedInsert ..).1 h with heq | hmem
  · exact .inl heq
  · refine .inr ⟨(List.mem_filter.1 hmem).1, ?_⟩
    simpa using (List.mem_filter.1 hmem).2

theorem length_insert_le (s : Session) (sessions : List Session) :
    (insert s sessions).length ≤ sessions.length + 1 := by
  rw [insert, List.orderedInsert_length]
  exact Nat.succ_le_succ (List.length_filter_le ..)

/-- **A session of a lineage that is not held** goes in under a digest just drawn. -/
theorem admitting_sound (h : n.Sound policy) (issued : ℕ) {rotations : ℕ → Option Rotation}
    {s : Session} {hist : History} (hissued : n.issued ≤ issued) (hnew : s.digest ∉ n.drawn)
    (hlineage : ∀ other ∈ n.sessions, other.lineage ≠ s.lineage)
    (hroom : n.sessions.length + 1 ≤ max policy.maxSessions 1)
    (hrotations : ∀ r rot, rotations r = some rot → n.rotations r = some rot)
    (hlive : Live policy { n.admitting s hist with issued := issued } s)
    (hhist : s.lineage < n.issued → hist.issuedAt = (n.histories s.lineage).issuedAt ∧
      hist.lifetime = (n.histories s.lineage).lifetime) :
    Sound policy { n.admitting s hist with issued := issued, rotations := rotations } := by
  have hother : ∀ {lineage}, lineage ≠ s.lineage →
      (n.admitting s hist).histories lineage = n.histories lineage :=
    fun hne => Function.update_of_ne hne ..
  constructor
  · intro other hmem
    rcases mem_insert hmem with rfl | ⟨hmem, -⟩
    · exact hlive.kept rfl le_rfl (List.Subset.refl _)
    · exact (h.live other hmem).kept (hother (hlineage other hmem)) hissued
        (List.subset_cons_self ..)
  · intro a ha b hb hdigest
    rcases mem_insert ha with heqa | ⟨hina, hane⟩
    · rcases mem_insert hb with heqb | ⟨-, hbne⟩
      · rw [heqa, heqb]
      · exact absurd (heqa ▸ hdigest).symm hbne
    · rcases mem_insert hb with heqb | ⟨hinb, -⟩
      · exact absurd (heqb ▸ hdigest) hane
      · exact h.digests a hina b hinb hdigest
  · intro a ha b hb hsame
    rcases mem_insert ha with heqa | ⟨hina, -⟩
    · rcases mem_insert hb with heqb | ⟨hinb, -⟩
      · rw [heqa, heqb]
      · exact absurd (heqa ▸ hsame).symm (hlineage b hinb)
    · rcases mem_insert hb with heqb | ⟨hinb, -⟩
      · exact absurd (heqb ▸ hsame) (hlineage a hina)
      · exact h.lineages a hina b hinb hsame
  · exact (length_insert_le ..).trans hroom
  · intro r rot hrot
    obtain ⟨hknown, hdrawn, hexpiry, hsame⟩ := h.rotations r rot (hrotations r rot hrot)
    refine ⟨hknown.trans_le hissued, List.mem_cons_of_mem _ hdrawn, ?_, ?_⟩
    · show _ ≤ ((n.admitting s hist).histories rot.session.lineage).issuedAt +
        ((n.admitting s hist).histories rot.session.lineage).lifetime
      by_cases heq : rot.session.lineage = s.lineage
      · obtain ⟨hi, hl⟩ := hhist (heq ▸ hknown)
        rw [heq] at hexpiry ⊢
        rw [show (n.admitting s hist).histories s.lineage = hist from Function.update_self .., hi, hl]
        exact hexpiry
      · rw [hother heq]
        exact hexpiry
    · intro other hmem hdigest
      rcases mem_insert hmem with rfl | ⟨hmem, -⟩
      · exact absurd (hdigest ▸ hdrawn) hnew
      · exact hsame other hmem hdigest

/-- **A session is issued.** -/
theorem issueFor_sound (h : n.Sound policy) {digest : Digest} (hnew : digest ∉ n.drawn)
    (principal : PrincipalId) (roles : List Role) (now absoluteMillis : ℕ) :
    (n.issueFor policy digest principal roles now absoluteMillis).Sound policy := by
  obtain ⟨hdrawn, hissued, hrotations⟩ := makeRoom_eqs policy n
  have hroom := makeRoom_sound h
  have hlineage : ∀ other ∈ (n.makeRoom policy).sessions, other.lineage ≠ n.issued := by
    intro other hmem heq
    have hknown := (hroom.live other hmem).known
    omega
  refine admitting_sound hroom (n.issued + 1) (by omega) (hdrawn ▸ hnew) hlineage (makeRoom_length h)
    (fun r rot hrot => hrot) ?_ (fun hknown => ?_)
  · have hself : ∀ hist : History, Function.update (n.makeRoom policy).histories n.issued hist
        n.issued = hist := fun hist => Function.update_self ..
    constructor
    · show n.issued < n.issued + 1
      omega
    · exact List.mem_cons_self ..
    · simp only [admitting, hself]
    · simp only [admitting, hself]
    · simp only [admitting, hself, satAdd]
      omega
    · intro hidle x hfrom hto
      simp only [admitting, hself] at hfrom hto ⊢
      exact ⟨now, by simp, hfrom, by omega⟩
    · simp only [admitting, hself, List.mem_singleton]
  · have hknown' : n.issued < (n.makeRoom policy).issued := hknown
    omega

/-! ### A session changed in place -/

theorem mem_modify (h : n.Sound policy) {digest : Digest} {s a : Session} {f : Session → Session}
    (hget : n.get digest = some s) (hmem : a ∈ n.modify digest f) :
    a = f s ∨ a ∈ n.sessions ∧ a.digest ≠ digest := by
  obtain ⟨b, hb, rfl⟩ := List.mem_map.1 hmem
  obtain ⟨hs, hdigest⟩ := get_eq_some hget
  split
  case isTrue heq => exact .inl (by rw [h.digests b hb s hs (heq.trans hdigest.symm)])
  case isFalse hne => exact .inr ⟨hb, hne⟩

/-- **A session that is held is changed**, and its history with it. -/
theorem modify_sound (h : n.Sound policy) {digest : Digest} {s : Session}
    (hget : n.get digest = some s) {f : Session → Session} {g : History → History}
    (hdigest : (f s).digest = digest) (hlineage : (f s).lineage = s.lineage)
    (hg : ∀ hist, (g hist).issuedAt = hist.issuedAt ∧ (g hist).lifetime = hist.lifetime)
    (hlive : Live policy
      { n with sessions := n.modify digest f, histories := n.record s.lineage g } (f s)) :
    Sound policy { n with sessions := n.modify digest f, histories := n.record s.lineage g } := by
  obtain ⟨hs, hsdigest⟩ := get_eq_some hget
  have hother : ∀ {lineage}, lineage ≠ s.lineage → n.record s.lineage g lineage = n.histories lineage :=
    fun hne => Function.update_of_ne hne ..
  have hdiffers : ∀ {a}, a ∈ n.sessions → a.digest ≠ digest → a.lineage ≠ s.lineage := by
    intro a ha hne heq
    rw [h.lineages a ha s hs heq] at hne
    exact hne hsdigest
  constructor
  · intro a ha
    rcases mem_modify h hget ha with rfl | ⟨ha, hne⟩
    · exact hlive
    · exact (h.live a ha).kept (hother (hdiffers ha hne)) le_rfl (List.Subset.refl _)
  · intro a ha b hb heq
    rcases mem_modify h hget ha with heqa | ⟨hina, hane⟩
    · rcases mem_modify h hget hb with heqb | ⟨-, hbne⟩
      · rw [heqa, heqb]
      · exact absurd (heq.symm.trans (heqa ▸ hdigest)) hbne
    · rcases mem_modify h hget hb with heqb | ⟨hinb, -⟩
      · exact absurd (heq.trans (heqb ▸ hdigest)) hane
      · exact h.digests a hina b hinb heq
  · intro a ha b hb heq
    rcases mem_modify h hget ha with heqa | ⟨hina, hane⟩
    · rcases mem_modify h hget hb with heqb | ⟨hinb, hbne⟩
      · rw [heqa, heqb]
      · exact absurd (heq.symm.trans (heqa ▸ hlineage)) (hdiffers hinb hbne)
    · rcases mem_modify h hget hb with heqb | ⟨hinb, -⟩
      · exact absurd (heq.trans (heqb ▸ hlineage)) (hdiffers hina hane)
      · exact h.lineages a hina b hinb heq
  · simpa [modify] using h.bounded
  · intro r rot hrot
    obtain ⟨hknown, hdrawn, hexpiry, hsame⟩ := h.rotations r rot hrot
    refine ⟨hknown, hdrawn, ?_, ?_⟩
    · show _ ≤ (n.record s.lineage g rot.session.lineage).issuedAt +
        (n.record s.lineage g rot.session.lineage).lifetime
      by_cases heq : rot.session.lineage = s.lineage
      · rw [heq] at hexpiry ⊢
        rw [record, Function.update_self, (hg _).1, (hg _).2]
        exact hexpiry
      · rw [hother heq]
        exact hexpiry
    · intro a ha hold
      rcases mem_modify h hget ha with heqa | ⟨ha, -⟩
      · rw [heqa, hlineage]
        exact hsame s hs (hsdigest.trans (hdigest.symm.trans (heqa ▸ hold)))
      · exact hsame a ha hold

/-- **A token is presented.** -/
theorem validate_sound (h : n.Sound policy) (digest : Digest) (now : ℕ) :
    (n.validate policy digest now).Sound policy := by
  unfold validate
  split
  · exact h
  case h_2 s hget =>
    split
    · exact dropping_sound h _
    case isFalse hfresh =>
      obtain ⟨hs, hdigest⟩ := get_eq_some hget
      obtain ⟨hknown, hdrawn, hpresent, hroles, hexpiry, hcovered, hused⟩ := h.live s hs
      have hidle : now - s.lastSeenMillis < policy.idleMillis := by
        simp only [Session.expired, Bool.or_eq_true, decide_eq_true_eq, not_or, not_le] at hfresh
        exact hfresh.2
      refine modify_sound h hget hdigest rfl (fun hist => ⟨rfl, rfl⟩) ?_
      constructor
      · exact hknown
      · exact hdrawn
      · simpa only [record_self] using hpresent
      · simpa only [record_self] using hroles
      · simpa only [record_self] using hexpiry
      · intro hpos
        have hnow := (hcovered hpos).extend hused hidle
        simp only [record_self]
        exact hnow.mono rfl (List.subset_append_left ..)
      · simp only [record_self]
        simp

theorem refreshRoles_sound (h : n.Sound policy) (digest : Digest) (roles : List Role)
    (version : ℕ) : (n.refreshRoles digest roles version).Sound policy := by
  unfold refreshRoles
  split
  · exact h
  case h_2 s hget =>
    obtain ⟨hs, hdigest⟩ := get_eq_some hget
    obtain ⟨hknown, hdrawn, hpresent, hroles, hexpiry, hcovered, hused⟩ := h.live s hs
    refine modify_sound h hget hdigest rfl (fun hist => ⟨rfl, rfl⟩) ?_
    constructor
    · exact hknown
    · exact hdrawn
    · simpa only [record_self] using hpresent
    · simp only [record_self]
    · simpa only [record_self] using hexpiry
    · intro hpos
      simp only [record_self]
      exact (hcovered hpos).mono rfl (List.Subset.refl _)
    · simpa only [record_self] using hused

/-! ### Rotations -/

theorem rotateRead_sound (h : n.Sound policy) (r : ℕ) (old : Digest) (now : ℕ) :
    (n.rotateRead r old now).Sound policy := by
  unfold rotateRead
  split
  · exact h
  case h_2 s hget =>
    obtain ⟨hs, hdigest⟩ := get_eq_some hget
    obtain ⟨hknown, hdrawn, -, -, hexpiry, -, -⟩ := h.live s hs
    refine ⟨?_, h.digests, h.lineages, h.bounded, ?_⟩
    · exact fun a ha => (h.live a ha).kept rfl le_rfl (List.Subset.refl _)
    · intro r' rot hrot
      by_cases hr : r' = r
      · subst hr
        have hcopy : ⟨old, s, now⟩ = rot := by
          simpa [Function.update_self] using hrot
        subst hcopy
        refine ⟨hknown, hdigest ▸ hdrawn, hexpiry, ?_⟩
        intro a ha hold
        rw [h.digests a ha s hs (hold.trans hdigest.symm)]
      · have hrot' : n.rotations r' = some rot := by
          simpa [Function.update_of_ne hr] using hrot
        obtain ⟨hk, hd, he, hsame⟩ := h.rotations r' rot hrot'
        exact ⟨hk, hd, he, hsame⟩

/-- The store without the session that is being rotated. -/
theorem without_sound (h : n.Sound policy) (old : Digest) :
    Sound policy { n with sessions := n.sessions.filter fun s => s.digest ≠ old } := by
  have hmem : ∀ {s}, s ∈ n.sessions.filter (fun s => s.digest ≠ old) → s ∈ n.sessions :=
    fun hs => (List.mem_filter.1 hs).1
  constructor
  · exact fun s hs => (h.live s (hmem hs)).kept rfl le_rfl (List.Subset.refl _)
  · exact fun s hs s' hs' => h.digests s (hmem hs) s' (hmem hs')
  · exact fun s hs s' hs' => h.lineages s (hmem hs) s' (hmem hs')
  · exact (List.length_filter_le ..).trans h.bounded
  · intro r rot hrot
    obtain ⟨hk, hd, he, hsame⟩ := h.rotations r rot hrot
    exact ⟨hk, hd, he, fun s hs => hsame s (hmem hs)⟩

/-- **A rotation puts its copy back**, and the session is as it was copied. -/
theorem rotateWrite_sound (h : n.Sound policy) {r : ℕ} {digest : Digest}
    (hcareful : n.Careful policy (.rotateWrite r digest)) :
    (n.rotateWrite r digest).Sound policy := by
  obtain ⟨hnew, hheld⟩ := hcareful
  unfold rotateWrite
  split
  · exact h
  case h_2 rot hrot =>
    obtain ⟨s, hs, hold, hsroles, hidle⟩ := hheld rot hrot
    obtain ⟨hcknown, hcdrawn, hcexpiry, hsame⟩ := h.rotations r rot hrot
    obtain ⟨hknown, hdrawn, hpresent, hroles, hexpiry, hcovered, hused⟩ := h.live s hs
    have hlineage := hsame s hs hold
    have hshorter : (n.sessions.filter fun s => s.digest ≠ rot.old).length < n.sessions.length := by
      refine List.length_filter_lt_length_iff_exists.2 ⟨s, hs, ?_⟩
      simpa using hold
    have hbounded := h.bounded
    refine admitting_sound (without_sound h rot.old) n.issued le_rfl hnew ?_ (by
      show (n.sessions.filter fun s => s.digest ≠ rot.old).length + 1 ≤ _
      omega) ?_ ?_ (fun _ => ⟨rfl, rfl⟩)
    · intro other hmem heq
      obtain ⟨hmem, hne⟩ := List.mem_filter.1 hmem
      have heq' : other.lineage = s.lineage := heq.trans hlineage.symm
      rw [h.lineages other hmem s hs heq'] at hne
      simp [hold] at hne
    · intro r' rot' hrot'
      by_cases hr : r' = r
      · subst hr
        simp at hrot'
      · simpa [Function.update_of_ne hr] using hrot'
    · have hself : ∀ hist : History,
          Function.update n.histories rot.session.lineage hist rot.session.lineage = hist :=
        fun hist => Function.update_self ..
      rw [hlineage] at hpresent hroles hcovered hused
      constructor
      · exact hcknown
      · exact List.mem_cons_self ..
      · simpa only [admitting, Rotation.renewed, hself] using hpresent
      · simpa only [admitting, Rotation.renewed, hself] using hsroles.symm.trans hroles
      · simpa only [admitting, Rotation.renewed, hself] using hcexpiry
      · intro hpos
        have hnow := (hcovered hpos).extend hused hidle
        simp only [admitting, Rotation.renewed, hself]
        exact hnow.mono rfl (List.subset_append_left ..)
      · simp only [admitting, Rotation.renewed, hself]
        simp

/-! ### Every run -/

/-- **One step.** -/
theorem step_sound (n : SessionStore) (e : SessionEvent) (h : n.Sound policy)
    (hcareful : n.Careful policy e) : (n.step policy e).Sound policy := by
  cases e with
  | issueFor digest principal roles now absoluteMillis => exact issueFor_sound h hcareful ..
  | validate digest now => exact validate_sound h digest now
  | rotateRead r old now =>
    simp only [step]
    split
    · exact rotateRead_sound h r old now
    · exact h
  | rotateWrite r digest => exact rotateWrite_sound h hcareful
  | refreshRoles digest roles version => exact refreshRoles_sound h digest roles version
  | invalidate digest => exact dropping_sound h _
  | invalidatePrincipal principal => exact dropping_sound h _
  | sweep now => exact dropping_sound h _

theorem init_sound : init.Sound policy where
  live _ hs := absurd hs List.not_mem_nil
  digests _ hs := absurd hs List.not_mem_nil
  lineages _ hs := absurd hs List.not_mem_nil
  bounded := Nat.zero_le _
  rotations _ _ hrot := nomatch hrot

/-- The session a token is accepted for was never removed, was used in every interval of the idle
lifetime up to now, is within its own lifetime, and carries the roles last given to it. -/
structure InGoodStanding (policy : SessionPolicy) (n : SessionStore) (now : ℕ) (s : Session) : Prop
    where
  present : (n.histories s.lineage).gone = false
  active : (n.histories s.lineage).Covered policy.idleMillis now
  lifetime : now < (n.histories s.lineage).issuedAt + (n.histories s.lineage).lifetime
  roles : s.roles = (n.histories s.lineage).roles

/-- **Revocation is final.**  In every run in which tokens do not collide and every rotation finds the
session it copied held, with the roles it had and used within the idle lifetime: the session of every
token that is accepted is in good standing, at most one token of a session is accepted, and the number
of sessions is within its bound. -/
theorem revocation_is_final (policy : SessionPolicy) (es : List SessionEvent)
    (hcareful : StepsMeet (step policy) (Careful policy) init es) :
    (∀ digest now s, (run (step policy) init es).accepts policy digest now = some s →
        (run (step policy) init es).InGoodStanding policy now s) ∧
      (∀ digest digest' now now' s s',
        (run (step policy) init es).accepts policy digest now = some s →
        (run (step policy) init es).accepts policy digest' now' = some s' →
          s.lineage = s'.lineage → digest = digest') ∧
      (run (step policy) init es).sessions.length ≤ max policy.maxSessions 1 := by
  have hsound : (run (step policy) init es).Sound policy :=
    run_invariant_of_steps step_sound init_sound es hcareful
  have haccepted : ∀ {digest now s}, (run (step policy) init es).accepts policy digest now = some s →
      s ∈ (run (step policy) init es).sessions ∧ s.digest = digest ∧ s.expired policy now = false := by
    intro digest now s haccepts
    obtain ⟨hget, hfresh⟩ := Option.filter_eq_some_iff.1 haccepts
    obtain ⟨hmem, hdigest⟩ := get_eq_some hget
    exact ⟨hmem, hdigest, by simpa using hfresh⟩
  refine ⟨?_, ?_, hsound.bounded⟩
  · intro digest now s haccepts
    obtain ⟨hmem, -, hfresh⟩ := haccepted haccepts
    have hlive := hsound.live s hmem
    simp only [Session.expired, Bool.or_eq_false_iff, decide_eq_false_iff_not, not_le] at hfresh
    refine ⟨hlive.present, ?_, hfresh.1.trans_le hlive.expiry, hlive.roles⟩
    exact (hlive.covered (by omega)).extend hlive.used hfresh.2
  · intro digest digest' now now' s s' haccepts haccepts' hlineage
    obtain ⟨hmem, hdigest, -⟩ := haccepted haccepts
    obtain ⟨hmem', hdigest', -⟩ := haccepted haccepts'
    rw [← hdigest, ← hdigest', hsound.lineages s hmem s' hmem' hlineage]

/-! ### Runs -/

/-- A session issued, used and rotated. -/
def rotated : List SessionEvent :=
  [.issueFor 7 "alice" [.operator] 0 1000000, .validate 7 5000, .rotateRead 0 7 6000, .rotateWrite 0 9]

/-- The new token is accepted, for a session in good standing. -/
theorem rotated_in_good_standing :
    StepsMeet (step .default) (Careful .default) init rotated ∧
      (run (step .default) init rotated).accepts .default 9 7000 =
        some ⟨9, "alice", [.operator], 0, 6000, 1000000, 6000, none, 0⟩ ∧
      (run (step .default) init rotated).InGoodStanding .default 7000
        ⟨9, "alice", [.operator], 0, 6000, 1000000, 6000, none, 0⟩ := by
  have hcareful : StepsMeet (step .default) (Careful .default) init rotated := by
    refine ⟨List.not_mem_nil, trivial, trivial, ⟨by decide, ?_⟩, trivial⟩
    intro rot hrot
    refine ⟨⟨7, "alice", [.operator], 0, 5000, 1000000, 0, none, 0⟩, by decide, ?_⟩
    cases hrot
    decide
  have haccepts : (run (step .default) init rotated).accepts .default 9 7000 =
      some ⟨9, "alice", [.operator], 0, 6000, 1000000, 6000, none, 0⟩ := by decide
  exact ⟨hcareful, haccepts, (revocation_is_final .default rotated hcareful).1 _ _ _ haccepts⟩

/-- A session invalidated when a rotation has copied it. -/
def revived : List SessionEvent :=
  [.issueFor 7 "alice" [.operator] 0 1000000, .rotateRead 0 7 6000, .invalidate 7, .rotateWrite 0 9]

/-- **A rotation revives a session that was invalidated.** -/
theorem rotation_revives :
    ¬∀ (policy : SessionPolicy) (es : List SessionEvent),
      (∀ digest now s, (run (step policy) init es).accepts policy digest now = some s →
          (run (step policy) init es).InGoodStanding policy now s) ∧
        (∀ digest digest' now now' s s',
          (run (step policy) init es).accepts policy digest now = some s →
          (run (step policy) init es).accepts policy digest' now' = some s' →
            s.lineage = s'.lineage → digest = digest') ∧
        (run (step policy) init es).sessions.length ≤ max policy.maxSessions 1 := by
  intro hall
  have haccepts : (run (step .default) init revived).accepts .default 9 7000 =
      some ⟨9, "alice", [.operator], 0, 6000, 1000000, 6000, none, 0⟩ := by decide
  have hgone : ((run (step .default) init revived).histories 0).gone = true := by decide
  have hstanding := (hall .default revived).1 _ _ _ haccepts
  rw [hstanding.present] at hgone
  cases hgone

end SessionStore

end HypeLlm.Auth
