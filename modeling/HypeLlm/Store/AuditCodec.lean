import HypeLlm.Store.AuditEvents
import HypeLlm.Store.AuditRecovery

/-!
# Audit records through the log

A record that is written is read back with its link, so the chain is found unbroken when the store is
opened, as long as the times of its events are signed numbers of 64 bits.  A record with a later time
is written and chained like any other and is not read back; opening reports a break there.

* `Alike` — events that are written alike take a store to the same state;
* `wrote_unbroken_iff` — the chain of written records is unbroken exactly without late times;
* `fromPayload_toPayload` — checkpoints are read back;
* **`records_read_back`** — all of it.
-/

namespace HypeLlm.Store

open HypeLlm.Bytes HypeLlm.Json HypeLlm.Runs HypeLlm.Words List

/-! ### Events that are written alike -/

section

variable {E : Type} {hs : Hashes} {codec : EventCodec E} {f : E → E}

/-- A change of events that does not show in what is written of them. -/
structure Alike (codec : EventCodec E) (f : E → E) : Prop where
  bytes : ∀ e, codec.toCanonicalBytes (f e) = codec.toCanonicalBytes e
  time : ∀ e, codec.timestampMillis (f e) = codec.timestampMillis e

def StoreOp.map (f : E → E) : StoreOp E → StoreOp E
  | .appendAudit event io checkpointIo => .appendAudit (f event) io checkpointIo
  | o => o

def StoreEvent.map (f : E → E) : StoreEvent E → StoreEvent E
  | .op o => .op (o.map f)
  | .die during => .die (during.map (StoreOp.map f))
  | .open_ checkpointInterval io => .open_ checkpointInterval io

theorem Alike.link (h : Alike codec f) (previous : Link) (e : E) :
    (AuditRecord.mk previous (f e)).link hs codec = (AuditRecord.mk previous e).link hs codec := by
  rw [AuditRecord.link, AuditRecord.link, h.bytes]

theorem Alike.appendAudit (h : Alike codec f) (s : Store) (e : E) (io checkpointIo : AppendIo) :
    s.appendAudit hs codec (f e) io checkpointIo = s.appendAudit hs codec e io checkpointIo := by
  rw [Store.appendAudit, Store.appendAudit, AuditChain.append, AuditChain.append]
  cases checkedAdd u64Max s.audit.count 1 with
  | none => rfl
  | some count =>
    simp only [Option.map_some, AuditRecord.toPayload, h.link, h.bytes, h.time]

theorem Alike.apply (h : Alike codec f) (s : Store) (o : StoreOp E) :
    s.apply hs codec (o.map f) = s.apply hs codec o := by
  cases o with
  | append kind payload io => rfl
  | appendAudit event io checkpointIo => exact congrArg Outcome.node (h.appendAudit s event io checkpointIo)
  | checkpointAudit timestampMillis io => rfl
  | compact payload io => rfl

/-- **Events that are written alike take a store to the same state.** -/
theorem Alike.step (h : Alike codec f) (split : ℕ → ℕ) (macKey : List UInt8) (node : Node)
    (event : StoreEvent E) :
    node.step hs codec split macKey (event.map f) = node.step hs codec split macKey event := by
  cases node with
  | up s =>
    cases event with
    | op o => exact h.apply s o
    | die during =>
      cases during with
      | none => rfl
      | some o => exact congrArg (fun node => Node.down node.dir) (h.apply s o)
    | open_ checkpointInterval io => rfl
  | down dir =>
    cases event with
    | op o => rfl
    | die during => rfl
    | open_ checkpointInterval io => rfl

/-! ### The chain of what was written -/

/-- The frames of a log to which the events were appended, one after the other on the chain, with
frames of other kinds between them. -/
inductive Wrote (hs : Hashes) (codec : EventCodec E) : AuditChain → List E → List Frame → Prop
  | nil {chain : AuditChain} : Wrote hs codec chain [] []
  | other {chain : AuditChain} {events : List E} {frame : Frame} {frames : List Frame}
      (hkind : frame.kind ≠ .auditEvent) (h : Wrote hs codec chain events frames) :
      Wrote hs codec chain events (frame :: frames)
  | audit {chain next : AuditChain} {event : E} {events : List E} {record : AuditRecord E}
      {frame : Frame} {frames : List Frame}
      (happend : chain.append hs codec event = some (record, next))
      (hkind : frame.kind = .auditEvent) (hpayload : frame.payload = record.toPayload codec)
      (h : Wrote hs codec next events frames) : Wrote hs codec chain (event :: events) (frame :: frames)

theorem fromPayload_eq (codec : EventCodec E) (previous : Link) (e : E) :
    AuditRecord.fromPayload codec (AuditRecord.toPayload codec ⟨previous, e⟩) =
      (codec.parse (codec.toCanonicalBytes e)).map fun e' => ⟨previous, e'⟩ := by
  have hlen := previous.length_bytes
  have hlong : 32 ≤ (AuditRecord.toPayload codec ⟨previous, e⟩).length := by
    rw [AuditRecord.toPayload, length_append, hlen]
    exact Nat.le_add_right 32 _
  have htake : (AuditRecord.toPayload codec ⟨previous, e⟩).take 32 = previous.bytes := by
    rw [AuditRecord.toPayload, ← hlen, take_left]
  have hdrop : (AuditRecord.toPayload codec ⟨previous, e⟩).drop 32 = codec.toCanonicalBytes e := by
    rw [AuditRecord.toPayload, ← hlen, drop_left]
  rw [AuditRecord.fromPayload, dif_pos hlong]
  simp only [htake, hdrop]

/-- **The chain is unbroken exactly when every event is read back as one that is written alike.** -/
theorem wrote_unbroken_iff {chain : AuditChain} {events : List E} {frames : List Frame}
    (h : Wrote hs codec chain events frames) (halike : Alike codec f) (readable : E → Prop)
    (hread : ∀ e ∈ events, (readable e ∧ codec.parse (codec.toCanonicalBytes e) = some (f e)) ∨
      (¬ readable e ∧ codec.parse (codec.toCanonicalBytes e) = none)) :
    (Store.rechain hs codec (chain, none) frames).2 = none ↔ ∀ e ∈ events, readable e := by
  induction h with
  | nil => exact iff_of_true rfl (forall_mem_nil _)
  | other hkind h ih =>
    rw [rechain_other hkind]
    exact ih hread
  | @audit chain next event events record frame frames happend hkind hpayload h ih =>
    obtain ⟨rfl, rfl⟩ := AuditChain.append_eq_some happend
    have hfrom := fromPayload_eq codec chain.head event
    rw [← hpayload] at hfrom
    rw [forall_mem_cons]
    obtain ⟨hreadable, hparse⟩ | ⟨hnot, hparse⟩ := hread event mem_cons_self
    · rw [hparse, Option.map_some] at hfrom
      have hcount : satAdd u64Max chain.count 1 = chain.count + 1 := by
        obtain ⟨count, hadd, hsame⟩ := Option.map_eq_some_iff.1 happend
        obtain ⟨hcount, hmax⟩ := checkedAdd_eq_some.1 hadd
        exact satAdd_eq (hcount ▸ hmax)
      have hlink : (AuditRecord.mk chain.head (f event)).link hs codec =
          (AuditRecord.mk chain.head event).link hs codec := halike.link chain.head event
      rw [rechain_record hkind hfrom, if_neg (not_not.2 rfl), hcount, hlink]
      refine (ih fun e he => hread e (mem_cons_of_mem event he)).trans ?_
      exact ⟨fun hrest => ⟨hreadable, hrest⟩, And.right⟩
    · rw [hparse, Option.map_none] at hfrom
      rw [rechain_unreadable hkind hfrom, Option.none_or, rechain_broken]
      exact iff_of_false (Option.some_ne_none _) fun hall => hnot hall.1

end

/-! ### Checkpoints -/

/-- The first `n` bytes and what is behind them. -/
def splitFirstChunk (n : ℕ) (bytes : List UInt8) : Option (List UInt8 × List UInt8) :=
  if n ≤ bytes.length then some (bytes.take n, bytes.drop n) else none

theorem length_take_link {bytes : List UInt8} (h : 32 ≤ bytes.length) : (bytes.take 32).length = 32 := by
  rw [length_take, min_eq_left h]

/-- The link at the beginning and what is behind it. -/
def splitLink (bytes : List UInt8) : Option (Link × List UInt8) :=
  if h : 32 ≤ bytes.length then some (⟨bytes.take 32, length_take_link h⟩, bytes.drop 32)
  else none

theorem splitFirstChunk_append {n : ℕ} {chunk : List UInt8} (h : chunk.length = n) (rest : List UInt8) :
    splitFirstChunk n (chunk ++ rest) = some (chunk, rest) := by
  rw [splitFirstChunk, if_pos (by rw [length_append]; omega), take_left' h, drop_left' h]

theorem splitLink_append (link : Link) (rest : List UInt8) :
    splitLink (link.bytes ++ rest) = some (link, rest) := by
  have hlen := link.length_bytes
  rw [splitLink, dif_pos (by rw [length_append]; omega)]
  simp only [take_left' hlen, drop_left' hlen]

namespace AuditCheckpoint

/-- Read a stored payload: four fields of fixed size and nothing after them. -/
def fromPayload (payload : List UInt8) : Option AuditCheckpoint := do
  let (sequence, rest) ← splitFirstChunk 8 payload
  let (link, rest) ← splitLink rest
  let (timestamp, rest) ← splitFirstChunk 8 rest
  let (mac, rest) ← splitFirstChunk 32 rest
  if rest ≠ [] then none
  else some ⟨UInt64.ofNat (ofLe sequence), link, UInt64.ofNat (ofLe timestamp), mac⟩

theorem ofLe_toLe_toNat (n : UInt64) : UInt64.ofNat (ofLe (toLe 8 n.toNat)) = n := by
  rw [ofLe_toLe_of_lt n.toNat_lt, UInt64.ofNat_toNat]

/-- **A checkpoint is read back.** -/
theorem fromPayload_toPayload {c : AuditCheckpoint} (h : c.mac.length = 32) :
    fromPayload c.toPayload = some c := by
  have hbytes : c.toPayload = toLe 8 c.sequence.toNat ++ (c.link.bytes ++
      (toLe 8 c.timestampMillis.toNat ++ (c.mac ++ []))) := by
    rw [toPayload, append_nil, append_assoc, append_assoc]
  rw [fromPayload, hbytes, splitFirstChunk_append (length_toLe 8 _)]
  simp only [Option.bind_eq_bind, Option.bind_some, splitLink_append]
  rw [splitFirstChunk_append (length_toLe 8 _)]
  simp only [Option.bind_some]
  rw [splitFirstChunk_append h]
  simp only [Option.bind_some, ofLe_toLe_toNat]
  rfl

theorem fromPayload_create (d : Digests) (sequence : UInt64) (link : Link) (timestampMillis : UInt64)
    (key : List UInt8) :
    fromPayload (create d sequence link timestampMillis key).toPayload =
      some (create d sequence link timestampMillis key) :=
  fromPayload_toPayload (d.hmacSha256_length _ _)

end AuditCheckpoint

/-! ### Events of the router -/

variable {F : Type} {floats : FloatText F} {toFloat : UInt64 → F}

/-- What an event keeps: a time that is a signed number of 64 bits, and a reason that was not cut. -/
def AuditEvent.Kept (e : AuditEvent) : Prop :=
  e.timestampMillis.toNat < 2 ^ 63 ∧ ∀ c, e.reason = some c → c.truncated = false

theorem AuditEvent.reread_eq_iff (e : AuditEvent) :
    e.reread = e ↔ ∀ c, e.reason = some c → c.truncated = false := by
  obtain ⟨timestampMillis, actor, tenant, action, object, outcome, reason, requestId, source⟩ := e
  simp only [reread, mk.injEq, true_and, and_true]
  cases reason with
  | none =>
    refine iff_of_true rfl ?_
    intro c hc
    cases hc
  | some c =>
    obtain ⟨text, truncated⟩ := c
    constructor
    · intro h c hc
      rw [← Option.some.inj hc]
      exact ((Capped.mk.injEq _ _ _ _).mp (Option.some.inj h)).2.symm
    · intro h
      have hcut : truncated = false := h _ rfl
      rw [hcut]
      rfl

theorem alike_reread : Alike (auditEventCodec floats toFloat) AuditEvent.reread := by
  refine ⟨?_, fun _ => rfl⟩
  intro e
  show Utf8.encode (toCanonicalString floats (.object (e.reread.entries toFloat))) = _
  have hentries : e.reread.entries toFloat = e.entries toFloat := by
    rw [AuditEvent.entries, AuditEvent.entries, AuditEvent.reread]
    cases e.reason <;> rfl
  rw [hentries]
  rfl

theorem AuditEvent.readsBack_reread {e : AuditEvent} (h : e.Built)
    (hfloat : ∀ v, floats.Exact (toFloat v)) (htime : e.timestampMillis.toNat < 2 ^ 63) :
    (auditEventCodec floats toFloat).ReadsBack e.reread := by
  rw [EventCodec.ReadsBack, alike_reread.bytes, parse_canonical h.sized hfloat, if_pos htime]

/-- An operation of a router on its store: records of other kinds, and events with proper times. -/
def StoreOp.Timely : StoreOp AuditEvent → Prop
  | .append kind _ _ => kind.Canonical ∧ kind ≠ .auditEvent
  | .appendAudit event _ _ => event.Built ∧ event.timestampMillis.toNat < 2 ^ 63
  | .checkpointAudit _ _ => True
  | .compact payload _ => metaLen + payload.length ≤ maxStateFileBytes

/-- No compaction goes on after a reset that failed half-way. -/
def Node.Timely : Node → StoreEvent AuditEvent → Prop
  | .up s, .op o => o.Timely ∧ s.CleanReset o
  | .up _, .die (some o) => o.Timely
  | _, _ => True

theorem StoreOp.Timely.proper {o : StoreOp AuditEvent} (h : o.Timely)
    (hfloat : ∀ v, floats.Exact (toFloat v)) :
    (o.map AuditEvent.reread).Proper (auditEventCodec floats toFloat) := by
  cases o with
  | append kind payload io => exact h
  | appendAudit event io checkpointIo => exact AuditEvent.readsBack_reread h.1 hfloat h.2
  | checkpointAudit timestampMillis io => trivial
  | compact payload io => exact h

theorem Node.Timely.proper {node : Node} {event : StoreEvent AuditEvent} (h : node.Timely event)
    (hfloat : ∀ v, floats.Exact (toFloat v)) :
    node.Proper (auditEventCodec floats toFloat) (event.map AuditEvent.reread) := by
  cases node with
  | up s =>
    cases event with
    | op o =>
      refine ⟨h.1.proper hfloat, ?_⟩
      cases o <;> exact h.2
    | die during =>
      cases during with
      | none => trivial
      | some o => exact StoreOp.Timely.proper h hfloat
    | open_ checkpointInterval io => trivial
  | down dir => cases event <;> trivial

/-- **Opening finds the chain of a run unbroken.** -/
theorem reopened_unbroken (hs : Hashes) (split : ℕ → ℕ) (macKey : List UInt8)
    (hfloat : ∀ v, floats.Exact (toFloat v)) {events : List (StoreEvent AuditEvent)}
    (htimely : StepsMeet (Node.step hs (auditEventCodec floats toFloat) split macKey) Node.Timely
      Node.init events)
    {checkpointInterval : ℕ} {io : CutIo} {s : Store} {recovery : Recovery}
    (hopen : Store.open_ hs (auditEventCodec floats toFloat) split macKey checkpointInterval
      (run (Node.step hs (auditEventCodec floats toFloat) split macKey) Node.init events).dir io =
        .ok (s, recovery)) :
    recovery.auditChainBrokenAt = none := by
  have hsound : (run (Node.step hs (auditEventCodec floats toFloat) split macKey) Node.init events).Sound
      hs (auditEventCodec floats toFloat) macKey := by
    refine run_invariant_of_steps ?_ sound_init events htimely
    intro node event hnode hevent
    rw [← alike_reread.step split macKey node event]
    exact sound_step split node _ hnode (hevent.proper hfloat)
  obtain ⟨snapshot, hdir⟩ := hsound.dir
  rcases open_cases hdir split checkpointInterval io with
    ⟨s', recovery', hok, hrecovers⟩ | ⟨e, dir', herror, -⟩
  · rw [hok] at hopen
    obtain ⟨-, rfl⟩ := Prod.mk.inj (Except.ok.inj hopen)
    exact hrecovers.unbroken
  · rw [herror] at hopen
    cases hopen

/-- What is read back of the record of an event. -/
theorem fromPayload_event {e : AuditEvent} (h : e.Built) (hfloat : ∀ v, floats.Exact (toFloat v))
    (previous : Link) :
    AuditRecord.fromPayload (auditEventCodec floats toFloat)
        (AuditRecord.toPayload (auditEventCodec floats toFloat) ⟨previous, e⟩) =
      if e.timestampMillis.toNat < 2 ^ 63 then some ⟨previous, e.reread⟩ else none := by
  rw [fromPayload_eq, AuditEvent.parse_canonical h.sized hfloat]
  split <;> rfl

/-- **Audit records are read back.**  Exactly a record whose event keeps all of itself is read back as
it was.  A record with a proper time is read back up to whether its reason was cut, and with its link;
so the chain of what was written is unbroken exactly when all times are proper, and opening a store
after any run finds it so.  Checkpoints are read back. -/
theorem records_read_back (floats : FloatText F) (toFloat : UInt64 → F)
    (hfloat : ∀ v, floats.Exact (toFloat v)) (hs : Hashes) :
    let codec := auditEventCodec floats toFloat
    (∀ e : AuditEvent, e.Built → ∀ previous : Link,
      (AuditRecord.fromPayload codec (AuditRecord.toPayload codec ⟨previous, e⟩) = some ⟨previous, e⟩ ↔
        e.Kept) ∧
      (e.timestampMillis.toNat < 2 ^ 63 → ∃ record : AuditRecord AuditEvent,
        AuditRecord.fromPayload codec (AuditRecord.toPayload codec ⟨previous, e⟩) = some record ∧
          record = ⟨previous, e.reread⟩ ∧
          record.link hs codec = (AuditRecord.mk previous e).link hs codec)) ∧
    (∀ chain events frames, Wrote hs codec chain events frames → (∀ e ∈ events, e.Built) →
      ((Store.rechain hs codec (chain, none) frames).2 = none ↔
        ∀ e ∈ events, e.timestampMillis.toNat < 2 ^ 63)) ∧
    (∀ split macKey events checkpointInterval io s recovery,
      StepsMeet (Node.step hs codec split macKey) Node.Timely Node.init events →
      Store.open_ hs codec split macKey checkpointInterval
        (run (Node.step hs codec split macKey) Node.init events).dir io = .ok (s, recovery) →
      recovery.auditChainBrokenAt = none) ∧
    ∀ (sequence : UInt64) (head : Link) (timestampMillis : UInt64) (key : List UInt8),
      AuditCheckpoint.fromPayload
          (AuditCheckpoint.create hs.toDigests sequence head timestampMillis key).toPayload =
        some (AuditCheckpoint.create hs.toDigests sequence head timestampMillis key) := by
  intro codec
  refine ⟨?_, ?_, ?_, ?_⟩
  · intro e hbuilt previous
    have hfrom := fromPayload_event hbuilt hfloat previous
    refine ⟨?_, ?_⟩
    · rw [show AuditRecord.fromPayload codec _ = _ from hfrom, AuditEvent.Kept]
      split
      · rename_i htime
        rw [Option.some_inj, AuditRecord.mk.injEq, e.reread_eq_iff]
        exact ⟨fun h => ⟨htime, h.2⟩, fun h => ⟨rfl, h.2⟩⟩
      · rename_i htime
        exact iff_of_false (Option.some_ne_none _).symm fun h => htime h.1
    · intro htime
      rw [if_pos htime] at hfrom
      exact ⟨_, hfrom, rfl, alike_reread.link previous e⟩
  · intro chain events frames hwrote hbuilt
    refine wrote_unbroken_iff hwrote alike_reread (fun e => e.timestampMillis.toNat < 2 ^ 63) ?_
    intro e he
    have hparse := AuditEvent.parse_canonical (hbuilt e he).sized hfloat
    by_cases htime : e.timestampMillis.toNat < 2 ^ 63
    · rw [if_pos htime] at hparse
      exact .inl ⟨htime, hparse⟩
    · rw [if_neg htime] at hparse
      exact .inr ⟨htime, hparse⟩
  · intro split macKey events checkpointInterval io s recovery htimely hopen
    exact reopened_unbroken hs split macKey hfloat htimely hopen
  · intro sequence head timestampMillis key
    exact AuditCheckpoint.fromPayload_create hs.toDigests sequence head timestampMillis key

namespace Sample

/-- The first number that is no signed one of 64 bits, as the standard library prints it. -/
def nearTopText : List Char := "9.223372036854776e18".toList

def nearTop : FloatText Unit :=
  ⟨fun _ => nearTopText, fun text => if text = nearTopText then some () else none, fun _ => true⟩

theorem nearTop_exact (f : Unit) : nearTop.Exact f := by
  refine ⟨rfl, ⟨⟨false, [9], [2, 2, 3, 3, 7, 2, 0, 3, 6, 8, 5, 4, 7, 7, 6], some (false, [1, 8])⟩,
    ⟨?_, ?_, ?_, ?_⟩, rfl, rfl⟩, rfl⟩
  · exact .inr ⟨9, [], rfl, by decide⟩
  · decide
  · decide
  · intro negative ds hds
    cases hds
    decide

/-- Events with that float for all late times. -/
def nearTopCodec : EventCodec AuditEvent := auditEventCodec nearTop fun _ => ()

/-- A login with a reason that is one byte too long. -/
def wordy : AuditEvent := (AuditEvent.new 7 ['a'] .login).withReason (replicate 513 'r')

/-- A record with a late time is written and is not read back, and one whose reason was cut is read back
as one whose reason was not. -/
theorem late_record_lost :
    (¬∀ e : AuditEvent, e.Built → ∀ previous : Link,
      AuditRecord.fromPayload nearTopCodec (AuditRecord.toPayload nearTopCodec ⟨previous, e⟩) =
        some ⟨previous, e⟩) ∧
    AuditRecord.fromPayload nearTopCodec (AuditRecord.toPayload nearTopCodec ⟨genesis, wordy⟩) =
      some ⟨genesis, wordy.reread⟩ ∧ wordy.reread ≠ wordy := by
  refine ⟨fun h => ?_, ?_, fun hsame => ?_⟩
  · have hread := h _ (.new 9223372036854775808 ['a'] .login) genesis
    rw [nearTopCodec, fromPayload_event (.new _ _ _) (fun _ => nearTop_exact _), if_neg (by decide)] at hread
    cases hread
  · have hbuilt : wordy.Built := .withReason (.new _ _ _) _
    rw [nearTopCodec, fromPayload_event hbuilt (fun _ => nearTop_exact _)]
    exact if_pos (by decide)
  · have hcut : wordy.reason.map Capped.truncated = some true := by decide +kernel
    obtain ⟨c, hc, htruncated⟩ := Option.map_eq_some_iff.1 hcut
    rw [wordy.reread_eq_iff.1 hsame c hc] at htruncated
    cases htruncated

/-- A login with a reason. -/
def signIn : AuditEvent := (AuditEvent.new 7 ['a'] .login).withReason ['o', 'k']

theorem signIn_built : signIn.Built := .withReason (.new _ _ _) _

theorem signIn_length (link : Link) :
    (AuditRecord.toPayload nearTopCodec ⟨link, signIn⟩).length ≤ maxPayloadLen := by
  have htext : (signIn.toCanonicalBytes nearTop fun _ => ()).length ≤ 200 := by
    decide +kernel
  have hbytes : nearTopCodec.toCanonicalBytes signIn = signIn.toCanonicalBytes nearTop fun _ => () := rfl
  rw [AuditRecord.toPayload, length_append, Link.length_bytes, hbytes]
  unfold maxPayloadLen
  omega

/-- The record of the login, as it is logged. -/
def signInRecord : Record := ⟨.auditEvent, 1, AuditRecord.toPayload nearTopCodec ⟨genesis, signIn⟩⟩

/-- A store that was opened, in which somebody logged in, and that was killed. -/
def signInRun : List (StoreEvent AuditEvent) :=
  [.open_ 0 cutFine, .op (.appendAudit signIn fine fine), .die none]

theorem sign_in_read_back :
    AuditRecord.fromPayload nearTopCodec (AuditRecord.toPayload nearTopCodec ⟨genesis, signIn⟩) =
        some ⟨genesis, signIn⟩ ∧
      (Store.rechain storeHashes nearTopCodec (.new, none) [signInRecord.frame]).2 = none ∧
      ∃ s recovery, Store.open_ storeHashes nearTopCodec (fun _ => 0) [] 0
          (run (Node.step storeHashes nearTopCodec (fun _ => 0) []) Node.init signInRun).dir cutFine =
            .ok (s, recovery) ∧
        recovery.auditChainBrokenAt = none := by
  obtain ⟨hrecords, hchains, hruns, -⟩ :=
    records_read_back nearTop (fun _ => ()) (fun _ => nearTop_exact _) storeHashes
  have htime : signIn.timestampMillis.toNat < 2 ^ 63 := by decide
  refine ⟨(hrecords signIn signIn_built genesis).1.2 ⟨htime, ?_⟩, ?_, ?_⟩
  · intro c hc
    rw [← Option.some.inj hc]
    decide
  · have happend : AuditChain.new.append storeHashes nearTopCodec signIn =
        some (⟨genesis, signIn⟩, ((AuditChain.new.append storeHashes nearTopCodec signIn).get rfl).2) := rfl
    have hwrote : Wrote storeHashes nearTopCodec .new [signIn] [signInRecord.frame] :=
      .audit happend rfl rfl .nil
    refine (hchains _ _ _ hwrote ?_).2 ?_
    · exact forall_mem_singleton.2 signIn_built
    · exact forall_mem_singleton.2 htime
  · have hwell : signInRecord.WellFormed := ⟨by decide, signIn_length _⟩
    have htimely : StepsMeet (Node.step storeHashes nearTopCodec (fun _ => 0) []) Node.Timely Node.init
        signInRun := by
      refine ⟨trivial, ?_, ?_, trivial⟩
      · rw [step_init]
        exact ⟨⟨signIn_built, htime⟩, trivial⟩
      · generalize Node.step storeHashes nearTopCodec (fun _ => 0) [] _ _ = node
        cases node <;> trivial
    obtain ⟨s, recovery, hopen, -⟩ := open_one storeHashes nearTopCodec hwell
      (show (0 : UInt64) < 1 by decide) (fun _ => 0)
      (run (Node.step storeHashes nearTopCodec (fun _ => 0) []) Node.init signInRun).dir.history
    have hdir : (run (Node.step storeHashes nearTopCodec (fun _ => 0) []) Node.init signInRun).dir =
        ⟨none, signInRecord.bytes storeDigests [],
          (run (Node.step storeHashes nearTopCodec (fun _ => 0) []) Node.init signInRun).dir.history⟩ := by
      rw [signInRun, run_appendAudit storeHashes nearTopCodec [] (fun _ => 0) signIn (signIn_length _)]
      exact dir_died storeHashes nearTopCodec [] (fun _ => 0) signIn
    refine ⟨s, recovery, hdir ▸ hopen, ?_⟩
    exact hruns (fun _ => 0) [] signInRun 0 cutFine s recovery htimely (hdir ▸ hopen)

end Sample

end HypeLlm.Store
