import HypeLlm.Lib.HashChain
import HypeLlm.Lib.Words
import HypeLlm.Store.Codec

/-!
# The audit chain

An audit record holds the link of the record before it and an event.  Its own link is a digest of
both, so the link of the last record commits to all of them.  A checkpoint authenticates the head at
one moment; it is a summary of the chain and no part of it.

The digest, and the text an event is written as, are parameters.  The text is canonical JSON; what is
used of it is that it is a list of bytes, that reading may fail, and when the event was made.
-/

namespace HypeLlm.Store

open HypeLlm.Bytes HypeLlm.Words List

/-- A link of the chain: 32 bytes. -/
structure Link where
  bytes : List UInt8
  length_bytes : bytes.length = 32
  deriving Repr

theorem Link.bytes_inj {a b : Link} : a.bytes = b.bytes ↔ a = b := by
  cases a
  cases b
  simp

instance : DecidableEq Link := fun a b => decidable_of_iff (a.bytes = b.bytes) Link.bytes_inj

/-- The link before the first record. -/
def genesis : Link := ⟨replicate 32 0, length_replicate⟩

/-- The digests of the store. -/
structure Hashes extends Digests where
  sha256 : List UInt8 → Link

/-- How an event is written and read, and when it was made. -/
structure EventCodec (E : Type) where
  toCanonicalBytes : E → List UInt8
  parse : List UInt8 → Option E
  timestampMillis : E → UInt64

/-- An event that is read back as what was written. -/
def EventCodec.ReadsBack {E : Type} (codec : EventCodec E) (event : E) : Prop :=
  codec.parse (codec.toCanonicalBytes event) = some event

variable {E : Type} (hs : Hashes) (codec : EventCodec E)

/-! ### Records -/

structure AuditRecord (E : Type) where
  previousLink : Link
  event : E
  deriving Repr, DecidableEq

/-- The bytes `hypellm.audit.v1`, which set links apart from other digests. -/
def auditDomain : List UInt8 := "hypellm.audit.v1".toUTF8.toList

def linkOf (previous : Link) (eventBytes : List UInt8) : Link :=
  hs.sha256 (auditDomain ++ previous.bytes ++ eventBytes)

namespace AuditRecord

/-- The stored payload: the previous link, then the event. -/
def toPayload (r : AuditRecord E) : List UInt8 :=
  r.previousLink.bytes ++ codec.toCanonicalBytes r.event

/-- Read a stored payload. -/
def fromPayload (payload : List UInt8) : Option (AuditRecord E) :=
  if h : 32 ≤ payload.length then
    (codec.parse (payload.drop 32)).map fun event =>
      ⟨⟨payload.take 32, by rw [length_take, min_eq_left h]⟩, event⟩
  else none

def link (r : AuditRecord E) : Link := linkOf hs r.previousLink (codec.toCanonicalBytes r.event)

/-- What the link of a record commits to. -/
def content (r : AuditRecord E) : Link × List UInt8 :=
  (r.previousLink, codec.toCanonicalBytes r.event)

/-- What is hashed for the link of a record. -/
def hashed (r : AuditRecord E) : List UInt8 :=
  auditDomain ++ r.previousLink.bytes ++ codec.toCanonicalBytes r.event

theorem fromPayload_toPayload {r : AuditRecord E} (h : codec.ReadsBack r.event) :
    fromPayload codec (r.toPayload codec) = some r := by
  have hlen := r.previousLink.length_bytes
  have hlong : 32 ≤ (r.toPayload codec).length := by
    rw [toPayload, length_append, hlen]
    exact Nat.le_add_right 32 _
  have htake : (r.toPayload codec).take 32 = r.previousLink.bytes := by
    rw [toPayload, ← hlen, take_left]
  have hdrop : (r.toPayload codec).drop 32 = codec.toCanonicalBytes r.event := by
    rw [toPayload, ← hlen, drop_left]
  rw [fromPayload, dif_pos hlong]
  simp only [htake, hdrop]
  rw [h, Option.map_some]

/-- Records that hash the same bytes commit to the same content. -/
theorem content_eq_of_hashed {r r' : AuditRecord E} (h : r.hashed codec = r'.hashed codec) :
    r.content codec = r'.content codec := by
  rw [hashed, hashed, append_assoc, append_assoc] at h
  have hrest := append_cancel_left h
  have hlen : r.previousLink.bytes.length = r'.previousLink.bytes.length := by
    rw [r.previousLink.length_bytes, r'.previousLink.length_bytes]
  obtain ⟨hlink, hevent⟩ := append_inj hrest hlen
  have hprevious : r.previousLink = r'.previousLink := by
    cases hl : r.previousLink
    cases hl' : r'.previousLink
    rw [hl, hl'] at hlink
    cases hlink
    rfl
  rw [content, content, hprevious, hevent]

end AuditRecord

/-- The digest tells apart what is hashed for the links of the records, and none of the links is the
one before the first record. -/
structure CollisionFree (records : List (AuditRecord E)) : Prop where
  injective : ∀ r ∈ records, ∀ r' ∈ records,
    hs.sha256 (r.hashed codec) = hs.sha256 (r'.hashed codec) → r.hashed codec = r'.hashed codec
  genesis : ∀ r ∈ records, hs.sha256 (r.hashed codec) ≠ genesis

theorem CollisionFree.mono {hs : Hashes} {codec : EventCodec E} {records records' : List (AuditRecord E)}
    (h : CollisionFree hs codec records) (hsub : records'.Subset records) :
    CollisionFree hs codec records' where
  injective r hr r' hr' := h.injective r (hsub hr) r' (hsub hr')
  genesis r hr := h.genesis r (hsub hr)

/-! ### Verification -/

inductive ChainVerification where
  | intact (head : Link) (count : ℕ)
  | broken (index : ℕ)
  deriving Repr, DecidableEq

/-- Verify that records follow each other from `expected`, the first of them at `index`. -/
def verifyChainFrom (expected : Link) (index : ℕ) : List (AuditRecord E) → ChainVerification
  | [] => .intact expected index
  | r :: rs =>
    if r.previousLink ≠ expected then .broken index
    else verifyChainFrom (r.link hs codec) (index + 1) rs

/-- Verify that records form an unbroken chain from the beginning. -/
def verifyChain (records : List (AuditRecord E)) : ChainVerification :=
  verifyChainFrom hs codec genesis 0 records

/-- The head after the records, if each follows the one before. -/
def walk (head : Link) (records : List (AuditRecord E)) : Option Link :=
  HashChain.walk AuditRecord.previousLink (AuditRecord.link hs codec) head records

variable {hs codec}

theorem walk_append (head : Link) (rs rs' : List (AuditRecord E)) :
    walk hs codec head (rs ++ rs') =
      (walk hs codec head rs).bind fun head' => walk hs codec head' rs' :=
  HashChain.walk_append head rs rs'

theorem walk_append_of_eq {head reached : Link} {rs : List (AuditRecord E)}
    (h : walk hs codec head rs = some reached) (rs' : List (AuditRecord E)) :
    walk hs codec head (rs ++ rs') = walk hs codec reached rs' := by
  rw [walk_append, h, Option.bind_some]

theorem walk_take {head final : Link} {rs : List (AuditRecord E)}
    (h : walk hs codec head rs = some final) {i : ℕ} {r : AuditRecord E} (hi : rs[i]? = some r) :
    walk hs codec head (rs.take i) = some r.previousLink := HashChain.walk_take h hi

theorem walk_singleton (r : AuditRecord E) :
    walk hs codec r.previousLink [r] = some (r.link hs codec) := if_pos rfl

theorem verifyChainFrom_of_walk {head final : Link} {rs : List (AuditRecord E)}
    (h : walk hs codec head rs = some final) (index : ℕ) :
    verifyChainFrom hs codec head index rs = .intact final (index + rs.length) := by
  induction rs generalizing head index with
  | nil =>
    obtain rfl := Option.some.inj h
    rfl
  | cons r rs ih =>
    rw [walk, HashChain.walk] at h
    split at h
    · rename_i hnames
      rw [verifyChainFrom, if_neg (not_not.2 hnames), ih h, length_cons]
      congr 1
      omega
    · cases h

theorem verifyChain_of_walk {final : Link} {rs : List (AuditRecord E)}
    (h : walk hs codec genesis rs = some final) :
    verifyChain hs codec rs = .intact final rs.length := by
  rw [verifyChain, verifyChainFrom_of_walk h, Nat.zero_add]

/-- **Two chains that end at one link have the same contents.** -/
theorem content_eq_of_walk {rs rs' : List (AuditRecord E)} {final : Link}
    (hfree : CollisionFree hs codec (rs ++ rs')) (hwalk : walk hs codec genesis rs = some final)
    (hwalk' : walk hs codec genesis rs' = some final) :
    rs.map (AuditRecord.content codec) = rs'.map (AuditRecord.content codec) := by
  refine HashChain.walk_unique ?_ ?_ hfree.genesis hwalk hwalk'
  · intro r r' hcontent
    exact (Prod.ext_iff.1 hcontent).1
  · intro r hr r' hr' hlink
    exact AuditRecord.content_eq_of_hashed codec
      (hfree.injective r (mem_append_left rs' hr) r' (mem_append_right rs hr') hlink)

/-! ### The running chain -/

structure AuditChain where
  head : Link
  count : ℕ
  deriving Repr, DecidableEq

namespace AuditChain

def new : AuditChain := ⟨genesis, 0⟩

/-- Chain an event.  The count is checked, and an overflow aborts. -/
def append (hs : Hashes) (codec : EventCodec E) (chain : AuditChain) (event : E) :
    Option (AuditRecord E × AuditChain) :=
  let record : AuditRecord E := ⟨chain.head, event⟩
  (checkedAdd u64Max chain.count 1).map fun count => (record, ⟨record.link hs codec, count⟩)

theorem append_eq_some {chain next : AuditChain} {event : E} {record : AuditRecord E}
    (h : chain.append hs codec event = some (record, next)) :
    record = ⟨chain.head, event⟩ ∧ next = ⟨record.link hs codec, chain.count + 1⟩ := by
  obtain ⟨count, hcount, heq⟩ := Option.map_eq_some_iff.1 h
  obtain ⟨rfl, -⟩ := checkedAdd_eq_some.1 hcount
  cases heq
  exact ⟨rfl, rfl⟩

end AuditChain

/-! ### Checkpoints -/

structure AuditCheckpoint where
  sequence : UInt64
  link : Link
  timestampMillis : UInt64
  mac : List UInt8
  deriving Repr, DecidableEq

/-- Each part behind its length, so that no two lists of parts are the same bytes. -/
def lengthPrefixed (parts : List (List UInt8)) : List UInt8 :=
  parts.flatMap fun part => Crypto.toBe 8 part.length ++ part

def checkpointMac (d : Digests) (sequence : UInt64) (link : Link) (timestampMillis : UInt64)
    (key : List UInt8) : List UInt8 :=
  d.hmacSha256 key (lengthPrefixed [
    "hypellm.audit.checkpoint.v1".toUTF8.toList,
    toLe 8 sequence.toNat, link.bytes, toLe 8 timestampMillis.toNat])

namespace AuditCheckpoint

def create (d : Digests) (sequence : UInt64) (link : Link) (timestampMillis : UInt64)
    (key : List UInt8) : AuditCheckpoint :=
  ⟨sequence, link, timestampMillis, checkpointMac d sequence link timestampMillis key⟩

/-- The stored payload. -/
def toPayload (c : AuditCheckpoint) : List UInt8 :=
  toLe 8 c.sequence.toNat ++ c.link.bytes ++ toLe 8 c.timestampMillis.toNat ++ c.mac

end AuditCheckpoint

/-- Take a checkpoint over the current head. -/
def AuditChain.checkpoint (d : Digests) (chain : AuditChain) (sequence timestampMillis : UInt64)
    (key : List UInt8) : AuditCheckpoint :=
  .create d sequence chain.head timestampMillis key

end HypeLlm.Store
