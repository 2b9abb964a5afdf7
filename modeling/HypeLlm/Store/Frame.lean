import HypeLlm.Lib.Bytes

/-!
# The store frame format

A frame is a fixed header, a payload, a checksum and, for protected kinds, an authentication code:

    0      4      6      8     10     12            20     24        24+len      +4        +32
    magic  ver    kind   flags  rsvd   sequence      len    payload   crc32       mac

The checksum covers header and payload and detects torn writes and rot.  The authentication code
covers header, payload and checksum; it is there exactly on the kinds whose content decides
authorization or accountability.  Decoding looks at the header before anything else, so a buffer
that is too short to decide is told apart from one that is damaged.

The two digests are parameters: nothing here depends on which functions they are.
-/

namespace HypeLlm.Store

open HypeLlm.Bytes

/-- The bytes `HYPE`. -/
def magic : List UInt8 := [0x48, 0x59, 0x50, 0x45]

def formatVersion : ℕ := 1

def headerLen : ℕ := 24

def crcLen : ℕ := 4

def macLen : ℕ := 32

/-- The largest payload a frame may declare: 64 MiB. -/
def maxPayloadLen : ℕ := 64 * 1024 * 1024

/-- The flag of a frame that carries an authentication code. -/
def flagProtected : ℕ := 1

/-- What a frame carries. -/
inductive RecordKind where
  | configActivation
  | auditEvent
  | auditCheckpoint
  | apiKey
  | apiKeyRevocation
  | credentialMeta
  | usageAggregate
  | session
  | snapshotMarker
  | policyDraft
  | policyDraftClosed
  | fleetLease
  | fleetActivation
  | anonymousAccess
  | fleetFlap
  | keyBudget
  | fleetEnrollment
  | artifactChecksum
  | apiKeyExpiry
  | apiKeyRestriction
  | unknown (v : UInt16)
  deriving Repr, DecidableEq

namespace RecordKind

/-- The wire value. -/
def asU16 : RecordKind → UInt16
  | .configActivation => 1
  | .auditEvent => 2
  | .auditCheckpoint => 3
  | .apiKey => 4
  | .apiKeyRevocation => 5
  | .credentialMeta => 6
  | .usageAggregate => 7
  | .session => 8
  | .snapshotMarker => 9
  | .policyDraft => 10
  | .policyDraftClosed => 11
  | .fleetLease => 12
  | .fleetActivation => 13
  | .fleetFlap => 14
  | .anonymousAccess => 15
  | .keyBudget => 16
  | .fleetEnrollment => 17
  | .artifactChecksum => 18
  | .apiKeyExpiry => 19
  | .apiKeyRestriction => 20
  | .unknown v => v

/-- Parse a wire value. -/
def fromU16 (v : UInt16) : RecordKind :=
  match v.toNat with
  | 1 => .configActivation
  | 2 => .auditEvent
  | 3 => .auditCheckpoint
  | 4 => .apiKey
  | 5 => .apiKeyRevocation
  | 6 => .credentialMeta
  | 7 => .usageAggregate
  | 8 => .session
  | 9 => .snapshotMarker
  | 10 => .policyDraft
  | 11 => .policyDraftClosed
  | 12 => .fleetLease
  | 13 => .fleetActivation
  | 14 => .fleetFlap
  | 15 => .anonymousAccess
  | 16 => .keyBudget
  | 17 => .fleetEnrollment
  | 18 => .artifactChecksum
  | 19 => .apiKeyExpiry
  | 20 => .apiKeyRestriction
  | _ => .unknown v

/-- Whether a record of this kind must carry an authentication code. -/
def isProtected : RecordKind → Bool
  | .usageAggregate | .snapshotMarker | .fleetActivation | .unknown _ => false
  | _ => true

/-- A kind that is not an unknown one with a known code. -/
def Canonical (kind : RecordKind) : Prop := ∀ v, kind = .unknown v → v.toNat = 0 ∨ 20 < v.toNat

instance : DecidablePred Canonical := fun kind =>
  match kind with
  | .unknown v =>
    decidable_of_iff (v.toNat = 0 ∨ 20 < v.toNat) ⟨fun h _ hv => by cases hv; exact h, fun h => h v rfl⟩
  | .configActivation | .auditEvent | .auditCheckpoint | .apiKey | .apiKeyRevocation
  | .credentialMeta | .usageAggregate | .session | .snapshotMarker | .policyDraft
  | .policyDraftClosed | .fleetLease | .fleetActivation | .anonymousAccess | .fleetFlap | .keyBudget
  | .fleetEnrollment | .artifactChecksum | .apiKeyExpiry | .apiKeyRestriction =>
    isTrue fun _ h => by cases h

theorem fromU16_asU16 {kind : RecordKind} (h : kind.Canonical) : fromU16 kind.asU16 = kind := by
  cases kind with
  | unknown v =>
    have hv := h v rfl
    show fromU16 v = .unknown v
    unfold fromU16
    split <;> first | rfl | omega
  | _ => rfl

end RecordKind

/-- The checksum and the authentication code. -/
structure Digests where
  crc32 : List UInt8 → UInt32
  hmacSha256 : List UInt8 → List UInt8 → List UInt8
  hmacSha256_length : ∀ key data, (hmacSha256 key data).length = macLen

structure Frame where
  kind : RecordKind
  sequence : UInt64
  payload : List UInt8
  isProtected : Bool
  deriving Repr, DecidableEq

/-- Why a frame could not be decoded. -/
inductive FrameError where
  | incomplete
  | badMagic
  | unsupportedVersion (version : UInt16)
  | payloadTooLarge
  | checksumMismatch
  | macMismatch
  | missingMac
  | unexpectedMac
  deriving Repr, DecidableEq

namespace FrameError

/-- Whether the error indicates deliberate modification. -/
def isIntegrityViolation : FrameError → Bool
  | .macMismatch | .missingMac | .unexpectedMac => true
  | _ => false

/-- Whether the error is consistent with a torn write at the end of a log. -/
def isRecoverableTail : FrameError → Bool
  | .incomplete | .checksumMismatch => true
  | _ => false

end FrameError

/-! ### Encoding -/

/-- The fixed header. -/
def headerBytes (kind : RecordKind) (sequence : UInt64) (len : ℕ) : List UInt8 :=
  magic ++ (toLe 2 formatVersion ++ (toLe 2 kind.asU16.toNat ++
    (toLe 2 (if kind.isProtected then flagProtected else 0) ++ (toLe 2 0 ++
      (toLe 8 sequence.toNat ++ (toLe 4 len ++ []))))))

variable (d : Digests)

/-- What the authentication code covers: header, payload and checksum. -/
def coveredBytes (kind : RecordKind) (sequence : UInt64) (payload : List UInt8) : List UInt8 :=
  let body := headerBytes kind sequence payload.length ++ payload
  body ++ toLe crcLen (d.crc32 body).toNat

/-- Encode a frame.  A payload that decoding would refuse is refused here. -/
def encode (kind : RecordKind) (sequence : UInt64) (payload macKey : List UInt8) :
    Except FrameError (List UInt8) :=
  if maxPayloadLen < payload.length then .error .payloadTooLarge
  else
    let covered := coveredBytes d kind sequence payload
    .ok (covered ++ if kind.isProtected then d.hmacSha256 macKey covered else [])

/-! ### Decoding -/

structure Header where
  kind : RecordKind
  isProtected : Bool
  sequence : UInt64
  len : ℕ
  deriving Repr, DecidableEq

namespace Header

/-- Where the checksum ends. -/
def crcEnd (h : Header) : ℕ := headerLen + h.len + crcLen

/-- The bytes of the whole frame. -/
def total (h : Header) : ℕ := h.crcEnd + if h.isProtected then macLen else 0

end Header

/-- The fields of a fixed header, and the checks that need nothing else. -/
def readHeader (header : List UInt8) : Except FrameError Header :=
  if field header 0 4 ≠ magic then .error .badMagic
  else
    let version := ofLe (field header 4 2)
    if version ≠ formatVersion then .error (.unsupportedVersion (UInt16.ofNat version))
    else
      let kind := RecordKind.fromU16 (UInt16.ofNat (ofLe (field header 6 2)))
      let isProtected := ofLe (field header 8 2) &&& flagProtected != 0
      let sequence := UInt64.ofNat (ofLe (field header 12 8))
      let len := ofLe (field header 20 4)
      if maxPayloadLen < len then .error .payloadTooLarge
      -- A protected kind must be marked protected, and the other way round.
      else if kind.isProtected ≠ isProtected then
        .error (if kind.isProtected then .missingMac else .unexpectedMac)
      else .ok ⟨kind, isProtected, sequence, len⟩

/-- A decoded frame with the number of bytes it occupied. -/
structure DecodedFrame where
  frame : Frame
  length : ℕ
  deriving Repr, DecidableEq

/-- The checksum and the authentication code of a frame that is all there. -/
def verify (buf macKey : List UInt8) (h : Header) : Except FrameError DecodedFrame :=
  if (d.crc32 (buf.take (headerLen + h.len))).toNat ≠ ofLe (field buf (headerLen + h.len) crcLen) then
    .error .checksumMismatch
  else if h.isProtected ∧ d.hmacSha256 macKey (buf.take h.crcEnd) ≠ field buf h.crcEnd macLen then
    .error .macMismatch
  else .ok ⟨⟨h.kind, h.sequence, field buf headerLen h.len, h.isProtected⟩, h.total⟩

/-- Decode the frame at the start of `buf`. -/
def decode (buf macKey : List UInt8) : Except FrameError DecodedFrame :=
  if buf.length < headerLen then .error .incomplete
  else
    match readHeader (buf.take headerLen) with
    | .error e => .error e
    | .ok h => if buf.length < h.total then .error .incomplete else verify d buf macKey h

end HypeLlm.Store
